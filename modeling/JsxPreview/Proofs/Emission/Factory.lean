import JsxPreview.Proofs.Emission.Calls
import JsxPreview.Proofs.Emission.Chunks

/-! # Calls of the element factory

The code of an element is one call, and what it is read as is the tree of the element
(`Element.DenotedBy`): the callee tells whether there are several children, the first argument is the
type, the second an object of the attributes and the children, the third the key.  Code that is an
item of a list wherever it stands (`ItemCode`) is put together to such code (`ItemCode.spread`,
`ItemCode.field`, `ItemCode.enclosed`, `ItemCode.call`).  The code of a container is taken for it on
the ground of its own tokens (`OperandCode`).

A tag with a point is written as it stands.  Where it is no name of a component, as a namespaced one
is not, the code is no call of the factory. -/
set_option autoImplicit false
namespace JsxPreview.Source

open JsxPreview.Text

/-! ## Items -/

/-- Code of an item of a list: in front of what closes it is read as `us`, wherever it stands. -/
structure ItemCode (d : Dialect) (text : List Char) (us : List Token) : Prop where
  item : IsItem us
  segment : ∀ rest, Closes rest → Segment d true text us rest

/-- Code of an operand, of which only its own tokens are known: they are an item, and no comment of a
line reaches the end. -/
structure OperandCode (d : Dialect) (text : List Char) (ts : List Token) : Prop where
  tokens : tokenize d (String.ofList text) = .ok ts
  noMark : ¬ "#!".toList.isPrefixOf text = true
  item : IsItem (significant ts)
  ended : ∀ t ∈ ts, t.isLineComment = true → t.stop < byteLength text

theorem significant_congr {ts us : List Token} (same : Token.unplacedAll ts = Token.unplacedAll us) :
    significant ts = significant us := by
  rw [significant, same, significant]

variable {d : Dialect}

/-- An operand is read as its own tokens in its place. -/
theorem OperandCode.itemCode {text : List Char} {ts : List Token} (operand : OperandCode d text ts)
    (plain : d.jsx = false) : ItemCode d text (significant ts) := by
  refine ⟨operand.item, fun rest closes pos => ?_⟩
  obtain ⟨tokens, final, same, reads⟩ := tokenize_cases operand.tokens
  have start := firstLine_plain operand.noMark
  rw [start, List.nil_append] at same
  subst same
  have nothing : final.rest = [] := reads.text_end _ _ _ rfl
  have inside : Reads d (.tokens false 0 true ⟨0, text⟩) (ts, final) := by
    have reads : Reads d (.tokens false 0 true (firstLine (String.ofList text)).2) (ts, final) :=
      reads
    rw [start] at reads
    exact reads
  obtain ⟨front, whole, ends⟩ := inside.leads
  have last : final.pos = byteLength text := by
    change text = front ++ final.rest at whole
    change final.pos = 0 + byteLength front at ends
    rw [ends, whole, nothing, List.append_nil, Nat.zero_add]
  have scans : Scans d true (Token.shiftAll pos ts) ((⟨0, text⟩ : Cursor).within pos rest)
      (final.within pos rest) := by
    refine inside.moves (.inl plain) pos closes fun t member line => ?_
    intro reaches
    rw [last] at reaches
    exact absurd (operand.ended t member line) (Nat.not_lt.mpr reaches)
  rw [Cursor.within, Cursor.within, nothing, last, List.nil_append, Nat.add_zero] at scans
  exact ⟨_, scans, significant_congr (Token.unplacedAll_shiftAll pos ts)⟩

/-! ## Names and strings -/

/-- Whether a text is made of names with points between them. -/
def IsReference (text : String) : Prop :=
  ∀ part ∈ splitOn '.' text.toList, isIdentifier (String.ofList part) = true

instance (text : String) : Decidable (IsReference text) :=
  inferInstanceAs (Decidable (∀ part ∈ splitOn '.' text.toList, _))

theorem identifier_cases {part : List Char} (name : isIdentifier (String.ofList part) = true) :
    ∃ c s, part = c :: s ∧ isWordStart c = true ∧ s.all isWordRest = true := by
  rw [isIdentifier, String.toList_ofList] at name
  split at name
  case h_1 => cases name
  case h_2 c s =>
    obtain ⟨start, inside⟩ := Bool.and_eq_true_iff.mp name
    refine ⟨c, s, rfl, by simp [isWordStart, start], List.all_eq_true.mpr fun x member => ?_⟩
    simp [isWordRest, List.all_eq_true.mp inside x member]

theorem isWhole_identifier {part : List Char} (name : isIdentifier (String.ofList part) = true) :
    (Lexeme.word (String.ofList part)).isWhole = true := by
  obtain ⟨c, s, rfl, start, inside⟩ := identifier_cases name
  simp only [Lexeme.isWhole, String.toList_ofList, start, inside, Bool.and_self]

namespace Segment

variable {operand : Bool} {code rest : List Char} {us : List Token}

/-- A punctuator in front of an operand. -/
theorem behind_sign (plain : d.jsx = false) {p : String} (known : p ∈ signs)
    (opens : p ∉ [")", "]", "."]) (second : Segment d true code us rest) :
    Segment d operand (p.toList ++ code) (signToken p :: us) rest := by
  rw [List.mem_cons, List.mem_cons, List.mem_singleton, not_or, not_or] at opens
  obtain ⟨parenthesis, bracket, point⟩ := opens
  refine (sign plain known fun isPoint => absurd isPoint point).append ?_
  have expected : operandBehind operand [signToken p] = true := by
    simp [operandBehind, Token.operandAfter, Token.isComment, Token.leavesOperand, signToken,
      parenthesis, bracket]
  rw [expected]
  exact second

/-- A word in front of what does not go on with it. -/
theorem word (plain : d.jsx = false) {part : List Char}
    (name : isIdentifier (String.ofList part) = true)
    (stop : ∀ c, rest.head? = some c → isWordRest c = false) :
    Segment d operand part [⟨.word, 0, 0, String.ofList part⟩] rest := by
  have word := @lexeme d operand rest plain _ (isWhole_identifier name) stop
  rw [Lexeme.text, String.toList_ofList] at word
  exact word

theorem pointed (plain : d.jsx = false) (stop : ∀ c, rest.head? = some c → isWordRest c = false)
    {parts : List (List Char)} (nonempty : parts ≠ [])
    (names : ∀ part ∈ parts, isIdentifier (String.ofList part) = true) : ∀ {operand : Bool},
    Segment d operand (joinWith ['.'] parts) (Source.pointed parts) rest := by
  induction parts with
  | nil => exact absurd rfl nonempty
  | cons part parts ih =>
      intro operand
      obtain ⟨name, others⟩ := List.forall_mem_cons.mp names
      by_cases last : parts = []
      · subst last
        exact word plain name stop
      · -- the next name starts behind the point
        have starts : (joinWith ['.'] parts ++ rest).head?.any isWordStart = true := by
          obtain ⟨next, parts, rfl⟩ := List.exists_cons_of_ne_nil last
          obtain ⟨c, s, rfl, start, _⟩ := identifier_cases (others next (List.mem_cons_self ..))
          cases parts with
          | nil => exact start
          | cons => exact start
        have point : Segment d (operandBehind operand [⟨.word, 0, 0, String.ofList part⟩])
            ".".toList [signToken "."] (joinWith ['.'] parts ++ rest) :=
          sign plain (by decide) fun _ => starts
        have first : Segment d operand part [⟨.word, 0, 0, String.ofList part⟩]
            ('.' :: (joinWith ['.'] parts ++ rest)) :=
          word plain name fun c head => by
            cases head
            decide
        rw [joinWith_cons _ _ last, pointed_cons part last]
        exact (first.append point).append (ih last others)

theorem reference (plain : d.jsx = false) {name : String} (reference : IsReference name)
    (stop : ∀ c, rest.head? = some c → isWordRest c = false) :
    Segment d operand name.toList (Source.pointed (splitOn '.' name.toList)) rest := by
  have parts := @pointed d rest plain stop _ (splitOn_ne_nil '.' name.toList) reference operand
  rw [join_splitOn] at parts
  exact parts

/-- The codes of items with commas between them are a list of these items. -/
theorem listed (plain : d.jsx = false) {texts : List (List Char)} {items : List (List Token)}
    (all : List.Forall₂ (ItemCode d) texts items) (closes : Closes rest) :
    Segment d true (joinWith [',', ' '] texts) (Source.listed items) rest := by
  induction all with
  | nil => exact gap rfl
  | @cons text item texts items first others ih =>
      by_cases last : texts = []
      · subst last
        cases others
        exact first.segment rest closes
      · have last' : items ≠ [] := by
          rintro rfl
          cases others
          exact last rfl
        have behind : Segment d (operandBehind true item)
            (",".toList ++ ([' '] ++ joinWith [',', ' '] texts))
            (signToken "," :: Source.listed items) rest :=
          behind_sign plain (by decide) (by decide) (@append d true _ _ rest [] _ (gap rfl) ih)
        rw [joinWith_cons _ _ last, listed_cons item last', List.append_assoc]
        exact (first.segment _ (Closes.cons (by decide) _)).append behind

end Segment

/-! ## Operands that are put together -/

theorem closerOf_signs {opener closer : String} (pair : closerOf opener = some closer) :
    opener ∈ signs ∧ opener ∉ [")", "]", "."] ∧ closer ∈ signs ∧ closer ≠ "." ∧
      ∀ rest, Closes (closer.toList ++ rest) := by
  unfold closerOf at pair
  split at pair
  case h_4 => cases pair
  all_goals
    cases pair
    exact ⟨by decide, by decide, by decide, by decide, fun rest => Closes.cons (by decide) rest⟩

theorem isItem_of_codes {texts : List (List Char)} {items : List (List Token)}
    (all : List.Forall₂ (ItemCode d) texts items) : ∀ item ∈ items, IsItem item := by
  induction all with
  | nil => simp
  | cons first _ ih => exact List.forall_mem_cons.mpr ⟨first.item, ih⟩

namespace ItemCode

variable {text : List Char} {us : List Token} {texts : List (List Char)} {items : List (List Token)}

/-- A list with its brackets, behind code that leads to it. -/
theorem bracketed (plain : d.jsx = false) {front : List Token} {frontCode : List Char}
    {opener closer : String} (pair : closerOf opener = some closer)
    (before : bracketsThrough [] front = some [])
    (leads : ∀ rest, Segment d true frontCode front (opener.toList ++ rest))
    (all : List.Forall₂ (ItemCode d) texts items) :
    ItemCode d (frontCode ++ (opener.toList ++ (joinWith [',', ' '] texts ++ closer.toList)))
      (front ++ signToken opener :: (listed items ++ [signToken closer])) := by
  obtain ⟨known, opens, closerKnown, noPoint, closes⟩ := closerOf_signs pair
  refine ⟨isItem_bracketed pair before (isItem_of_codes all), fun rest _ => ?_⟩
  have list : Segment d true (joinWith [',', ' '] texts ++ closer.toList)
      (listed items ++ [signToken closer]) rest :=
    (Segment.listed plain all (closes rest)).append
      (Segment.sign plain closerKnown fun isPoint => absurd isPoint noPoint)
  have lead := leads (joinWith [',', ' '] texts ++ closer.toList ++ rest)
  rw [← List.append_assoc] at lead
  exact lead.append (Segment.behind_sign plain known opens list)

theorem call (plain : d.jsx = false) {name : String} (reference : IsReference name)
    (all : List.Forall₂ (ItemCode d) texts items) :
    ItemCode d (name.toList ++ ("(".toList ++ (joinWith [',', ' '] texts ++ ")".toList)))
      (pointed (splitOn '.' name.toList) ++ signToken "(" :: (listed items ++ [signToken ")"])) := by
  refine bracketed plain rfl (bracketsThrough_pointed _) (fun rest => ?_) all
  refine Segment.reference plain reference fun c head => ?_
  cases head
  decide

theorem enclosed (plain : d.jsx = false) {opener closer : String}
    (pair : closerOf opener = some closer) (all : List.Forall₂ (ItemCode d) texts items) :
    ItemCode d (opener.toList ++ (joinWith [',', ' '] texts ++ closer.toList))
      (signToken opener :: (listed items ++ [signToken closer])) :=
  @bracketed d texts items plain [] [] opener closer pair rfl (fun _ => Segment.gap rfl) all

/-- A property that spreads an operand. -/
theorem spread (plain : d.jsx = false) (value : ItemCode d text us) :
    ItemCode d ("...".toList ++ text) (signToken "..." :: us) := by
  refine ⟨IsItem.behind (show bracketsThrough [] [signToken "..."] = some [] by decide) value.item,
    fun rest closes => ?_⟩
  exact Segment.behind_sign plain (by decide) (by decide) (value.segment rest closes)

/-- A property with a name. -/
theorem field (plain : d.jsx = false) {name : List Char} {t : Token}
    (named : ∀ rest, Segment d true name [t] (':' :: rest)) (plainName : t.isPunct = false)
    (value : ItemCode d text us) :
    ItemCode d (name ++ (":".toList ++ (' ' :: text))) (t :: signToken ":" :: us) := by
  have before : bracketsThrough [] [t, signToken ":"] = some [] := bracketsThrough_atom plainName _
  refine ⟨IsItem.behind before value.item, fun rest closes => ?_⟩
  have spaced : Segment d true (' ' :: text) us rest :=
    @Segment.append d true [' '] text rest [] us (Segment.gap rfl) (value.segment rest closes)
  have colon : Segment d (operandBehind true [t]) (":".toList ++ ' ' :: text)
      (signToken ":" :: us) rest :=
    Segment.behind_sign plain (by decide) (by decide) spaced
  exact (named (' ' :: text ++ rest)).append colon

/-- A reference is an operand. -/
theorem reference {name : String} (plain : d.jsx = false) (reference : IsReference name) :
    ItemCode d name.toList (pointed (splitOn '.' name.toList)) := by
  refine ⟨isItem_pointed (splitOn_ne_nil '.' name.toList), fun rest closes => ?_⟩
  exact Segment.reference plain reference (closes.stops (by decide +kernel))

theorem literal (plain : d.jsx = false) {text : String} (whole : (Lexeme.str text).isWhole = true) :
    ItemCode d text.toList [⟨.str, 0, 0, text⟩] :=
  ⟨isItem_atom rfl, fun _ _ => Segment.lexeme plain whole fun _ _ => rfl⟩

end ItemCode

/-! ## What a call stands for -/

def Attribute.isKey : Attribute → Bool
  | .named name _ _ => name == "key"
  | .spread _ => false

/-- The type of an element: a fragment, a tag of the host, or a component. -/
def TypeDenotedBy (name : Option TagName) (ts : List Token) : Prop :=
  match name with
  | none => readReference ts = some "__jsx_runtime.Fragment"
  | some n => if n.isIntrinsic then readString ts = some n.text else readReference ts = some n.text

/-- The properties that hold the children: none, the only one, or an array of several. -/
def HoldsChildren (properties : List Property) : List (List Token) → Prop
  | [] => properties = []
  | [child] => properties = [.field "children" child]
  | children => ∃ array, properties = [.field "children" array] ∧ readArray array = some children

mutual

/-- The tokens are one call that stands for the element, where the tokens of a container are given by
`code`. -/
def Element.DenotedBy (code : Body → List Token) : Element → List Token → Prop
  | ⟨_, _, name, attributes, children⟩, ts =>
      ∃ type object third own more items,
        readCall ts = some
          (if 1 < children.length then "__jsx_runtime.jsxs" else "__jsx_runtime.jsx",
            type :: object :: third) ∧
        TypeDenotedBy name type ∧
        readObject object = some (own ++ more) ∧
        Attribute.AllDenotedBy code attributes own ∧
        HoldsChildren more items ∧ Child.AllDenotedBy code children items ∧
        Attribute.KeyDenotedBy code attributes third

/-- The properties are the attributes in their order, without the key. -/
def Attribute.AllDenotedBy (code : Body → List Token) : List Attribute → List Property → Prop
  | [], properties => properties = []
  | .named name _ value :: rest, properties =>
      if name = "key" then Attribute.AllDenotedBy code rest properties
      else ∃ item others, properties = .field name item :: others ∧ value.DenotedBy code item ∧
        Attribute.AllDenotedBy code rest others
  | .spread body :: rest, properties => ∃ others,
      properties = .spread (significant (code body)) :: others ∧
        Attribute.AllDenotedBy code rest others

/-- The further arguments are the last key, if there is one. -/
def Attribute.KeyDenotedBy (code : Body → List Token) : List Attribute → List (List Token) → Prop
  | [], third => third = []
  | .named name _ value :: rest, third =>
      if name = "key" ∧ rest.any Attribute.isKey = false then
        ∃ item, third = [item] ∧ value.DenotedBy code item
      else Attribute.KeyDenotedBy code rest third
  | .spread _ :: rest, third => Attribute.KeyDenotedBy code rest third

def AttributeValue.DenotedBy (code : Body → List Token) : AttributeValue → List Token → Prop
  | .bare, ts => readReference ts = some "true"
  | .str value _, ts => readString ts = some value
  | .expr body, ts => ts = significant (code body)
  | .element el, ts => el.DenotedBy code ts

def Child.AllDenotedBy (code : Body → List Token) : List Child → List (List Token) → Prop
  | [], items => items = []
  | child :: rest, items => ∃ item others,
      items = item :: others ∧ child.DenotedBy code item ∧ Child.AllDenotedBy code rest others

def Child.DenotedBy (code : Body → List Token) : Child → List Token → Prop
  | .text value _, ts => readString ts = some value
  | .expr body, ts => ts = significant (code body)
  | .element el, ts => el.DenotedBy code ts

end

/-- There is a third argument exactly when there is a key. -/
theorem Attribute.KeyDenotedBy.any_isKey {code : Body → List Token} {attributes : List Attribute}
    {third : List (List Token)} (denoted : Attribute.KeyDenotedBy code attributes third) :
    third ≠ [] ↔ attributes.any Attribute.isKey = true := by
  induction attributes with
  | nil =>
      rw [Attribute.KeyDenotedBy] at denoted
      simp [denoted]
  | cons a attributes ih =>
      cases a with
      | spread body =>
          rw [Attribute.KeyDenotedBy] at denoted
          exact ih denoted
      | named name start value =>
          rw [Attribute.KeyDenotedBy] at denoted
          split at denoted
          case isTrue last =>
            obtain ⟨item, rfl, _⟩ := denoted
            simp [Attribute.isKey, last.1]
          case isFalse other =>
            rw [ih denoted, List.any_cons, Bool.or_eq_true, iff_or_self, Attribute.isKey, beq_iff_eq]
            intro isKey
            rw [← Bool.not_eq_false]
            exact fun noKey => other ⟨isKey, noKey⟩

/-! ## The code of an element -/

section

variable (e : Emitter) (resolved : List (String × String))

theorem joinChunks_cons (separator : String) (chunks : List Chunk) {rest : List (List Chunk)}
    (some : rest ≠ []) : Emitter.joinChunks separator (chunks :: rest) =
      chunks ++ .code separator :: Emitter.joinChunks separator rest := by
  cases rest with
  | nil => exact absurd rfl some
  | cons => rfl

theorem codeOf_joinChunks (parts : List (List Chunk)) :
    codeOf resolved (Emitter.joinChunks ", " parts) =
      joinWith [',', ' '] (parts.map (codeOf resolved)) := by
  induction parts with
  | nil => rfl
  | cons chunks parts ih =>
      by_cases last : parts = []
      · subst last
        rfl
      · rw [joinChunks_cons _ _ last, List.map_cons, joinWith_cons _ _ (by simpa using last),
          codeOf_append, List.append_assoc, ← ih]
        rfl

/-- The code of the first argument. -/
def typeCode : Option TagName → String
  | none => "__jsx_runtime.Fragment"
  | some n => if n.isIntrinsic then Quoted.json n.text else n.text

/-- The code of the property for the children. -/
def childrenCode : List (List Char) → List (List Char)
  | [] => []
  | [child] => ["children: ".toList ++ child]
  | children => ["children: [".toList ++ (joinWith [',', ' '] children ++ "]".toList)]

theorem length_childValues (children : List Child) :
    (e.childValues children).length = children.length := by
  induction children with
  | nil => rfl
  | cons child children ih =>
      cases child <;> simp [Emitter.childValues, ih]

theorem joinWith_eq_flatMap (sep part : List Char) (rest : List (List Char)) :
    joinWith sep (part :: rest) = part ++ rest.flatMap (sep ++ ·) := by
  induction rest generalizing part with
  | nil => exact (List.append_nil part).symm
  | cons next rest ih =>
      rw [joinWith_cons _ _ (List.cons_ne_nil _ _), ih, List.flatMap_cons, List.append_assoc,
        List.append_assoc]

theorem codeOf_code (text : String) (chunks : List Chunk) :
    codeOf resolved (.code text :: chunks) = text.toList ++ codeOf resolved chunks := rfl

theorem codeOf_mark (offset : Nat) (chunks : List Chunk) :
    codeOf resolved (.mark offset :: chunks) = codeOf resolved chunks := rfl

/-- The code of the children as the emitter writes them. -/
theorem codeOf_childrenProperty (children : List Child) :
    (if children.isEmpty then []
      else if 1 < children.length then
        [.code "children: " :: .code "[" ::
          Emitter.joinChunks ", " (e.childValues children) ++ [.code "]"]]
      else [.code "children: " :: Emitter.joinChunks ", " (e.childValues children)]).map
        (codeOf resolved) = childrenCode ((e.childValues children).map (codeOf resolved)) := by
  have content := codeOf_joinChunks resolved (e.childValues children)
  have count := length_childValues e children
  generalize e.childValues children = values at content count ⊢
  match values, count with
  | [], count =>
      have none : children = [] := List.eq_nil_of_length_eq_zero count.symm
      simp [none, childrenCode]
  | [value], count =>
      have one : children.length = 1 := count.symm
      have some : children ≠ [] := by
        rintro rfl
        cases one
      simp [one, some, childrenCode, codeOf_code, Emitter.joinChunks]
  | value :: next :: values, count =>
      have many : 1 < children.length := by simp [← count]
      have some : children ≠ [] := by
        rintro rfl
        cases many
      rw [if_neg (by simpa using some), if_pos many, List.map_singleton, List.cons_append,
        List.cons_append, codeOf_code, codeOf_code, codeOf_append, content]
      rfl

/-- The code of an element is a call of its factory. -/
theorem codeOf_element (start stop : Nat) (name : Option TagName) (attributes : List Attribute)
    (children : List Child) {keys : List (List Char)}
    (key : codeOf resolved (e.key [] attributes) = keys.flatMap ([',', ' '] ++ ·)) :
    codeOf resolved (e.element ⟨start, stop, name, attributes, children⟩) =
      (if 1 < children.length then "__jsx_runtime.jsxs" else "__jsx_runtime.jsx").toList ++
        ("(".toList ++ (joinWith [',', ' '] ((typeCode name).toList ::
          ("\x7b".toList ++ (joinWith [',', ' '] ((e.properties attributes).map (codeOf resolved) ++
            childrenCode ((e.childValues children).map (codeOf resolved))) ++ "\x7d".toList)) ::
          keys) ++ ")".toList)) := by
  have callee :
      (if 1 < children.length then "__jsx_runtime.jsxs(" else "__jsx_runtime.jsx(").toList =
      (if 1 < children.length then "__jsx_runtime.jsxs" else "__jsx_runtime.jsx").toList ++
        "(".toList := by
    split <;> rfl
  have object : ", \x7b".toList = [',', ' '] ++ "\x7b".toList := rfl
  have last : codeOf resolved [] = [] := rfl
  cases name
  all_goals
    simp only [Emitter.element, codeOf_append, codeOf_code, codeOf_mark, codeOf_joinChunks,
      List.map_append, codeOf_childrenProperty, key, callee, object, last, typeCode,
      joinWith_eq_flatMap, List.flatMap_cons, List.append_assoc, List.append_nil]

end

/-! ## Reading an element back -/

/-- What has to hold of the parts of an element that are written as they are: the containers are
operands, and the tags that are no tags of the host are names. -/
structure Spelled (d : Dialect) (e : Emitter) (resolved : List (String × String))
    (code : Body → List Token) (bodies : List Body) (names : List TagName) : Prop where
  operands : ∀ b ∈ bodies, OperandCode d (codeOf resolved (e.body b)) (code b)
  references : ∀ n ∈ names, n.isIntrinsic = false → IsReference n.text

section

variable {e : Emitter} {resolved : List (String × String)} {code : Body → List Token}

theorem Spelled.mono {bodies bodies' : List Body} {names names' : List TagName}
    (spelled : Spelled d e resolved code bodies names) (fewer : bodies' ⊆ bodies)
    (fewer' : names' ⊆ names) : Spelled d e resolved code bodies' names' :=
  ⟨fun b member => spelled.operands b (fewer member),
    fun n member => spelled.references n (fewer' member)⟩

section Parts

variable {attributes : List Attribute} {a : Attribute} {children : List Child} {child : Child}

theorem Spelled.ofAttributes {start stop : Nat} {name : Option TagName}
    (spelled : Spelled d e resolved code (Element.mk start stop name attributes children).bodies
      (Element.mk start stop name attributes children).tagNames) :
    Spelled d e resolved code (Attribute.bodiesAll attributes)
      (Attribute.tagNamesAll attributes) := by
  refine spelled.mono ?_ ?_
  · simp [Element.bodies]
  · simp [Element.tagNames]

theorem Spelled.ofChildren {start stop : Nat} {name : Option TagName}
    (spelled : Spelled d e resolved code (Element.mk start stop name attributes children).bodies
      (Element.mk start stop name attributes children).tagNames) :
    Spelled d e resolved code (Child.bodiesAll children) (Child.tagNamesAll children) := by
  refine spelled.mono ?_ ?_
  · simp [Element.bodies]
  · simp [Element.tagNames]

theorem Spelled.ofAttribute (spelled : Spelled d e resolved code
      (Attribute.bodiesAll (a :: attributes)) (Attribute.tagNamesAll (a :: attributes))) :
    Spelled d e resolved code a.bodies a.tagNames ∧
      Spelled d e resolved code (Attribute.bodiesAll attributes)
        (Attribute.tagNamesAll attributes) := by
  rw [Attribute.bodiesAll, Attribute.tagNamesAll] at spelled
  exact ⟨spelled.mono (by simp) (by simp), spelled.mono (by simp) (by simp)⟩

theorem Spelled.ofChild (spelled : Spelled d e resolved code
      (Child.bodiesAll (child :: children)) (Child.tagNamesAll (child :: children))) :
    Spelled d e resolved code child.bodies child.tagNames ∧
      Spelled d e resolved code (Child.bodiesAll children) (Child.tagNamesAll children) := by
  rw [Child.bodiesAll, Child.tagNamesAll] at spelled
  exact ⟨spelled.mono (by simp) (by simp), spelled.mono (by simp) (by simp)⟩

end Parts

/-- A container is an item. -/
theorem Spelled.container (plain : d.jsx = false) {body : Body} {names : List TagName}
    (spelled : Spelled d e resolved code [body] names) :
    ItemCode d (codeOf resolved (e.body body)) (significant (code body)) :=
  (spelled.operands body (List.mem_singleton_self body)).itemCode plain

theorem readString_quoted (s : String) : readString [⟨.str, 0, 0, Quoted.json s⟩] = some s := by
  simp [readString, Token.isStr, stringValueOf_json]

theorem quoted_read (plain : d.jsx = false) (s : String) (start : Nat) :
    ItemCode d (codeOf resolved [.mark start, .code (Quoted.json s)])
      [⟨.str, 0, 0, Quoted.json s⟩] := by
  rw [codeOf_mark, codeOf_code]
  have whole := isWhole_json s
  generalize Quoted.json s = text at whole
  have literal := ItemCode.literal plain whole
  rw [← List.append_nil text.toList] at literal
  exact literal

theorem readReference_reference (name : String) :
    readReference (pointed (splitOn '.' name.toList)) = some name := by
  rw [readReference_pointed (splitOn_ne_nil '.' name.toList), join_splitOn, String.ofList_toList]

theorem typeCode_read (plain : d.jsx = false) {name : Option TagName}
    (references : ∀ n ∈ name.toList, n.isIntrinsic = false → IsReference n.text) :
    ∃ us, ItemCode d (typeCode name).toList us ∧ TypeDenotedBy name us := by
  cases name with
  | none => exact ⟨_, .reference plain (by decide), readReference_reference _⟩
  | some n =>
      by_cases host : n.isIntrinsic = true
      · rw [typeCode, if_pos host]
        refine ⟨_, .literal plain (isWhole_json n.text), ?_⟩
        rw [TypeDenotedBy, if_pos host]
        exact readString_quoted n.text
      · rw [typeCode, if_neg host]
        refine ⟨_, .reference plain (references n (by simp) (by simpa using host)), ?_⟩
        rw [TypeDenotedBy, if_neg host]
        exact readReference_reference n.text

/-- The name of a property is read in front of its value. -/
theorem propertyKey_read (plain : d.jsx = false) (name : String) : ∃ t : Token,
    t.isPunct = false ∧ readPropertyName t = some name ∧
      ∀ rest, Segment d true (propertyKey name).toList [t] (':' :: rest) := by
  unfold propertyKey
  split
  case isTrue identifier =>
    refine ⟨⟨.word, 0, 0, name⟩, rfl, rfl, fun rest => ?_⟩
    rw [← @String.ofList_toList name] at identifier
    have word := @Segment.word d true (':' :: rest) plain _ identifier fun c head => by
      cases head
      decide
    rw [String.ofList_toList] at word
    exact word
  case isFalse =>
    refine ⟨⟨.str, 0, 0, Quoted.json name⟩, rfl, ?_, fun rest => ?_⟩
    · simp [readPropertyName, Token.isWord, Token.isStr, stringValueOf_json]
    · have whole := isWhole_json name
      generalize Quoted.json name = text at whole
      exact Segment.lexeme plain whole fun _ _ => rfl

/-- A named value is read as a field. -/
theorem field_read (plain : d.jsx = false) (name : String) {text : List Char} {us : List Token}
    (value : ItemCode d text us) : ∃ item,
      ItemCode d ((propertyKey name).toList ++ (":".toList ++ (' ' :: text))) item ∧
        readProperty item = some (.field name us) := by
  obtain ⟨t, plainName, known, named⟩ := propertyKey_read plain name
  exact ⟨_, value.field plain named plainName, readProperty_field known value.item.1⟩

/-- The property for the children is read as it holds them. -/
theorem childrenCode_read (plain : d.jsx = false) {texts : List (List Char)}
    {items : List (List Token)} (all : List.Forall₂ (ItemCode d) texts items) : ∃ more properties,
      List.Forall₂ (ItemCode d) (childrenCode texts) more ∧
        more.mapM readProperty = some properties ∧ HoldsChildren properties items := by
  have field {text : List Char} {us : List Token} (value : ItemCode d text us) : ∃ item,
      ItemCode d ("children: ".toList ++ text) item ∧
        readProperty item = some (.field "children" us) :=
    field_read plain "children" value
  match all with
  | .nil => exact ⟨[], [], .nil, rfl, rfl⟩
  | .cons first .nil =>
      obtain ⟨item, here, read⟩ := field first
      exact ⟨[item], _, .cons here .nil, by simp [read], rfl⟩
  | .cons first (.cons second others) =>
      have array := ItemCode.enclosed plain (show closerOf "[" = some "]" from rfl)
        (.cons first (.cons second others))
      obtain ⟨item, here, read⟩ := field array
      exact ⟨[item], _, .cons here .nil, by simp [read], _, rfl,
        readArray_items (isItem_of_codes (.cons first (.cons second others)))⟩

/-- Only the last key counts. -/
theorem key_of_isKey {attributes : List Attribute} :
    attributes.any Attribute.isKey = true →
      ∀ found, e.key found attributes = e.key [] attributes := by
  induction attributes with
  | nil => simp
  | cons a attributes ih =>
      intro keyed found
      cases a with
      | spread body =>
          rw [Emitter.key, Emitter.key]
          exact ih keyed found
      | named name start value =>
          rw [Emitter.key, Emitter.key]
          split
          case isTrue => rfl
          case isFalse other =>
            rw [List.any_cons, Attribute.isKey, Bool.eq_false_iff.mpr other, Bool.false_or] at keyed
            exact ih keyed found

theorem key_of_not_isKey {attributes : List Attribute} :
    attributes.any Attribute.isKey = false → ∀ found, e.key found attributes = found := by
  induction attributes with
  | nil => exact fun _ _ => rfl
  | cons a attributes ih =>
      intro noKey found
      rw [List.any_cons, Bool.or_eq_false_iff] at noKey
      obtain ⟨here, others⟩ := noKey
      cases a with
      | spread body => exact ih others found
      | named name start value =>
          rw [Emitter.key, if_neg (by simpa [Attribute.isKey] using here)]
          exact ih others found

mutual

/-- The code of an element is read as a call that stands for it. -/
theorem Element.code_read (plain : d.jsx = false) : (el : Element) →
    Spelled d e resolved code el.bodies el.tagNames →
    ∃ us, ItemCode d (codeOf resolved (e.element el)) us ∧ el.DenotedBy code us
  | ⟨start, stop, name, attributes, children⟩, spelled => by
      obtain ⟨own, properties, ownCodes, ownRead, ownDenoted⟩ :=
        Attribute.codes_read plain attributes spelled.ofAttributes
      obtain ⟨keys, third, keyCode, keyCodes, keyDenoted⟩ :=
        Attribute.key_read plain attributes spelled.ofAttributes
      obtain ⟨items, childCodes, childDenoted⟩ := Child.codes_read plain children spelled.ofChildren
      obtain ⟨more, properties', moreCodes, moreRead, holds⟩ := childrenCode_read plain childCodes
      obtain ⟨type, typeCode, typeDenoted⟩ := @typeCode_read d plain name fun n member =>
        spelled.references n (by simp [Element.tagNames, Option.mem_toList.mp member])
      have fields := List.rel_append ownCodes moreCodes
      have object := ItemCode.enclosed plain (show closerOf "\x7b" = some "\x7d" from rfl) fields
      have parts : List.Forall₂ (ItemCode d) _ _ := .cons typeCode (.cons object keyCodes)
      have factory : IsReference
          (if 1 < children.length then "__jsx_runtime.jsxs" else "__jsx_runtime.jsx") := by
        split <;> decide
      have call := ItemCode.call plain factory parts
      rw [← codeOf_element e resolved start stop name attributes children keyCode] at call
      have read := readCall_items (splitOn_ne_nil '.' (if 1 < children.length then
        "__jsx_runtime.jsxs" else "__jsx_runtime.jsx").toList) (isItem_of_codes parts)
      rw [join_splitOn, String.ofList_toList] at read
      have readProperties := readObject_items (isItem_of_codes fields)
      rw [List.mapM_append, ownRead, moreRead] at readProperties
      refine ⟨_, call, ?_⟩
      rw [Element.DenotedBy]
      exact ⟨type, _, third, properties, properties', items, read, typeDenoted, readProperties,
        ownDenoted, holds, childDenoted, keyDenoted⟩

theorem Attribute.codes_read (plain : d.jsx = false) : (attributes : List Attribute) →
    Spelled d e resolved code (Attribute.bodiesAll attributes) (Attribute.tagNamesAll attributes) →
    ∃ items properties,
      List.Forall₂ (ItemCode d) ((e.properties attributes).map (codeOf resolved)) items ∧
        items.mapM readProperty = some properties ∧
        Attribute.AllDenotedBy code attributes properties
  | [], _ => ⟨[], [], .nil, rfl, by rw [Attribute.AllDenotedBy]⟩
  | .spread body :: rest, spelled => by
      obtain ⟨here, others⟩ := spelled.ofAttribute
      obtain ⟨items, properties, codes, read, denoted⟩ := Attribute.codes_read plain rest others
      have value := here.container plain
      rw [Emitter.properties, List.map_cons, codeOf_code]
      refine ⟨_ :: items, .spread (significant (code body)) :: properties,
        .cons (value.spread plain) codes, ?_, ?_⟩
      · rw [List.mapM_cons, readProperty_spread value.item.1, read]
        rfl
      · rw [Attribute.AllDenotedBy]
        exact ⟨properties, rfl, denoted⟩
  | .named name start value :: rest, spelled => by
      obtain ⟨here, others⟩ := spelled.ofAttribute
      obtain ⟨items, properties, codes, read, denoted⟩ := Attribute.codes_read plain rest others
      rw [Emitter.properties]
      by_cases isKey : name = "key"
      · refine ⟨items, properties, ?_, read, ?_⟩
        · rw [if_pos (beq_iff_eq.mpr isKey)]
          exact codes
        · rw [Attribute.AllDenotedBy, if_pos isKey]
          exact denoted
      · obtain ⟨us, valueCode, valueDenoted⟩ := AttributeValue.code_read plain value here
        obtain ⟨item, field, fieldRead⟩ := field_read plain name valueCode
        refine ⟨item :: items, .field name us :: properties, ?_, ?_, ?_⟩
        · rw [if_neg (by simpa using isKey)]
          exact .cons field codes
        · rw [List.mapM_cons, fieldRead, read]
          rfl
        · rw [Attribute.AllDenotedBy, if_neg isKey]
          exact ⟨us, properties, rfl, valueDenoted, denoted⟩

theorem Attribute.key_read (plain : d.jsx = false) : (attributes : List Attribute) →
    Spelled d e resolved code (Attribute.bodiesAll attributes) (Attribute.tagNamesAll attributes) →
    ∃ keys third, codeOf resolved (e.key [] attributes) = keys.flatMap ([',', ' '] ++ ·) ∧
      List.Forall₂ (ItemCode d) keys third ∧ Attribute.KeyDenotedBy code attributes third
  | [], _ => ⟨[], [], rfl, .nil, by rw [Attribute.KeyDenotedBy]⟩
  | .spread body :: rest, spelled => by
      rw [Emitter.key]
      simp only [Attribute.KeyDenotedBy]
      exact Attribute.key_read plain rest spelled.ofAttribute.2
  | .named name start value :: rest, spelled => by
      obtain ⟨here, others⟩ := spelled.ofAttribute
      rw [Emitter.key]
      by_cases last : name = "key" ∧ rest.any Attribute.isKey = false
      · obtain ⟨us, valueCode, valueDenoted⟩ := AttributeValue.code_read plain value here
        refine ⟨[codeOf resolved (e.attributeValue value)], [us], ?_, .cons valueCode .nil, ?_⟩
        · rw [if_pos (beq_iff_eq.mpr last.1), key_of_not_isKey last.2, List.flatMap_singleton]
          rfl
        · rw [Attribute.KeyDenotedBy, if_pos last]
          exact ⟨us, rfl, valueDenoted⟩
      · -- a key that stands further behind replaces this one
        have same : (if name == "key" then e.key (.code ", " :: e.attributeValue value) rest
            else e.key [] rest) = e.key [] rest := by
          split
          case isFalse => rfl
          case isTrue isKey =>
            refine key_of_isKey ?_ _
            rw [← Bool.not_eq_false]
            exact fun noKey => last ⟨eq_of_beq isKey, noKey⟩
        rw [same]
        simp only [Attribute.KeyDenotedBy, if_neg last]
        exact Attribute.key_read plain rest others

theorem AttributeValue.code_read (plain : d.jsx = false) : (value : AttributeValue) →
    Spelled d e resolved code value.bodies value.tagNames →
    ∃ us, ItemCode d (codeOf resolved (e.attributeValue value)) us ∧ value.DenotedBy code us
  | .bare, _ => by
      refine ⟨_, .reference plain (show IsReference "true" by decide), ?_⟩
      rw [AttributeValue.DenotedBy]
      exact readReference_reference "true"
  | .str value start, _ => by
      refine ⟨_, quoted_read plain value start, ?_⟩
      rw [AttributeValue.DenotedBy]
      exact readString_quoted value
  | .expr body, spelled => by
      refine ⟨_, spelled.container plain, ?_⟩
      rw [AttributeValue.DenotedBy]
  | .element el, spelled => by
      obtain ⟨us, elementCode, denoted⟩ := Element.code_read plain el spelled
      refine ⟨us, elementCode, ?_⟩
      rw [AttributeValue.DenotedBy]
      exact denoted

theorem Child.codes_read (plain : d.jsx = false) : (children : List Child) →
    Spelled d e resolved code (Child.bodiesAll children) (Child.tagNamesAll children) →
    ∃ items, List.Forall₂ (ItemCode d) ((e.childValues children).map (codeOf resolved)) items ∧
      Child.AllDenotedBy code children items
  | [], _ => ⟨[], .nil, by rw [Child.AllDenotedBy]⟩
  | .text value start :: rest, spelled => by
      obtain ⟨items, codes, denoted⟩ := Child.codes_read plain rest spelled.ofChild.2
      refine ⟨_, .cons (quoted_read plain value start) codes, ?_⟩
      rw [Child.AllDenotedBy]
      refine ⟨_, items, rfl, ?_, denoted⟩
      rw [Child.DenotedBy]
      exact readString_quoted value
  | .expr body :: rest, spelled => by
      obtain ⟨here, others⟩ := spelled.ofChild
      obtain ⟨items, codes, denoted⟩ := Child.codes_read plain rest others
      refine ⟨_, .cons (here.container plain) codes, ?_⟩
      rw [Child.AllDenotedBy]
      refine ⟨_, items, rfl, ?_, denoted⟩
      rw [Child.DenotedBy]
  | .element el :: rest, spelled => by
      obtain ⟨here, others⟩ := spelled.ofChild
      obtain ⟨items, codes, denoted⟩ := Child.codes_read plain rest others
      obtain ⟨us, elementCode, elementDenoted⟩ := Element.code_read plain el here
      refine ⟨us :: items, .cons elementCode codes, ?_⟩
      rw [Child.AllDenotedBy]
      refine ⟨us, items, rfl, ?_, denoted⟩
      rw [Child.DenotedBy]
      exact elementDenoted

end

theorem element_noMark (e : Emitter) (resolved : List (String × String)) (el : Element) :
    ¬ "#!".toList.isPrefixOf (codeOf resolved (e.element el)) = true := by
  obtain ⟨start, stop, name, attributes, children⟩ := el
  simp only [Emitter.element, List.append_assoc, List.cons_append, codeOf_code, codeOf_mark]
  split <;> simp [List.isPrefixOf]

/-- What an element is compiled to is one call that stands for its tree. -/
theorem emission_denotes (plain : d.jsx = false) (el : Element)
    (operands : ∀ b ∈ el.bodies, OperandCode d (codeOf resolved (e.body b)) (code b))
    (references : ∀ n ∈ el.tagNames, n.isIntrinsic = false → IsReference n.text) :
    ∃ text ts, (∀ source index w,
        ((e.element el).foldl (Chunk.writeTo source index resolved) w).code.toList =
          w.code.toList ++ text) ∧
      tokenize d (String.ofList text) = .ok ts ∧ el.DenotedBy code (significant ts) := by
  obtain ⟨us, call, denoted⟩ := Element.code_read plain el ⟨operands, references⟩
  obtain ⟨ts, tokens, view⟩ := (call.segment [] Closes.nil).tokenize (element_noMark e resolved el)
  refine ⟨codeOf resolved (e.element el), ts, ?_, tokens, ?_⟩
  · exact fun source index w => code_writeAll source index resolved (e.element el) w
  · rw [view]
    exact denoted

end

def idBody : Body := ⟨0, 2, [⟨.word, 0, 2, "id"⟩]⟩

/-- A component with a key in front of a quoted title and a spread, and with two children. -/
def cardElement : Element :=
  ⟨0, 0, some ⟨"Card.Item", 0⟩,
    [.named "key" 0 (.expr idBody), .named "data-title" 0 (.str "say \"a\"" 0), .spread idBody],
    [.text "x" 0, .element ⟨0, 0, some ⟨"p", 0⟩, [], []⟩]⟩

def cardCode : String :=
  "__jsx_runtime.jsxs(Card.Item, \x7b\"data-title\": \"say \\\"a\\\"\", ...id, " ++
    "children: [\"x\", __jsx_runtime.jsx(\"p\", \x7b\x7d)]\x7d, id)"

theorem emission_denotes_card : ∃ text ts, text = cardCode.toList ∧
    tokenize ⟨false, false⟩ (String.ofList text) = .ok ts ∧
    cardElement.DenotedBy Body.tokens (significant ts) := by
  have operand : OperandCode ⟨false, false⟩
      (codeOf [] ((Emitter.mk "id".toList {}).body idBody)) idBody.tokens :=
    ⟨by rw [tokenize_of_not_mem (by decide)]; rfl, by decide, by decide, by decide⟩
  have operands : ∀ b ∈ cardElement.bodies, OperandCode ⟨false, false⟩
      (codeOf [] ((Emitter.mk "id".toList {}).body b)) b.tokens := by
    intro b member
    have containers : cardElement.bodies = [idBody, idBody] := rfl
    rw [containers, List.mem_pair, or_self] at member
    rw [member]
    exact operand
  have references : ∀ n ∈ cardElement.tagNames, n.isIntrinsic = false → IsReference n.text := by
    decide
  obtain ⟨text, ts, written, tokens, denoted⟩ := emission_denotes rfl cardElement operands references
  have code : (((Emitter.mk "id".toList {}).element cardElement).foldl
      (Chunk.writeTo [] 0 []) {}).code.toList = cardCode.toList := by
    rfl
  exact ⟨text, ts, (written [] 0 {}).symm.trans code, tokens, denoted⟩

/-- A namespaced tag with a point is written as it stands, and the code is no call of the factory. -/
theorem emission_of_namespaced_member : ∃ el ts,
    tokenize ⟨true, false⟩ "<a.b:c/>" = .ok [⟨.jsx el, 0, 8, "<a.b:c/>"⟩] ∧
    codeOf [] ((Emitter.mk "<a.b:c/>".toList {}).element el) =
      "__jsx_runtime.jsx(a.b:c, \x7b\x7d)".toList ∧
    tokenize ⟨false, false⟩ "__jsx_runtime.jsx(a.b:c, \x7b\x7d)" = .ok ts ∧
    ∀ code, ¬ el.DenotedBy code (significant ts) := by
  obtain ⟨ts, tokens, type, object, call, noReference⟩ : ∃ ts,
      tokenizeWithin (allowance "__jsx_runtime.jsx(a.b:c, \x7b\x7d)".toList) ⟨false, false⟩
        "__jsx_runtime.jsx(a.b:c, \x7b\x7d)" = .ok ts ∧ ∃ type object,
      readCall (significant ts) = some ("__jsx_runtime.jsx", [type, object]) ∧
        readReference type = none := ⟨_, rfl, _, _, rfl, rfl⟩
  refine ⟨⟨0, 8, some ⟨"a.b:c", 1⟩, [], []⟩, ts, ?_, rfl, ?_, ?_⟩
  · rw [tokenize_of_not_mem (by decide)]
    rfl
  · rw [tokenize_of_not_mem (by decide)]
    exact tokens
  · intro code denoted
    rw [Element.DenotedBy] at denoted
    obtain ⟨type', object', third, own, more, items, call', typed, _⟩ := denoted
    rw [call, Option.some.injEq, Prod.mk.injEq, List.cons.injEq] at call'
    have reference : readReference type' = some "a.b:c" := typed
    rw [← call'.2.1, noReference] at reference
    cases reference

end JsxPreview.Source
