import JsxPreview.Source.TypeExtent

/-! # A grammar of types

A type is a list of parts, which are tokens; of a run such as `>>` each `>` is a part of its own.  The
grammar (`Written`) has names, literals, generic applications, arrays and members, anything in
brackets, operators, unions and intersections, functions and constructors, and conditionals.  It says
where a line may not end, and nothing about precedence.  Whatever it writes closes its own brackets
and angles (`Written.isClosed`) and starts with a token that can start a type (`Written.starts`). -/
set_option autoImplicit false
namespace JsxPreview.Source

/-! ## Parts -/

/-- A run of `>` with nothing behind it. -/
def Token.isRun (t : Token) : Bool := t.isPunct && t.text.toList.all (· == '>')

def Token.isAtom (t : Token) : Bool := t.isWord || t.isStr || t.isNumber || t.isTemplate

/-- A token, with whether a line ends in front of it, or one `>` of a run. -/
inductive TypePart where
  | token (t : Token) (broken : Bool)
  | closer

namespace TypePart

def any (known : Token → Bool) : TypePart → Bool
  | token t _ => known t
  | closer => false

def isPunct (p : TypePart) (text : String) : Bool := p.any fun t => t.isPunct && t.text == text

def isWord (p : TypePart) (text : String) : Bool := p.any fun t => t.isWord && t.text == text

/-- A word that is not one of the operators. -/
def isName (p : TypePart) : Bool :=
  p.any fun t => t.isWord && !TokenRow.typeOperators.contains t.text

def isNumber (p : TypePart) : Bool := p.any Token.isNumber

def isLiteral (p : TypePart) : Bool := p.any fun t => t.isStr || t.isNumber || t.isTemplate

def opens (p : TypePart) : Bool :=
  p.any fun t => t.isPunct && (t.text == "(" || t.text == "[" || t.text == "\x7b")

def closes (p : TypePart) : Bool :=
  p.any fun t => t.isPunct && (t.text == ")" || t.text == "]" || t.text == "\x7d")

/-- Whether no line ends in front of the part. -/
def isTight : TypePart → Bool
  | token _ broken => !broken
  | closer => true

/-- What can stand between angles without a bracket of its own. -/
def isListed (p : TypePart) : Bool :=
  p.any fun t => t.isAtom || (t.isPunct && TokenRow.angleListPuncts.contains t.text)

def startsType (p : TypePart) : Bool :=
  p.any fun t => t.isAtom ||
    (t.isPunct && ["(", "[", "\x7b", "<", "-", "|", "&"].contains t.text)

variable {p : TypePart} {text : String}

theorem any_imp {known known' : Token → Bool} (holds : p.any known = true)
    (weaker : ∀ t, known t = true → known' t = true) : p.any known' = true := by
  cases p with
  | closer => exact holds
  | token t broken => exact weaker t holds

theorem isListed_of_isPunct (punct : p.isPunct text = true)
    (listed : TokenRow.angleListPuncts.contains text = true) : p.isListed = true := by
  refine any_imp punct fun t known => ?_
  rw [Bool.and_eq_true, beq_iff_eq] at known
  rw [known.1, known.2, listed, Bool.and_self, Bool.or_true]

theorem isAtom_of_isWord (word : p.isWord text = true) : p.any Token.isAtom = true :=
  any_imp word fun t known => by
    simp only [Token.isAtom, ((Bool.and_eq_true ..).mp known).1, Bool.true_or]

theorem isAtom_of_isName (name : p.isName = true) : p.any Token.isAtom = true :=
  any_imp name fun t known => by
    simp only [Token.isAtom, ((Bool.and_eq_true ..).mp known).1, Bool.true_or]

theorem isAtom_of_isLiteral (literal : p.isLiteral = true) : p.any Token.isAtom = true := by
  refine any_imp literal fun t known => ?_
  simp only [Bool.or_eq_true] at known
  rcases known with (known | known) | known <;> simp [Token.isAtom, known]

theorem isLiteral_of_isNumber (number : p.isNumber = true) : p.isLiteral = true :=
  any_imp number fun t known => by simp [known]

theorem opens_of_isPunct (punct : p.isPunct text = true)
    (bracket : text = "(" ∨ text = "[" ∨ text = "\x7b") : p.opens = true := by
  refine any_imp punct fun t known => ?_
  rw [Bool.and_eq_true, beq_iff_eq] at known
  rcases bracket with rfl | rfl | rfl <;> simp [known]

theorem closes_of_isPunct (punct : p.isPunct text = true)
    (bracket : text = ")" ∨ text = "]" ∨ text = "\x7d") : p.closes = true := by
  refine any_imp punct fun t known => ?_
  rw [Bool.and_eq_true, beq_iff_eq] at known
  rcases bracket with rfl | rfl | rfl <;> simp [known]

/-- What is listed is no bracket. -/
theorem plain_of_isListed (listed : p.isListed = true) : p.opens = false ∧ p.closes = false := by
  cases p with
  | closer => exact ⟨rfl, rfl⟩
  | token t broken =>
      obtain ⟨shape, start, stop, text⟩ := t
      cases shape
      case punct =>
        have among : text ∈ TokenRow.angleListPuncts := List.contains_iff_mem.mp listed
        simp only [TokenRow.angleListPuncts, List.mem_cons, List.not_mem_nil, or_false] at among
        rcases among with rfl | rfl | rfl | rfl | rfl | rfl | rfl | rfl | rfl | rfl <;> exact ⟨rfl, rfl⟩
      all_goals exact ⟨rfl, rfl⟩

end TypePart

/-! ## Brackets -/

/-- Parts of which each bracket that opens is closed, and none else is. -/
inductive IsBalanced : List TypePart → Prop
  | nil : IsBalanced []
  | plain {p : TypePart} {ps : List TypePart} (plain : p.opens = false ∧ p.closes = false)
      (others : IsBalanced ps) : IsBalanced (p :: ps)
  | group {p q : TypePart} {inside ps : List TypePart} (opens : p.opens = true)
      (inner : IsBalanced inside) (closes : q.closes = true) (others : IsBalanced ps) :
      IsBalanced (p :: (inside ++ q :: ps))

/-- Parts that close their own brackets and angles, with nothing between them that does not belong to
a list of types. -/
inductive IsClosed : List TypePart → Prop
  | nil : IsClosed []
  | listed {p : TypePart} {ps : List TypePart} (listed : p.isListed = true)
      (others : IsClosed ps) : IsClosed (p :: ps)
  | group {p q : TypePart} {inside ps : List TypePart} (opens : p.opens = true)
      (inner : IsBalanced inside) (closes : q.closes = true) (others : IsClosed ps) :
      IsClosed (p :: (inside ++ q :: ps))
  | angles {p : TypePart} {inside ps : List TypePart} (opens : p.isPunct "<" = true)
      (inner : IsClosed inside) (others : IsClosed ps) : IsClosed (p :: (inside ++ .closer :: ps))

theorem IsBalanced.append {ps qs : List TypePart} (first : IsBalanced ps) (second : IsBalanced qs) :
    IsBalanced (ps ++ qs) := by
  induction first with
  | nil => exact second
  | plain plain _ ih => exact .plain plain ih
  | group opens inner closes _ _ ih =>
      rw [List.cons_append, List.append_assoc, List.cons_append]
      exact .group opens inner closes ih

namespace IsClosed

variable {p q : TypePart} {ps qs : List TypePart}

theorem append (first : IsClosed ps) (second : IsClosed qs) : IsClosed (ps ++ qs) := by
  induction first with
  | nil => exact second
  | listed listed _ ih => exact .listed listed ih
  | group opens inner closes _ ih =>
      rw [List.cons_append, List.append_assoc, List.cons_append]
      exact .group opens inner closes ih
  | angles opens inner _ _ ih =>
      rw [List.cons_append, List.append_assoc, List.cons_append]
      exact .angles opens inner ih

theorem isBalanced (closed : IsClosed ps) : IsBalanced ps := by
  have angle {p : TypePart} (opens : p.isPunct "<" = true) : p.opens = false ∧ p.closes = false := by
    cases p with
    | closer => exact ⟨rfl, rfl⟩
    | token t broken =>
        have known := ((Bool.and_eq_true ..).mp opens).2
        rw [beq_iff_eq] at known
        simp [TypePart.opens, TypePart.closes, TypePart.any, known]
  induction closed with
  | nil => exact .nil
  | listed listed _ ih => exact .plain (TypePart.plain_of_isListed listed) ih
  | group opens inner closes _ ih => exact .group opens inner closes ih
  | angles opens _ _ inner ih => exact .plain (angle opens) (inner.append (.plain ⟨rfl, rfl⟩ ih))

theorem punct {text : String} (punct : p.isPunct text = true)
    (listed : TokenRow.angleListPuncts.contains text = true) (others : IsClosed ps) :
    IsClosed (p :: ps) :=
  .listed (TypePart.isListed_of_isPunct punct listed) others

theorem atom (atom : p.any Token.isAtom = true) (others : IsClosed ps) : IsClosed (p :: ps) :=
  .listed (TypePart.any_imp atom fun t known => by rw [known, Bool.true_or]) others

theorem word {text : String} (word : p.isWord text = true) (others : IsClosed ps) :
    IsClosed (p :: ps) :=
  .atom (TypePart.isAtom_of_isWord word) others

theorem name (name : p.isName = true) (others : IsClosed ps) : IsClosed (p :: ps) :=
  .atom (TypePart.isAtom_of_isName name) others

end IsClosed

/-! ## Types -/

/-- A name, or names with points between them. -/
inductive IsQualified : List TypePart → Prop
  | one {p : TypePart} (name : p.isName = true) : IsQualified [p]
  | more {p point : TypePart} {ns : List TypePart} (name : p.isName = true)
      (sign : point.isPunct "." = true) (others : IsQualified ns) : IsQualified (p :: point :: ns)

/-- The words in front of the type of a function, or of a constructor. -/
inductive IsHead : List TypePart → Prop
  | function : IsHead []
  | constructor {p : TypePart} (new : p.isWord "new" = true) : IsHead [p]
  | abstract {p q : TypePart} (word : p.isWord "abstract" = true) (new : q.isWord "new" = true) :
      IsHead [p, q]

def typePrefixes : List String := ["keyof", "typeof", "readonly", "unique"]

/-- What the grammar speaks of. -/
inductive TypeForm where
  | type
  /-- Types with commas between them. -/
  | arguments
  /-- What a type parameter extends, if anything. -/
  | limit
  /-- What a type parameter is by default, if anything. -/
  | default
  | parameters
  /-- Type parameters in angles, if there are any. -/
  | generics

/-- The parts that something is written with. -/
inductive Written : TypeForm → List TypePart → Prop
  | name {ns : List TypePart} (name : IsQualified ns) : Written .type ns
  | literal {p : TypePart} (literal : p.isLiteral = true) : Written .type [p]
  | negative {minus p : TypePart} (sign : minus.isPunct "-" = true) (number : p.isNumber = true) :
      Written .type [minus, p]
  | applied {ns as : List TypePart} {opens : TypePart} (name : IsQualified ns)
      (angle : opens.isPunct "<" = true) (tight : opens.isTight = true)
      (arguments : Written .arguments as) : Written .type (ns ++ opens :: (as ++ [.closer]))
  | array {t : List TypePart} {opens closes : TypePart} (element : Written .type t)
      (opening : opens.isPunct "[" = true) (tight : opens.isTight = true)
      (closing : closes.isPunct "]" = true) : Written .type (t ++ [opens, closes])
  | member {t u : List TypePart} {opens closes : TypePart} (object : Written .type t)
      (opening : opens.isPunct "[" = true) (tight : opens.isTight = true) (key : Written .type u)
      (closing : closes.isPunct "]" = true) : Written .type (t ++ opens :: (u ++ [closes]))
  | bracketed {inside : List TypePart} {opens closes : TypePart} (opening : opens.opens = true)
      (balanced : IsBalanced inside) (closing : closes.closes = true) :
      Written .type (opens :: (inside ++ [closes]))
  | prefixed {p : TypePart} {t : List TypePart} (operator : typePrefixes.any p.isWord = true)
      (operand : Written .type t) : Written .type (p :: t)
  | led {p : TypePart} {t : List TypePart} (sign : p.isPunct "|" = true ∨ p.isPunct "&" = true)
      (operand : Written .type t) : Written .type (p :: t)
  | joined {p : TypePart} {t u : List TypePart} (first : Written .type t)
      (sign : p.isPunct "|" = true ∨ p.isPunct "&" = true) (second : Written .type u) :
      Written .type (t ++ p :: u)
  | function {ks gs inside t : List TypePart} {opens closes arrow : TypePart} (head : IsHead ks)
      (generics : Written .generics gs) (opening : opens.isPunct "(" = true)
      (balanced : IsBalanced inside) (closing : closes.isPunct ")" = true)
      (sign : arrow.isPunct "=>" = true) (result : Written .type t) :
      Written .type (ks ++ (gs ++ opens :: (inside ++ closes :: arrow :: t)))
  | conditional {t u v w : List TypePart} {extend question colon : TypePart}
      (test : Written .type t) (word : extend.isWord "extends" = true) (limit : Written .type u)
      (sign : question.isPunct "?" = true) (yes : Written .type v)
      (sign' : colon.isPunct ":" = true) (no : Written .type w) :
      Written .type (t ++ extend :: (u ++ question :: (v ++ colon :: w)))
  | inferred {p n : TypePart} {l : List TypePart} (word : p.isWord "infer" = true)
      (name : n.isName = true) (limit : Written .limit l) : Written .type (p :: n :: l)
  | lastArgument {t : List TypePart} (type : Written .type t) : Written .arguments t
  | moreArguments {t ts : List TypePart} {comma : TypePart} (type : Written .type t)
      (sign : comma.isPunct "," = true) (others : Written .arguments ts) :
      Written .arguments (t ++ comma :: ts)
  | unlimited : Written .limit []
  | limited {p : TypePart} {t : List TypePart} (word : p.isWord "extends" = true)
      (type : Written .type t) : Written .limit (p :: t)
  | noDefault : Written .default []
  | default {p : TypePart} {t : List TypePart} (sign : p.isPunct "=" = true)
      (type : Written .type t) : Written .default (p :: t)
  | lastParameter {n : TypePart} {l d : List TypePart} (name : n.isName = true)
      (limit : Written .limit l) (default : Written .default d) : Written .parameters (n :: (l ++ d))
  | moreParameters {n comma : TypePart} {l d ps : List TypePart} (name : n.isName = true)
      (limit : Written .limit l) (default : Written .default d) (sign : comma.isPunct "," = true)
      (others : Written .parameters ps) : Written .parameters (n :: (l ++ (d ++ comma :: ps)))
  | plain : Written .generics []
  | generic {opens : TypePart} {ps : List TypePart} (angle : opens.isPunct "<" = true)
      (parameters : Written .parameters ps) : Written .generics (opens :: (ps ++ [.closer]))

theorem IsQualified.isClosed {ns : List TypePart} (name : IsQualified ns) : IsClosed ns := by
  induction name with
  | one name => exact .name name .nil
  | more name sign _ ih => exact .name name (.punct sign (by decide) ih)

theorem IsHead.isClosed {ks : List TypePart} (head : IsHead ks) : IsClosed ks := by
  cases head with
  | function => exact .nil
  | constructor new => exact .word new .nil
  | abstract word new => exact .word word (.word new .nil)

theorem isClosed_sign {p : TypePart} {ps : List TypePart}
    (sign : p.isPunct "|" = true ∨ p.isPunct "&" = true) (others : IsClosed ps) :
    IsClosed (p :: ps) := by
  rcases sign with sign | sign
  · exact .punct sign (by decide) others
  · exact .punct sign (by decide) others

/-- What is written closes its own brackets and angles. -/
theorem Written.isClosed {form : TypeForm} {ps : List TypePart} (written : Written form ps) :
    IsClosed ps := by
  induction written with
  | name name => exact name.isClosed
  | literal literal => exact .atom (TypePart.isAtom_of_isLiteral literal) .nil
  | negative sign number =>
      exact .punct sign (by decide) (.atom
        (TypePart.isAtom_of_isLiteral (TypePart.isLiteral_of_isNumber number)) .nil)
  | applied name angle _ _ inner => exact name.isClosed.append (.angles angle inner .nil)
  | array _ opening _ closing element =>
      exact element.append (@IsClosed.group _ _ [] _ (TypePart.opens_of_isPunct opening (by simp)) .nil
        (TypePart.closes_of_isPunct closing (by simp)) .nil)
  | member _ opening _ _ closing object key =>
      exact object.append (.group (TypePart.opens_of_isPunct opening (by simp)) key.isBalanced
        (TypePart.closes_of_isPunct closing (by simp)) .nil)
  | bracketed opening balanced closing => exact .group opening balanced closing .nil
  | prefixed operator _ operand =>
      obtain ⟨_, _, word⟩ := List.any_eq_true.mp operator
      exact .word word operand
  | led sign _ operand => exact isClosed_sign sign operand
  | joined _ sign _ first second => exact first.append (isClosed_sign sign second)
  | function head _ opening balanced closing sign _ generics result =>
      exact head.isClosed.append (generics.append (.group
        (TypePart.opens_of_isPunct opening (by simp)) balanced
        (TypePart.closes_of_isPunct closing (by simp)) (.punct sign (by decide) result)))
  | conditional _ word _ sign _ sign' _ test limit yes no =>
      exact test.append (.word word (limit.append (.punct sign (by decide)
        (yes.append (.punct sign' (by decide) no)))))
  | inferred word name _ limit => exact .word word (.name name limit)
  | lastArgument _ type => exact type
  | moreArguments _ sign _ type others => exact type.append (.punct sign (by decide) others)
  | unlimited => exact .nil
  | limited word _ type => exact .word word type
  | noDefault => exact .nil
  | default sign _ type => exact .punct sign (by decide) type
  | lastParameter name _ _ limit default => exact .name name (limit.append default)
  | moreParameters name _ _ sign _ limit default others =>
      exact .name name (limit.append (default.append (.punct sign (by decide) others)))
  | plain => exact .nil
  | generic angle _ parameters => exact .angles angle parameters .nil

/-! ## First parts -/

/-- The first part can start a type. -/
def StartsType (ps : List TypePart) : Prop := ∃ p rest, ps = p :: rest ∧ p.startsType = true

namespace StartsType

variable {p : TypePart} {ps qs : List TypePart} {text : String}

theorem append (starts : StartsType ps) (qs : List TypePart) : StartsType (ps ++ qs) := by
  obtain ⟨p, rest, rfl, known⟩ := starts
  exact ⟨p, rest ++ qs, rfl, known⟩

theorem atom (atom : p.any Token.isAtom = true) (ps : List TypePart) : StartsType (p :: ps) :=
  ⟨p, ps, rfl, TypePart.any_imp atom fun t known => by rw [known, Bool.true_or]⟩

theorem word (word : p.isWord text = true) (ps : List TypePart) : StartsType (p :: ps) :=
  .atom (TypePart.isAtom_of_isWord word) ps

theorem name (name : p.isName = true) (ps : List TypePart) : StartsType (p :: ps) :=
  .atom (TypePart.isAtom_of_isName name) ps

theorem punct (punct : p.isPunct text = true)
    (opening : ["(", "[", "\x7b", "<", "-", "|", "&"].contains text = true) (ps : List TypePart) :
    StartsType (p :: ps) := by
  refine ⟨p, ps, rfl, TypePart.any_imp punct fun t known => ?_⟩
  rw [Bool.and_eq_true, beq_iff_eq] at known
  rw [known.1, known.2, opening, Bool.and_self, Bool.or_true]

end StartsType

theorem IsQualified.starts {ns : List TypePart} (name : IsQualified ns) : StartsType ns := by
  cases name with
  | one name => exact .name name _
  | more name _ _ => exact .name name _

/-- A type starts with a part that can start one. -/
theorem Written.starts {form : TypeForm} {ps : List TypePart} (written : Written form ps) :
    match form with
    | .type => StartsType ps
    | .generics => ps = [] ∨ StartsType ps
    | _ => True := by
  induction written with
  | name name => exact name.starts
  | literal literal => exact .atom (TypePart.isAtom_of_isLiteral literal) _
  | negative sign _ => exact .punct sign (by decide) _
  | applied name _ _ _ _ => exact name.starts.append _
  | array _ _ _ _ element => exact element.append _
  | member _ _ _ _ _ object _ => exact object.append _
  | bracketed opening _ _ =>
      refine ⟨_, _, rfl, TypePart.any_imp opening fun t known => ?_⟩
      simp only [Bool.and_eq_true, Bool.or_eq_true, beq_iff_eq] at known
      rcases known with ⟨punct, (same | same) | same⟩ <;> simp [punct, same]
  | prefixed operator _ _ =>
      obtain ⟨_, _, word⟩ := List.any_eq_true.mp operator
      exact .word word _
  | led sign _ _ =>
      rcases sign with sign | sign
      · exact .punct sign (by decide) _
      · exact .punct sign (by decide) _
  | joined _ _ _ first _ => exact first.append _
  | function head _ opening _ _ _ _ generics _ => cases head with
    | constructor new => exact .word new _
    | abstract word _ => exact .word word _
    | function =>
        rcases generics with rfl | starts
        · exact .punct opening (by decide) _
        · exact starts.append _
  | conditional _ _ _ _ _ _ _ test _ _ _ => exact test.append _
  | inferred word _ _ _ => exact .word word _
  | plain => exact .inl rfl
  | generic angle _ _ => exact .inr (.punct angle (by decide) _)
  | _ => trivial

end JsxPreview.Source
