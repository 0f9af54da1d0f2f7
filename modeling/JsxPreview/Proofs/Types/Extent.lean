import JsxPreview.Proofs.Types.Angles
import Mathlib.Logic.Relation

/-! # How far a type of the grammar reaches

The reader of types goes from token to token, with an operand expected or not, and counts the
conditionals that are left open.  Over what the grammar writes it goes step by step from the first
part to the one behind the last (`Written.read`), whatever stands behind; at a sign that does not go
on with a type it stops there (`Written.skipType_eq`). -/
set_option autoImplicit false
namespace JsxPreview.Source

open JsxPreview.Text

/-- Where the reader of a type stands. -/
structure TypePlace where
  operand : Bool
  conditional : Nat
  next : Nat

namespace TokenRow

/-- One step of the reader. -/
def Advances (row : TokenRow) (stop : Nat) (p q : TypePlace) : Prop :=
  p.next < stop ∧ p.next < q.next ∧
    (if p.operand then row.typeOperand stop p.conditional p.next
      else row.typeSuffix stop false p.conditional p.next) = .go q.next q.operand q.conditional

abbrev Follows (row : TokenRow) (stop : Nat) : TypePlace → TypePlace → Prop :=
  Relation.ReflTransGen (row.Advances stop)

variable {row : TokenRow} {i j k c m n stop : Nat} {p : TypePart} {ps : List TypePart}
  {text : String}

/-! ## Steps -/

namespace Advances

variable (before : i < stop)

include before

/-- Over an operand of one token. -/
theorem atom (known : (row.get? i).any (fun t => t.isAtom &&
    !(t.isWord && typeOperators.contains t.text)) = true) :
    row.Advances stop ⟨true, c, i⟩ ⟨false, c, i + 1⟩ := by
  obtain ⟨t, found, known⟩ := get?_of_any known
  rw [Bool.and_eq_true, Bool.not_eq_true'] at known
  have noOperator : (row.isAnyWord i && typeOperators.contains (row.text i)) = false := by
    rw [isAnyWord, found, text_of_get? found]
    exact known.2
  have atom : row.isTypeAtom i = true := by
    rw [isTypeAtom, found]
    exact known.1
  refine ⟨before, Nat.lt_succ_self i, ?_⟩
  rw [if_pos rfl, typeOperand, noOperator, Bool.false_and, if_neg Bool.false_ne_true, if_pos atom]

theorem name (name : (row.get? i).any
    (fun t => t.isWord && !typeOperators.contains t.text) = true) :
    row.Advances stop ⟨true, c, i⟩ ⟨false, c, i + 1⟩ := by
  refine .atom before ?_
  obtain ⟨t, found, known⟩ := get?_of_any name
  rw [Bool.and_eq_true] at known
  rw [found, Option.any_some, Token.isAtom, known.1]
  exact known.2

/-- Over an operator in front of an operand. -/
theorem operator (word : row.isWord i text = true) (known : typeOperators.contains text = true)
    (starts : row.startsType (i + 1) stop = true) :
    row.Advances stop ⟨true, c, i⟩ ⟨true, c, i + 1⟩ := by
  have anyWord : row.isAnyWord i = true := any_of_isWord word fun _ _ => rfl
  refine ⟨before, Nat.lt_succ_self i, ?_⟩
  rw [if_pos rfl, typeOperand, anyWord, text_of_isWord word, known, starts]
  rfl

/-- Over brackets that are an operand. -/
theorem group (opens : row.opensBracket i = true) (matched : row.matching i stop = some m) :
    row.Advances stop ⟨true, c, i⟩ ⟨false, c, m + 1⟩ := by
  obtain ⟨⟨shape, _, _, text⟩, found, known⟩ := get?_of_any opens
  have noWord : row.isAnyWord i = false := by
    rw [isAnyWord, found]
    cases shape <;> first | rfl | cases known
  have noAtom : row.isTypeAtom i = false := by
    rw [isTypeAtom, found]
    cases shape <;> first | rfl | cases known
  refine ⟨before, Nat.lt_succ_of_le (matching_spec matched).1, ?_⟩
  rw [if_pos rfl, typeOperand, noWord, noAtom, opens, matched]
  rfl

/-- Over the type parameters of a function. -/
theorem generics (angle : row.isPunct i "<" = true)
    (found : row.angleClose i stop = some (m, row.stop m)) (further : i < m) :
    row.Advances stop ⟨true, c, i⟩ ⟨true, c, m + 1⟩ := by
  have noWord : row.isAnyWord i = false := any_of_isPunct angle fun _ _ => rfl
  have noAtom : row.isTypeAtom i = false := any_of_isPunct angle fun _ _ => rfl
  have noBracket : row.opensBracket i = false := any_of_isPunct angle fun _ _ => rfl
  refine ⟨before, Nat.lt_succ_of_lt further, ?_⟩
  rw [if_pos rfl, typeOperand, noWord, noAtom, noBracket, angle, found]
  simp

/-- Over a sign in front of an operand. -/
theorem sign (punct : row.isPunct i text = true) (known : ["|", "&", "-"].contains text = true) :
    row.Advances stop ⟨true, c, i⟩ ⟨true, c, i + 1⟩ := by
  refine ⟨before, Nat.lt_succ_self i, ?_⟩
  have among : text = "|" ∨ text = "&" ∨ text = "-" := by simpa using known
  have noWord : row.isAnyWord i = false := any_of_isPunct punct fun _ _ => rfl
  have noAtom : row.isTypeAtom i = false := any_of_isPunct punct fun _ _ => rfl
  have any : row.isAnyPunct i = true := any_of_isPunct punct fun _ _ => rfl
  have noBracket : row.opensBracket i = false :=
    any_of_isPunct punct fun _ _ => by rcases among with rfl | rfl | rfl <;> rfl
  rw [if_pos rfl, typeOperand, noWord, noAtom, noBracket, isPunct_eq punct, any,
    text_of_isPunct punct]
  rcases among with rfl | rfl | rfl <;> rfl

/-- Over a sign between two operands. -/
theorem between (punct : row.isPunct i text = true)
    (known : text = "|" ∨ text = "&" ∨ text = "." ∨ text = "=>") :
    row.Advances stop ⟨false, c, i⟩ ⟨true, c, i + 1⟩ := by
  refine ⟨before, Nat.lt_succ_self i, ?_⟩
  simp only [Bool.false_eq_true, if_false, typeSuffix, isPunct_eq punct]
  rcases known with rfl | rfl | rfl | rfl <;> rfl

/-- Over the signs of a conditional, while one is open. -/
theorem question (punct : row.isPunct i "?" = true) :
    row.Advances stop ⟨false, c + 1, i⟩ ⟨true, c + 1, i + 1⟩ := by
  refine ⟨before, Nat.lt_succ_self i, ?_⟩
  simp only [Bool.false_eq_true, if_false, typeSuffix, isPunct_eq punct]
  simp

theorem colon (punct : row.isPunct i ":" = true) :
    row.Advances stop ⟨false, c + 1, i⟩ ⟨true, c, i + 1⟩ := by
  refine ⟨before, Nat.lt_succ_self i, ?_⟩
  simp only [Bool.false_eq_true, if_false, typeSuffix, isPunct_eq punct]
  simp

theorem limit (word : row.isWord i "extends" = true) :
    row.Advances stop ⟨false, c, i⟩ ⟨true, c + 1, i + 1⟩ := by
  refine ⟨before, Nat.lt_succ_self i, ?_⟩
  simp only [Bool.false_eq_true, if_false, typeSuffix, isPunct_of_isWord word, isWord_eq word]
  simp

/-- Over brackets behind an operand. -/
theorem index (opens : row.isPunct i "[" = true) (tight : row.breakBefore i = false)
    (matched : row.matching i stop = some m) :
    row.Advances stop ⟨false, c, i⟩ ⟨false, c, m + 1⟩ := by
  refine ⟨before, Nat.lt_succ_of_le (matching_spec matched).1, ?_⟩
  simp only [Bool.false_eq_true, if_false, typeSuffix, isPunct_eq opens, tight, matched]
  simp

/-- Over arguments behind a name. -/
theorem arguments (angle : row.isPunct i "<" = true) (tight : row.breakBefore i = false)
    (found : row.angleClose i stop = some (m, row.stop m)) (further : i < m) :
    row.Advances stop ⟨false, c, i⟩ ⟨false, c, m + 1⟩ := by
  refine ⟨before, Nat.lt_succ_of_lt further, ?_⟩
  simp only [Bool.false_eq_true, if_false, typeSuffix, isPunct_eq angle, tight, found]
  simp

end Advances

/-! ## Runs -/

/-- The reader goes on from where its steps lead to. -/
theorem Follows.typeFrom_eq {p q : TypePlace} (follows : row.Follows stop p q)
    (enough : stop ≤ p.next + n) : ∃ n', stop ≤ q.next + n' ∧
      row.typeFrom stop false n p.operand p.conditional p.next (row.stop (p.next - 1)) =
        row.typeFrom stop false n' q.operand q.conditional q.next (row.stop (q.next - 1)) := by
  induction follows using Relation.ReflTransGen.head_induction_on generalizing n with
  | refl => exact ⟨n, enough, rfl⟩
  | head step _ ih =>
      obtain ⟨before, further, go⟩ := step
      obtain ⟨n, rfl⟩ : ∃ k, n = k + 1 := ⟨n - 1, by omega⟩
      obtain ⟨n', enough', same⟩ := @ih n (by omega)
      refine ⟨n', enough', ?_⟩
      rw [typeFrom, if_neg (Nat.not_le_of_lt before), go]
      exact same

theorem Between.startsType (between : row.Between i 0 ps j 0) (starts : StartsType ps)
    (before : j ≤ stop) : row.startsType i stop = true := by
  obtain ⟨p, rest, rfl, known⟩ := starts
  obtain ⟨_, known, _, others⟩ := between.head known
  obtain ⟨t, found, known⟩ := get?_of_any known
  have here : i < stop := Nat.lt_of_lt_of_le others.le before
  rw [TokenRow.startsType, isTypeAtom, isAnyPunct, found, text_of_get? found, decide_eq_true here]
  exact known

/-- Over names with points between them. -/
theorem Between.qualified {ns : List TypePart} (between : row.Between i 0 ns j 0)
    (name : IsQualified ns) (before : j ≤ stop) : row.Follows stop ⟨true, c, i⟩ ⟨false, c, j⟩ := by
  induction name generalizing i with
  | one name =>
      obtain ⟨_, name, _, others⟩ := between.head name
      have here := Nat.lt_of_lt_of_le others.le before
      cases others
      exact .single (.name here name)
  | more name sign _ ih =>
      obtain ⟨_, name, _, between⟩ := between.head name
      obtain ⟨_, sign, _, between⟩ := between.head sign
      have there := Nat.lt_of_lt_of_le between.le before
      exact .head (.name (Nat.lt_of_succ_lt there) name)
        (.head (.between there sign (by simp)) (ih between))

theorem Between.literal (between : row.Between i 0 (p :: ps) j 0) (literal : p.isLiteral = true)
    (before : j ≤ stop) : i < stop ∧ row.Advances stop ⟨true, c, i⟩ ⟨false, c, i + 1⟩ ∧
      row.Between (i + 1) 0 ps j 0 := by
  obtain ⟨_, known, _, others⟩ := between.head literal
  have here := Nat.lt_of_lt_of_le others.le before
  obtain ⟨t, found, known⟩ := get?_of_any known
  refine ⟨here, .atom here ?_, others⟩
  rw [found]
  obtain ⟨shape, _, _, _⟩ := t
  cases shape <;> first | rfl | cases known

/-- Over the sign of a union or an intersection, in front of the first operand or between two. -/
theorem Between.sign (between : row.Between i k (p :: ps) j 0)
    (sign : p.isPunct "|" = true ∨ p.isPunct "&" = true) (before : j ≤ stop) :
    k = 0 ∧ i < stop ∧ row.Between (i + 1) 0 ps j 0 ∧
      ∀ b c, row.Advances stop ⟨b, c, i⟩ ⟨true, c, i + 1⟩ := by
  obtain ⟨text, known, sign⟩ : ∃ text, (text = "|" ∨ text = "&") ∧ p.isPunct text = true := by
    rcases sign with sign | sign
    · exact ⟨_, .inl rfl, sign⟩
    · exact ⟨_, .inr rfl, sign⟩
  obtain ⟨rfl, sign, _, others⟩ := between.head sign
  have here := Nat.lt_of_lt_of_le others.le before
  refine ⟨rfl, here, others, fun b c => ?_⟩
  cases b with
  | true => exact .sign here sign (by rcases known with rfl | rfl <;> decide)
  | false => exact .between here sign (by rcases known with rfl | rfl <;> simp)

/-- Over the words in front of the type of a function. -/
theorem Between.functionHead {ks : List TypePart} (between : row.Between i 0 (ks ++ ps) j 0)
    (head : IsHead ks) (starts : StartsType ps) (before : j ≤ stop) :
    ∃ m, row.Between m 0 ps j 0 ∧ ∀ c, row.Follows stop ⟨true, c, i⟩ ⟨true, c, m⟩ := by
  cases head with
  | function => exact ⟨i, between, fun c => .refl⟩
  | constructor new =>
      obtain ⟨_, new, _, others⟩ := between.head new
      have here := Nat.lt_of_lt_of_le others.le before
      exact ⟨i + 1, others, fun c =>
        .single (.operator here new (by decide) (others.startsType starts before))⟩
  | abstract word new =>
      obtain ⟨_, word, _, between⟩ := between.head word
      obtain ⟨_, newWord, _, others⟩ := between.head new
      have there := Nat.lt_of_lt_of_le others.le before
      exact ⟨i + 1 + 1, others, fun c => .head (.operator (Nat.lt_of_succ_lt there) word (by decide)
        (between.startsType (.word new ps) before))
        (.single (.operator there newWord (by decide) (others.startsType starts before)))⟩

/-- Brackets with balanced parts between them are matched. -/
theorem Between.matched {q : TypePart} {inside : List TypePart}
    (between : row.Between i k (p :: (inside ++ q :: ps)) j 0) (opens : p.opens = true)
    (balanced : IsBalanced inside) (closes : q.closes = true) (before : j ≤ stop)
    (within : stop ≤ row.size) : ∃ m, i < stop ∧ row.opensBracket i = true ∧
      row.matching i stop = some m ∧ row.Between (m + 1) 0 ps j 0 := by
  obtain ⟨_, opens, _, between⟩ := between.head opens
  obtain ⟨m, n, held, behind⟩ := between.split
  obtain ⟨_, closes, _, others⟩ := behind.head closes
  have there : m < stop := Nat.lt_of_lt_of_le others.le before
  exact ⟨m, Nat.lt_of_le_of_lt (Nat.le_of_succ_le held.le) there, opens,
    (held.level balanced).matching opens (opensBracket_of_closes closes) closes there within, others⟩

/-- Over brackets behind an operand. -/
theorem Between.index {q : TypePart} {inside : List TypePart}
    (between : row.Between i k (p :: (inside ++ [q])) j 0) (opening : p.isPunct "[" = true)
    (tight : p.isTight = true) (balanced : IsBalanced inside) (closing : q.isPunct "]" = true)
    (before : j ≤ stop) (within : stop ≤ row.size) :
    k = 0 ∧ i < stop ∧ ∀ c, row.Advances stop ⟨false, c, i⟩ ⟨false, c, j⟩ := by
  obtain ⟨first, sign, unbroken, _⟩ := between.head opening
  obtain ⟨m, here, _, matched, others⟩ := between.matched
    (TypePart.opens_of_isPunct opening (by simp)) balanced
    (TypePart.closes_of_isPunct closing (by simp)) before within
  cases others
  exact ⟨first, here, fun c => .index here sign (unbroken tight) matched⟩

/-- What the reader does over each form of what is written. -/
def Read (row : TokenRow) (stop : Nat) (form : TypeForm) (i j : Nat) : Prop :=
  match form with
  | .type => ∀ c, ∃ c', c ≤ c' ∧ row.Follows stop ⟨true, c, i⟩ ⟨false, c', j⟩
  | .limit => ∀ c, ∃ c', c ≤ c' ∧ row.Follows stop ⟨false, c, i⟩ ⟨false, c', j⟩
  | .generics => ∀ c, row.Follows stop ⟨true, c, i⟩ ⟨true, c, j⟩
  | _ => True

end TokenRow

/-- The reader goes over what is written. -/
theorem Written.read {row : TokenRow} {i j stop : Nat} {form : TypeForm} {ps : List TypePart}
    (written : Written form ps) (within : stop ≤ row.size)
    (sized : ∀ k t, row.get? k = some t → t.stop = t.start + byteLength t.text.toList)
    (between : row.Between i 0 ps j 0) (before : j ≤ stop) : row.Read stop form i j := by
  induction written generalizing i j with
  | name name => exact fun c => ⟨c, Nat.le_refl c, between.qualified name before⟩
  | @literal p literal =>
      intro c
      obtain ⟨here, step, others⟩ := between.literal literal before
      cases others
      exact ⟨c, Nat.le_refl c, .single step⟩
  | @negative minus p sign number =>
      intro c
      obtain ⟨_, sign, _, between⟩ := between.head sign
      obtain ⟨here, step, others⟩ :=
        between.literal (TypePart.isLiteral_of_isNumber number) before
      cases others
      exact ⟨c, Nat.le_refl c, .head (.sign (Nat.lt_of_succ_lt here) sign (by decide)) (.single step)⟩
  | @applied ns as opens name angle tight arguments _ =>
      intro c
      obtain ⟨m, n, first, behind⟩ := between.split
      obtain ⟨rfl, sign, unbroken, others⟩ := behind.head angle
      have here := Nat.lt_of_lt_of_le others.le before
      obtain ⟨close, rfl, further, found⟩ :=
        arguments.isClosed.angleClose_eq within angle behind before sized
      exact ⟨c, Nat.le_refl c, (first.qualified name (Nat.le_of_lt here)).tail
        (.arguments here sign (unbroken tight) found further)⟩
  | @array t opens closes element opening tight closing ih =>
      intro c
      obtain ⟨m, n, first, behind⟩ := between.split
      obtain ⟨rfl, here, step⟩ :=
        @TokenRow.Between.index row _ _ _ _ _ _ [] behind opening tight .nil closing before within
      obtain ⟨c', grows, steps⟩ := ih first (Nat.le_of_lt here) c
      exact ⟨c', grows, steps.tail (step c')⟩
  | @member t u opens closes object opening tight key closing ih _ =>
      intro c
      obtain ⟨m, n, first, behind⟩ := between.split
      obtain ⟨rfl, here, step⟩ :=
        behind.index opening tight key.isClosed.isBalanced closing before within
      obtain ⟨c', grows, steps⟩ := ih first (Nat.le_of_lt here) c
      exact ⟨c', grows, steps.tail (step c')⟩
  | @bracketed inside opens closes opening balanced closing =>
      intro c
      obtain ⟨close, here, opens, matched, others⟩ :=
        between.matched opening balanced closing before within
      cases others
      exact ⟨c, Nat.le_refl c, .single (.group here opens matched)⟩
  | @prefixed p t operator operand ih =>
      intro c
      obtain ⟨text, known, word⟩ := List.any_eq_true.mp operator
      obtain ⟨_, word, _, others⟩ := between.head word
      obtain ⟨c', grows, steps⟩ := ih others before c
      have operators : ∀ text ∈ typePrefixes, TokenRow.typeOperators.contains text = true := by
        decide
      exact ⟨c', grows, steps.head (.operator (Nat.lt_of_lt_of_le others.le before) word
        (operators text known) (others.startsType operand.starts before))⟩
  | @led p t sign operand ih =>
      intro c
      obtain ⟨_, _, others, step⟩ := between.sign sign before
      obtain ⟨c', grows, steps⟩ := ih others before c
      exact ⟨c', grows, steps.head (step true c)⟩
  | @joined p t u first sign second ih ih' =>
      intro c
      obtain ⟨m, n, first, behind⟩ := between.split
      obtain ⟨rfl, here, others, step⟩ := behind.sign sign before
      obtain ⟨c', grows, steps⟩ := ih first (Nat.le_of_lt here) c
      obtain ⟨c'', grows', steps'⟩ := ih' others before c'
      exact ⟨c'', Nat.le_trans grows grows', (steps.tail (step false c')).trans steps'⟩
  | @function ks gs inside t opens closes arrow head generics opening balanced closing sign result
      generics' result' =>
      intro c
      have starts : StartsType (gs ++ opens :: (inside ++ closes :: arrow :: t)) := by
        rcases generics.starts with rfl | starts
        · exact .punct opening (by decide) _
        · exact starts.append _
      obtain ⟨m, between, words⟩ := between.functionHead head starts before
      obtain ⟨m', n, first, behind⟩ := between.split
      obtain ⟨rfl, _⟩ := behind.head opening
      obtain ⟨close, here, open', matched, behind⟩ := behind.matched
        (TypePart.opens_of_isPunct opening (by simp)) balanced
        (TypePart.closes_of_isPunct closing (by simp)) before within
      obtain ⟨_, sign, _, others⟩ := behind.head sign
      have there := Nat.lt_of_lt_of_le others.le before
      obtain ⟨c', grows, steps⟩ := result' others before c
      have parameters := ((words c).trans (generics' first (Nat.le_of_lt here) c)).tail
        (.group here open' matched)
      exact ⟨c', grows, (parameters.tail (.between there sign (by simp))).trans steps⟩
  | @conditional t u v w extend question colon test word limit sign yes sign' no ih₁ ih₂ ih₃ ih₄ =>
      intro c
      obtain ⟨m₁, _, first, behind⟩ := between.split
      obtain ⟨rfl, word, _, behind⟩ := behind.head word
      obtain ⟨m₂, _, second, behind'⟩ := behind.split
      obtain ⟨rfl, sign, _, behind'⟩ := behind'.head sign
      obtain ⟨m₃, _, third, last⟩ := behind'.split
      obtain ⟨rfl, sign', _, last⟩ := last.head sign'
      have before₃ : m₃ < stop := Nat.lt_of_lt_of_le last.le before
      have before₂ : m₂ < stop := Nat.lt_trans third.le before₃
      have before₁ : m₁ < stop := Nat.lt_trans second.le before₂
      obtain ⟨c₁, grows₁, steps₁⟩ := ih₁ first (Nat.le_of_lt before₁) c
      obtain ⟨c₂, grows₂, steps₂⟩ := ih₂ second (Nat.le_of_lt before₂) (c₁ + 1)
      obtain ⟨c₃, grows₃, steps₃⟩ := ih₃ third (Nat.le_of_lt before₃) c₂
      -- the one that this type opened is still open
      obtain ⟨c₂, rfl⟩ : ∃ k, c₂ = k + 1 := ⟨c₂ - 1, by omega⟩
      obtain ⟨c₃, rfl⟩ : ∃ k, c₃ = k + 1 := ⟨c₃ - 1, by omega⟩
      obtain ⟨c₄, grows₄, steps₄⟩ := ih₄ last before c₃
      refine ⟨c₄, by omega, ?_⟩
      have limit := (steps₁.tail (.limit before₁ word)).trans steps₂
      have branch := (limit.tail (.question before₂ sign)).trans steps₃
      exact (branch.tail (.colon before₃ sign')).trans steps₄
  | @inferred p n l word name limit ih =>
      intro c
      obtain ⟨_, word, _, between⟩ := between.head word
      have starts : StartsType (n :: l) := .name name l
      obtain ⟨_, named, _, others⟩ := between.head name
      have there := Nat.lt_of_lt_of_le others.le before
      obtain ⟨c', grows, steps⟩ := ih others before c
      refine ⟨c', grows, .head (.operator (Nat.lt_of_succ_lt there) word (by decide)
        (between.startsType starts before)) (.head (.name there named) steps)⟩
  | unlimited =>
      intro c
      cases between
      exact ⟨c, Nat.le_refl c, .refl⟩
  | @limited p t word type ih =>
      intro c
      obtain ⟨_, word, _, others⟩ := between.head word
      obtain ⟨c', grows, steps⟩ := ih others before (c + 1)
      exact ⟨c', by omega, steps.head (.limit (Nat.lt_of_lt_of_le others.le before) word)⟩
  | plain =>
      intro c
      cases between
      exact .refl
  | @generic opens ps angle parameters _ =>
      intro c
      obtain ⟨_, sign, _, others⟩ := between.head angle
      have here := Nat.lt_of_lt_of_le others.le before
      obtain ⟨close, rfl, further, found⟩ :=
        parameters.isClosed.angleClose_eq within angle between before sized
      exact .single (.generics here sign found further)
  | lastArgument | moreArguments | noDefault | default | lastParameter | moreParameters => trivial

/-- At a sign that does not go on with a type, the type ends with the part in front of it. -/
theorem Written.skipType_eq {row : TokenRow} {i j stop : Nat} {ps : List TypePart} {text : String}
    (written : Written .type ps) (within : stop ≤ row.size)
    (sized : ∀ k t, row.get? k = some t → t.stop = t.start + byteLength t.text.toList)
    (between : row.Between (i + 1) 0 ps j 0) (before : j < stop)
    (sign : row.isPunct j text = true) (ends : ["=", ";", "\x7b"].contains text = true) :
    row.skipType (i + 1) stop false = (j, row.stop (j - 1)) := by
  obtain ⟨c, _, steps⟩ := written.read within sized between (Nat.le_of_lt before) 0
  obtain ⟨n, enough, same⟩ := steps.typeFrom_eq (n := stop - (i + 1)) (by dsimp only; omega)
  rw [TokenRow.skipType, if_neg (Nat.succ_ne_zero i)]
  refine same.trans ?_
  obtain ⟨n, rfl⟩ : ∃ k, n = k + 1 := ⟨n - 1, by dsimp only at enough; omega⟩
  have leaves : row.typeSuffix stop false c j = .leave := by
    have among : text = "=" ∨ text = ";" ∨ text = "\x7b" := by simpa using ends
    simp only [TokenRow.typeSuffix, TokenRow.isPunct_eq sign, TokenRow.isWord_of_isPunct sign]
    rcases among with rfl | rfl | rfl <;> rfl
  rw [TokenRow.typeFrom, if_neg (Nat.not_le_of_lt before), if_neg Bool.false_ne_true, leaves]

end JsxPreview.Source
