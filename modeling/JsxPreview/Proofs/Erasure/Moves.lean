import JsxPreview.Proofs.Erasure.Order

/-! # The walk moves on

The walk over a range of tokens takes what it records from the place where the range starts to the one
where it ends (`Erase.scan_moves`), and so does each reader up to the token that it gives, or to the end of
the range when that comes first.  So the imports of a text stand in order (`Erasure.inOrder_of_scan`). -/
set_option autoImplicit false
namespace JsxPreview.Source

open JsxPreview.Text

namespace Erase

variable {row : TokenRow} {source : List Char} {ts : List Token} {n low high i stop : Nat}

/-- A step without imports moves on, when the token that it gives is not in front of its own. -/
theorem Moves.leaf {α : Type} {x : Erase α} {g : GuardedErase α} {holds : α → Prop} {next : α → Nat}
    (lies : row.Lies source low high) (inRow : stop ≤ row.size)
    (keeps : ∀ n, Keeps (fun _ => True) (Erasure.Ordered source ts n) x) (runs : Runs g x holds)
    (le : ∀ a, holds a → i ≤ next a) : Moves source ts (row.reach low (min i stop)) x
      fun a => row.reach low (min (next a) stop) :=
  .of_keeps (keeps _) runs fun a here => by
    have := le a here
    exact lies.reach_mono (by omega) (by omega)

/-- A walk over the tokens of a container comes to its end. -/
theorem Moves.container {b : Body} {inner : TokenRow} {α : Type} {x : Erase α}
    (moves : Moves source ts (inner.reach b.start (min 0 inner.size)) x
      fun _ => inner.reach b.start inner.size) (among : inner.Among source ts b.start b.stop)
    (begins : n ≤ b.span.1) : Moves source ts n x fun _ => b.span.2 := by
  rw [Nat.zero_min] at moves
  exact moves.weaken begins fun _ => Nat.le_succ_of_le (among.lies.reach_le (Nat.le_refl _))

/-- Nothing is read in an empty range. -/
theorem scan_stays {fuel depth : Nat} {declaring : Option Nat} (empty : stop ≤ i) :
    Moves source ts n (scan row stop fuel depth declaring i) fun _ => n := by
  cases fuel with
  | zero => exact .fail ..
  | succ fuel =>
      unfold scan
      rw [if_pos empty]
      exact .pure (Nat.le_refl n)

section Steps

variable (among : row.Among source ts low high) (inRow : stop ≤ row.size) (j : Nat)
include among inRow

theorem annotation_moves : Moves source ts (row.reach low (min j stop)) ( annotation row j stop)
    fun next => row.reach low (min next stop) :=
  .leaf among.lies inRow (fun n => annotation_keeps (ordered_steady source ts n) trivial ..)
    (Guarded.annotation_runs among.lies inRow j) fun _ => id

theorem maybeTypeParameters_moves :
    Moves source ts (row.reach low (min j stop)) (typeParameters? row j stop)
      fun next => row.reach low (min next stop) :=
  .leaf among.lies inRow (fun n => maybeTypeParameters_keeps (ordered_steady source ts n) trivial ..)
    (Guarded.maybeTypeParameters_runs inRow j) fun _ => id

theorem memberMark_moves : Moves source ts (row.reach low (min j stop)) (memberMark row j stop)
    fun next => row.reach low (min next stop) :=
  .leaf among.lies inRow (fun n => memberMark_keeps (ordered_steady source ts n) trivial ..)
    (Guarded.memberMark_runs among.lies j) fun _ => id

theorem modifiers_moves (closes : row.closesBracket stop = true) (le : j ≤ stop) :
    Moves source ts (row.reach low (min j stop)) (modifiers row (stop - j) j false)
      fun read => row.reach low (min read.1 stop) :=
  .leaf among.lies inRow (fun n => modifiers_keeps (ordered_steady source ts n) trivial ..)
    (Guarded.modifiers_runs (Nat.add_sub_cancel' le) closes false) fun _ => id

theorem nonNullAssertion_moves (here : j < row.size) :
    Moves source ts (row.reach low (min j stop)) (nonNullAssertion row j)
      fun next => row.reach low (min next stop) :=
  .leaf among.lies inRow (fun n => nonNullAssertion_keeps (ordered_steady source ts n) trivial ..)
    (Guarded.nonNullAssertion_runs j here) fun _ => Nat.le_of_lt

end Steps

variable {first last : Nat}

mutual

theorem scan_moves (spanned : Spanned first last ts) {row : TokenRow} {low high : Nat}
    (among : row.Among source ts low high) {stop : Nat} (inRow : stop ≤ row.size) :
    (fuel depth : Nat) → (declaring : Option Nat) → (i : Nat) →
    Moves source ts (row.reach low (min i stop)) (scan row stop fuel depth declaring i)
      fun _ => row.reach low stop
  | 0, _, _, _ => .fail ..
  | fuel + 1, depth, declaring, i => by
      have rest (depth : Nat) (declaring : Option Nat) (next : Nat) :
          Moves source ts (row.reach low (min next stop)) (scan row stop fuel depth declaring next)
            fun _ => row.reach low stop := scan_moves spanned among inRow fuel depth declaring next
      have names (less : i < stop) : Moves source ts (row.reach low (min i stop))
          (binding row stop fuel (i + 1)) fun next => row.reach low (min next stop) :=
        (binding_moves spanned among inRow fuel (i + 1)).since among.lies (by omega) (by omega)
      unfold scan
      refine .branch (fun _ => .pure (among.lies.reach_mono (by omega) inRow)) fun inside => ?_
      have less : i < stop := Nat.lt_of_not_le inside
      refine .ite (.ite (.fail ..) (.bind (names less) fun _ => rest ..))
        (.ite (.bind (names less) fun _ => rest ..) ?_)
      exact .bind (step_moves spanned among inRow fuel i less) fun _ =>
        .ite (rest ..) (.ite (rest ..) (.ite (rest ..) (rest ..)))
termination_by structural fuel => fuel

theorem step_moves (spanned : Spanned first last ts) {row : TokenRow} {low high : Nat}
    (among : row.Among source ts low high) {stop : Nat} (inRow : stop ≤ row.size) :
    (fuel i : Nat) → i < stop → Moves source ts (row.reach low (min i stop)) (step row stop fuel i)
      fun next => row.reach low (min next stop)
  | 0, _, _ => .fail ..
  | fuel + 1, i, less => by
      have onward : row.reach low (min i stop) ≤ row.reach low (min (i + 1) stop) :=
        among.lies.reach_mono (by omega) (by omega)
      -- the containers of the token at `i`
      have within {t : Token} (found : row.get? i = some t) :
          Follow Body.span (row.reach low (min i stop)) (row.reach low (min (i + 1) stop))
            t.shape.bodies := by
        have starts := among.lies.reach_le_start (TokenRow.lt_of_get? found)
        rw [Nat.min_eq_left (Nat.le_of_lt less), Nat.min_eq_left less]
        rw [TokenRow.start_of_get? found] at starts
        obtain ⟨us, rfl, -, ⟨_, _, _, bodies, _⟩⟩ := among.lies
        rw [TokenRow.reach, TokenRow.stop_of_get? found]
        exact (bodies t (TokenRow.mem_of_get? found)).low_le (Nat.le_succ_of_le starts)
      unfold step
      split
      case h_1 parts shape =>
        obtain ⟨t, found, same⟩ := Option.map_eq_some_iff.mp shape
        have inner := within found
        rw [same] at inner
        refine .bind (templateParts_moves spanned fuel parts inner fun b container => ?_)
          fun _ => .pure (Nat.le_refl _)
        exact among.inside found (same ▸ container)
      case h_2 element shape =>
        obtain ⟨t, found, same⟩ := Option.map_eq_some_iff.mp shape
        have inner := within found
        rw [same] at inner
        refine .bind (bodies_moves spanned fuel element.bodies inner fun b container => ?_)
          fun _ => .pure (Nat.le_refl _)
        exact among.inside found (same ▸ container)
      case h_3 shape =>
        obtain ⟨t, found, same⟩ := Option.map_eq_some_iff.mp shape
        exact word_moves spanned among inRow fuel i less
          (by simp [TokenRow.isAnyWord, found, Token.isWord, same])
      case h_4 =>
        have there : i < row.size := Nat.lt_of_lt_of_le less inRow
        refine .ite (parenthesis_moves spanned among inRow fuel i) (.ite ?_ (.ite ?_ (.pure onward)))
        · exact .leaf among.lies inRow
            (fun n => typeArguments_keeps (ordered_steady source ts n) trivial ..)
            (Guarded.typeArguments_runs among.lies inRow i there) fun _ => Nat.le_of_lt
        · exact nonNullAssertion_moves among inRow i there
      case h_5 => exact .pure onward
termination_by structural fuel => fuel

theorem templateParts_moves (spanned : Spanned first last ts) {row : TokenRow} {n high : Nat} :
    (fuel : Nat) → (parts : List TemplatePart) →
    Follow Body.span n high (Shape.template parts).bodies →
    (∀ b ∈ (Shape.template parts).bodies, (row.nested b.tokens).Among source ts b.start b.stop) →
    Moves source ts n (templateParts row fuel parts) fun _ => high
  | 0, _, _, _ => .fail ..
  | _ + 1, [], follow, _ => .pure follow.le
  | fuel + 1, .raw _ _ :: rest, follow, inside => templateParts_moves spanned fuel rest follow inside
  | fuel + 1, .subst b :: rest, follow, inside => by
      obtain ⟨begins, _, others⟩ := follow
      have own := inside b (List.mem_cons_self ..)
      exact .bind ((scan_moves spanned own (Nat.le_refl _) fuel 0 none 0).container own begins)
        fun _ => templateParts_moves spanned fuel rest others fun b container =>
          inside b (List.mem_cons_of_mem _ container)
termination_by structural fuel => fuel

theorem bodies_moves (spanned : Spanned first last ts) {row : TokenRow} {n high : Nat} :
    (fuel : Nat) → (bs : List Body) → Follow Body.span n high bs →
    (∀ b ∈ bs, (row.nested b.tokens).Among source ts b.start b.stop) →
    Moves source ts n (bodies row fuel bs) fun _ => high
  | 0, _, _, _ => .fail ..
  | _ + 1, [], follow, _ => .pure follow.le
  | fuel + 1, b :: rest, follow, inside => by
      obtain ⟨begins, _, others⟩ := follow
      have own := inside b (List.mem_cons_self ..)
      exact .bind ((scan_moves spanned own (Nat.le_refl _) fuel 0 none 0).container own begins)
        fun _ => bodies_moves spanned fuel rest others fun b container =>
          inside b (List.mem_cons_of_mem _ container)
termination_by structural fuel => fuel

theorem word_moves (spanned : Spanned first last ts) {row : TokenRow} {low high : Nat}
    (among : row.Among source ts low high) {stop : Nat} (inRow : stop ≤ row.size) :
    (fuel i : Nat) → i < stop → row.isAnyWord i = true →
    Moves source ts (row.reach low (min i stop)) (word row stop fuel i)
      fun next => row.reach low (min next stop)
  | 0, _, _, _ => .fail ..
  | fuel + 1, i, less, isWord => by
      have onward : row.reach low (min i stop) ≤ row.reach low (min (i + 1) stop) :=
        among.lies.reach_mono (by omega) (by omega)
      have there : i < row.size := Nat.lt_of_lt_of_le less inRow
      unfold word
      refine .state fun e => .ite ?_ (.ite ?_ (.ite ?_ (.ite ?_ (.ite (.fail ..) (.ite (.fail ..)
        (.branch (fun opens => ?_) fun _ => .ite ?_ (.ite ?_ (.ite ?_ (.ite ?_ (.pure onward))))))))))
      · exact .leaf among.lies inRow (fun n => typeAlias_keeps (ordered_steady source ts n) trivial ..)
          (Guarded.typeAlias_runs among.lies inRow i) fun _ => Nat.le_of_lt
      · exact .leaf among.lies inRow (fun n => interface_keeps (ordered_steady source ts n) trivial ..)
          (Guarded.interface_runs inRow i) fun _ => Nat.le_of_lt
      · exact .leaf among.lies inRow (fun n => ambient_keeps (ordered_steady source ts n) trivial ..)
          (Guarded.ambient_runs among.lies inRow i) fun _ => Nat.le_of_lt
      · exact .bind (.blank ..)
          fun _ => .pure onward
      · obtain ⟨t, found, known⟩ := TokenRow.get?_of_any isWord
        simp only [Bool.and_eq_true, beq_iff_eq] at opens
        rw [Nat.min_eq_left (Nat.le_of_lt less)]
        exact importStatement_moves among spanned inRow less (TokenRow.isWord_iff.mpr
          ⟨t, found, known, (TokenRow.text_of_get? found).symm.trans opens.1.1.1⟩)
      · exact .leaf among.lies inRow (fun n => exportStatement_keeps (ordered_steady source ts n) trivial ..)
          (Guarded.exportStatement_runs i stop) fun _ => Nat.le_of_lt
      · exact functionHead_moves spanned among inRow fuel i
      · refine .bind (.leaf among.lies inRow (fun n => classHead_keeps (ordered_steady source ts n) trivial ..)
          (Guarded.classHead_runs inRow i) fun _ => Nat.le_of_lt) fun brace => ?_
        refine .ite (.pure (Nat.le_refl _)) (.bracket fun close matched => ?_)
        have inside := TokenRow.matching_lt matched
        obtain ⟨_, within, inRow', closes⟩ := TokenRow.matching_spec matched
        refine .bind ((members_moves spanned among (Nat.le_of_lt inRow') closes fuel (brace + 1)).since
            among.lies (by omega) (by omega)) fun _ => .pure ?_
        exact among.lies.reach_mono (by omega) (by omega)
      · exact .leaf among.lies inRow (fun n => assertion_keeps (ordered_steady source ts n) trivial ..)
          (Guarded.assertion_runs among.lies inRow i there) fun _ => Nat.le_of_lt
termination_by structural fuel => fuel

theorem binding_moves (spanned : Spanned first last ts) {row : TokenRow} {low high : Nat}
    (among : row.Among source ts low high) {stop : Nat} (inRow : stop ≤ row.size) :
    (fuel j : Nat) → Moves source ts (row.reach low (min j stop)) (binding row stop fuel j)
      fun next => row.reach low (min next stop)
  | 0, _ => .fail ..
  | fuel + 1, j => by
      unfold binding
      extract_lets rest
      have restMoves {n : Nat} (target : Option Nat) (le : n ≤ row.reach low (min (target.getD j) stop)) :
          Moves source ts n (rest target) fun next => row.reach low (min next stop) := by
        cases target with
        | none => exact .pure le
        | some k =>
            have typed (k' : Nat) (behind : k ≤ k') : Moves source ts n ( annotation row k' stop)
                fun next => row.reach low (min next stop) :=
              (annotation_moves among inRow k').earlier
                (Nat.le_trans le (among.lies.reach_mono (by simp only [Option.getD_some]; omega) (by omega)))
            exact .ite (.bind (.blank ..)
              fun _ => typed (k + 1) (Nat.le_succ k)) (typed k (Nat.le_refl k))
      refine .ite (.given (restMoves (some (j + 1)) (among.lies.reach_mono ?_ (by omega)))) (.ite ?_
        (.given (restMoves none (Nat.le_refl _))))
      · simp only [Option.getD_some]
        omega
      split
      · exact .given (restMoves none (Nat.le_refl _))
      case h_2 close matched =>
        have inside := TokenRow.matching_lt matched
        obtain ⟨_, within, inRow', _⟩ := TokenRow.matching_spec matched
        refine .bind ((scan_moves spanned among (Nat.le_of_lt inRow') fuel 0 none (j + 1)).since
            among.lies (by omega) (by omega)) fun _ => .given ?_
        refine restMoves (some (close + 1)) (among.lies.reach_mono ?_ (by omega))
        simp only [Option.getD_some]
        omega
termination_by structural fuel => fuel

theorem functionHead_moves (spanned : Spanned first last ts) {row : TokenRow} {low high : Nat}
    (among : row.Among source ts low high) {stop : Nat} (inRow : stop ≤ row.size) :
    (fuel i : Nat) → Moves source ts (row.reach low (min i stop)) (functionHead row stop fuel i)
      fun next => row.reach low (min next stop)
  | 0, _ => .fail ..
  | fuel + 1, i => by
      unfold functionHead
      extract_lets j
      have behind : i ≤ if row.isAnyWord j then j + 1 else j := by
        unfold j
        split <;> split <;> omega
      refine .bind ((maybeTypeParameters_moves among inRow _).since
          among.lies (by omega) (by omega)) fun opening =>
          .ite (.pure (Nat.le_refl _)) ?_
      refine .bind (parameters_moves spanned among fuel opening) fun close => ?_
      have inside := row.matching_getD_le opening stop
      refine .bind ((annotation_moves among inRow (close + 1)).since
          among.lies (by omega) (by omega)) fun k =>
          .ite (.pure (Nat.le_refl _)) ?_
      refine .bind (.blank ..)
        fun _ => .pure (among.lies.reach_mono ?_ (by omega))
      split <;> omega
termination_by structural fuel => fuel

theorem parameters_moves (spanned : Spanned first last ts) {row : TokenRow} {low high : Nat}
    (among : row.Among source ts low high) {stop : Nat} :
    (fuel i : Nat) → Moves source ts (row.reach low (min i stop)) (parameters row stop fuel i)
      fun close => row.reach low (min close ((row.matching i stop).getD stop))
  | 0, _ => .fail ..
  | fuel + 1, i => by
      unfold parameters
      refine .bracket fun close matched => ?_
      have inside := TokenRow.matching_lt matched
      obtain ⟨_, within, inRow', _⟩ := TokenRow.matching_spec matched
      extract_lets rest
      rw [matched, Option.getD_some]
      have fromMoves (j : Nat) (behind : i < j) : Moves source ts (row.reach low (min i stop))
          (parametersFrom row close fuel j >>= rest) fun last => row.reach low (min last close) :=
        .bind ((parametersFrom_moves spanned among (Nat.le_of_lt inRow') fuel j).since
            among.lies (by omega) (by omega)) fun _ =>
            .pure (among.lies.reach_mono (by omega) (by omega))
      have receiver := row.skipType_le (i + 3) close false
      generalize row.skipType (i + 3) close false = read at receiver ⊢
      obtain ⟨next, place⟩ := read
      simp only at receiver
      refine .ite (.ite ?_ ?_) (fromMoves _ (Nat.lt_succ_self i))
      · exact .bind (.blank ..)
          fun _ => fromMoves _ (by omega)
      · exact .bind (.blank ..)
          fun _ => fromMoves _ (by omega)
termination_by structural fuel => fuel

theorem parametersFrom_moves (spanned : Spanned first last ts) {row : TokenRow} {low high : Nat}
    (among : row.Among source ts low high) {close : Nat} (inRow : close ≤ row.size) :
    (fuel j : Nat) → Moves source ts (row.reach low (min j close)) (parametersFrom row close fuel j)
      fun _ => row.reach low close
  | 0, _ => .fail ..
  | fuel + 1, j => by
      unfold parametersFrom
      extract_lets first named
      -- what is read behind the name or the pattern of a parameter
      have behind (k : Nat) : Moves source ts (row.reach low (min k close)) (do
          let k ← annotation row k close
          let comma := row.commaFrom false (close - k) 0 k
          if k < comma then scan row comma fuel 0 none k
          parametersFrom row close fuel (comma + 1)) fun _ => row.reach low close := by
        refine .bind (annotation_moves among inRow k) fun k => ?_
        have after := row.le_commaFrom false (close - k) 0 k
        have inside := row.commaFrom_le false (close - k) 0 k
        generalize row.commaFrom false (close - k) 0 k = comma at after inside ⊢
        have others {n : Nat} (le : n ≤ min (comma + 1) close) : Moves source ts (row.reach low n)
            (parametersFrom row close fuel (comma + 1)) fun _ => row.reach low close :=
          (parametersFrom_moves spanned among inRow fuel (comma + 1)).since among.lies le (by omega)
        refine .branch (fun less => ?_) fun _ => others (by omega)
        exact .bind ((scan_moves spanned among (by omega) fuel 0 none k).since
            among.lies (by omega) (by omega)) fun _ => others (by omega)
      have namedMoves {n : Nat} (target : Option Nat) (inside : n ≤ row.reach low close)
          (le : ∀ k ∈ target, n ≤ row.reach low (min k close)) :
          Moves source ts n (named target) fun _ => row.reach low close := by
        cases target with
        | none => exact .pure inside
        | some k =>
            have here := le k rfl
            refine .ite (.bind (.blank ..) fun _ => (behind _).earlier ?_)
              ((behind _).earlier ?_)
            · exact Nat.le_trans here (among.lies.reach_mono (by split <;> omega) (by omega))
            · exact Nat.le_trans here (among.lies.reach_mono (by split <;> omega) (by omega))
      have starts : j ≤ first := by
        unfold first
        split <;> omega
      have inside : row.reach low (min j close) ≤ row.reach low close :=
        among.lies.reach_mono (by omega) inRow
      have onward (k : Nat) (le : j ≤ k) (k' : Nat) (same : k' ∈ some k) :
          row.reach low (min j close) ≤ row.reach low (min k' close) := by
        cases same
        exact among.lies.reach_mono (by omega) (by omega)
      refine .ite (.pure inside) (.ite (.fail ..) (.ite
        (.given (namedMoves (some (first + 1)) inside (onward _ (by omega))))
        (.ite ?_ (.given (namedMoves (some first) inside (onward _ starts))))))
      · split
        · exact .given (namedMoves none inside nofun)
        case h_2 patternEnd matched =>
          have less := TokenRow.matching_lt matched
          obtain ⟨_, within, inRow', _⟩ := TokenRow.matching_spec matched
          refine .bind ((scan_moves spanned among (Nat.le_of_lt inRow') fuel 0 none (first + 1)).since
              among.lies (by omega) (by omega)) fun _ =>
              .given (namedMoves (some (patternEnd + 1)) (among.lies.reach_mono (by omega) inRow)
                fun k same => ?_)
          cases same
          exact among.lies.reach_mono (by omega) (by omega)
termination_by structural fuel => fuel

theorem parenthesis_moves (spanned : Spanned first last ts) {row : TokenRow} {low high : Nat}
    (among : row.Among source ts low high) {stop : Nat} (inRow : stop ≤ row.size) :
    (fuel i : Nat) → Moves source ts (row.reach low (min i stop)) (parenthesis row stop fuel i)
      fun next => row.reach low (min next stop)
  | 0, _ => .fail ..
  | fuel + 1, i => by
      have onward {k : Nat} (le : i ≤ k) : row.reach low (min i stop) ≤ row.reach low (min k stop) :=
        among.lies.reach_mono (by omega) (by omega)
      unfold parenthesis
      split
      case h_1 => exact .pure (onward (Nat.le_succ i))
      case h_2 close matched =>
        have within := (TokenRow.matching_spec matched).2.1
        have read {rest : Erase Nat} (moves : Moves source ts (row.reach low close) rest
            fun next => row.reach low (min next stop)) : Moves source ts (row.reach low (min i stop))
              (parameters row stop fuel i >>= fun _ => rest) fun next => row.reach low (min next stop) :=
          .bind ((parameters_moves spanned among fuel i).weaken (Nat.le_refl _) fun last => by
            rw [matched]
            exact among.lies.reach_mono (Nat.min_le_right ..) (by omega)) fun _ => moves
        have ends {next : Nat} (behind : close < next) : Moves source ts (row.reach low close)
            (pure next) fun next => row.reach low (min next stop) :=
          .pure (among.lies.reach_mono (by omega) (by omega))
        have arrow := row.skipType_le (close + 1 + 1) stop true
        have body := row.skipType_le (close + 1 + 1) stop false
        dsimp only
        generalize row.skipType (close + 1 + 1) stop true = arrowRead at arrow ⊢
        generalize row.skipType (close + 1 + 1) stop false = bodyRead at body ⊢
        refine .ite (read (ends (Nat.lt_succ_self close))) (.ite
          (read (.bind (.blank ..) fun _ => ends (Nat.lt_of_succ_lt arrow))) (.state fun e => ?_))
        refine .ite (read (ends (Nat.lt_succ_self close))) (.ite (read (ends (Nat.lt_succ_self close)))
          (.ite (.ite ?_ (.pure (onward (Nat.le_succ i)))) (.pure (onward (Nat.le_succ i)))))
        exact read (.bind (.blank ..) fun _ => ends (Nat.lt_of_succ_lt body))
termination_by structural fuel => fuel

theorem members_moves (spanned : Spanned first last ts) {row : TokenRow} {low high : Nat}
    (among : row.Among source ts low high) {close : Nat} (inRow : close ≤ row.size)
    (closes : row.closesBracket close = true) :
    (fuel j : Nat) → Moves source ts (row.reach low (min j close)) (members row close fuel j)
      fun _ => row.reach low close
  | 0, _ => .fail ..
  | fuel + 1, member => by
      unfold members
      extract_lets next
      have others {m : Nat} (j : Nat) (le : m ≤ min j close) : Moves source ts (row.reach low m)
          (members row close fuel j) fun _ => row.reach low close :=
        (members_moves spanned among inRow closes fuel j).since among.lies le (by omega)
      refine .branch (fun _ => .pure (among.lies.reach_mono (by omega) inRow)) fun inside =>
        .ite (others _ (by omega)) (.ite (.bracket fun block matched => ?_) ?_)
      · have less := TokenRow.matching_lt matched
        obtain ⟨_, within, inRow', _⟩ := TokenRow.matching_spec matched
        exact .bind ((scan_moves spanned among (Nat.le_of_lt inRow') fuel 0 none (member + 2)).since
            among.lies (by omega) (by omega)) fun _ =>
            others _ (by omega)
      · refine .bind (modifiers_moves among inRow member closes (by omega))
          fun (j, dropped) => .ite ?_ ?_
        · exact .bind (.leaf among.lies inRow
            (fun n => indexSignature_keeps (ordered_steady source ts n) trivial ..)
            (Guarded.indexSignature_runs among.lies inRow j member) fun _ => Nat.le_of_lt) fun k =>
              others k (Nat.le_refl _)
        · extract_lets starred name named
          have behind : j ≤ name := by
            unfold name starred
            split <;> split <;> omega
          have namedMoves {n : Nat} (target : Option Nat) (inside : n ≤ row.reach low close)
              (le : ∀ k ∈ target, n ≤ row.reach low (min k close)) :
              Moves source ts n (named target) fun _ => row.reach low close := by
            cases target with
            | none => exact .pure inside
            | some k =>
                exact .bind ((memberMark_moves among inRow k).earlier (le k rfl))
                  fun k => .bind (maybeTypeParameters_moves among inRow k) fun k => .ite
                    (.bind (method_moves spanned among inRow fuel member dropped k) fun k =>
                      others k (Nat.le_refl _))
                    (.bind (field_moves spanned among inRow fuel member dropped k) fun k =>
                      others k (Nat.le_refl _))
          have inside : row.reach low (min j close) ≤ row.reach low close :=
            among.lies.reach_mono (by omega) inRow
          have onward (k : Nat) (le : j ≤ k) (k' : Nat) (same : k' ∈ some k) :
              row.reach low (min j close) ≤ row.reach low (min k' close) := by
            cases same
            exact among.lies.reach_mono (by omega) (by omega)
          refine .ite ?_ (.ite (.given (namedMoves (some (name + 1)) inside (onward _ (by omega))))
            (.given (namedMoves (some name) inside (onward _ behind))))
          split
          · exact .given (namedMoves none inside nofun)
          case h_2 computed matched =>
            have less := TokenRow.matching_lt matched
            obtain ⟨_, within, inRow', _⟩ := TokenRow.matching_spec matched
            refine .bind ((scan_moves spanned among (Nat.le_of_lt inRow') fuel 0 none (name + 1)).since
                among.lies (by omega) (by omega)) fun _ =>
                .given (namedMoves (some (computed + 1)) (among.lies.reach_mono (by omega) inRow)
                  fun k same => ?_)
            cases same
            exact among.lies.reach_mono (by omega) (by omega)
termination_by structural fuel => fuel

theorem method_moves (spanned : Spanned first last ts) {row : TokenRow} {low high : Nat}
    (among : row.Among source ts low high) {close : Nat} (inRow : close ≤ row.size) :
    (fuel member : Nat) → (dropped : Bool) → (j : Nat) →
    Moves source ts (row.reach low (min j close)) (method row close fuel member dropped j)
      fun next => row.reach low (min next close)
  | 0, _, _, _ => .fail ..
  | fuel + 1, member, dropped, j => by
      unfold method
      refine .bind (parameters_moves spanned among fuel j) fun paren => ?_
      have inside := row.matching_getD_le j close
      refine .bind ((annotation_moves among inRow (paren + 1)).since
          among.lies (by omega) (by omega)) fun k =>
          .ite (.bracket fun body matched => ?_) ?_
      · have less := TokenRow.matching_lt matched
        obtain ⟨_, within, inRow', _⟩ := TokenRow.matching_spec matched
        refine .ite (.bind (.blank ..) fun _ => .pure (among.lies.reach_mono (by omega) (by omega)))
          (.bind ((scan_moves spanned among (Nat.le_of_lt inRow') fuel 0 none (k + 1)).since
              among.lies (by omega) (by omega)) fun _ =>
              .pure (among.lies.reach_mono (by omega) (by omega)))
      · refine .bind (.blank ..) fun _ => .pure (among.lies.reach_mono ?_ (by omega))
        split <;> omega
termination_by structural fuel => fuel

theorem field_moves (spanned : Spanned first last ts) {row : TokenRow} {low high : Nat}
    (among : row.Among source ts low high) {close : Nat} (inRow : close ≤ row.size) :
    (fuel member : Nat) → (dropped : Bool) → (j : Nat) →
    Moves source ts (row.reach low (min j close)) (field row close fuel member dropped j)
      fun next => row.reach low (min next close)
  | 0, _, _, _ => .fail ..
  | fuel + 1, member, dropped, j => by
      unfold field
      refine .bind (annotation_moves among inRow j) fun j => ?_
      extract_lets rest stop
      have restMoves {m : Nat} (k : Nat) (le : m ≤ min k close) : Moves source ts (row.reach low m)
          (rest k) fun next => row.reach low (min next close) := by
        unfold rest
        extract_lets last ends
        have behind : k ≤ last := by
          unfold last
          split <;> omega
        have endMoves (u : Unit) : Moves source ts (row.reach low m) (ends u)
            fun next => row.reach low (min next close) := by
          refine .pure (among.lies.reach_mono ?_ (by omega))
          split <;> omega
        exact .ite (.bind (.blank ..) endMoves) (endMoves ())
      refine .ite ?_ (.given (restMoves j (Nat.le_refl _)))
      have bounds : j + 1 ≤ stop ∧ stop ≤ j + 1 + (close - (j + 1)) := fieldEnd_bounds
      rcases Nat.lt_or_ge (j + 1) stop with less | empty
      · exact .bind ((scan_moves spanned among (by omega) fuel 0 none (j + 1)).since
          among.lies (by omega) (by omega)) fun _ =>
            .given (restMoves stop (by omega))
      · exact .bind (scan_stays empty) fun _ => .given (restMoves stop (by omega))
termination_by structural fuel => fuel

end

end Erase

variable {source : List Char} {ts : List Token}

/-- The recorded imports of a text stand one behind the other, but for some that bring no names. -/
theorem Erasure.inOrder_of_scan (tiles : Tiles source 0 (byteLength source) ts)
    (spanned : Spanned 0 (byteLength source) ts) {fuel depth : Nat} {declaring : Option Nat} {e : Erasure}
    {u : Unit} (ran : (Erase.scan (.ofTokens source ts) (TokenRow.ofTokens source ts).size fuel depth
      declaring 0).run {} = .ok (u, e)) :
    e.imports.Pairwise fun i j => i.span.stop ≤ j.span.start ∨ j.Bare := by
  have whole : (TokenRow.ofTokens source ts).Among source ts 0 (byteLength source) :=
    ⟨⟨ts, .here, rfl⟩, ⟨ts, rfl, tiles, spanned⟩⟩
  have moves := Erase.scan_moves spanned whole (Nat.le_refl _) fuel depth declaring 0
  exact (moves.moved {} e u ran ⟨.nil, nofun⟩).inOrder

end JsxPreview.Source
