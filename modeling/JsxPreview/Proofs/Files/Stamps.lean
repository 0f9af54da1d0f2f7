import JsxPreview.Files.Tree
import JsxPreview.Proofs.Files.Places
import JsxPreview.Proofs.Files.Writing

/-! # Stamps tell texts apart

Trees tell their texts apart when a place with one stamp in two of them
has one text in both (`StampsTell`).  A cache whose entries were all read in such trees (`Cache.Sound`)
answers what the tree itself answers, and stays sound (`Sound.read`).  Trees that follow on each other
by writes and removals tell their texts apart, since every write takes a stamp of its own
(`Follows.agree`). -/
set_option autoImplicit false
namespace JsxPreview.Files

def Node.stamp : Node → Stamp
  | .directory => ⟨0, 0⟩
  | .file stamp _ => stamp

namespace Tree

variable {t : Tree}

theorem stamp_eq (t : Tree) (p : Path) : t.stamp p = (t.look p).map Node.stamp := by
  unfold stamp
  cases t.look p with
  | error e => rfl
  | ok n => cases n <;> rfl

theorem look_of_stamp {p : Path} {stamp : Stamp} (success : t.stamp p = .ok stamp) :
    ∃ n, t.look p = .ok n ∧ n.stamp = stamp := by
  rw [stamp_eq] at success
  cases found : t.look p with
  | error e =>
      rw [found] at success
      exact absurd success (by simp [Except.map])
  | ok n =>
      rw [found] at success
      exact ⟨n, rfl, Except.ok.inj success⟩

theorem read_of_look {p : Path} {n : Node} (found : t.look p = .ok n) : t.read p = n.read :=
  bind_of_ok found

/-- One stamp of a place in both trees comes with one text. -/
def Agree (t t' : Tree) : Prop :=
  ∀ place n n', t.node? place = some n → t'.node? place = some n' → n.stamp = n'.stamp →
    n.read = n'.read

theorem Agree.read {t t' : Tree} (agree : t.Agree t') {p q : Path}
    (same : p.components = q.components) {stamp : Stamp} (first : t.stamp p = .ok stamp) (second : t'.stamp q = .ok stamp) :
    t.read p = t'.read q := by
  obtain ⟨n, found, rfl⟩ := look_of_stamp first
  obtain ⟨n', found', stamps⟩ := look_of_stamp second
  rw [read_of_look found, read_of_look found']
  refine agree (q.components.foldl descend []) n n' ?_ (look_place found') stamps.symm
  rw [← same]
  exact look_place found

end Tree

/-! ## Trees that grow by writes -/

namespace Tree

variable {t t' t'' : Tree}

theorem Agree.symm (agree : t.Agree t') : t'.Agree t :=
  fun place n n' found found' same => (agree place n' n found' found same.symm).symm

theorem Agree.refl (t : Tree) : t.Agree t := by
  intro place n n' found found' _
  rw [found] at found'
  cases found'
  rfl

/-- The files of a tree were written in the past of its clock. -/
def Timed (t : Tree) : Prop :=
  ∀ place n, t.node? place = some n → n = .directory ∨ 0 < n.stamp.time ∧ n.stamp.time ≤ t.clock

/-- What a later tree has in a place was there before, or was written since. -/
structure Follows (t t' : Tree) : Prop where
  clock : t.clock ≤ t'.clock
  node : ∀ place n, t'.node? place = some n →
    n = .directory ∨ t.node? place = some n ∨ t.clock < n.stamp.time

theorem Follows.refl (t : Tree) : t.Follows t := ⟨Nat.le_refl _, fun _ _ found => .inr (.inl found)⟩

theorem Follows.trans (first : t.Follows t') (second : t'.Follows t'') : t.Follows t'' where
  clock := Nat.le_trans first.clock second.clock
  node := by
    intro place n found
    rcases second.node place n found with directory | before | later
    · exact .inl directory
    · exact first.node place n before
    · exact .inr (.inr (Nat.lt_of_le_of_lt first.clock later))

theorem Follows.agree (follows : t.Follows t') (timed : t.Timed) : t.Agree t' := by
  intro place n n' found found' same
  have past := timed place n found
  rcases follows.node place n' found' with rfl | before | later
  · -- no file has the stamp of a directory
    rcases past with rfl | ⟨positive, _⟩
    · rfl
    · rw [same] at positive
      exact absurd positive (Nat.lt_irrefl 0)
  · rw [found] at before
    cases before
    rfl
  · rw [← same] at later
    rcases past with rfl | ⟨_, past⟩
    · exact absurd later (Nat.not_lt_zero _)
    · exact absurd past (Nat.not_le_of_lt later)

theorem stamp_content (time : Nat) (content : Content) :
    content.node time = .directory ∨ (content.node time).stamp.time = time := by
  cases content with
  | directory => exact .inl rfl
  | text | bytes => exact .inr rfl

theorem follows_write (t : Tree) (p : Path) (content : Content) : t.Follows (t.write p content) := by
  rcases t.write_cases p content with ⟨same, _⟩ | ⟨_, grown⟩
  · rw [same]
    exact .refl t
  · rw [grown]
    refine ⟨Nat.le_of_lt (t.clock_grow ..), fun place n found => ?_⟩
    rw [node?_grow] at found
    split at found
    · rw [← Option.some.inj found]
      rcases stamp_content (t.clock + 1) content with directory | written
      · exact .inl directory
      · exact .inr (.inr (by omega))
    · split at found
      · exact .inl (Option.some.inj found).symm
      · exact .inr (.inl found)

theorem follows_remove (t : Tree) (p : Path) : t.Follows (t.remove p) :=
  ⟨Nat.le_refl _, fun _ _ found => .inr (.inl (node?_of_remove found))⟩

theorem Timed.write (timed : t.Timed) (p : Path) (content : Content) :
    (t.write p content).Timed := by
  rcases t.write_cases p content with ⟨same, _⟩ | ⟨_, grown⟩
  · rw [same]
    exact timed
  · rw [grown]
    have later := t.clock_grow (placeOf p) (content.node (t.clock + 1))
    intro place n found
    rw [node?_grow] at found
    split at found
    · rw [← Option.some.inj found]
      exact (stamp_content (t.clock + 1) content).imp_right fun written => by omega
    · split at found
      · exact .inl (Option.some.inj found).symm
      · exact (timed place n found).imp_right fun past => by omega

theorem Timed.remove (timed : t.Timed) (p : Path) : (t.remove p).Timed :=
  fun place n found => timed place n (node?_of_remove found)

theorem timed_of_nodes (past : ∀ x ∈ t.nodes,
    x.2 = .directory ∨ 0 < x.2.stamp.time ∧ x.2.stamp.time ≤ t.clock) : t.Timed := by
  intro place n found
  by_cases top : place = []
  · subst top
    exact .inl (Option.some.inj found).symm
  · rw [node?_of_ne top] at found
    obtain ⟨front, back, split, _⟩ := List.lookup_eq_some_iff.mp found
    refine past (place, n) ?_
    rw [split]
    exact List.mem_append_right _ (List.mem_cons_self ..)

end Tree

/-- Trees of which no two have different contents with one stamp in one place. -/
def StampsTell (trees : List Tree) : Prop := ∀ t ∈ trees, ∀ t' ∈ trees, t.Agree t'

namespace Cache

/-- Every entry was read in one of the trees, with the stamp that the file had there. -/
def Sound (trees : List Tree) (c : Cache) : Prop :=
  ∀ e ∈ c.entries, ∃ t ∈ trees, t.stamp e.path = .ok e.stamp ∧ t.read e.path = .ok e.text

variable {trees : List Tree} {c : Cache} {files : Tree}

theorem Sound.empty (trees : List Tree) : Sound trees {} := fun _ member => nomatch member

theorem Sound.forget (sound : c.Sound trees) (p : Path) : (c.forget p).Sound trees :=
  fun e member => sound e ((List.mem_filter.mp member).1)

theorem Sound.clear (c : Cache) : c.clear.Sound trees := fun _ member => nomatch member

theorem Sound.insert (sound : c.Sound trees) {e : CachedText}
    (source : ∃ t ∈ trees, t.stamp e.path = .ok e.stamp ∧ t.read e.path = .ok e.text) :
    (c.insert e).Sound trees := by
  intro e' member
  rcases List.mem_cons.mp member with rfl | member
  · exact source
  · exact sound.forget e.path e' member

/-- What an entry holds is what the file reads as whenever it has the entry's stamp. -/
theorem Sound.text (sound : c.Sound trees) (tell : StampsTell trees) (here : files ∈ trees)
    {e : CachedText} (member : e ∈ c.entries) {p : Path}
    (same : e.path.components = p.components) (stamp : files.stamp p = .ok e.stamp) : files.read p = .ok e.text := by
  obtain ⟨t, there, stamped, text⟩ := sound e member
  rw [← (tell t there files here).read same stamped stamp]
  exact text

/-- A read through a sound cache is a read of the tree, and leaves the cache sound. -/
theorem Sound.read (sound : c.Sound trees) (tell : StampsTell trees) (here : files ∈ trees)
    (p : Path) : (c.read files p).1 = files.read p ∧ (c.read files p).2.Sound trees := by
  unfold Cache.read
  cases stamp : files.stamp p with
  | error e =>
      have failed : files.read p = .error e := by
        rw [Tree.stamp_eq] at stamp
        cases found : files.look p with
        | error e' =>
            rw [found] at stamp
            cases stamp
            rw [Tree.read, found]
            rfl
        | ok n =>
            rw [found] at stamp
            exact absurd stamp (by simp [Except.map])
      exact ⟨failed.symm, sound⟩
  | ok stamp' =>
      simp only
      cases kept : (c.find? p).filter (·.stamp = stamp') with
      | some e =>
          obtain ⟨found, stamped⟩ := Option.filter_eq_some_iff.mp kept
          have stamped : e.stamp = stamp' := of_decide_eq_true stamped
          refine ⟨?_, sound⟩
          have same : e.path.components = p.components :=
            beq_iff_eq.mp (List.find?_eq_some_iff_append.mp found).1
          exact (sound.text tell here (List.mem_of_find?_eq_some found) same
            (stamped ▸ stamp)).symm
      | none =>
          simp only
          cases read : files.read p with
          | error e => exact ⟨rfl, sound⟩
          | ok text => exact ⟨rfl, Sound.insert sound ⟨files, here, stamp, read⟩⟩

/-- A read that fails leaves the entries as they were. -/
theorem entries_of_failed_read {p : Path} {e : Fault} (failed : (c.read files p).1 = .error e) :
    (c.read files p).2.entries = c.entries := by
  unfold Cache.read at failed ⊢
  cases stamp : files.stamp p with
  | error e => rfl
  | ok stamp' =>
      rw [stamp] at failed
      simp only at failed ⊢
      cases kept : (c.find? p).filter (·.stamp = stamp') with
      | some entry => rfl
      | none =>
          rw [kept] at failed
          simp only at failed ⊢
          cases read : files.read p with
          | error e => rfl
          | ok text =>
              rw [read] at failed
              exact absurd failed (by simp)

end Cache

end JsxPreview.Files
