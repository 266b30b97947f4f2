import LinuxTla.Lib.Counts
import LinuxTla.LockMount.Mountpoints
import LinuxTla.LockMount.Model
import Mathlib.Algebra.Order.Group.Int

/-! The mounts of `LockMount.tla` form a forest whose references are all accounted for,
and every mutator keeps it one. -/

namespace LinuxTla.LockMount

open Lib

variable {M E N T : Type} [LinearOrder M]
  {cfg : Config M E N T} {st after : Tables M E N T} {own : M → ℕ} {x y p : M} {d e : E} {t : Task T}

/-- The pointer to the mount below, if there is one. -/
def Tables.above (st : Tables M E N T) (x : M) : Option M :=
  if (st.mnt x).alive = true ∧ st.HasParent x then some (st.mnt x).parent else none

/-- `own` are the references besides the one of a connected mount. -/
structure Forest (cfg : Config M E N T) (own : M → ℕ) (st : Tables M E N T) : Prop where
  count : ∀ x, (st.mnt x).alive = true → (st.mnt x).count = (if st.HasParent x then 1 else 0) + own x
  dead : ∀ x, (st.mnt x).alive = false → own x = 0
  freed : ∀ x, (st.mnt x).alive = true → (st.mnt x).freed = false
  hashed : ∀ x, (st.mnt x).hashed = true ↔ (st.mnt x).alive = true ∧ st.HasParent x
  parent : ∀ x, (st.mnt x).alive = true → (st.mnt (st.mnt x).parent).alive = true
  acyclic : Acyclic st.above
  unique : ∀ x y, (st.mnt x).alive = true → (st.mnt y).alive = true → st.HasParent x → st.HasParent y →
    (st.mnt x).parent = (st.mnt y).parent → (st.mnt x).mp = (st.mnt y).mp → x = y
  inherit : ∀ x, (st.mnt x).alive = true → st.HasParent x → (st.mnt (st.mnt x).parent).ns ≠ none → (st.mnt x).ns ≠ none
  umount : ∀ x, (st.mnt x).alive = true → ((st.mnt x).umount = true ↔ (st.mnt x).ns = none)
  root : ∀ x, IsRoot cfg x → (st.mnt x).alive = true ∧ ¬ st.HasParent x ∧ (st.mnt x).ns ≠ none

/-! ### References alone -/

theorem setCount_mnt_ne {c : ℤ} (other : y ≠ x) : (st.setCount x c).mnt y = st.mnt y := by
  rw [Tables.setCount_mnt, Function.update_of_ne other]

theorem setCount_same (st : Tables M E N T) (x : M) (c : ℤ) (y : M) :
    ∃ c', (st.setCount x c).mnt y = { st.mnt y with count := c' } := by
  by_cases here : y = x
  · subst here
    exact ⟨c, by rw [Tables.setCount_mnt, Function.update_self]⟩
  · exact ⟨(st.mnt y).count, setCount_mnt_ne here⟩

theorem Forest.recount {own' : M → ℕ} (ok : Forest cfg own st)
    (same : ∀ x, ∃ c, after.mnt x = { st.mnt x with count := c })
    (count : ∀ x, (st.mnt x).alive = true → (after.mnt x).count = (if st.HasParent x then 1 else 0) + own' x)
    (dead : ∀ x, (st.mnt x).alive = false → own' x = 0) : Forest cfg own' after := by
  have alive : ∀ x, (after.mnt x).alive = (st.mnt x).alive := fun x => by obtain ⟨c, same⟩ := same x; rw [same]
  have parent : ∀ x, (after.mnt x).parent = (st.mnt x).parent := fun x => by obtain ⟨c, same⟩ := same x; rw [same]
  have mp : ∀ x, (after.mnt x).mp = (st.mnt x).mp := fun x => by obtain ⟨c, same⟩ := same x; rw [same]
  have ns : ∀ x, (after.mnt x).ns = (st.mnt x).ns := fun x => by obtain ⟨c, same⟩ := same x; rw [same]
  have linked : ∀ x, after.HasParent x ↔ st.HasParent x := fun x => by rw [Tables.HasParent, Tables.HasParent, parent]
  have above : after.above = st.above := by
    funext x
    unfold Tables.above
    rw [alive, parent, if_congr (and_congr_right fun _ => linked x) rfl rfl]
  constructor
  case count =>
    intro x on
    rw [alive] at on
    rw [count x on, if_congr (linked x) rfl rfl]
  case dead =>
    intro x off
    rw [alive] at off
    exact dead x off
  case freed =>
    intro x on
    obtain ⟨c, same⟩ := same x
    rw [same] at on ⊢
    exact ok.freed x on
  case hashed =>
    intro x
    rw [alive, linked, ← ok.hashed]
    obtain ⟨c, same⟩ := same x
    rw [same]
  case umount =>
    intro x on
    rw [alive] at on
    rw [ns, ← ok.umount x on]
    obtain ⟨c, same⟩ := same x
    rw [same]
  case acyclic =>
    rw [above]
    exact ok.acyclic
  all_goals simp only [alive, parent, mp, ns, linked]
  · exact ok.parent
  · exact ok.unique
  · exact ok.inherit
  · exact ok.root

theorem Forest.get (ok : Forest cfg own st) (alive : (st.mnt x).alive = true) :
    Forest cfg (own + one x) (st.setCount x ((st.mnt x).count + 1)) := by
  apply ok.recount (setCount_same st x _)
  · intro y on
    have count := ok.count y on
    rw [Pi.add_apply]
    by_cases here : y = x
    · subst here
      simp [count]
      omega
    · rw [setCount_mnt_ne here, one_other here]
      omega
  · intro y off
    have other : y ≠ x := by
      rintro rfl
      simp [alive] at off
    rw [Pi.add_apply, one_other other, ok.dead y off]

/-- A reference in hand is on a live mount. -/
theorem Forest.held (ok : Forest cfg (own + one x) st) : (st.mnt x).alive = true := by
  by_contra dead
  have := ok.dead x (by simpa using dead)
  rw [Pi.add_apply, one_self] at this
  omega

/-- mntput() of a reference that is not the last. -/
theorem Forest.drop (ok : Forest cfg (own + one x) st) : Forest cfg own (st.setCount x ((st.mnt x).count - 1)) := by
  apply ok.recount (setCount_same st x _)
  · intro y on
    have count := ok.count y on
    rw [Pi.add_apply] at count
    by_cases here : y = x
    · subst here
      rw [one_self] at count
      rw [Tables.setCount_mnt, Function.update_self]
      dsimp only
      omega
    · rw [one_other here] at count
      rw [setCount_mnt_ne here]
      omega
  · intro y off
    have := ok.dead y off
    rw [Pi.add_apply] at this
    omega

/-! ### Disconnecting mounts -/

/-- Mounts were disconnected or died; what is still connected is where it was. -/
structure Cut (st after : Tables M E N T) : Prop where
  alive : ∀ x, (after.mnt x).alive = true → (st.mnt x).alive = true
  freed : ∀ x, (after.mnt x).alive = true → (after.mnt x).freed = (st.mnt x).freed
  hashed : ∀ x, (after.mnt x).hashed = true ↔ (after.mnt x).alive = true ∧ after.HasParent x
  linked : ∀ x, after.HasParent x → st.HasParent x ∧ (after.mnt x).parent = (st.mnt x).parent ∧
    (after.mnt x).mp = (st.mnt x).mp
  parent : ∀ x, (after.mnt x).alive = true → after.HasParent x → (after.mnt (st.mnt x).parent).alive = true

theorem Forest.cut {own' : M → ℕ} (ok : Forest cfg own st) (cut : Cut st after)
    (count : ∀ x, (after.mnt x).alive = true → (after.mnt x).count = (if after.HasParent x then 1 else 0) + own' x)
    (dead : ∀ x, (after.mnt x).alive = false → own' x = 0)
    (inherit : ∀ x, (after.mnt x).alive = true → after.HasParent x → (after.mnt (st.mnt x).parent).ns ≠ none →
      (after.mnt x).ns ≠ none)
    (umount : ∀ x, (after.mnt x).alive = true → ((after.mnt x).umount = true ↔ (after.mnt x).ns = none))
    (root : ∀ x, IsRoot cfg x → (after.mnt x).alive = true ∧ (after.mnt x).ns ≠ none) : Forest cfg own' after where
  count := count
  dead := dead
  freed x on := (cut.freed x on).trans (ok.freed x (cut.alive x on))
  hashed := cut.hashed
  parent x on := by
    by_cases linked : after.HasParent x
    · rw [(cut.linked x linked).2.1]
      exact cut.parent x on linked
    · rw [Tables.HasParent, not_not] at linked
      rwa [linked]
  acyclic := ok.acyclic.mono fun x y up => by
    unfold Tables.above at up ⊢
    split at up
    · case isTrue here =>
      obtain ⟨before, parent, -⟩ := cut.linked x here.2
      rw [if_pos ⟨cut.alive x here.1, before⟩, ← parent]
      exact up
    · cases up
  unique x y on on' linked linked' parent mp := by
    obtain ⟨before, kept, place⟩ := cut.linked x linked
    obtain ⟨before', kept', place'⟩ := cut.linked y linked'
    exact ok.unique x y (cut.alive x on) (cut.alive y on') before before' (by rw [← kept, ← kept', parent])
      (by rw [← place, ← place', mp])
  inherit x on linked := by
    rw [(cut.linked x linked).2.1]
    exact inherit x on linked
  umount := umount
  root x root' := ⟨(root x root').1, fun linked => (ok.root x root').2.1 (cut.linked x linked).1, (root x root').2⟩

variable [Fintype M] [DecidableEq E] [DecidableEq T]

/-- A disconnected mount keeps the reference it was mounted with. -/
theorem Forest.umountMnt (ok : Forest cfg own st) (alive : (st.mnt x).alive = true) (linked : st.HasParent x) :
    Cut st (st.umountMnt x) ∧ Forest cfg (own + one x) (st.umountMnt x) := by
  have here : (st.umountMnt x).mnt x = (st.mnt x).disconnect x := by rw [Tables.umountMnt_mnt, if_pos rfl]
  have other : ∀ y, y ≠ x → (st.umountMnt x).mnt y = st.mnt y := fun y other => by rw [Tables.umountMnt_mnt, if_neg other]
  have loose : ¬ (st.umountMnt x).HasParent x := by
    rw [Tables.HasParent, here]
    exact not_not.mpr rfl
  have kept : ∀ y, y ≠ x → ((st.umountMnt x).HasParent y ↔ st.HasParent y) := fun y apart => by
    rw [Tables.HasParent, Tables.HasParent, other y apart]
  have alive' : ∀ y, ((st.umountMnt x).mnt y).alive = (st.mnt y).alive := fun y => by
    by_cases same : y = x
    · subst same
      rw [here]
      rfl
    · rw [other y same]
  have ns : ∀ y, ((st.umountMnt x).mnt y).ns = (st.mnt y).ns := fun y => by
    by_cases same : y = x
    · subst same
      rw [here]
      rfl
    · rw [other y same]
  have apart : ∀ y, (st.umountMnt x).HasParent y → y ≠ x := by
    rintro y linked rfl
    exact loose linked
  have cut : Cut st (st.umountMnt x) := {
    alive := fun y on => alive' y ▸ on
    freed := fun y on => by
      by_cases same : y = x
      · subst same
        rw [here]
        rfl
      · rw [other y same]
    hashed := fun y => by
      by_cases same : y = x
      · subst same
        rw [here]
        simp [Mount.disconnect, loose]
      · rw [other y same, kept y same]
        exact ok.hashed y
    linked := fun y linked => by
      have same := apart y linked
      rw [other y same]
      exact ⟨(kept y same).mp linked, rfl, rfl⟩
    parent := fun y on linked => by
      rw [alive'] at on ⊢
      exact ok.parent y on }
  refine ⟨cut, ok.cut cut ?_ ?_ ?_ ?_ ?_⟩
  · intro y on
    rw [alive'] at on
    have count := ok.count y on
    rw [Pi.add_apply]
    by_cases same : y = x
    · subst same
      rw [if_neg loose, here, one_self]
      rw [if_pos linked] at count
      simp only [Mount.disconnect]
      omega
    · rw [one_other same, other y same, if_congr (kept y same) rfl rfl]
      omega
  · intro y off
    rw [alive'] at off
    have same : y ≠ x := by
      rintro rfl
      simp [alive] at off
    rw [Pi.add_apply, one_other same, ok.dead y off]
  · intro y on linked
    rw [alive'] at on
    rw [ns, ns]
    exact ok.inherit y on ((kept y (apart y linked)).mp linked)
  · intro y on
    rw [alive'] at on
    rw [ns, ← ok.umount y on]
    by_cases same : y = x
    · subst same
      rw [here]
      rfl
    · rw [other y same]
  · intro y root
    rw [alive', ns]
    exact ⟨(ok.root y root).1, (ok.root y root).2.2⟩

/-! ### umount_tree() -/

omit [DecidableEq E] [DecidableEq T] in
theorem mem_tree : y ∈ st.tree x ↔ (st.mnt y).alive = true ∧ (y = x ∨ (st.mnt y).parent = x ∧ y ≠ x) := by
  simp [Tables.tree]

omit [DecidableEq E] [DecidableEq T] in
theorem disconnected_linked {connected : Bool} (alive : (st.mnt x).alive = true) (linked : st.HasParent x)
    (inside : y ∈ st.disconnected x connected) : y ∈ st.tree x ∧ st.HasParent y := by
  rcases Finset.mem_insert.mp inside with rfl | inside
  · exact ⟨mem_tree.mpr ⟨alive, .inl rfl⟩, linked⟩
  · have inside : y ∈ (st.tree x).erase x := by
      cases connected
      · exact inside
      · exact absurd inside (Finset.notMem_empty y)
    obtain ⟨other, inside⟩ := Finset.mem_erase.mp inside
    refine ⟨inside, ?_⟩
    obtain ⟨parent, -⟩ := (mem_tree.mp inside).2.resolve_left other
    rw [Tables.HasParent, parent]
    exact other.symm

omit [DecidableEq E] [DecidableEq T] in
theorem mem_disconnected_self {connected : Bool} : x ∈ st.disconnected x connected := Finset.mem_insert_self x _

section UmountTree

variable {connected : Bool}

theorem umountTree_out (outside : y ∉ st.tree x) (kept : y ∉ st.disconnected x connected) :
    (st.umountTree x connected).1.mnt y = st.mnt y := by
  rw [Tables.umountTree, Tables.umountAll_mnt, if_neg (mt Tables.mem_ordered.mp kept), Tables.markUmount]
  exact if_neg outside

theorem umountTree_left (inside : y ∈ st.tree x) (kept : y ∉ st.disconnected x connected) :
    (st.umountTree x connected).1.mnt y = { st.mnt y with umount := true, ns := none } := by
  rw [Tables.umountTree, Tables.umountAll_mnt, if_neg (mt Tables.mem_ordered.mp kept), Tables.markUmount]
  exact if_pos inside

theorem umountTree_cut (inside : y ∈ st.tree x) (cut : y ∈ st.disconnected x connected) :
    (st.umountTree x connected).1.mnt y = { st.mnt y with umount := true, ns := none }.disconnect y := by
  rw [Tables.umountTree, Tables.umountAll_mnt, if_pos (Tables.mem_ordered.mpr cut), Tables.markUmount]
  exact congrArg (fun m => Mount.disconnect m y) (if_pos inside)

theorem Forest.umountTree (ok : Forest cfg own st) (alive : (st.mnt x).alive = true) (linked : st.HasParent x) :
    Cut st (st.umountTree x connected).1 ∧
      Forest cfg (own + members (st.umountTree x connected).2) (st.umountTree x connected).1 ∧
      ∀ y ∈ (st.umountTree x connected).2, ¬ (st.umountTree x connected).1.HasParent y := by
  have cases' : ∀ y, y ∉ st.tree x ∧ y ∉ st.disconnected x connected ∨ y ∈ st.tree x ∧ y ∉ st.disconnected x connected ∨
      y ∈ st.tree x ∧ y ∈ st.disconnected x connected := fun y => by
    by_cases cut : y ∈ st.disconnected x connected
    · exact .inr (.inr ⟨(disconnected_linked alive linked cut).1, cut⟩)
    · by_cases inside : y ∈ st.tree x
      · exact .inr (.inl ⟨inside, cut⟩)
      · exact .inl ⟨inside, cut⟩
  have alive' : ∀ y, ((st.umountTree x connected).1.mnt y).alive = (st.mnt y).alive := fun y => by
    rcases cases' y with ⟨outside, kept⟩ | ⟨inside, kept⟩ | ⟨inside, cut⟩
    · rw [umountTree_out outside kept]
    · rw [umountTree_left inside kept]
    · rw [umountTree_cut inside cut]
      rfl
  have loose : ∀ y ∈ st.disconnected x connected, ¬ (st.umountTree x connected).1.HasParent y := fun y cut => by
    rw [Tables.HasParent, umountTree_cut (disconnected_linked alive linked cut).1 cut]
    exact not_not.mpr rfl
  have kept : ∀ y, y ∉ st.disconnected x connected → ((st.umountTree x connected).1.mnt y).parent = (st.mnt y).parent ∧
      ((st.umountTree x connected).1.mnt y).mp = (st.mnt y).mp ∧
      ((st.umountTree x connected).1.mnt y).hashed = (st.mnt y).hashed ∧
      ((st.umountTree x connected).1.mnt y).count = (st.mnt y).count := fun y kept => by
    by_cases inside : y ∈ st.tree x
    · rw [umountTree_left inside kept]
      exact ⟨rfl, rfl, rfl, rfl⟩
    · rw [umountTree_out inside kept]
      exact ⟨rfl, rfl, rfl, rfl⟩
  have linked' : ∀ y, (st.umountTree x connected).1.HasParent y ↔ y ∉ st.disconnected x connected ∧ st.HasParent y :=
    fun y => by
      by_cases cut : y ∈ st.disconnected x connected
      · simp [cut, loose y cut]
      · rw [Tables.HasParent, (kept y cut).1]
        exact ⟨fun linked => ⟨cut, linked⟩, And.right⟩
  have marked : ∀ y ∈ st.tree x, ((st.umountTree x connected).1.mnt y).ns = none ∧
      ((st.umountTree x connected).1.mnt y).umount = true := fun y inside => by
    by_cases cut : y ∈ st.disconnected x connected
    · rw [umountTree_cut inside cut]
      exact ⟨rfl, rfl⟩
    · rw [umountTree_left inside cut]
      exact ⟨rfl, rfl⟩
  have cut : Cut st (st.umountTree x connected).1 := {
    alive := fun y on => alive' y ▸ on
    freed := fun y _ => by
      rcases cases' y with ⟨outside, kept⟩ | ⟨inside, kept⟩ | ⟨inside, cut⟩
      · rw [umountTree_out outside kept]
      · rw [umountTree_left inside kept]
      · rw [umountTree_cut inside cut]
        rfl
    hashed := fun y => by
      rw [alive', linked']
      by_cases cut : y ∈ st.disconnected x connected
      · rw [umountTree_cut (disconnected_linked alive linked cut).1 cut]
        simp [Mount.disconnect, cut]
      · rw [(kept y cut).2.2.1, ok.hashed]
        simp [cut]
    linked := fun y linked => by
      obtain ⟨outside, before⟩ := (linked' y).mp linked
      exact ⟨before, (kept y outside).1, (kept y outside).2.1⟩
    parent := fun y on _ => by
      rw [alive'] at on ⊢
      exact ok.parent y on }
  refine ⟨cut, ok.cut cut ?_ ?_ ?_ ?_ ?_, loose⟩
  · intro y on
    rw [alive'] at on
    have count := ok.count y on
    rw [Pi.add_apply]
    by_cases cut : y ∈ st.disconnected x connected
    · rw [if_neg (loose y cut), umountTree_cut (disconnected_linked alive linked cut).1 cut]
      rw [if_pos (disconnected_linked alive linked cut).2] at count
      rw [members_mem (s := (st.umountTree x connected).2) cut]
      simp only [Mount.disconnect]
      omega
    · rw [members_notMem (s := (st.umountTree x connected).2) cut, (kept y cut).2.2.2,
        if_congr (linked' y) rfl rfl]
      simpa [cut] using count
  · intro y off
    rw [alive'] at off
    have outside : y ∉ (st.umountTree x connected).2 := fun inside => by
      have := (mem_tree.mp (disconnected_linked alive linked inside).1).1
      simp [off] at this
    rw [Pi.add_apply, members_notMem outside, ok.dead y off]
  · -- below a mount that stays mounted nothing was unmounted
    intro y on joined above
    rw [alive'] at on
    obtain ⟨kept', before⟩ := (linked' y).mp joined
    have higher : (st.mnt y).parent ∉ st.tree x := fun inside => above (marked _ inside).1
    have outside : y ∉ st.tree x := fun inside => by
      rcases (mem_tree.mp inside).2 with rfl | ⟨parent, -⟩
      · exact kept' mem_disconnected_self
      · exact higher (by rw [parent]; exact mem_tree.mpr ⟨alive, .inl rfl⟩)
    have apart : (st.mnt y).parent ∉ st.disconnected x connected := fun cut =>
      higher (disconnected_linked alive linked cut).1
    rw [umountTree_out higher apart] at above
    rw [umountTree_out outside kept']
    exact ok.inherit y on before above
  · intro y on
    rw [alive'] at on
    by_cases inside : y ∈ st.tree x
    · simp [marked y inside]
    · have kept : y ∉ st.disconnected x connected := fun cut => inside (disconnected_linked alive linked cut).1
      rw [umountTree_out inside kept]
      exact ok.umount y on
  · intro y root
    obtain ⟨on, bare, ns⟩ := ok.root y root
    have outside : y ∉ st.tree x := fun inside => by
      rcases (mem_tree.mp inside).2 with rfl | ⟨parent, other⟩
      · exact bare linked
      · exact bare (by rw [Tables.HasParent, parent]; exact other.symm)
    have kept : y ∉ st.disconnected x connected := fun cut => outside (disconnected_linked alive linked cut).1
    rw [umountTree_out outside kept]
    exact ⟨on, ns⟩

theorem Used.umountTree (used : Used st) (alive : (st.mnt x).alive = true) (linked : st.HasParent x) :
    Used (st.umountTree x connected).1 ∧ Freeing st (st.umountTree x connected).1 := by
  have mnt : ∀ y, ((st.markUmount (st.tree x)).mnt y).alive = (st.mnt y).alive ∧
      ((st.markUmount (st.tree x)).mnt y).parent = (st.mnt y).parent ∧
      ((st.markUmount (st.tree x)).mnt y).mp = (st.mnt y).mp := fun y => by
    unfold Tables.markUmount
    dsimp only
    split <;> exact ⟨rfl, rfl, rfl⟩
  have linked' : ∀ y, (st.markUmount (st.tree x)).HasParent y ↔ st.HasParent y := fun y => by
    rw [Tables.HasParent, Tables.HasParent, (mnt y).2.1]
  have marked : Used (st.markUmount (st.tree x)) := fun d => by
    have same : (st.markUmount (st.tree x)).mlist d = st.mlist d := by
      ext y
      rw [mem_mlist, mem_mlist, (mnt y).1, (mnt y).2.2, linked']
    rw [Listed, same]
    exact used d
  have moved : Freeing st (st.markUmount (st.tree x)) := .of_den rfl
  obtain ⟨all, freed⟩ := marked.umountAll (Finset.sort_nodup (st.disconnected x connected) (· ≤ ·)) fun y inside => by
    obtain ⟨inside, before⟩ := disconnected_linked alive linked (Tables.mem_ordered.mp inside)
    rw [(mnt y).1, linked']
    exact ⟨(mem_tree.mp inside).1, before⟩
  exact ⟨all, moved.trans freed⟩

end UmountTree

end LinuxTla.LockMount
