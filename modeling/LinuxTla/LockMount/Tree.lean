import LinuxTla.Lib.Transition
import LinuxTla.Lib.Pointers
import Mathlib.Data.Finset.Sort
import Mathlib.Data.Finset.Max
import Mathlib.Data.Fintype.Basic
import Mathlib.Data.Prod.Lex
import Mathlib.Tactic.Simps.Basic
import Mathlib.Tactic.Common

/-! The mounts and dentries of `LockMount.tla` and what changes them: where_to_mount(),
__umount_mnt(), umount_tree(), mntput() and __detach_mounts(). -/

namespace LinuxTla.LockMount

inductive Task (T : Type)
  | mounter (t : T)
  | rmdir
  | inval
  | umount
deriving DecidableEq, Repr

/-- `MInfo`: namespace, path and mounts to make. -/
structure MInfo (M E N : Type) where
  ns : N
  pm : M
  pd : E
  budget : ℕ

/-- The constants; `none` stands for `NoDentry` and `NoMnt`. `localNs` is the namespace
`R` runs in. -/
structure Config (M E N T : Type) where
  dparent : E → E
  newRoot : E
  rootDentry : E
  roots : N → Option M
  rootNs : M → N
  info : T → MInfo M E N
  rmdirTarget : Option E
  invalTarget : Option E
  umountTarget : Option M
  localNs : N
  fixRecheck : Bool
  fixUnlinked : Bool
  fixDontMount : Bool
  fixLookupUnlinked : Bool

structure Mount (M E N : Type) where
  alive : Bool
  freed : Bool
  parent : M
  mp : E
  root : E
  hashed : Bool
  ns : Option N
  umount : Bool
  count : ℤ

structure Dentry (T : Type) where
  unhashed : Bool
  mounted : Bool
  cant : Bool
  mp : Bool
  pins : Finset (Task T)

structure Tables (M E N T : Type) where
  mnt : M → Mount M E N
  den : E → Dentry T

variable {M E N T : Type} [Fintype M] [LinearOrder M] [DecidableEq E] [DecidableEq T] (cfg : Config M E N T)

/-- `Fresh`; nobody reads where a mount that is not alive points to. -/
def fresh (x : M) : Mount M E N :=
  { alive := false, freed := false, parent := x, mp := cfg.rootDentry, root := cfg.rootDentry, hashed := false,
    ns := none, umount := false, count := 0 }

/-! ### The tree -/

namespace Tables

variable (st : Tables M E N T)

def HasParent (x : M) : Prop := (st.mnt x).parent ≠ x

instance (x : M) : Decidable (st.HasParent x) := inferInstanceAs (Decidable (_ ≠ _))

def mountsAt (p : M) (d : E) : Finset M :=
  Finset.univ.filter fun x => (st.mnt x).alive = true ∧ (st.mnt x).hashed = true ∧ (st.mnt x).parent = p ∧
    (st.mnt x).mp = d ∧ x ≠ p

def lookupMnt (p : M) (d : E) : Option M :=
  if some' : (st.mountsAt p d).Nonempty then some ((st.mountsAt p d).min' some') else none

/-- topmost_overmount(), for at most `k` mounts on top. -/
def topmostTo : ℕ → M → M
  | 0, x => x
  | k + 1, x => match st.lookupMnt x (st.mnt x).root with
    | none => x
    | some o => topmostTo k o

def topmost (x : M) : M := st.topmostTo (Fintype.card M) x

/-- The mounts on the dentry's `m_list`. -/
def mlist (d : E) : Finset M :=
  Finset.univ.filter fun x => (st.mnt x).alive = true ∧ st.HasParent x ∧ (st.mnt x).mp = d

def children (x : M) : Finset M :=
  Finset.univ.filter fun y => (st.mnt y).alive = true ∧ y ≠ x ∧ (st.mnt y).parent = x

def whereToMount (pm : M) (pd : E) : M × E :=
  match st.lookupMnt pm pd with
  | none => (pm, pd)
  | some q => (st.topmost q, (st.mnt (st.topmost q)).root)

end Tables

/-- `Ancestors(d)`, as far up as `k` steps lead. -/
def ancestorsTo : ℕ → E → Finset E
  | 0, _ => ∅
  | k + 1, d => if cfg.dparent d = d then ∅ else insert (cfg.dparent d) (ancestorsTo k (cfg.dparent d))

def ancestors [Fintype E] (d : E) : Finset E := ancestorsTo cfg (Fintype.card E) d

def below [Fintype E] (d : E) : Finset E := Finset.univ.filter fun e => e = d ∨ d ∈ ancestors cfg e

/-! ### Mutators -/

namespace Tables

variable (st : Tables M E N T)

@[simps] def setMnt (x : M) (m : Mount M E N) : Tables M E N T := { st with mnt := Function.update st.mnt x m }

@[simps] def setDen (d : E) (e : Dentry T) : Tables M E N T := { st with den := Function.update st.den d e }

def maybeFree (d : E) : Tables M E N T :=
  if st.mlist d = ∅ ∧ (st.den d).pins = ∅ ∧ (st.den d).mp = true then
    st.setDen d { st.den d with mounted := false, mp := false }
  else st

def umountMnt (x : M) : Tables M E N T :=
  (st.setMnt x { st.mnt x with hashed := false, parent := x, mp := (st.mnt x).root }).maybeFree (st.mnt x).mp

def umountAll : Tables M E N T → List M → Tables M E N T
  | st, [] => st
  | st, x :: xs => umountAll (st.umountMnt x) xs

def ordered (s : Finset M) : List M := s.sort (· ≤ ·)

/-- `x` and its children, as deep as umount_tree() looks here. -/
def tree (x : M) : Finset M :=
  Finset.univ.filter fun y => (st.mnt y).alive = true ∧ (y = x ∨ (st.mnt y).parent = x ∧ y ≠ x)

def markUmount (s : Finset M) : Tables M E N T :=
  { st with mnt := fun y => if y ∈ s then { st.mnt y with umount := true, ns := none } else st.mnt y }

/-- The mounts umount_tree() disconnects. -/
def disconnected (x : M) (connected : Bool) : Finset M :=
  insert x (if connected then ∅ else (st.tree x).erase x)

def umountTree (x : M) (connected : Bool) : Tables M E N T × Finset M :=
  ((st.markUmount (st.tree x)).umountAll (ordered (st.disconnected x connected)), st.disconnected x connected)

/-! ### mntput() -/

@[simps!] def setCount (x : M) (c : ℤ) : Tables M E N T := st.setMnt x { st.mnt x with count := c }

/-- The last reference is gone. -/
@[simps!] def kill (x : M) : Tables M E N T :=
  st.setMnt x { st.mnt x with count := 0, alive := false, freed := true, hashed := false }

/-- cleanup_mnt() disconnects the stuck children. -/
def die (x : M) : Tables M E N T := (st.kill x).umountAll (ordered (st.children x))

end Tables

/-- What __umount_mnt() makes of a mount. -/
def Mount.disconnect (m : Mount M E N) (x : M) : Mount M E N := { m with hashed := false, parent := x, mp := m.root }

namespace Tables

variable {st : Tables M E N T}

@[simp] theorem maybeFree_mnt {d : E} : (st.maybeFree d).mnt = st.mnt := by
  unfold maybeFree
  split <;> rfl

theorem umountMnt_mnt (x y : M) : (st.umountMnt x).mnt y = if y = x then (st.mnt y).disconnect y else st.mnt y := by
  unfold umountMnt
  rw [maybeFree_mnt, setMnt_mnt, Function.update_apply]
  split
  · case isTrue here =>
    subst here
    rfl
  · rfl

theorem umountAll_mnt (xs : List M) (y : M) :
    (st.umountAll xs).mnt y = if y ∈ xs then (st.mnt y).disconnect y else st.mnt y := by
  induction xs generalizing st with
  | nil => simp [umountAll]
  | cons x xs ih =>
    rw [umountAll, ih, umountMnt_mnt]
    by_cases here : y = x
    · subst here
      simp [Mount.disconnect]
    · simp [here]

omit [Fintype M] in
theorem mem_ordered {s : Finset M} {x : M} : x ∈ ordered s ↔ x ∈ s := Finset.mem_sort _

omit [DecidableEq E] [DecidableEq T] in
theorem mem_children {x y : M} : y ∈ st.children x ↔ (st.mnt y).alive = true ∧ y ≠ x ∧ (st.mnt y).parent = x := by
  simp [children]

theorem die_mnt (x y : M) : (st.die x).mnt y =
    if y ∈ st.children x then (st.mnt y).disconnect y
    else if y = x then { st.mnt y with count := 0, alive := false, freed := true, hashed := false } else st.mnt y := by
  unfold die
  rw [umountAll_mnt, kill_mnt, Function.update_apply]
  simp only [mem_ordered]
  by_cases child : y ∈ st.children x
  · have other := (mem_children.mp child).2.1
    simp [child, other]
  · by_cases here : y = x
    · subst here; simp [child]
    · simp [child, here]

/-- The mounts alive and those of them connected: what a final mntput() has left to do. -/
def load (st : Tables M E N T) : ℕ :=
  (Finset.univ.filter fun x => (st.mnt x).alive = true).card +
    (Finset.univ.filter fun x => (st.mnt x).alive = true ∧ st.HasParent x).card

theorem load_die (st : Tables M E N T) (x : M) : (st.die x).load ≤ st.load ∧
    ((st.mnt x).alive = true ∨ st.children x ≠ ∅ → (st.die x).load < st.load) := by
  have alive : ∀ y, ((st.die x).mnt y).alive = true → (st.mnt y).alive = true ∧ y ≠ x := by
    intro y
    rw [die_mnt]
    split
    · case isTrue child => exact fun on => ⟨on, (mem_children.mp child).2.1⟩
    · split <;> simp_all
  have linked : ∀ y, ((st.die x).mnt y).alive = true → (st.die x).HasParent y → st.HasParent y ∧ y ∉ st.children x := by
    intro y
    unfold HasParent
    rw [die_mnt]
    split
    · simp [Mount.disconnect]
    · split <;> simp_all
  have fewer : (Finset.univ.filter fun y => ((st.die x).mnt y).alive = true) ⊆
      Finset.univ.filter fun y => (st.mnt y).alive = true := fun y inside => by
    simp only [Finset.mem_filter, Finset.mem_univ, true_and] at inside ⊢
    exact (alive y inside).1
  have looser : (Finset.univ.filter fun y => ((st.die x).mnt y).alive = true ∧ (st.die x).HasParent y) ⊆
      Finset.univ.filter fun y => (st.mnt y).alive = true ∧ st.HasParent y := fun y inside => by
    simp only [Finset.mem_filter, Finset.mem_univ, true_and] at inside ⊢
    exact ⟨(alive y inside.1).1, (linked y inside.1 inside.2).1⟩
  have first := Finset.card_le_card fewer
  have second := Finset.card_le_card looser
  refine ⟨by unfold load; omega, fun progress => ?_⟩
  rcases progress with here | stuck
  · have strict := Finset.card_lt_card (Finset.ssubset_iff_of_subset fewer |>.mpr
      ⟨x, by simpa using here, fun inside => (alive x (by simpa using inside)).2 rfl⟩)
    unfold load
    omega
  · obtain ⟨y, child⟩ := Finset.nonempty_iff_ne_empty.mpr stuck
    have strict := Finset.card_lt_card (Finset.ssubset_iff_of_subset looser |>.mpr
      ⟨y, ?_, fun inside => ?_⟩)
    · unfold load
      omega
    · obtain ⟨on, other, parent⟩ := mem_children.mp child
      exact Finset.mem_filter.mpr ⟨Finset.mem_univ y, on, by rw [HasParent, parent]; exact other.symm⟩
    · simp only [Finset.mem_filter, Finset.mem_univ, true_and] at inside
      exact (linked y inside.1 inside.2).2 child

omit [DecidableEq E] [DecidableEq T] in
theorem load_setCount (st : Tables M E N T) (x : M) (c : ℤ) : (st.setCount x c).load = st.load := by
  have alive : ∀ y, ((st.setCount x c).mnt y).alive = (st.mnt y).alive := fun y => by
    rw [setCount_mnt, Function.update_apply]
    split <;> simp_all
  have parent : ∀ y, ((st.setCount x c).mnt y).parent = (st.mnt y).parent := fun y => by
    rw [setCount_mnt, Function.update_apply]
    split <;> simp_all
  have linked : ∀ y, (st.setCount x c).HasParent y ↔ st.HasParent y := fun y => by
    unfold HasParent
    rw [parent]
  unfold load
  simp only [alive, linked]

/-- mntput() of a set: the last reference frees the mount, and cleanup_mnt() puts what
was stuck to it. -/
def put (st : Tables M E N T) (s : Finset M) : Tables M E N T :=
  if some' : s.Nonempty then
    let x := s.min' some'
    if 0 < (st.mnt x).count - 1 then (st.setCount x ((st.mnt x).count - 1)).put (s.erase x)
    else (st.die x).put (s.erase x ∪ st.children x)
  else st
termination_by (st.load, s.card)
decreasing_by
  · have inside : s.min' some' ∈ s := s.min'_mem some'
    rw [load_setCount]
    exact Prod.Lex.right _ (Finset.card_erase_lt_of_mem inside)
  · have inside : s.min' some' ∈ s := s.min'_mem some'
    obtain ⟨fewer, progress⟩ := load_die st (s.min' some')
    rcases fewer.lt_or_eq with less | same
    · exact Prod.Lex.left _ _ less
    · have childless : st.children (s.min' some') = ∅ := by
        by_contra stuck
        exact absurd (progress (.inr stuck)) (by rw [same]; exact lt_irrefl _)
      rw [same, childless, Finset.union_empty]
      exact Prod.Lex.right _ (Finset.card_erase_lt_of_mem inside)

/-! ### detach_mounts() -/

/-- A `pinned_mountpoint` on the dentry's `m_list`. -/
@[simps!] def pin (st : Tables M E N T) (t : Task T) (d : E) : Tables M E N T :=
  st.setDen d { st.den d with pins := insert t (st.den d).pins }

def unpin (st : Tables M E N T) (t : Task T) (d : E) : Tables M E N T :=
  (st.setDen d { st.den d with pins := (st.den d).pins.erase t }).maybeFree d

/-- Every mount on the `m_list`: what is only connected is disconnected, what is
mounted is unmounted with its tree connected. -/
def detachAll : Tables M E N T → Finset M → List M → Tables M E N T × Finset M
  | st, put, [] => (st, put)
  | st, put, x :: xs =>
    if (st.mnt x).umount then (st.umountMnt x).detachAll (put ∪ {x}) xs
    else (st.umountTree x true).1.detachAll (put ∪ (st.umountTree x true).2) xs

/-- __detach_mounts(), with the mounts to put. -/
def detachBody (st : Tables M E N T) (t : Task T) (d : E) : Tables M E N T × Finset M :=
  if (st.den d).mp = true ∧ (cfg.fixLookupUnlinked = true ∨ (st.den d).unhashed = false) then
    let r := (st.pin t d).detachAll ∅ (ordered (st.mlist d))
    (r.1.unpin t d, r.2)
  else (st, ∅)

def freeId (st : Tables M E N T) : Option M :=
  if some' : (Finset.univ.filter fun x => (st.mnt x).alive = false).Nonempty then
    some ((Finset.univ.filter fun x => (st.mnt x).alive = false).min' some')
  else none

end Tables

end LinuxTla.LockMount
