import Mathlib.Data.Finset.Card
import Mathlib.Data.Finset.Union
import Mathlib.Tactic.Simps.Basic
import LinuxTla.Lib.Lists

/-! The mount table of `MountTree.tla`: the tree, the peer rings and the slave
lists, one pointer field at a time, and the walks over them. A walk that leaves
the table or never ends has no result. -/

namespace LinuxTla.Mount

/-- The constants of a layout. Ids are listed in increasing order. -/
structure Layout (M D S : Type) where
  mntIds : List M
  dentries : List D
  dSb : D → S
  /-- A superblock root is its own parent. -/
  dParent : D → D
  sbRoot : S → D
  someSb : S
  chooseMnt : List M → Option M
  fixCloneUnbindable : Bool
  fixSetGroupUnbindable : Bool

/-- The mount records, field by field. `none` is `NoMnt` or `NoNs`. -/
structure Table (M N D S : Type) where
  alive : M → Bool
  sb : M → S
  root : M → D
  parent : M → Option M
  mp : M → D
  hashed : M → Bool
  children : M → List M
  overmount : M → Option M
  ns : M → Option N
  attached : M → Bool
  gid : M → ℕ
  shared : M → Bool
  unbind : M → Bool
  marked : M → Bool
  cand : M → Bool
  master : M → Option M
  npeer : M → M
  slaves : M → List M
  locked : M → Bool
  umount : M → Bool
  shrink : M → Bool
  onexp : M → Bool
  expmark : M → Bool

variable {M N D S : Type} [DecidableEq M] [DecidableEq N] [DecidableEq D] [DecidableEq S]

/-- How often a walk over the table may recurse: once for every mount, and once more to stop. -/
def Layout.fuel (L : Layout M D S) : ℕ := L.mntIds.length + 1

def setOn {α : Type} (f : M → α) (s : List M) (v : α) : M → α := fun m => if m ∈ s then v else f m

omit [DecidableEq N] [DecidableEq D] [DecidableEq S] in
theorem setOn_nil {α : Type} (f : M → α) (v : α) : setOn f [] v = f := rfl

omit [DecidableEq N] [DecidableEq D] [DecidableEq S] in
theorem setOn_of_mem {α : Type} {f : M → α} {s : List M} {v : α} {m : M} (mem : m ∈ s) : setOn f s v m = v := if_pos mem

omit [DecidableEq N] [DecidableEq D] [DecidableEq S] in
theorem setOn_of_notMem {α : Type} {f : M → α} {s : List M} {v : α} {m : M} (out : m ∉ s) : setOn f s v m = f m := if_neg out

/-! ### Lists -/

def seqDel (s : List M) (x : M) : List M := s.filter (· ≠ x)

/-! ### Dentries -/

section Dentries

variable (L : Layout M D S)

def ancestorsOrSelfIn : ℕ → D → List D
  | 0, d => [d]
  | k + 1, d => if L.dParent d = d then [d] else d :: ancestorsOrSelfIn k (L.dParent d)

def ancestorsOrSelf (d : D) : List D := ancestorsOrSelfIn L L.dentries.length d

def IsSubdir (d r : D) : Prop := L.dSb d = L.dSb r ∧ r ∈ ancestorsOrSelf L d

instance (d r : D) : Decidable (IsSubdir L d r) := inferInstanceAs (Decidable (_ ∧ _))

end Dentries

namespace Table

variable (L : Layout M D S) (mt : Table M N D S)

def live : List M := L.mntIds.filter fun m => mt.alive m

def freeIds : List M := L.mntIds.filter fun m => !mt.alive m

def newId : Option M := (mt.freeIds L).head?

def dead : Table M N D S where
  alive _ := false
  sb _ := L.someSb
  root _ := L.sbRoot L.someSb
  parent _ := none
  mp _ := L.sbRoot L.someSb
  hashed _ := false
  children _ := []
  overmount _ := none
  ns _ := none
  attached _ := false
  gid _ := 0
  shared _ := false
  unbind _ := false
  marked _ := false
  cand _ := false
  master _ := none
  npeer m := m
  slaves _ := []
  locked _ := false
  umount _ := false
  shrink _ := false
  onexp _ := false
  expmark _ := false

/-- `Dead(m)`: a free slot. -/
@[simps -fullyApplied] def kill (m : M) : Table M N D S where
  alive := Function.update mt.alive m false
  sb := Function.update mt.sb m L.someSb
  root := Function.update mt.root m (L.sbRoot L.someSb)
  parent := Function.update mt.parent m none
  mp := Function.update mt.mp m (L.sbRoot L.someSb)
  hashed := Function.update mt.hashed m false
  children := Function.update mt.children m []
  overmount := Function.update mt.overmount m none
  ns := Function.update mt.ns m none
  attached := Function.update mt.attached m false
  gid := Function.update mt.gid m 0
  shared := Function.update mt.shared m false
  unbind := Function.update mt.unbind m false
  marked := Function.update mt.marked m false
  cand := Function.update mt.cand m false
  master := Function.update mt.master m none
  npeer := Function.update mt.npeer m m
  slaves := Function.update mt.slaves m []
  locked := Function.update mt.locked m false
  umount := Function.update mt.umount m false
  shrink := Function.update mt.shrink m false
  onexp := Function.update mt.onexp m false
  expmark := Function.update mt.expmark m false

/-- `Fresh(m, sb, root)`, alloc_vfsmnt() and setup_mnt(): a detached, private mount. -/
@[simps! -fullyApplied] def fresh (m : M) (sb : S) (root : D) : Table M N D S :=
  { mt.kill L m with
    alive := Function.update mt.alive m true
    sb := Function.update mt.sb m sb
    root := Function.update mt.root m root
    mp := Function.update mt.mp m root }

def Peers (a b : M) : Prop := mt.gid a = mt.gid b ∧ mt.gid a ≠ 0

instance (a b : M) : Decidable (mt.Peers a b) := inferInstanceAs (Decidable (_ ∧ _))

/-! ### The hash and the tree -/

def lookupMnt (p : M) (d : D) : Option M :=
  L.chooseMnt ((mt.live L).filter fun x => mt.hashed x ∧ mt.parent x = some p ∧ mt.mp x = d)

def ancestorMntsIn : ℕ → M → Option (List M)
  | 0, _ => none
  | k + 1, m => match mt.parent m with
    | none => some []
    | some p => do return p :: (← ancestorMntsIn k p)

def ancestorMnts (m : M) : Option (List M) := mt.ancestorMntsIn L.fuel m

/-! ### The propagation graph, operationally -/

def ringFromIn (m : M) : ℕ → M → Option (List M)
  | 0, _ => none
  | k + 1, x => if mt.npeer x = m then some [x] else do return x :: (← ringFromIn m k (mt.npeer x))

/-- The peer ring of `m`, following mnt_share. -/
def ring (m : M) : Option (List M) := mt.ringFromIn m L.fuel m

/-- next_slave(): the next entry of the master's slave list. -/
def nextSlave (m : M) : Option M :=
  match mt.master m with
  | none => none
  | some x => (mt.slaves x)[(mt.slaves x).idxOf m + 1]?

/-- `!IS_MNT_NEW(m) && !hlist_empty(&m->mnt_slave_list)` -/
def firstSlave (m : M) : Option M := if mt.ns m ≠ none then (mt.slaves m).head? else none

def propNextUpIn : ℕ → M → M → Option (Option M)
  | 0, _, _ => none
  | k + 1, m, origin =>
    if mt.master m = mt.master origin then
      some (if mt.npeer m = origin then none else some (mt.npeer m))
    else match mt.nextSlave m with
      | some x => some (some x)
      | none => do propNextUpIn k (← mt.master m) origin

/-- __propagation_next() -/
def propNextUp (m origin : M) : Option (Option M) := mt.propNextUpIn L.fuel m origin

def propagationNext (m origin : M) : Option (Option M) :=
  match mt.firstSlave m with
  | some x => some (some x)
  | none => mt.propNextUp L m origin

/-- Where a loop of next_group() stops: with the result, or at a mount. -/
inductive Stop (M : Type) where
  | found (result : Option M)
  | reached (m : M)

/-- The inner loop: the peers of the current group, looking for slaves. -/
def nextGroupInner : ℕ → M → M → Option (Stop M)
  | 0, _, _ => none
  | k + 1, m, origin => match mt.firstSlave m with
    | some x => some (.found (some x))
    | none =>
      if mt.gid m = mt.gid origin then
        if mt.npeer m = origin then some (.found none) else nextGroupInner k (mt.npeer m) origin
      else if mt.nextSlave m ≠ some (mt.npeer m) then some (.reached m)
      else nextGroupInner k (mt.npeer m) origin

/-- The second loop: `m` is the last peer of its group. -/
def nextGroupUp : ℕ → M → M → Option (Stop M)
  | 0, _, _ => none
  | k + 1, m, origin => match mt.nextSlave m with
    | some x => some (.found (some x))
    | none => do
      let master ← mt.master m
      if mt.gid master = mt.gid origin then return .reached (mt.npeer master)
      else if mt.nextSlave master = some (mt.npeer master) then return .reached (mt.npeer master)
      else nextGroupUp k master origin

def nextGroupIn : ℕ → M → M → Option (Option M)
  | 0, _, _ => none
  | k + 1, m, origin => do
    match ← mt.nextGroupInner L.fuel m origin with
    | .found x => return x
    | .reached last => match ← mt.nextGroupUp L.fuel last origin with
      | .found x => return x
      | .reached next => if next = origin then return none else nextGroupIn k next origin

/-- next_group(): the first mount of the next peer group, depth first. -/
def nextGroup (m origin : M) : Option (Option M) := mt.nextGroupIn L L.fuel m origin

def propWalkIn (origin : M) : ℕ → Option M → Option (List M)
  | 0, _ => none
  | _ + 1, none => some []
  | k + 1, some m => do
    let rest ← propWalkIn origin k (← mt.propagationNext L m origin)
    return m :: rest

/-- Everything propagation_next() enumerates from `origin`, in that order. -/
def propagationOrder (origin : M) : Option (List M) := do
  mt.propWalkIn L origin L.fuel (← mt.propagationNext L origin origin)

/-! ### The propagation graph, declaratively -/

def peerGroup (m : M) : Finset M :=
  if mt.gid m = 0 then {m} else ((mt.live L).filter fun x => mt.gid x = mt.gid m).toFinset

def slavesOfGroup (m : M) : Finset M :=
  ((mt.live L).filter fun x => ∃ y ∈ mt.peerGroup L m, mt.master x = some y).toFinset

def recvClosureIn : ℕ → Finset M → Finset M
  | 0, s => s
  | k + 1, s =>
    let next := s ∪ s.biUnion (mt.peerGroup L) ∪ s.biUnion (mt.slavesOfGroup L)
    if next = s then s else recvClosureIn k next

/-- The mounts that receive propagation from `m`. -/
def recvSet (m : M) : Finset M := (mt.recvClosureIn L L.fuel {m}).erase m

end Table

end LinuxTla.Mount
