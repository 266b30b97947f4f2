import LinuxTla.Lib.Transition
import LinuxTla.Lib.Pointers
import Mathlib.Algebra.GroupWithZero.Nat
import Mathlib.Data.Finset.Sort
import Mathlib.Data.Finset.Union
import Mathlib.Data.Fintype.Basic
import Mathlib.Tactic.Simps.Basic
import Mathlib.Data.Int.Order.Basic

/-! Who owns an unmounted mount, in `MntOwn.tla`: umount_tree(), mntput() and
cleanup_mnt() over one namespace whose superblocks may keep files on its mounts. -/

namespace LinuxTla.MntOwn

/-- The constants; `none` is `NoMnt`. -/
structure Config (M S : Type) where
  root : M
  parent : M → Option M
  sb : M → S
  pin : S → Option M
  locked : Finset M
  extRefs : M → ℕ
  nsUsers : ℕ
  lazy : Bool
  sync : Bool
  detach : Bool
  fixPutMntNsDisconnect : Bool
  fixDisown : Bool
  fixDisconnectPinners : Bool
  pinnersAncestorOnly : Bool
  pinnersReexamine : Bool
  fixInternalClone : Bool
  pinBusy : Bool
  anyPin : Bool
  selfPin : Bool
  pinnerSbs : Finset S
  nullSb : S

/-- A tree below the namespace root. The nullfs instance is private: no mount of the
tree is on it and it keeps no file. -/
structure Config.WellFormed {M S : Type} (cfg : Config M S) : Prop where
  root : ∀ m, cfg.parent m = none ↔ m = cfg.root
  tree : Lib.Acyclic cfg.parent
  null_sb : ∀ m, cfg.sb m ≠ cfg.nullSb
  null_pin : cfg.pin cfg.nullSb = none
  null_pinner : cfg.nullSb ∉ cfg.pinnerSbs

/-- `State`: the mounts and superblocks, one field at a time, with the queue of
pending cleanups and the unmounted list. -/
structure Tables (M S : Type) where
  parent : M → Option M
  attached : M → Bool
  umount : M → Bool
  ns : M → Bool
  count : M → ℤ
  doomed : M → Bool
  tomb : M → Bool
  release : M → Bool
  sb : M → S
  oldsb : M → S
  locked : M → Bool
  stuck : M → Finset M
  freed : M → Bool
  active : S → ℤ
  pin : S → Option M
  cleanq : Finset M
  unm : List M

structure State (M S : Type) where
  tables : Tables M S
  ext : M → ℕ
  nsusers : ℕ
  nsalive : Bool

variable {M S : Type} [Fintype M] [LinearOrder M] [DecidableEq S] (cfg : Config M S)

namespace Tables

variable (st : Tables M S)

@[simps] def setCount (m : M) (c : ℤ) : Tables M S := { st with count := Function.update st.count m c }

@[simps] def setActive (s : S) (a : ℤ) : Tables M S := { st with active := Function.update st.active s a }

@[simps] def detach (s : Finset M) : Tables M S :=
  { st with
    attached := fun x => if x ∈ s then false else st.attached x
    parent := fun x => if x ∈ s then none else st.parent x }

/-! ### Helpers -/

def children (m : M) : Finset M :=
  Finset.univ.filter fun c => st.freed c = false ∧ st.parent c = some m ∧ st.attached c = true

def subtreeTo : ℕ → M → Finset M
  | 0, m => {m}
  | k + 1, m => insert m ((st.children m).biUnion (subtreeTo k))

/-- No branch is longer than the number of mounts. -/
def subtree (m : M) : Finset M := st.subtreeTo (Fintype.card M) m

end Tables

/-- `Depth(m)`, as far up as `k` steps lead. -/
def depthTo : ℕ → M → ℕ
  | 0, _ => 0
  | k + 1, m => match cfg.parent m with
    | none => 0
    | some p => 1 + depthTo k p

def depth (m : M) : ℕ := depthTo cfg (Fintype.card M) m

def Before (x y : M) : Prop := depth cfg x < depth cfg y ∨ depth cfg x = depth cfg y ∧ x ≤ y

instance : DecidableRel (Before cfg) := fun _ _ => inferInstanceAs (Decidable (_ ∨ _))

instance : IsTrans M (Before cfg) where
  trans x y z first second := by
    unfold Before at *
    rcases first with first | ⟨same, first⟩ <;> rcases second with second | ⟨same', second⟩
    · exact .inl (first.trans second)
    · exact .inl (same' ▸ first)
    · exact .inl (same ▸ second)
    · exact .inr ⟨same.trans same', first.trans second⟩

instance : Std.Antisymm (Before cfg) where
  antisymm x y first second := by
    unfold Before at *
    rcases first with first | ⟨_, first⟩ <;> rcases second with second | ⟨_, second⟩
    · omega
    · omega
    · omega
    · exact le_antisymm first second

instance : Std.Total (Before cfg) where
  total x y := by
    unfold Before
    rcases lt_trichotomy (depth cfg x) (depth cfg y) with less | same | more
    · exact .inl (.inl less)
    · rcases le_total x y with order | order
      · exact .inl (.inr ⟨same, order⟩)
      · exact .inr (.inr ⟨same.symm, order⟩)
    · exact .inr (.inl more)

/-- A parent comes before its children. -/
def ordered (s : Finset M) : List M := s.sort (Before cfg)

/-! ### mntput() -/

namespace Tables

variable (st : Tables M S)

/-- The children a final mntput() leaves to the cleanup of `m`. -/
def stuckOf (m : M) : Finset M :=
  if cfg.fixDisown then (st.children m).filter fun k => st.tomb k else st.children m

@[simps] def doom (m : M) : Tables M S :=
  { st.detach (st.children m) with
    count := Function.update st.count m 0
    doomed := Function.update st.doomed m true
    stuck := Function.update st.stuck m (st.stuckOf cfg m)
    cleanq := insert m st.cleanq }

/-- make_tombstone(): one reference for the parent that owns the slot now, one for
the pending release of the filesystem. -/
@[simps] def entomb (m : M) : Tables M S :=
  { st.detach (st.children m) with
    count := Function.update st.count m 2
    tomb := Function.update st.tomb m true
    release := Function.update st.release m true
    stuck := Function.update st.stuck m (st.stuckOf cfg m)
    sb := Function.update st.sb m cfg.nullSb
    oldsb := Function.update st.oldsb m (st.sb m)
    cleanq := insert m st.cleanq }

def put (m : M) : Tables M S :=
  let c := st.count m - 1
  if 0 < c ∨ st.ns m = true then st.setCount m c
  -- not reached: a second final put
  else if st.doomed m then st.setCount m c
  else if cfg.fixDisown = true ∧ st.parent m ≠ none ∧ st.attached m = true ∧ st.tomb m = false then st.entomb cfg m
  else st.doom cfg m

def putAll : Tables M S → List M → Tables M S
  | st, [] => st
  | st, m :: ms => (st.put cfg m).putAll ms

/-- deactivate_super(): the file a superblock kept open goes with it, and with the
internal clones the superblock that file lives on is dropped in turn. -/
def dropSb [Fintype S] (st : Tables M S) (s : S) : Tables M S :=
  let a := st.active s - 1
  if _ : a = 0 then
    match st.pin s with
    | none => st.setActive s a
    | some x => if cfg.fixInternalClone then (st.setActive s a).dropSb (cfg.sb x) else (st.setActive s a).put cfg x
  else st.setActive s a
termination_by (Finset.univ.filter fun s => 0 < st.active s).card
decreasing_by
  apply Finset.card_lt_card
  refine Finset.ssubset_iff_of_subset (fun t more => ?_) |>.mpr ⟨s, ?_, ?_⟩
  · by_cases same : t = s
    · subst same
      simp only [setActive_active, Finset.mem_filter, Function.update_self] at more
      omega
    · simpa [same] using more
  · simp only [Finset.mem_filter, Finset.mem_univ, true_and]
    omega
  · simp only [setActive_active, Finset.mem_filter, Function.update_self]
    omega

variable [Fintype S]

/-- cleanup_mnt() takes `m` off the queue and its stuck children with it. -/
@[simps] def visit (m : M) : Tables M S :=
  { st with stuck := Function.update st.stuck m ∅, cleanq := st.cleanq.erase m }

@[simps] def released (m : M) : Tables M S := { st with release := Function.update st.release m false }

@[simps] def free (m : M) : Tables M S :=
  { st with
    freed := Function.update st.freed m true
    attached := Function.update st.attached m false
    parent := Function.update st.parent m none }

/-- cleanup_mnt(): the release visit of a tombstone, or the stuck children, the
filesystem and the free. -/
def cleanup (m : M) : Tables M S :=
  if cfg.fixDisown = true ∧ st.release m = true then
    let st0 := putAll cfg ((st.visit m).released m) (ordered cfg (st.stuck m))
    let st1 := st0.dropSb cfg (st.oldsb m)
    st1.put cfg m
  else
    let st1 := putAll cfg (st.visit m) (ordered cfg (st.stuck m))
    let st2 := if st.sb m = cfg.nullSb then st1 else st1.dropSb cfg (st.sb m)
    st2.free m

end Tables

/-! ### umount_tree() -/

structure How where
  sync : Bool
  connected : Bool
deriving DecidableEq, Repr

namespace Tables

variable (st : Tables M S)

/-- `OwnerChain(t, p)`: the attached unmounted parents above, as far as `k` steps lead. -/
def ownerChainTo : ℕ → M → Finset M
  | 0, _ => ∅
  | k + 1, p => match st.parent p with
    | none => ∅
    | some q => if st.attached p = false ∨ st.umount q = false then ∅ else insert q (ownerChainTo k q)

def ownerChain (p : M) : Finset M := st.ownerChainTo (Fintype.card M) p

/-- The superblock of `p` keeps a file on a victim of this umount_tree(). -/
def PinsVictim (p : M) : Prop :=
  ∃ x, st.pin (st.sb p) = some x ∧ st.umount x = true ∧ st.freed x = false ∧
    (cfg.pinnersAncestorOnly = false ∨ x ∈ st.ownerChain p)

instance (p : M) : Decidable (st.PinsVictim cfg p) := by unfold PinsVictim; infer_instance

def Disconnect (p : M) (how : How) : Prop :=
  how.sync = true ∨ st.attached p = false ∨ (∀ q, st.parent p = some q → st.umount q = false) ∨
    cfg.fixDisconnectPinners = true ∧ st.PinsVictim cfg p ∨ how.connected = false ∧ st.locked p = false

instance (p : M) (how : How) : Decidable (st.Disconnect cfg p how) := by unfold Disconnect; infer_instance

/-- One victim: out of the namespace, disconnected or left attached. -/
def umountOne (p : M) (how : How) : Tables M S :=
  let st1 := if st.Disconnect cfg p how then st.detach {p} else st
  { st1 with
    umount := Function.update st.umount p true
    ns := Function.update st.ns p false
    unm := if cfg.fixDisown = true ∨ st.Disconnect cfg p how then st.unm ++ [p] else st.unm }

def umountEach (how : How) : Tables M S → List M → Tables M S
  | st, [] => st
  | st, p :: ps => umountEach how (st.umountOne cfg p how) ps

/-- The mounts an earlier umount_tree() left connected whose superblock pins a victim. -/
def late (victims : Finset M) : Finset M :=
  Finset.univ.filter fun c => st.freed c = false ∧ st.umount c = true ∧ st.attached c = true ∧
    c ∉ victims ∧ (∃ q, st.parent c = some q ∧ st.umount q = true) ∧ st.PinsVictim cfg c

def reexamine (victims : Finset M) : Tables M S :=
  { st.detach (st.late cfg victims) with unm := st.unm ++ ordered cfg (st.late cfg victims) }

/-- `MNT_UMOUNT` on the whole set. -/
@[simps] def markUmount (victims : Finset M) : Tables M S :=
  { st with umount := fun x => if x ∈ victims then true else st.umount x }

def umountTree (m : M) (how : How) : Tables M S :=
  let victims := st.subtree m
  let st1 := umountEach cfg how (st.markUmount victims) (ordered cfg victims)
  let st2 := if cfg.fixDisconnectPinners = true ∧ cfg.pinnersReexamine = true then st1.reexamine cfg victims else st1
  if cfg.fixDisown then st2 else { st2 with unm := st2.unm.reverse }

end Tables

/-! ### The actions -/

variable [Fintype S]

/-- The pins a run starts with. -/
def PinChoice (pin : S → Option M) : Prop :=
  if cfg.anyPin then
    (∀ s, s ∉ cfg.pinnerSbs → pin s = none) ∧
      (cfg.selfPin = true ∨ ∀ s ∈ cfg.pinnerSbs, ∀ x, pin s = some x → cfg.sb x ≠ s)
  else pin = cfg.pin

def init (pin : S → Option M) : State M S where
  tables :=
    { parent := cfg.parent
      attached := fun _ => true
      umount := fun _ => false
      ns := fun _ => true
      count := fun m => 1 + cfg.extRefs m +
        (if cfg.fixInternalClone then 0 else (Finset.univ.filter fun s => pin s = some m).card : ℕ)
      doomed := fun _ => false
      tomb := fun _ => false
      release := fun _ => false
      sb := cfg.sb
      oldsb := fun _ => cfg.nullSb
      locked := fun m => m ∈ cfg.locked
      stuck := fun _ => ∅
      freed := fun _ => false
      active := fun s => (Finset.univ.filter fun m => cfg.sb m = s).card +
        (if cfg.fixInternalClone then (Finset.univ.filter fun t => (pin t).map cfg.sb = some s).card else 0 : ℕ)
      pin := pin
      cleanq := ∅
      unm := [] }
  ext := cfg.extRefs
  nsusers := cfg.nsUsers
  nsalive := true

namespace State

variable (s : State M S)

/-- A mount below the root that umount(2) can be asked for. -/
def Mounted (m : M) : Prop :=
  s.tables.unm = [] ∧ s.nsalive = true ∧ 0 < s.nsusers ∧ m ≠ cfg.root ∧ s.tables.ns m = true ∧
    s.tables.attached m = true

@[simps] def umount (m : M) (how : How) : State M S := { s with tables := s.tables.umountTree cfg m how }

structure Settled : Prop where
  ns : s.nsalive = false
  users : s.nsusers = 0
  unm : s.tables.unm = []
  cleanq : s.tables.cleanq = ∅
  ext : ∀ m, s.ext m = 0

end State

inductive Next (s : State M S) : State M S → Prop
  | lazyUmount {m} (on : cfg.lazy = true) (mounted : s.Mounted cfg m) (unlocked : s.tables.locked m = false) :
      Next s (s.umount cfg m ⟨false, false⟩)
  | syncUmount {m} (on : cfg.sync = true) (mounted : s.Mounted cfg m) (unlocked : s.tables.locked m = false)
      (leaf : s.tables.children m = ∅) (idle : s.tables.count m = 1)
      (free : ¬ (cfg.pinBusy = true ∧ ∃ b, 0 < s.tables.active b ∧ s.tables.pin b = some m)) :
      Next s (s.umount cfg m ⟨true, false⟩)
  | detachMounts {m} (on : cfg.detach = true) (mounted : s.Mounted cfg m) : Next s (s.umount cfg m ⟨false, true⟩)
  | leave (users : 0 < s.nsusers) : Next s { s with nsusers := s.nsusers - 1 }
  | putMntNs (alive : s.nsalive = true) (users : s.nsusers = 0) (idle : s.tables.unm = []) :
      Next s { s.umount cfg cfg.root ⟨false, !cfg.fixPutMntNsDisconnect⟩ with nsalive := false }
  | nsUnlockPut {m ms} (pending : s.tables.unm = m :: ms) :
      Next s { s with tables := Tables.put cfg { s.tables with unm := ms } m }
  | close {m} (held : 0 < s.ext m) :
      Next s { s with ext := Function.update s.ext m (s.ext m - 1), tables := s.tables.put cfg m }
  | cleanupMnt {m} (queued : m ∈ s.tables.cleanq) : Next s { s with tables := s.tables.cleanup cfg m }
  | settled (all : s.Settled) : Next s s

def spec : Lib.System (State M S) where
  init s := ∃ pin, PinChoice cfg pin ∧ s = init cfg pin
  next := Next cfg

/-! ### What is checked -/

section Checked

variable (s : State M S)

def alive : Finset M := Finset.univ.filter fun m => s.tables.freed m = false

/-- Nothing freed is still pointed at. -/
structure NoUAF : Prop where
  parent : ∀ m ∈ alive s, ∀ p, s.tables.parent m = some p → s.tables.freed p = false
  stuck : ∀ m ∈ alive s, s.tables.stuck m ⊆ alive s
  pin : ∀ b x, 0 < s.tables.active b → s.tables.pin b = some x →
    if cfg.fixInternalClone then 0 < s.tables.active (cfg.sb x) else s.tables.freed x = false
  held : ∀ m, s.tables.freed m = true → s.ext m = 0 ∧ m ∉ s.tables.cleanq ∧ m ∉ s.tables.unm

/-- An attached unmounted mount holds its own reference unless it is a tombstone. -/
def OwnRef : Prop :=
  cfg.fixDisown = true → ∀ m ∈ alive s, s.tables.umount m = true ∧ s.tables.attached m = true ∧
    s.tables.tomb m = false → 1 ≤ s.tables.count m

def TombOK : Prop := ∀ m ∈ alive s, s.tables.sb m = cfg.nullSb → s.tables.tomb m = true

def TombLeaf : Prop :=
  ∀ m ∈ alive s, s.tables.tomb m = true → s.tables.sb m = cfg.nullSb ∧ s.tables.children m = ∅

/-- The superblock of `y` is active and keeps a file on `x`. -/
def Pins (y x : M) : Prop :=
  s.tables.pin (s.tables.sb y) = some x ∧ 0 < s.tables.active (s.tables.sb y)

/-- `y` keeps `x` alive: by a file, or as the parent that owns it. -/
def Keeps (y x : M) : Prop :=
  cfg.fixInternalClone = false ∧ Pins s y x ∨
    s.tables.attached x = true ∧ s.tables.parent x = some y ∧
      (cfg.fixDisown = false ∨ s.tables.tomb x = true)

instance (y x : M) : Decidable (Pins s y x) := inferInstanceAs (Decidable (_ ∧ _))

instance (y x : M) : Decidable (Keeps cfg s y x) := inferInstanceAs (Decidable (_ ∨ _))

def PinCycle (c : Finset M) : Prop := c ≠ ∅ ∧ ∀ y ∈ c, ∃ x ∈ c, Pins s x y

def keptStep (c : Finset M) : Finset M := c ∪ (alive s).filter fun x => ∃ y ∈ c, Keeps cfg s y x

/-- `KeptFrom(S)`: no chain is longer than the number of mounts. -/
def keptFrom (c : Finset M) : Finset M := (keptStep cfg s)^[Fintype.card M] c

def LeaksAreCycles : Prop :=
  s.Settled → ∀ m ∈ alive s, ∃ c, c ⊆ alive s ∧ PinCycle s c ∧ m ∈ keptFrom cfg s c

def MountsReaped : Prop :=
  cfg.fixInternalClone = true → s.Settled → ∀ m, s.tables.freed m = true

/-- The file of `u` lives on `t`. -/
def SbKeeps (u t : S) : Prop := 0 < s.tables.active u ∧ (s.tables.pin u).map cfg.sb = some t

instance (u t : S) : Decidable (SbKeeps cfg s u t) := inferInstanceAs (Decidable (_ ∧ _))

def SbPinCycle (c : Finset S) : Prop := c ≠ ∅ ∧ ∀ t ∈ c, ∃ u ∈ c, SbKeeps cfg s u t

def sbKeptStep (c : Finset S) : Finset S := c ∪ Finset.univ.filter fun t => ∃ u ∈ c, SbKeeps cfg s u t

def sbKeptFrom (c : Finset S) : Finset S := (sbKeptStep cfg s)^[Fintype.card S] c

def SbLeaksAreCycles : Prop :=
  cfg.fixInternalClone = true → s.Settled → ∀ t, 0 < s.tables.active t →
    ∃ c, SbPinCycle cfg s c ∧ t ∈ sbKeptFrom cfg s c

end Checked

end LinuxTla.MntOwn
