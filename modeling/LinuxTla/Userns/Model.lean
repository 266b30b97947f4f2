import LinuxTla.Lib.Transition
import Mathlib.Data.Finset.Image
import Mathlib.Data.Int.Order.Basic

/-! `UsernsRegistry.tla`: user namespaces delegated by nsresourced, their registry
entries, the BPF map, PID 1's fd store and the manager that releases them. -/

namespace LinuxTla.Userns

inductive Role
  | nspawn | executor
deriving DecidableEq, Repr

structure Config (C I R : Type) where
  clients : Finset C
  role : C → Role
  inodes : Finset I
  ranges : Finset R
  idMax : ℕ
  ringCap : ℕ
  restartBudget : ℕ
  fdstorePins : Bool
  fixNsidVerify : Bool
  fixReapOnAlloc : Bool
  fixStartupSweep : Bool
  fixRingbufLock : Bool

/-- `Kernel`: the namespaces, by their NS_GET_ID. -/
structure Kernel (I R : Type) where
  nsAlive : Finset ℕ
  nsInode : ℕ → Option I
  nsRefs : ℕ → ℤ
  nsRange : ℕ → Option R
  freeInodes : Finset I
  nextId : ℕ

structure Entry (R : Type) where
  id : Option ℕ
  range : Option R
  cg : Bool
  netif : Bool
deriving DecidableEq, Repr

def noEntry {R : Type} : Entry R := { id := none, range := none, cg := false, netif := false }

/-- An fd named after `inode` that references namespace `id`. -/
structure Stored (I : Type) where
  inode : I
  id : ℕ
deriving DecidableEq, Repr

/-- What a registration owns, and the registry itself. `cgroups` and `netifs` name the
namespaces whose cgroup and interface exist. -/
structure Store (I R : Type) where
  managed : Finset I
  fdstore : Finset (Stored I)
  cgroups : Finset ℕ
  netifs : Finset ℕ
  registry : I → Entry R

inductive Holder (C : Type)
  | worker (c : C)
  | mgr
deriving DecidableEq, Repr

inductive ClientPc
  | idle | alloc | registered | failed
deriving DecidableEq, Repr

structure Client where
  pc : ClientPc
  ns : Option ℕ
deriving DecidableEq, Repr

inductive WorkerPc
  | lock | slot | range | push | done
deriving DecidableEq, Repr

/-- What the history variable records. -/
structure Hist where
  dropped : Bool
  starved : Bool
deriving DecidableEq, Repr

structure State (C I R : Type) where
  kernel : Kernel I R
  ringbuf : List I
  store : Store I R
  lock : Option (Holder C)
  cl : C → Client
  wk : C → WorkerPc
  /-- The inode the manager is about to release. -/
  mgr : Option I
  restart : ℕ
  hist : Hist

variable {C I R : Type} [DecidableEq C] [DecidableEq I] [DecidableEq R] (cfg : Config C I R)

namespace Kernel

variable (k : Kernel I R)

/-- A fresh empty namespace with one reference. -/
def created (i : I) : Kernel I R :=
  { k with
    nsAlive := insert k.nextId k.nsAlive
    nsInode := Function.update k.nsInode k.nextId (some i)
    nsRefs := Function.update k.nsRefs k.nextId 1
    freeInodes := k.freeInodes.erase i
    nextId := k.nextId + 1 }

def dropped (n : ℕ) : Kernel I R := { k with nsRefs := Function.update k.nsRefs n (k.nsRefs n - 1) }

/-- write_userns() -/
def mapped (n : ℕ) (r : R) : Kernel I R := { k with nsRange := Function.update k.nsRange n (some r) }

/-- The inode number is free again. -/
def died (n : ℕ) (i : I) : Kernel I R :=
  { k with nsAlive := k.nsAlive.erase n, freeInodes := insert i k.freeInodes }

end Kernel

namespace Store

variable (st : Store I R)

/-- userns_registry_release_by_info(): the map entry, the fd store entries of that
name, the cgroup, the interface, the registry files. -/
def released (i : I) : Store I R where
  managed := st.managed.erase i
  fdstore := st.fdstore.filter fun x => x.inode ≠ i
  cgroups := st.cgroups.filter fun n => (st.registry i).id ≠ some n
  netifs := st.netifs.filter fun n => (st.registry i).id ≠ some n
  registry := Function.update st.registry i noEntry

/-- Without an entry only the map and the fd store are cleaned. -/
def cleaned (i : I) : Store I R :=
  { st with managed := st.managed.erase i, fdstore := st.fdstore.filter fun x => x.inode ≠ i }

/-- userns_registry_store() and userns_restrict_register_by_fd() -/
def stored (i : I) (n : ℕ) (r : R) : Store I R :=
  { st with
    registry := Function.update st.registry i { id := some n, range := some r, cg := false, netif := false }
    managed := insert i st.managed }

/-- FDSTORE=1 -/
def pushed (i : I) (n : ℕ) : Store I R :=
  { st with fdstore := if cfg.fdstorePins then insert { inode := i, id := n } st.fdstore else st.fdstore }

/-- The cgroup is chowned to the range, the veth created and recorded. -/
def delegated (i : I) (n : ℕ) : Store I R :=
  { st with
    registry := Function.update st.registry i { st.registry i with cg := true, netif := true }
    cgroups := insert n st.cgroups
    netifs := insert n st.netifs }

def freeRange : Finset R := cfg.ranges.filter fun r => ∀ i ∈ cfg.inodes, (st.registry i).range ≠ some r

/-- The entries that describe a dead namespace. -/
def dead (alive : Finset ℕ) : Finset I :=
  cfg.inodes.filter fun i => ∃ n, (st.registry i).id = some n ∧ n ∉ alive

end Store

def Pinned (st : Store I R) (n : ℕ) : Prop := ∃ f ∈ st.fdstore, f.id = n

/-! ### manager_startup() -/

/-- The registered inodes reaped at startup. -/
def staleEntries (st : Store I R) (alive : Finset ℕ) : Finset I :=
  cfg.inodes.filter fun i => cfg.fixStartupSweep = true ∧ ∃ n, (st.registry i).id = some n ∧ n ∉ alive

def liveEntries (st : Store I R) (alive : Finset ℕ) : Finset I :=
  cfg.inodes.filter fun i => (st.registry i).id ≠ none ∧ i ∉ staleEntries cfg st alive

/-- The inodes in the fd store without a registry entry. -/
def orphans (st : Store I R) : Finset I :=
  (st.fdstore.filter fun x => (st.registry x.inode).id = none).image Stored.inode

def staleIds (st : Store I R) (alive : Finset ℕ) : Finset (Option ℕ) :=
  (staleEntries cfg st alive).image fun i => (st.registry i).id

def swept (st : Store I R) (alive : Finset ℕ) : Store I R where
  managed := (st.managed \ (staleEntries cfg st alive ∪ orphans st)) ∪ liveEntries cfg st alive
  fdstore := st.fdstore.filter fun x => x.inode ∉ staleEntries cfg st alive ∪ orphans st
  cgroups := st.cgroups.filter fun n => some n ∉ staleIds cfg st alive
  netifs := st.netifs.filter fun n => some n ∉ staleIds cfg st alive
  registry i := if i ∈ staleEntries cfg st alive then noEntry else st.registry i

/-! ### The steps -/

variable (s : State C I R)

namespace State

/-- The request of `c` fails and its worker drops the lock. -/
def failed (c : C) : State C I R :=
  { s with
    wk := Function.update s.wk c .done
    cl := Function.update s.cl c { s.cl c with pc := .failed }
    lock := none }

def setWk (c : C) (pc : WorkerPc) : State C I R := { s with wk := Function.update s.wk c pc }

end State

/-- A client, and the worker serving its request. -/
inductive ClientStep (c : C) : State C I R → Prop
  -- userns_acquire_empty() and the AllocateUserRange call
  | create {i} (idle : (s.cl c).pc = .idle) (bound : s.kernel.nextId ≤ cfg.idMax) (free : i ∈ s.kernel.freeInodes) :
      ClientStep c
        { s with
          kernel := s.kernel.created i
          cl := Function.update s.cl c { pc := .alloc, ns := some s.kernel.nextId }
          wk := Function.update s.wk c .lock }
  -- the client's fd and processes are gone
  | drop {n} (ended : (s.cl c).pc = .registered ∨ (s.cl c).pc = .failed) (ns : (s.cl c).ns = some n) :
      ClientStep c
        { s with
          kernel := s.kernel.dropped n
          cl := Function.update s.cl c { pc := .idle, ns := none } }
  -- userns_registry_lock()
  | wLock (pc : s.wk c = .lock) (free : s.lock = none) :
      ClientStep c { s.setWk c .slot with lock := some (.worker c) }
  -- inode_slot_is_available(): no entry
  | wSlotEmpty {n i} (pc : s.wk c = .slot) (ns : (s.cl c).ns = some n) (inode : s.kernel.nsInode n = some i)
      (empty : (s.store.registry i).id = none) : ClientStep c (s.setWk c .range)
  -- an entry that describes another namespace is stale and released
  | wSlotStale {n i e} (pc : s.wk c = .slot) (ns : (s.cl c).ns = some n) (inode : s.kernel.nsInode n = some i)
      (entry : (s.store.registry i).id = some e) (other : cfg.fixNsidVerify = true ∧ e ≠ n) :
      ClientStep c { s.setWk c .range with store := s.store.released i }
  -- UserNamespaceExists
  | wSlotTaken {n i e} (pc : s.wk c = .slot) (ns : (s.cl c).ns = some n) (inode : s.kernel.nsInode n = some i)
      (entry : (s.store.registry i).id = some e) (taken : ¬ (cfg.fixNsidVerify = true ∧ e ≠ n)) :
      ClientStep c (s.failed c)
  -- userns_registry_store(), userns_restrict_register_by_fd(), write_userns()
  | wRange {n i r} (pc : s.wk c = .range) (ns : (s.cl c).ns = some n) (inode : s.kernel.nsInode n = some i)
      (free : r ∈ s.store.freeRange cfg) :
      ClientStep c
        { s.setWk c .push with
          kernel := s.kernel.mapped n r
          store := s.store.stored i n r
          lock := none }
  -- registry_range_is_available() reaps a dead owner
  | wRangeReap {j} (pc : s.wk c = .range) (none : s.store.freeRange cfg = ∅) (reap : cfg.fixReapOnAlloc = true)
      (dead : j ∈ s.store.dead cfg s.kernel.nsAlive) : ClientStep c { s with store := s.store.released j }
  -- NoDynamicRange
  | wRangeFail (pc : s.wk c = .range) (none : s.store.freeRange cfg = ∅)
      (stuck : cfg.fixReapOnAlloc = false ∨ s.store.dead cfg s.kernel.nsAlive = ∅) :
      ClientStep c
        { s.failed c with
          hist := { s.hist with starved := s.hist.starved || s.store.dead cfg s.kernel.nsAlive ≠ ∅ } }
  -- FDSTORE=1 after the lock was closed, then the reply
  | wPush {n i} (pc : s.wk c = .push) (ns : (s.cl c).ns = some n) (inode : s.kernel.nsInode n = some i) :
      ClientStep c
        { s.setWk c .done with
          store := s.store.pushed cfg i n
          cl := Function.update s.cl c { s.cl c with pc := .registered } }
  -- AddControlGroupToUserNamespace and AddNetworkToUserNamespace
  | wResources {n i} (pc : (s.cl c).pc = .registered) (role : cfg.role c = .nspawn) (free : s.lock = none)
      (ns : (s.cl c).ns = some n) (inode : s.kernel.nsInode n = some i) (entry : (s.store.registry i).id = some n)
      (fresh : (s.store.registry i).cg = false) :
      ClientStep c
        { s with store := s.store.delegated i n }

/-- free_user_ns(): the kprobe reports the inode if the map knows it and the ring
buffer has room. -/
def reported (i : I) : State C I R :=
  if i ∈ s.store.managed then
    if s.ringbuf.length < cfg.ringCap then { s with ringbuf := s.ringbuf ++ [i] }
    else { s with hist := { s.hist with dropped := true } }
  else s

/-- manager_release_userns_by_inode() -/
def mgrReleased (alive : Finset ℕ) (st : Store I R) (i : I) : Store I R :=
  match (st.registry i).id with
  | none => st.cleaned i
  | some n => if cfg.fixNsidVerify = true ∧ n ∈ alive then st else st.released i

inductive Next : State C I R → Prop
  | client {c s'} (member : c ∈ cfg.clients) (step : ClientStep cfg s c s') : Next s'
  -- the last reference is gone, the inode number is free again
  | nsDie {n i} (alive : n ∈ s.kernel.nsAlive) (unused : s.kernel.nsRefs n = 0) (unpinned : ¬ Pinned s.store n)
      (inode : s.kernel.nsInode n = some i) :
      Next
        { reported cfg s i with kernel := s.kernel.died n i }
  -- ringbuf_event()
  | mgrTake {i rest} (idle : s.mgr = none) (event : s.ringbuf = i :: rest)
      (free : cfg.fixRingbufLock = true → s.lock = none) :
      Next
        { s with
          lock := if cfg.fixRingbufLock then some .mgr else s.lock
          mgr := some i
          ringbuf := rest }
  | mgrRelease {i} (busy : s.mgr = some i) :
      Next
        { s with
          store := mgrReleased cfg s.kernel.nsAlive s.store i
          lock := if cfg.fixRingbufLock then none else s.lock
          mgr := none }
  -- requests fail, PID 1 keeps the fd store, manager_startup() sweeps
  | restart (budget : 0 < s.restart) (idle : s.mgr = none) :
      Next
        { s with
          restart := s.restart - 1
          store := swept cfg s.store s.kernel.nsAlive
          lock := none
          wk := fun _ => .done
          cl := fun c => if (s.cl c).pc = .alloc then { s.cl c with pc := .failed } else s.cl c }

def init : State C I R where
  kernel :=
    { nsAlive := ∅, nsInode := fun _ => none, nsRefs := fun _ => 0, nsRange := fun _ => none,
      freeInodes := cfg.inodes, nextId := 1 }
  ringbuf := []
  store := { managed := ∅, fdstore := ∅, cgroups := ∅, netifs := ∅, registry := fun _ => noEntry }
  lock := none
  cl _ := { pc := .idle, ns := none }
  wk _ := .done
  mgr := none
  restart := cfg.restartBudget
  hist := { dropped := false, starved := false }

def spec : Lib.System (State C I R) where
  init s := s = init cfg
  next := Next cfg

/-! ### What is checked -/

/-- Two live namespaces never map the same transient range. -/
def LiveRangesDisjoint : Prop :=
  ∀ n ∈ s.kernel.nsAlive, ∀ m ∈ s.kernel.nsAlive, n ≠ m → s.kernel.nsRange n ≠ none →
    s.kernel.nsRange n ≠ s.kernel.nsRange m

/-- A live namespace that holds a range is subject to the BPF policy. -/
def ManagedCoversLive : Prop :=
  ∀ n ∈ s.kernel.nsAlive, s.kernel.nsRange n ≠ none →
    ∃ i ∈ s.store.managed, s.kernel.nsInode n = some i

/-- What is delegated to a live namespace is not destroyed behind its back. -/
def ResourcesOfLiveKept : Prop :=
  ∀ i ∈ cfg.inodes, ∀ n ∈ s.kernel.nsAlive, (s.store.registry i).id = some n →
    ((s.store.registry i).cg = true → n ∈ s.store.cgroups) ∧
      ((s.store.registry i).netif = true → n ∈ s.store.netifs)

/-- The registry never describes a live namespace under the wrong inode. -/
def RegistryConsistent : Prop :=
  ∀ i ∈ cfg.inodes, ∀ n ∈ s.kernel.nsAlive, (s.store.registry i).id = some n → s.kernel.nsInode n = some i

end LinuxTla.Userns
