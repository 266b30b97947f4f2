import LinuxTla.Lib.Transition
import Mathlib.Data.Finset.Basic
import Mathlib.Data.Fintype.Basic
import Mathlib.Data.Int.Order.Basic
import Mathlib.Tactic.Simps.Basic

/-! `MntNs.tla`: one mount namespace, its three counters, the nsfs inode and the namespace
tree, among tasks that leave it, open it, list it and look at its mounts. -/

namespace LinuxTla.MntNs

structure Config where
  fixActiveCheck : Bool
  fixTreeFirst : Bool
  fixCascade : Bool
  fixActiveFirst : Bool
  fixEvictFirst : Bool
  fixPassiveRcu : Bool
  fixPutOutsideRcu : Bool

structure Config.Fixed (cfg : Config) : Prop where
  activeCheck : cfg.fixActiveCheck = true
  treeFirst : cfg.fixTreeFirst = true
  cascade : cfg.fixCascade = true
  activeFirst : cfg.fixActiveFirst = true
  evictFirst : cfg.fixEvictFirst = true
  passiveRcu : cfg.fixPassiveRcu = true
  putOutsideRcu : cfg.fixPutOutsideRcu = true

/-- `T` lives in the namespace, `F` opens its nsfs file, `L` is listns(), `Q` asks for the next
namespace and `S` is statmount(). -/
inductive Task
  | T | F | L | Q | S
deriving DecidableEq, Repr

instance : Fintype Task := ⟨{.T, .F, .L, .Q, .S}, fun t => by cases t <;> decide⟩

inductive Label
  | tRun | tRef | tActive
  | fOpen | fStash | fClose
  | lLookup | lGet | lMiss | lUnlock | lPut | lUnlockLate
  | qLookup | qGet | qMiss | qOpen | qClose
  | sLookup | sGet | sMiss | sSem | sWork | sRelease
  | evRef | evActive
  | tdNsem | tdTree | tdRcu | tdRcuFirst | tdTreeLate
  | done
deriving DecidableEq, Repr

/-- What `bad` may say. -/
inductive Violation
  | sleepInRcu | activeWithoutRef | useAfterFree | listedInactive | passiveOnDead
deriving DecidableEq, Repr

/-- The variables; nobody reads `hold`, so it is left out. -/
structure State where
  ref : ℤ
  active : ℤ
  passive : ℤ
  uactive : ℤ
  intree : Bool
  inum : Bool
  mounts : Bool
  freed : Bool
  inode : Bool
  files : ℤ
  nsem : Option Task
  nsreaders : Finset Task
  rcu : Task → Bool
  gpOn : Bool
  gpWait : Finset Task
  pc : Task → Label
  ret : Task → Label
  bad : Option Violation

def Task.start : Task → Label
  | .T => .tRun
  | .F => .fOpen
  | .L => .lLookup
  | .Q => .qLookup
  | .S => .sLookup

def init : State where
  ref := 1
  active := 1
  passive := 1
  uactive := 2
  intree := true
  inum := true
  mounts := true
  freed := false
  inode := false
  files := 0
  nsem := none
  nsreaders := ∅
  rcu _ := false
  gpOn := false
  gpWait := ∅
  pc := Task.start
  ret _ := .done
  bad := none

def flag (bad : Option Violation) (cond : Prop) [Decidable cond] (name : Violation) : Option Violation :=
  if bad = none ∧ cond then some name else bad

namespace State

variable (cfg : Config) (s : State)

def go (t : Task) (l : Label) : State := { s with pc := Function.update s.pc t l }

def readers : Finset Task := Finset.univ.filter fun t => s.rcu t = true

def NsFree : Prop := s.nsem = none ∧ s.nsreaders = ∅

def rcuOut (t : Task) : State := { s with rcu := Function.update s.rcu t false, gpWait := s.gpWait.erase t }

/-- rcu_read_lock() -/
def rcuIn (t : Task) : State := { s with rcu := Function.update s.rcu t true }

def activeGet : State :=
  { s with active := s.active + 1, uactive := if s.active = 0 ∧ cfg.fixCascade = true then s.uactive + 1 else s.uactive }

def activePut : State :=
  { s with active := s.active - 1, uactive := if s.active = 1 ∧ cfg.fixCascade = true then s.uactive - 1 else s.uactive }

/-- ns_ref_put(): the last reference starts the teardown, in the caller's context. -/
def refPut (t : Task) (next : Label) : State :=
  if s.ref = 1 then
    { s with
      ref := s.ref - 1
      pc := Function.update s.pc t .tdNsem
      ret := Function.update s.ret t next
      bad := flag s.bad (s.rcu t = true) .sleepInRcu }
  else { s with ref := s.ref - 1, pc := Function.update s.pc t next }

/-- path_from_stashed() with a reference in hand. -/
def openFile (t : Task) (next : Label) : State :=
  if s.inode = true then { s with files := s.files + 1 }.refPut t next
  else ({ s with files := s.files + 1, inode := true }.activeGet cfg).go t next

/-- The last close leaves the dentry stashed. -/
def closeFile (t : Task) : State := { s with files := s.files - 1 }.go t .done

end State

/-! ### The actions -/

section Actions

variable (cfg : Config) (s : State)

/-- put_mnt_ns() after the last reference. -/
inductive Teardown (t : Task) : State → Prop
  | nsem (here : s.pc t = .tdNsem) (free : s.NsFree) :
      Teardown t ({ s with nsem := some t, bad := flag s.bad (0 < s.active) .activeWithoutRef }.go t .tdTree)
  | tree (here : s.pc t = .tdTree) (first : cfg.fixTreeFirst = true) :
      Teardown t ({ s with mounts := false, nsem := none, inum := false, intree := false }.go t .tdRcu)
  | treeLater (here : s.pc t = .tdTree) (later : cfg.fixTreeFirst = false) :
      Teardown t ({ s with mounts := false, nsem := none, inum := false }.go t .tdRcuFirst)
  | rcu (here : s.pc t = .tdRcu) (callback : cfg.fixPassiveRcu = true) :
      Teardown t ({ s with gpOn := true, gpWait := s.readers }.go t (s.ret t))
  | rcuNow (here : s.pc t = .tdRcu) (atOnce : cfg.fixPassiveRcu = false) :
      Teardown t ({ s with passive := s.passive - 1, freed := decide (s.passive = 1) }.go t (s.ret t))
  | rcuFirst (here : s.pc t = .tdRcuFirst) : Teardown t ({ s with gpOn := true, gpWait := s.readers }.go t .tdTreeLate)
  | treeLate (here : s.pc t = .tdTreeLate) : Teardown t ({ s with intree := false }.go t (s.ret t))

/-- nsfs_evict(), run in the place of `S`. -/
inductive Evict : State → Prop
  | active (inode : s.inode = true) (unused : s.files = 0) (idle : s.pc .S = .done) (first : cfg.fixEvictFirst = true) :
      Evict ((s.activePut cfg).go .S .evRef)
  | refFirst (inode : s.inode = true) (unused : s.files = 0) (idle : s.pc .S = .done) (later : cfg.fixEvictFirst = false) :
      Evict (s.refPut .S .evActive)
  | ref (here : s.pc .S = .evRef) : Evict ({ s with inode := false }.refPut .S .done)
  | activeLate (here : s.pc .S = .evActive) : Evict (({ s with inode := false }.activePut cfg).go .S .done)

/-- deactivate_nsproxy() -/
inductive TaskT : State → Prop
  | exit (here : s.pc .T = .tRun) (first : cfg.fixActiveFirst = true) : TaskT ((s.activePut cfg).go .T .tRef)
  | exitRefFirst (here : s.pc .T = .tRun) (later : cfg.fixActiveFirst = false) : TaskT (s.refPut .T .tActive)
  | ref (here : s.pc .T = .tRef) : TaskT (s.refPut .T .done)
  | activeLate (here : s.pc .T = .tActive) : TaskT ((s.activePut cfg).go .T .done)

/-- /proc/<T>/ns/mnt -/
inductive TaskF : State → Prop
  | opens (here : s.pc .F = .fOpen) (lives : s.pc .T = .tRun) : TaskF ({ s with ref := s.ref + 1 }.go .F .fStash)
  | gone (here : s.pc .F = .fOpen) (left : s.pc .T ≠ .tRun) : TaskF (s.go .F .done)
  | stash (here : s.pc .F = .fStash) : TaskF (s.openFile cfg .F .fClose)
  | close (here : s.pc .F = .fClose) : TaskF (s.closeFile .F)

/-- ns_get_unless_inactive() -/
def Gets : Prop := 0 < s.ref ∧ (0 < s.active ∨ cfg.fixActiveCheck = false)

instance : Decidable (Gets cfg s) := inferInstanceAs (Decidable (_ ∧ _))

/-- listns() -/
inductive TaskL : State → Prop
  | find (here : s.pc .L = .lLookup) : TaskL ((s.rcuIn .L).go .L (if s.intree then .lGet else .lMiss))
  | get (here : s.pc .L = .lGet) (gets : Gets cfg s) :
      TaskL ({ s with
        ref := s.ref + 1
        bad := flag (flag s.bad (s.freed = true) .useAfterFree) (s.active = 0) .listedInactive }.go .L
          (if cfg.fixPutOutsideRcu then .lUnlock else .lPut))
  | getNot (here : s.pc .L = .lGet) (fails : ¬ Gets cfg s) :
      TaskL ({ s with bad := flag s.bad (s.freed = true) .useAfterFree }.go .L .lMiss)
  | miss (here : s.pc .L = .lMiss) : TaskL ((s.rcuOut .L).go .L .done)
  | unlock (here : s.pc .L = .lUnlock) : TaskL ((s.rcuOut .L).go .L .lPut)
  | put (here : s.pc .L = .lPut) : TaskL (s.refPut .L (if s.rcu .L then .lUnlockLate else .done))
  | unlockLate (here : s.pc .L = .lUnlockLate) : TaskL ((s.rcuOut .L).go .L .done)

/-- NS_MNT_GET_NEXT -/
inductive TaskQ : State → Prop
  | find (here : s.pc .Q = .qLookup) : TaskQ ((s.rcuIn .Q).go .Q (if s.intree then .qGet else .qMiss))
  | get (here : s.pc .Q = .qGet) (referenced : 0 < s.ref) :
      TaskQ (({ s with ref := s.ref + 1, bad := flag s.bad (s.freed = true) .useAfterFree }.rcuOut .Q).go .Q .qOpen)
  | getNot (here : s.pc .Q = .qGet) (dead : ¬ 0 < s.ref) :
      TaskQ (({ s with bad := flag s.bad (s.freed = true) .useAfterFree }.rcuOut .Q).go .Q .done)
  | miss (here : s.pc .Q = .qMiss) : TaskQ ((s.rcuOut .Q).go .Q .done)
  | opens (here : s.pc .Q = .qOpen) : TaskQ (s.openFile cfg .Q .qClose)
  | close (here : s.pc .Q = .qClose) : TaskQ (s.closeFile .Q)

/-- statmount(mnt_ns_id) -/
inductive TaskS : State → Prop
  | find (here : s.pc .S = .sLookup) : TaskS ((s.rcuIn .S).go .S (if s.intree then .sGet else .sMiss))
  | get (here : s.pc .S = .sGet) :
      TaskS (({ s with
        passive := s.passive + 1
        bad := flag s.bad (s.freed = true ∨ s.passive = 0) .passiveOnDead }.rcuOut .S).go .S .sSem)
  | miss (here : s.pc .S = .sMiss) : TaskS ((s.rcuOut .S).go .S .done)
  | sem (here : s.pc .S = .sSem) (free : s.nsem = none) :
      TaskS ({ s with
        nsreaders := insert Task.S s.nsreaders
        bad := flag s.bad (s.freed = true) .useAfterFree }.go .S .sWork)
  | work (here : s.pc .S = .sWork) :
      TaskS ({ s with
        nsreaders := s.nsreaders.erase Task.S
        bad := flag s.bad (s.freed = true) .useAfterFree }.go .S .sRelease)
  | release (here : s.pc .S = .sRelease) :
      TaskS ({ s with passive := s.passive - 1, freed := s.freed || decide (s.passive = 1) }.go .S .done)

/-- mnt_ns_release_rcu(): the initial passive reference. -/
def RcuRelease (after : State) : Prop :=
  s.gpOn = true ∧ s.gpWait = ∅ ∧
    after = { s with gpOn := false, gpWait := ∅, passive := s.passive - 1, freed := decide (s.passive = 1) }

def Settled : Prop := (∀ t, s.pc t = .done) ∧ s.gpOn = false ∧ s.inode = false

inductive Next : State → Prop
  | t {after} (step : TaskT cfg s after) : Next after
  | f {after} (step : TaskF cfg s after) : Next after
  | l {after} (step : TaskL cfg s after) : Next after
  | q {after} (step : TaskQ cfg s after) : Next after
  | s {after} (step : TaskS s after) : Next after
  | evict {after} (step : Evict cfg s after) : Next after
  | rcuRelease {after} (step : RcuRelease s after) : Next after
  | teardown {t after} (step : Teardown cfg s t after) : Next after
  | settled (all : Settled s) : Next s

end Actions

def spec (cfg : Config) : Lib.System State where
  init s := s = init
  next := Next cfg

/-! ### What is checked -/

section Checked

variable (s : State)

structure TypeOK : Prop where
  ref : 0 ≤ s.ref
  active : 0 ≤ s.active
  passive : 0 ≤ s.passive
  uactive : 0 ≤ s.uactive
  files : 0 ≤ s.files

def ActiveRef : Prop := 0 < s.active → 0 < s.ref

/-- The owner's active count carries exactly one for the namespace while that is active. -/
def OwnerOK : Prop := s.uactive = 1 + if 0 < s.active then 1 else 0

/-- No use after free, no passive increment on a dead namespace, no teardown inside an RCU
section, no reference put that leaves an active count, and no namespace listed that nobody
uses. -/
def ProtocolOK : Prop := s.bad = none

/-- Nothing leaks. -/
def Reaped : Prop := Settled s → s.freed = true

end Checked

end LinuxTla.MntNs
