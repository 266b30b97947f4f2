import LinuxTla.Lib.Transition
import Mathlib.Data.Finset.Max
import Mathlib.Data.Fintype.Basic
import Mathlib.Tactic.Simps.Basic
import Mathlib.Tactic.Common

/-! `MountWalk.tla`: the RCU path walk against a mounter and one umount or move. Every store
of a mount_lock section is one step, so an unvalidated reader sees it half applied. -/

namespace LinuxTla.MountWalk

inductive Comp (K : Type)
  | up
  | name (n : K)
deriving DecidableEq, Repr

@[ext] structure Pos (M E : Type) where
  mnt : M
  d : E
deriving DecidableEq, Repr

inductive Errno
  | enoent | eagain
deriving DecidableEq, Repr

inductive Result (M E : Type)
  | ok (pos : Pos M E)
  | err (e : Errno)
deriving DecidableEq, Repr

inductive Change
  | none | umount | move
deriving DecidableEq, Repr

structure Config (M E K S W : Type) where
  dparent : E → E
  dname : E → K
  dsb : E → S
  sbRoot : S → E
  negative : E → Bool
  rootSb : S
  newSb : S
  rootMnt : M
  prog : W → List (Comp K)
  root : W → Pos M E
  isScoped : W → Bool
  mounts : ℕ
  change : Change
  victim : M
  fixRecheckMiss : Bool
  fixRecheckHop : Bool
  fixRecheckDotdot : Bool
  fixScopedEagain : Bool
  fixRcuFree : Bool

structure Mount (M E : Type) where
  alive : Bool
  freed : Bool
  parent : M
  mp : E
  root : E
  hashed : Bool
  ns : Bool
  count : ℤ

abbrev Tree (M E : Type) := M → Mount M E

variable {M E K S W : Type} [Fintype M] [LinearOrder M] [Fintype E] [LinearOrder E] [DecidableEq K] [DecidableEq S]
  [DecidableEq W] (cfg : Config M E K S W)

/-! ### The tree -/

namespace Tree

variable (mt : Tree M E)

def HasParent (x : M) : Prop := (mt x).parent ≠ x

instance (x : M) : Decidable (Tree.HasParent mt x) := inferInstanceAs (Decidable (_ ≠ _))

def mountsAt (p : M) (d : E) : Finset M :=
  Finset.univ.filter fun x => (mt x).alive = true ∧ (mt x).hashed = true ∧ (mt x).parent = p ∧ (mt x).mp = d ∧ x ≠ p

def lookupMnt (p : M) (d : E) : Option M :=
  if some' : (Tree.mountsAt mt p d).Nonempty then some ((Tree.mountsAt mt p d).min' some') else none

def subtree (x : M) : Finset M :=
  Finset.univ.filter fun y => (mt y).alive = true ∧ (y = x ∨ Tree.HasParent mt y ∧ (mt y).parent = x)

def freeId : Option M :=
  if some' : (Finset.univ.filter fun x => (mt x).alive = false).Nonempty then
    some ((Finset.univ.filter fun x => (mt x).alive = false).min' some')
  else none

end Tree

def children (d : E) : Finset E := Finset.univ.filter fun e => cfg.dparent e = d ∧ e ≠ d

def child (d : E) (n : K) : Option E :=
  if some' : ((children cfg d).filter fun e => cfg.dname e = n).Nonempty then
    some (((children cfg d).filter fun e => cfg.dname e = n).min' some')
  else none

/-! ### The sequential walk

The operators recurse along pointers, so each is the relation of its calls that return. -/

inductive Cross (mt : Tree M E) : Pos M E → Pos M E → Prop
  | here {m d} (none : Tree.lookupMnt mt m d = none) : Cross mt ⟨m, d⟩ ⟨m, d⟩
  | across {m d o pos} (found : Tree.lookupMnt mt m d = some o) (rest : Cross mt ⟨o, (mt o).root⟩ pos) : Cross mt ⟨m, d⟩ pos

/-- `Climb(m, root)`: where the walk leaves the mounts stacked below, or nowhere. -/
inductive Climb (mt : Tree M E) (root : Pos M E) : M → Option (Pos M E) → Prop
  | top {m} (loose : ¬ Tree.HasParent mt m) : Climb mt root m none
  | root {m} (linked : Tree.HasParent mt m) (here : (⟨(mt m).parent, (mt m).mp⟩ : Pos M E) = root) : Climb mt root m none
  | found {m} (linked : Tree.HasParent mt m) (other : (⟨(mt m).parent, (mt m).mp⟩ : Pos M E) ≠ root)
      (inside : (mt m).mp ≠ (mt (mt m).parent).root) : Climb mt root m (some ⟨(mt m).parent, (mt m).mp⟩)
  | up {m answer} (linked : Tree.HasParent mt m) (other : (⟨(mt m).parent, (mt m).mp⟩ : Pos M E) ≠ root)
      (stacked : (mt m).mp = (mt (mt m).parent).root) (rest : Climb mt root (mt m).parent answer) : Climb mt root m answer

inductive Up
  | stay | climbed | plain
deriving DecidableEq, Repr

inductive DotDot (mt : Tree M E) (root pos : Pos M E) : Up → Pos M E → Prop
  | root (here : pos = root) : DotDot mt root pos .stay pos
  | top (other : pos ≠ root) (edge : pos.d = (mt pos.mnt).root) (none : Climb mt root pos.mnt none) :
      DotDot mt root pos .stay pos
  | climb {p d} (other : pos ≠ root) (edge : pos.d = (mt pos.mnt).root) (found : Climb mt root pos.mnt (some ⟨p, d⟩)) :
      DotDot mt root pos .climbed ⟨p, cfg.dparent d⟩
  | plain (other : pos ≠ root) (inside : pos.d ≠ (mt pos.mnt).root) :
      DotDot mt root pos .plain ⟨pos.mnt, cfg.dparent pos.d⟩

/-- `Resolve(prog, pos, root)` -/
inductive Resolve (mt : Tree M E) (root : Pos M E) : List (Comp K) → Pos M E → Result M E → Prop
  | nil {pos} : Resolve mt root [] pos (.ok pos)
  | up {prog pos how next r} (up : DotDot cfg mt root pos how next) (rest : Resolve mt root prog next r) :
      Resolve mt root (.up :: prog) pos r
  | missing {n prog pos} (missing : child cfg pos.d n = none) : Resolve mt root (.name n :: prog) pos (.err .enoent)
  | negative {n prog pos c} (found : child cfg pos.d n = some c) (negative : cfg.negative c = true) :
      Resolve mt root (.name n :: prog) pos (.err .enoent)
  | down {n prog pos c next r} (found : child cfg pos.d n = some c) (positive : cfg.negative c = false)
      (cross : Cross mt ⟨pos.mnt, c⟩ next) (rest : Resolve mt root prog next r) : Resolve mt root (.name n :: prog) pos r

inductive UnderD (a : E) : E → Prop
  | here : UnderD a a
  | up {d} (other : d ≠ a) (linked : cfg.dparent d ≠ d) (rest : UnderD a (cfg.dparent d)) : UnderD a d

inductive Under (mt : Tree M E) (root : Pos M E) : Pos M E → Prop
  | here {pos} (same : pos.mnt = root.mnt) (under : UnderD cfg root.d pos.d) : Under mt root pos
  | up {pos} (other : pos.mnt ≠ root.mnt) (linked : Tree.HasParent mt pos.mnt)
      (rest : Under mt root ⟨(mt pos.mnt).parent, (mt pos.mnt).mp⟩) : Under mt root pos

/-! ### The state -/

inductive Label
  | wInit | wComp | wSlow | wMounts | wStep | wDotdot | wComplete | rComp | done
deriving DecidableEq, Repr

inductive MLabel
  | mPick | mLock | mAttach | mUnlock | done
deriving DecidableEq, Repr

inductive CLabel
  | cPick | cLock | cUnhash | cMvUnhash | cMvSet | cMvHash | cUnlock | cGp | cPut | done
deriving DecidableEq, Repr

/-- The variables of a walker; `left` is what `ip` has not passed yet. -/
structure Walker (M E K : Type) where
  pc : Label
  ref : Bool
  path : Pos M E
  nxt : Option E
  left : List (Comp K)
  mseq : ℕ
  res : Option (Result M E)
  held : Option M

structure State (M E K W : Type) where
  mnt : Tree M E
  mounted : E → Bool
  seqv : ℕ
  rcu : W → Bool
  wait : Finset W
  walker : W → Walker M E K
  mpc : MLabel
  tgt : Option (Pos M E)
  budget : ℕ
  cpc : CLabel
  ctgt : Option (Pos M E)
  todo : Finset M

/-- `Fresh`; nobody reads where a mount that is not alive points to. -/
def fresh (x : M) : Mount M E :=
  { alive := false, freed := false, parent := x, mp := cfg.sbRoot cfg.rootSb, root := cfg.sbRoot cfg.rootSb,
    hashed := false, ns := false, count := 0 }

structure Init (s : State M E K W) : Prop where
  mnt : ∀ x, s.mnt x = if x = cfg.rootMnt then { fresh cfg x with alive := true, ns := true, count := 1 } else fresh cfg x
  mounted : ∀ d, s.mounted d = false
  seqv : s.seqv = 0
  rcu : ∀ w, s.rcu w = false
  wait : s.wait = ∅
  walker : ∀ w, s.walker w =
    { pc := .wInit, ref := false, path := cfg.root w, nxt := none, left := cfg.prog w, mseq := 0, res := none, held := none }
  mpc : s.mpc = .mPick
  tgt : s.tgt = none
  budget : s.budget = cfg.mounts
  cpc : s.cpc = .cPick
  ctgt : s.ctgt = none
  todo : s.todo = ∅

namespace State

variable (s : State M E K W)

def Writing : Prop := s.seqv % 2 = 1

instance : Decidable s.Writing := inferInstanceAs (Decidable (_ = _))

@[simps] def set (w : W) (l : Walker M E K) : State M E K W := { s with walker := Function.update s.walker w l }

@[simps] def rcuOut (w : W) : State M E K W := { s with rcu := Function.update s.rcu w false, wait := s.wait.erase w }

@[simps] def addCount (x : M) (n : ℤ) : State M E K W :=
  { s with mnt := Function.update s.mnt x { s.mnt x with count := (s.mnt x).count + n } }

def finish (w : W) (r : Result M E) : State M E K W :=
  (s.rcuOut w).set w { s.walker w with pc := .done, res := some r }

/-- -ECHILD: leave RCU, start over in REF mode from the root. -/
def restart (w : W) : State M E K W :=
  ((s.rcuOut w).addCount cfg.rootMnt 1).set w
    { s.walker w with pc := .rComp, ref := true, path := cfg.root w, left := cfg.prog w, held := some cfg.rootMnt }

/-- `Rebase`: a reference moves from the old mount to the new one. -/
def rebase (w : W) (m : M) : State M E K W :=
  match (s.walker w).held with
  | none => s.addCount m 1
  | some h => (s.addCount h (-1)).addCount m 1

end State

/-! ### The RCU walker -/

/-- The recheck of `m_seq` fails. -/
def Stale (s : State M E K W) (w : W) : Prop := s.seqv ≠ (s.walker w).mseq

/-- follow_dotdot_rcu() does not trust what it read. -/
def Distrusts (s : State M E K W) (w : W) (how : Up) : Prop :=
  Stale s w ∧ (how = .stay ∨ how = .climbed ∧ cfg.fixRecheckDotdot = true)

inductive RcuWalk (s : State M E K W) (w : W) : State M E K W → Prop
  | init (here : (s.walker w).pc = .wInit) (calm : ¬ s.Writing) :
      RcuWalk s w ({ s with rcu := Function.update s.rcu w true }.set w { s.walker w with pc := .wComp, mseq := s.seqv })
  | compEnd (here : (s.walker w).pc = .wComp) (empty : (s.walker w).left = []) :
      RcuWalk s w (s.set w { s.walker w with pc := .wComplete })
  | compUp {rest} (here : (s.walker w).pc = .wComp) (next : (s.walker w).left = .up :: rest) :
      RcuWalk s w (s.set w { s.walker w with pc := .wDotdot })
  | compMissing {n rest} (here : (s.walker w).pc = .wComp) (next : (s.walker w).left = .name n :: rest)
      (missing : child cfg (s.walker w).path.d n = none) : RcuWalk s w (s.set w { s.walker w with pc := .wSlow })
  | compChild {n rest c} (here : (s.walker w).pc = .wComp) (next : (s.walker w).left = .name n :: rest)
      (found : child cfg (s.walker w).path.d n = some c) :
      RcuWalk s w (s.set w { s.walker w with pc := .wMounts, nxt := some c })
  | slow (here : (s.walker w).pc = .wSlow) (valid : ¬ Stale s w) : RcuWalk s w (s.finish w (.err .enoent))
  | slowAgain (here : (s.walker w).pc = .wSlow) (stale : Stale s w) : RcuWalk s w (s.restart cfg w)
  | bare {d} (here : (s.walker w).pc = .wMounts) (next : (s.walker w).nxt = some d) (bare : s.mounted d = false) :
      RcuWalk s w (s.set w { s.walker w with pc := .wStep })
  | miss {d} (here : (s.walker w).pc = .wMounts) (next : (s.walker w).nxt = some d) (flag : s.mounted d = true)
      (miss : Tree.lookupMnt s.mnt (s.walker w).path.mnt d = none ∨ s.Writing)
      (trusts : ¬ (cfg.fixRecheckMiss = true ∧ Stale s w)) : RcuWalk s w (s.set w { s.walker w with pc := .wStep })
  | missAgain {d} (here : (s.walker w).pc = .wMounts) (next : (s.walker w).nxt = some d) (flag : s.mounted d = true)
      (miss : Tree.lookupMnt s.mnt (s.walker w).path.mnt d = none ∨ s.Writing)
      (stale : cfg.fixRecheckMiss = true ∧ Stale s w) : RcuWalk s w (s.restart cfg w)
  | hop {d q} (here : (s.walker w).pc = .wMounts) (next : (s.walker w).nxt = some d) (flag : s.mounted d = true)
      (hop : Tree.lookupMnt s.mnt (s.walker w).path.mnt d = some q) (trusts : ¬ (cfg.fixRecheckHop = true ∧ Stale s w)) :
      RcuWalk s w (s.set w { s.walker w with path := ⟨q, (s.mnt q).root⟩, nxt := some (s.mnt q).root })
  | hopAgain {d q} (here : (s.walker w).pc = .wMounts) (next : (s.walker w).nxt = some d) (flag : s.mounted d = true)
      (hop : Tree.lookupMnt s.mnt (s.walker w).path.mnt d = some q) (stale : cfg.fixRecheckHop = true ∧ Stale s w) :
      RcuWalk s w (s.restart cfg w)
  | negative {d} (here : (s.walker w).pc = .wStep) (next : (s.walker w).nxt = some d) (negative : cfg.negative d = true) :
      RcuWalk s w (s.finish w (.err .enoent))
  | step {d} (here : (s.walker w).pc = .wStep) (next : (s.walker w).nxt = some d) (positive : cfg.negative d = false) :
      RcuWalk s w (s.set w { s.walker w with
        pc := .wComp, path := ⟨(s.walker w).path.mnt, d⟩, left := (s.walker w).left.tail })
  | upAgain {how next} (here : (s.walker w).pc = .wDotdot)
      (up : DotDot cfg s.mnt (cfg.root w) (s.walker w).path how next) (distrusts : Distrusts cfg s w how) :
      RcuWalk s w (s.restart cfg w)
  | upEagain {how next} (here : (s.walker w).pc = .wDotdot)
      (up : DotDot cfg s.mnt (cfg.root w) (s.walker w).path how next) (trusts : ¬ Distrusts cfg s w how)
      (eagain : cfg.isScoped w = true ∧ cfg.fixScopedEagain = true ∧ Stale s w) : RcuWalk s w (s.finish w (.err .eagain))
  | up {how next} (here : (s.walker w).pc = .wDotdot)
      (up : DotDot cfg s.mnt (cfg.root w) (s.walker w).path how next) (trusts : ¬ Distrusts cfg s w how)
      (goes : ¬ (cfg.isScoped w = true ∧ cfg.fixScopedEagain = true ∧ Stale s w)) :
      RcuWalk s w (s.set w { s.walker w with pc := .wComp, path := next, left := (s.walker w).left.tail })
  | complete (here : (s.walker w).pc = .wComplete) (valid : ¬ Stale s w) :
      RcuWalk s w (((s.rcuOut w).addCount (s.walker w).path.mnt 1).set w
        { s.walker w with pc := .done, res := some (.ok (s.walker w).path), held := some (s.walker w).path.mnt })
  | completeAgain (here : (s.walker w).pc = .wComplete) (stale : Stale s w) : RcuWalk s w (s.restart cfg w)

/-! ### The REF walker -/

/-- The walker goes on at `pos`, with its reference. -/
def refTo (s : State M E K W) (w : W) (pos : Pos M E) : State M E K W :=
  if pos.mnt = (s.walker w).path.mnt then s.set w { s.walker w with path := pos, left := (s.walker w).left.tail }
  else (s.rebase w pos.mnt).set w { s.walker w with path := pos, left := (s.walker w).left.tail, held := some pos.mnt }

inductive RefWalk (s : State M E K W) (w : W) : State M E K W → Prop
  | compEnd (here : (s.walker w).pc = .rComp) (calm : ¬ s.Writing) (empty : (s.walker w).left = []) :
      RefWalk s w (s.set w { s.walker w with pc := .done, res := some (.ok (s.walker w).path) })
  | up {rest how next} (here : (s.walker w).pc = .rComp) (calm : ¬ s.Writing) (comp : (s.walker w).left = .up :: rest)
      (up : DotDot cfg s.mnt (cfg.root w) (s.walker w).path how next) : RefWalk s w (refTo s w next)
  | missing {n rest} (here : (s.walker w).pc = .rComp) (calm : ¬ s.Writing) (comp : (s.walker w).left = .name n :: rest)
      (missing : ∀ c, child cfg (s.walker w).path.d n = some c → cfg.negative c = true) :
      RefWalk s w (s.set w { s.walker w with pc := .done, res := some (.err .enoent) })
  | down {n rest c next} (here : (s.walker w).pc = .rComp) (calm : ¬ s.Writing) (comp : (s.walker w).left = .name n :: rest)
      (found : child cfg (s.walker w).path.d n = some c) (positive : cfg.negative c = false)
      (cross : Cross s.mnt ⟨(s.walker w).path.mnt, c⟩ next) : RefWalk s w (refTo s w next)

/-! ### The mounter -/

def Mountable (s : State M E K W) (p : M) (d : E) : Prop :=
  (s.mnt p).alive = true ∧ (s.mnt p).ns = true ∧ cfg.dsb d = cfg.dsb (s.mnt p).root ∧ cfg.negative d = false

def setMounted (mounted : E → Bool) (d : E) : E → Bool := Function.update mounted d true

inductive Mounter (s : State M E K W) : State M E K W → Prop
  | finish (here : s.mpc = .mPick) (spent : s.budget = 0) : Mounter s { s with mpc := .done }
  | pick {p d next} (here : s.mpc = .mPick) (more : s.budget ≠ 0) (place : Mountable cfg s p d)
      (cross : Cross s.mnt ⟨p, d⟩ next) :
      Mounter s { s with tgt := some next, mounted := setMounted s.mounted next.d, mpc := .mLock }
  | lock (here : s.mpc = .mLock) (calm : ¬ s.Writing) : Mounter s { s with seqv := s.seqv + 1, mpc := .mAttach }
  | attach {x p d} (here : s.mpc = .mAttach) (target : s.tgt = some ⟨p, d⟩) (free : Tree.freeId s.mnt = some x) :
      Mounter s { s with
        mnt := Function.update s.mnt x { fresh cfg x with
          alive := true, parent := p, mp := d, root := cfg.sbRoot cfg.newSb, hashed := true, ns := true, count := 1 }
        budget := s.budget - 1
        mpc := .mUnlock }
  | unlock (here : s.mpc = .mUnlock) : Mounter s { s with seqv := s.seqv + 1, mpc := .mPick }

/-! ### The changer -/

/-- maybe_free_mountpoint(): no mount is left on the dentry, and the mounter has no pin on it. -/
def Unmounted (s : State M E K W) (mt : Tree M E) (d : E) : Prop :=
  (∀ y, ¬ ((mt y).alive = true ∧ Tree.HasParent mt y ∧ (mt y).mp = d)) ∧
    ¬ ((s.mpc = .mLock ∨ s.mpc = .mAttach) ∧ ∃ p, s.tgt = some ⟨p, d⟩)

instance (s : State M E K W) (d : E) : Decidable (∃ p, s.tgt = some ⟨p, d⟩) :=
  decidable_of_iff (s.tgt.map Pos.d = some d) (by
    cases s.tgt with
    | none => simp
    | some pos =>
      obtain ⟨p, e⟩ := pos
      simp)

instance (s : State M E K W) (mt : Tree M E) (d : E) : Decidable (Unmounted s mt d) :=
  inferInstanceAs (Decidable (_ ∧ ¬ (_ ∧ _)))

/-- The dentries without a mount lose the flag. -/
def clear (s : State M E K W) (mt : Tree M E) : E → Bool := fun d => s.mounted d && !decide (Unmounted s mt d)

/-- umount_tree() -/
def unhash (s : State M E K W) : Tree M E := fun y =>
  if y ∈ Tree.subtree s.mnt cfg.victim then { s.mnt y with hashed := false, ns := false, parent := y, mp := (s.mnt y).root }
  else s.mnt y

/-- The references of the namespace are put. -/
def puts (s : State M E K W) : Tree M E := fun y =>
  if y ∈ s.todo then
    { s.mnt y with
      count := (s.mnt y).count - 1, alive := decide (1 < (s.mnt y).count), freed := decide ((s.mnt y).count = 1) }
  else s.mnt y

def readers [Fintype W] (s : State M E K W) : Finset W := Finset.univ.filter fun w => s.rcu w = true

def Takeable (s : State M E K W) : Prop :=
  (s.mnt cfg.victim).alive = true ∧ (s.mnt cfg.victim).hashed = true ∧ (s.mnt cfg.victim).ns = true

inductive Changer [Fintype W] (s : State M E K W) : State M E K W → Prop
  | nothing (here : s.cpc = .cPick) (none : cfg.change = .none) : Changer s { s with cpc := .done }
  | pickUmount (here : s.cpc = .cPick) (umount : cfg.change = .umount) (take : Takeable cfg s) :
      Changer s { s with cpc := .cLock }
  | pickMove {p d next} (here : s.cpc = .cPick) (move : cfg.change = .move) (take : Takeable cfg s)
      (place : Mountable cfg s p d) (outside : p ∉ Tree.subtree s.mnt cfg.victim) (cross : Cross s.mnt ⟨p, d⟩ next)
      (above : next.mnt ∉ Tree.subtree s.mnt cfg.victim)
      (other : ¬ (next.mnt = (s.mnt cfg.victim).parent ∧ next.d = (s.mnt cfg.victim).mp)) :
      Changer s { s with ctgt := some next, mounted := setMounted s.mounted next.d, cpc := .cLock }
  | lock (here : s.cpc = .cLock) (calm : ¬ s.Writing) :
      Changer s { s with seqv := s.seqv + 1, cpc := if cfg.change = .umount then .cUnhash else .cMvUnhash }
  | unhash (here : s.cpc = .cUnhash) :
      Changer s { s with
        mnt := unhash cfg s, mounted := clear s (unhash cfg s), todo := Tree.subtree s.mnt cfg.victim, cpc := .cUnlock }
  | mvUnhash (here : s.cpc = .cMvUnhash) :
      Changer s { s with
        mnt := Function.update s.mnt cfg.victim { s.mnt cfg.victim with hashed := false }, cpc := .cMvSet }
  | mvSet {p d} (here : s.cpc = .cMvSet) (target : s.ctgt = some ⟨p, d⟩) :
      Changer s { s with
        mnt := Function.update s.mnt cfg.victim { s.mnt cfg.victim with parent := p, mp := d }, cpc := .cMvHash }
  | mvHash {mt} (here : s.cpc = .cMvHash)
      (hash : mt = Function.update s.mnt cfg.victim { s.mnt cfg.victim with hashed := true }) :
      Changer s { s with mnt := mt, mounted := clear s mt, cpc := .cUnlock }
  | unlock (here : s.cpc = .cUnlock) :
      Changer s { s with seqv := s.seqv + 1, cpc := if cfg.change = .umount then .cGp else .done }
  | gp (here : s.cpc = .cGp) :
      Changer s { s with wait := if cfg.fixRcuFree then readers s else s.wait, cpc := .cPut }
  | put (here : s.cpc = .cPut) (quiet : s.wait = ∅) :
      Changer s { s with mnt := puts s, wait := ∅, todo := ∅, cpc := .done }

/-! ### The specification -/

def State.Settled (s : State M E K W) : Prop := (∀ w, (s.walker w).pc = .done) ∧ s.mpc = .done ∧ s.cpc = .done

inductive Next [Fintype W] (s : State M E K W) : State M E K W → Prop
  | rcu {w after} (mode : (s.walker w).ref = false) (step : RcuWalk cfg s w after) : Next s after
  | ref {w after} (mode : (s.walker w).ref = true) (step : RefWalk cfg s w after) : Next s after
  | mounter {after} (step : Mounter cfg s after) : Next s after
  | changer {after} (step : Changer cfg s after) : Next s after
  | settled (all : s.Settled) : Next s s

def spec [Fintype W] : Lib.System (State M E K W) where
  init := Init cfg
  next := Next cfg

end LinuxTla.MountWalk
