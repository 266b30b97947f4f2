import LinuxTla.MountWalk.Model

/-! `MountWalk.tla` of `work.mount.knullfs.7.order` with CHANGE "vacate". A mount is pointed at
knullfs while walkers are on it, and ".." asks path_connected() about the mount it is taken in.
Everything else a walker does is as in `MountWalk`. -/

namespace LinuxTla.MountVacate

open MountWalk (Pos Result Tree Walker Up Climb Cross Resolve UnderD)

/-- `change` is not read: the changer vacates the victim. -/
structure Config (M E K S W : Type) extends MountWalk.Config M E K S W where
  newRoot : E
  nullSb : S
  fixVacantConnected : Bool
  fixDotdotMseq : Bool
  weakVacate : Bool

inductive CLabel
  | cPick | cLock | cVacSb | cVacRoot | cVacRoot1 | cVacSb2 | cUnlock | done
deriving DecidableEq, Repr

/-- `vpc` is `pc[C]`, `sb` is `mnt[x].sb`; the changer of `MountWalk` does nothing. -/
structure State (M E K S W : Type) extends MountWalk.State M E K W where
  sb : M → S
  victim : Option M
  vpc : CLabel
  vesc : Prop
  rok : W → Prop
  seen : W → Set (Result M E)

variable {M E K S W : Type} [Fintype M] [LinearOrder M] [Fintype E] [LinearOrder E] [DecidableEq K]
  [DecidableEq W] (cfg : Config M E K S W)

def Config.nullRoot : E := cfg.sbRoot cfg.nullSb

structure Init (s : State M E K S W) : Prop where
  walk : MountWalk.Init cfg.toConfig s.toState
  sb : ∀ x, s.sb x = cfg.rootSb
  victim : s.victim = none
  vpc : s.vpc = .cPick
  vesc : ¬ s.vesc
  rok : ∀ w, s.rok w
  seen : ∀ w, s.seen w = ∅

/-- The sequential result a locked walk would get right now. -/
def now (mt : Tree M E) (w : W) : Set (Result M E) :=
  {r | Resolve cfg.toConfig mt (cfg.root w) (cfg.prog w) (cfg.root w) r}

/-! ### The RCU walker -/

variable (s : State M E K S W) (w : W)

def Mismatch : Prop := s.seqv ≠ (s.walker w).mseq

/-- `Stale(w, m)`: loads of the fields of `m` may have been performed early. -/
def Stale (m : M) : Prop := cfg.weakVacate = true ∧ s.victim = some m ∧ (s.walker w).mseq ≠ s.seqv

instance (m : M) : Decidable (Stale cfg s w m) := inferInstanceAs (Decidable (_ ∧ _ ∧ _))

def RootObs (m : M) (d : E) : Prop :=
  d = (s.mnt m).root ∨ (Stale cfg s w m ∧ (s.mnt m).root = cfg.nullRoot) ∧ d = cfg.newRoot

def SbObs (m : M) (sb : S) : Prop :=
  sb = s.sb m ∨ (Stale cfg s w m ∧ s.sb m = cfg.nullSb) ∧ sb = cfg.newSb

/-- path_connected() over the values of three loads. -/
def PathConnectedObs (sb : S) (r3 r4 d : E) : Prop :=
  ¬ (cfg.fixVacantConnected = true ∧ cfg.dsb d ≠ sb) ∧ (r3 = cfg.sbRoot sb ∨ UnderD cfg.toConfig r4 d)

/-- The mount and the dentry d_parent is taken from, when the root of the walker's mount reads
as `r1`. -/
inductive Leaves (mt : Tree M E) (root pos : Pos M E) (r1 : E) : Up → Pos M E → Prop
  | root (here : pos = root) : Leaves mt root pos r1 .stay pos
  | top (other : pos ≠ root) (edge : pos.d = r1) (none : Climb mt root pos.mnt none) : Leaves mt root pos r1 .stay pos
  | climb {src} (other : pos ≠ root) (edge : pos.d = r1) (found : Climb mt root pos.mnt (some src)) :
      Leaves mt root pos r1 .climbed src
  | plain (other : pos ≠ root) (inside : pos.d ≠ r1) : Leaves mt root pos r1 .plain pos

def newpos (how : Up) (src : Pos M E) : Pos M E := if how = .stay then src else ⟨src.mnt, cfg.dparent src.d⟩

/-- What follow_dotdot_rcu() loads. -/
structure Loads (how : Up) (src : Pos M E) (sb : S) (r1 r3 r4 : E) : Prop where
  first : RootObs cfg s w (s.walker w).path.mnt r1
  leaves : Leaves s.mnt (cfg.root w) (s.walker w).path r1 how src
  sb : SbObs cfg s w src.mnt sb
  third : RootObs cfg s w src.mnt r3
  fourth : RootObs cfg s w src.mnt r4

def Fails (how : Up) (src : Pos M E) (sb : S) (r3 r4 : E) : Prop :=
  Mismatch s w ∧ (how = .stay ∨ how = .climbed ∧ cfg.fixRecheckDotdot = true) ∨
    how ≠ .stay ∧ ¬ PathConnectedObs cfg sb r3 r4 (cfg.dparent src.d) ∨
    Mismatch s w ∧ how ≠ .stay ∧ cfg.fixDotdotMseq = true

/-- ".." moved outside the subtree of the mount's root, and of the root it had before it was
vacated. -/
def Escaped (how : Up) (src : Pos M E) : Prop :=
  how ≠ .stay ∧ cfg.dparent src.d ≠ src.d ∧ ¬ UnderD cfg.toConfig (s.mnt src.mnt).root (cfg.dparent src.d) ∧
    ¬ (s.victim = some src.mnt ∧ UnderD cfg.toConfig cfg.newRoot (cfg.dparent src.d))

def Eagain : Prop := cfg.isScoped w = true ∧ cfg.fixScopedEagain = true ∧ Mismatch s w

inductive RcuWalk : State M E K S W → Prop
  | init {t} (here : (s.walker w).pc = .wInit) (step : MountWalk.RcuWalk cfg.toConfig s.toState w t) :
      RcuWalk { s with toState := t, seen := Function.update s.seen w (now cfg s.mnt w) }
  | goes {t} (begun : (s.walker w).pc ≠ .wInit) (other : (s.walker w).pc ≠ .wDotdot)
      (step : MountWalk.RcuWalk cfg.toConfig s.toState w t) (going : (t.walker w).pc ≠ .done) : RcuWalk { s with toState := t }
  | validated {t r} (here : (s.walker w).pc = .wSlow ∨ (s.walker w).pc = .wComplete)
      (step : MountWalk.RcuWalk cfg.toConfig s.toState w t) (done : (t.walker w).pc = .done) (res : (t.walker w).res = some r) :
      RcuWalk { s with toState := t, rok := Function.update s.rok w (r ∈ now cfg s.mnt w) }
  | refused {t r} (here : (s.walker w).pc = .wStep) (step : MountWalk.RcuWalk cfg.toConfig s.toState w t)
      (done : (t.walker w).pc = .done) (res : (t.walker w).res = some r) :
      RcuWalk { s with toState := t, rok := Function.update s.rok w (r ∈ s.seen w ∪ now cfg s.mnt w) }
  | upAgain {how src sb r1 r3 r4} (here : (s.walker w).pc = .wDotdot) (loads : Loads cfg s w how src sb r1 r3 r4)
      (fails : Fails cfg s w how src sb r3 r4) : RcuWalk { s with toState := s.restart cfg.toConfig w }
  | upEagain {how src sb r1 r3 r4} (here : (s.walker w).pc = .wDotdot) (loads : Loads cfg s w how src sb r1 r3 r4)
      (trusts : ¬ Fails cfg s w how src sb r3 r4) (eagain : Eagain cfg s w) :
      RcuWalk { s with toState := s.finish w (.err .eagain) }
  | up {how src sb r1 r3 r4} (here : (s.walker w).pc = .wDotdot) (loads : Loads cfg s w how src sb r1 r3 r4)
      (trusts : ¬ Fails cfg s w how src sb r3 r4) (goes : ¬ Eagain cfg s w) :
      RcuWalk { s with
        toState := s.set w { s.walker w with
          pc := .wComp, path := newpos cfg how src, left := (s.walker w).left.tail }
        vesc := s.vesc ∨ Escaped cfg s how src }

/-! ### The mounter -/

def Mountable (p : M) (d : E) : Prop :=
  (s.mnt p).alive = true ∧ (s.mnt p).ns = true ∧ s.sb p ≠ cfg.nullSb ∧ UnderD cfg.toConfig (s.mnt p).root d ∧
    cfg.negative d = false

/-- In RCU mode, between path_init() and the end. -/
def Walking (l : Walker M E K) : Prop := l.ref = false ∧ l.pc ≠ .wInit ∧ l.pc ≠ .done

/-- A section ends: the walkers under way see a tree. -/
def witnessed : W → Set (Result M E) := fun w => s.seen w ∪ {r | Walking (s.walker w) ∧ r ∈ now cfg s.mnt w}

inductive Mounter : State M E K S W → Prop
  | finish (here : s.mpc = .mPick) (spent : s.budget = 0) : Mounter { s with mpc := .done }
  | pick {p d next} (here : s.mpc = .mPick) (more : s.budget ≠ 0) (place : Mountable cfg s p d)
      (cross : Cross s.mnt ⟨p, d⟩ next) :
      Mounter { s with tgt := some next, mounted := MountWalk.setMounted s.mounted next.d, mpc := .mLock }
  | lock (here : s.mpc = .mLock) (calm : ¬ s.Writing) : Mounter { s with seqv := s.seqv + 1, mpc := .mAttach }
  | attach {x p d} (here : s.mpc = .mAttach) (target : s.tgt = some ⟨p, d⟩) (free : Tree.freeId s.mnt = some x) :
      Mounter { s with
        mnt := Function.update s.mnt x { MountWalk.fresh cfg.toConfig x with
          alive := true, parent := p, mp := d, root := cfg.newRoot, hashed := true, ns := true, count := 1 }
        sb := Function.update s.sb x cfg.newSb
        budget := s.budget - 1
        mpc := .mUnlock }
  | unlock (here : s.mpc = .mUnlock) : Mounter { s with seqv := s.seqv + 1, seen := witnessed cfg s, mpc := .mPick }

/-! ### The changer -/

/-- The last reference of a mount that is still attached. -/
def Vacatable : Prop :=
  ((s.mnt cfg.victim).alive = true ∧ (s.mnt cfg.victim).hashed = true ∧ (s.mnt cfg.victim).ns = true) ∧
    Tree.HasParent s.mnt cfg.victim ∧ s.sb cfg.victim ≠ cfg.nullSb

def storeRoot (x : M) : Tree M E := Function.update s.mnt x { s.mnt x with root := cfg.nullRoot }

def storeSb (x : M) : M → S := Function.update s.sb x cfg.nullSb

/-- vacate_mount() stores mnt_sb and then mnt_root, or the two become visible the other way
round. -/
inductive Changer : State M E K S W → Prop
  | pick (here : s.vpc = .cPick) (take : Vacatable cfg s) : Changer { s with victim := some cfg.victim, vpc := .cLock }
  | lock {first} (here : s.vpc = .cLock) (calm : ¬ s.Writing)
      (order : first = .cVacSb ∨ cfg.weakVacate = true ∧ first = .cVacRoot1) :
      Changer { s with seqv := s.seqv + 1, vpc := first }
  | vacSb {x} (here : s.vpc = .cVacSb) (victim : s.victim = some x) (last : (s.mnt x).count = 1) :
      Changer { s with sb := storeSb cfg s x, vpc := .cVacRoot }
  | vacRoot {x} (here : s.vpc = .cVacRoot) (victim : s.victim = some x) :
      Changer { s with mnt := storeRoot cfg s x, vpc := .cUnlock }
  | vacRoot1 {x} (here : s.vpc = .cVacRoot1) (victim : s.victim = some x) (last : (s.mnt x).count = 1) :
      Changer { s with mnt := storeRoot cfg s x, vpc := .cVacSb2 }
  | vacSb2 {x} (here : s.vpc = .cVacSb2) (victim : s.victim = some x) :
      Changer { s with sb := storeSb cfg s x, vpc := .cUnlock }
  | held {x} (here : s.vpc = .cVacSb ∨ s.vpc = .cVacRoot1) (victim : s.victim = some x) (more : (s.mnt x).count ≠ 1) :
      Changer { s with vpc := .cUnlock }
  | unlock (here : s.vpc = .cUnlock) : Changer { s with seqv := s.seqv + 1, seen := witnessed cfg s, vpc := .done }

/-! ### The specification -/

def Settled : Prop := (∀ w, (s.walker w).pc = .done) ∧ s.mpc = .done ∧ s.vpc = .done

inductive Next : State M E K S W → Prop
  | rcu {w after} (mode : (s.walker w).ref = false) (step : RcuWalk cfg s w after) : Next after
  | ref {w t} (mode : (s.walker w).ref = true) (step : MountWalk.RefWalk cfg.toConfig s.toState w t) : Next { s with toState := t }
  | mounter {after} (step : Mounter cfg s after) : Next after
  | changer {after} (step : Changer cfg s after) : Next after
  | settled (all : Settled s) : Next s

def spec : Lib.System (State M E K S W) where
  init := Init cfg
  next s after := Next cfg s after

/-! ### What is checked -/

def RcuResultOK : Prop := ∀ w, s.rok w

def NoVacantEscape : Prop := ¬ s.vesc

end LinuxTla.MountVacate
