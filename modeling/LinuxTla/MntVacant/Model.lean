import LinuxTla.Lib.Pointers
import LinuxTla.Lib.Transition
import Mathlib.Data.Finset.Sort
import Mathlib.Data.Finset.Union
import Mathlib.Data.Fintype.Sum
import Mathlib.Data.Int.Order.Basic
import Mathlib.Data.Prod.Lex
import Mathlib.Tactic.DeriveFintype

/-! The lifetime of an unmounted mount that stays attached to its unmounted parent, in
`MntVacant.tla` of `work.mount.knullfs.7.order`, with VACATE_MODE "vacate", every FIX_ switch on
and every mutation off. What the fixes leave idle is left out: the unmounted list of D and the
checks that run after mount_lock was dropped. -/

namespace LinuxTla.MntVacant

inductive HolderOrder
  | any | early | late
deriving DecidableEq, Repr

inductive MarkStores
  | sc | tso | weak
deriving DecidableEq, Repr

/-- The constants; `none` is `NoMnt`. -/
structure Config (M S H : Type) where
  parent : M → Option M
  sb : M → S
  pin : S → Option M
  holderMnt : H → M
  walkBudget : ℕ
  detachTargets : Finset M
  holderOrder : HolderOrder
  marks : Bool
  uInline : Bool
  noref : Bool
  markStores : MarkStores

/-- A finite forest, and the superblocks its mounts carry, one mount each. -/
structure Config.WellFormed {M S H : Type} (cfg : Config M S H) : Prop where
  forest : Lib.Acyclic cfg.parent
  sb : cfg.sb.Bijective
  targets : ∀ m ∈ cfg.detachTargets, cfg.parent m ≠ none

/-- Which instance list a mount is on. -/
inductive Inst
  | fs | null | none
deriving DecidableEq, Repr

inductive Kind
  | cleanup | release
deriving DecidableEq, Repr

inductive TwStep
  | stuck | sb | free | handoff
deriving DecidableEq, Repr

inductive ULabel
  | gp | wait | put | done
deriving DecidableEq, Repr

inductive WLabel
  | idle | lookup | legit1 | drain | legit2 | lock | put | use | ref
deriving DecidableEq, Repr

inductive Result
  | into | ebadf | enoent | beneath | hang
deriving DecidableEq, Repr

inductive Warning
  | freeKids | freeStuck | freeMarks | freeInstance | freeHashed | doubleFree
  | vacantPutAttached | notListed | putDoomed | doubleRelease
deriving DecidableEq, Repr

inductive Task (H W : Type)
  | u | d | k | c
  | holder (h : H)
  | walker (w : W)
deriving DecidableEq, Fintype

/-- A pending cleanup_mnt(). -/
structure Item (M H W : Type) where
  m : M
  kind : Kind
  step : TwStep
  owner : Task H W
deriving DecidableEq

/-- `stHeld` and `stCnt` are the stores in the walker's store buffer. -/
structure Walker (M : Type) where
  pc : WLabel
  src : Option M
  tgt : Option M
  seq : ℕ
  res : Option Result
  n : ℕ
  stHeld : Bool
  stCnt : Bool
deriving DecidableEq

/-- The fields of the mounts one at a time. `conn` is the superblock a mount's mark is accounted
on, with `some none` for knullfs; a mount without one has no mark. -/
structure State (M S H W : Type) where
  hashed : M → Bool
  parent : M → Option M
  count : M → ℤ
  doomed : M → Bool
  vacant : M → Bool
  oldroot : M → Bool
  inst : M → Inst
  stuck : M → Finset M
  held : M → Bool
  freed : M → Bool
  rcufree : M → Bool
  mpgone : M → Bool
  conn : M → Option (Option S)
  sbact : S → Bool
  watched : Option S → ℤ
  seq : ℕ
  uhead : List M
  upc : ULabel
  ugp : Finset W
  ext : M → ℕ
  hdone : H → Bool
  walker : W → Walker M
  rcu : Finset W
  dtargets : Finset M
  tw : Finset (Item M H W)
  vq : Task H W → List M
  pins : Finset M
  freewait : M → Finset W
  negative : Bool
  warn : Finset Warning
  frees : M → ℕ
  releases : M → ℕ
  hung : Bool
  markRefused : Bool

variable {M S H W : Type} [Fintype M] [LinearOrder M] [Fintype S] [DecidableEq S] [Fintype H] [DecidableEq H]
  [DecidableEq W] (cfg : Config M S H)

/-! ### Helpers -/

/-- `Depth(m)`, as far up as `k` steps lead. -/
def depthTo : ℕ → M → ℕ
  | 0, _ => 0
  | k + 1, m => match cfg.parent m with
    | none => 0
    | some p => 1 + depthTo k p

/-- A parent comes before its children. -/
def ordered (d : Finset M) : List M :=
  ((d.image fun m => toLex (depthTo cfg (Fintype.card M) m, m)).sort (· ≤ ·)).map fun key => (ofLex key).2

def ext0 (m : M) : ℕ := (Finset.univ.filter fun h => cfg.holderMnt h = m).card

def pinned0 (m : M) : ℕ := (Finset.univ.filter fun b => cfg.pin b = some m).card

def RootHolder (h : H) : Prop := cfg.parent (cfg.holderMnt h) = none

def warnIf (p : Prop) [Decidable p] (warning : Warning) : Finset Warning := if p then {warning} else ∅

namespace State

variable (s : State M S H W)

def kids (m : M) : Finset M :=
  Finset.univ.filter fun c => s.freed c = false ∧ s.hashed c = true ∧ s.parent c = some m

/-- The superblock the vfsmount points at. -/
def curSb (m : M) : Option S := if s.vacant m then none else some (cfg.sb m)

/-- A task with a put still owed does that first. -/
def Quiet (t : Task H W) : Prop := s.vq t = []

instance (t : Task H W) : Decidable (s.Quiet t) := inferInstanceAs (Decidable (_ = _))

/-- rcu_read_unlock(). -/
def rcuOut (w : W) : State M S H W :=
  { s with rcu := s.rcu.erase w, ugp := s.ugp.erase w, freewait := fun m => (s.freewait m).erase w }

def setWalker (w : W) (l : Walker M) : State M S H W := { s with walker := Function.update s.walker w l }

/-! ### Freeing -/

def free (m : M) : State M S H W :=
  { s with
    rcufree := Function.update s.rcufree m true
    freewait := Function.update s.freewait m s.rcu
    frees := Function.update s.frees m (s.frees m + 1)
    warn := s.warn ∪ (warnIf (s.kids m ≠ ∅) .freeKids ∪ warnIf (s.stuck m ≠ ∅) .freeStuck ∪
      warnIf (s.conn m ≠ none) .freeMarks ∪ warnIf (s.inst m ≠ .none) .freeInstance ∪
      warnIf (s.hashed m = true) .freeHashed ∪ warnIf (s.rcufree m = true) .doubleFree) }

/-! ### The slow path of mntput() -/

/-- disown_vacant_mount() dooms the stand-in: no walk marked it, or the count says none holds it. -/
def verdict (m : M) : Bool := s.held m = false ∨ s.count m = 0

def dead (m : M) : Bool := s.verdict m && !s.oldroot m

/-- The children come off the hash, and without a reference of their own the stand-ins among them
are disowned. -/
def cut (d : Finset M) : State M S H W :=
  { s with
    hashed := fun x => if x ∈ d then false else s.hashed x
    parent := fun x => if x ∈ d then none else s.parent x
    inst := fun x => if x ∈ d ∧ cfg.noref = true ∧ s.vacant x = true then .none else s.inst x
    doomed := fun x => if x ∈ d ∧ cfg.noref = true ∧ s.vacant x = true then s.verdict x else s.doomed x }

def vacantPut (m : M) : State M S H W :=
  let doomed := { s with
    doomed := Function.update s.doomed m true
    inst := Function.update s.inst m .none
    warn := s.warn ∪ (warnIf (s.hashed m = true) .vacantPutAttached ∪ warnIf (s.inst m ≠ .null) .notListed) }
  if s.oldroot m then doomed else doomed.free m

/-- The last put of a walk's reference on a stand-in. -/
def vacantPutNoref (m : M) : State M S H W :=
  let doomed := { s with
    doomed := Function.update s.doomed m true
    warn := s.warn ∪ warnIf (s.inst m ≠ .none) .notListed }
  if s.hashed m then s else if s.oldroot m then doomed else doomed.free m

/-- vacate_mount(). -/
def vacate (m : M) (stuck : Finset M) : State M S H W :=
  { s with
    vacant := Function.update s.vacant m true
    oldroot := Function.update s.oldroot m true
    inst := Function.update s.inst m .null
    held := Function.update s.held m false
    stuck := Function.update s.stuck m stuck
    count := Function.update s.count m (if cfg.noref then 0 else 1) }

def doom (m : M) (stuck : Finset M) : State M S H W :=
  { s with
    doomed := Function.update s.doomed m true
    inst := Function.update s.inst m .none
    stuck := Function.update s.stuck m stuck }

/-- The rest of mntput_final_locked() once the count reached zero. -/
def lastPut (m : M) (task : Task H W) : State M S H W :=
  let connected : Bool := s.hashed m && (s.parent m).isSome
  let standins := (s.kids m).filter fun c => s.vacant c = true
  let stuck := if cfg.noref then standins.filter fun c => s.dead c = true else ∅
  let owed := if cfg.noref then ∅ else standins
  let unhashed := { s.cut cfg (s.kids m) with vq := Function.update s.vq task (s.vq task ++ ordered cfg owed) }
  let after := if connected then unhashed.vacate cfg m stuck else unhashed.doom m stuck
  { after with
    tw := insert ⟨m, if connected then .release else .cleanup, if stuck = ∅ then .sb else .stuck, task⟩ s.tw }

/-- lock_mount_hash() and the decrement. -/
def drop (m : M) : State M S H W :=
  { s with count := Function.update s.count m (s.count m - 1), seq := s.seq + 1 }

/-- mntput() on a mount with mnt_ns NULL. -/
def put (m : M) (task : Task H W) : State M S H W :=
  if s.count m - 1 < 0 then { s.drop m with negative := true }
  else if 0 < s.count m - 1 then s.drop m
  else if s.doomed m then { s.drop m with warn := s.warn ∪ {.putDoomed} }
  else if s.vacant m then (if cfg.noref then (s.drop m).vacantPutNoref m else (s.drop m).vacantPut m)
  else (s.drop m).lastPut cfg m task

/-! ### cleanup_mnt() as task work -/

def advance (it : Item M H W) : State M S H W :=
  match it.step, it.kind with
  | .stuck, _ => { s with tw := insert { it with step := .sb } (s.tw.erase it) }
  | .sb, .cleanup => { s with tw := insert { it with step := .free } (s.tw.erase it) }
  | .sb, .release => { s with tw := insert { it with step := .handoff } (s.tw.erase it) }
  | _, _ => { s with tw := s.tw.erase it }

def Runnable (it : Item M H W) : Prop := cfg.uInline = true → it.owner = .u → s.Quiet .u

/-- fsnotify_vfsmount_delete(). -/
def unmark (m : M) : State M S H W :=
  { s with
    watched := match s.conn m with
      | none => s.watched
      | some acct => Function.update s.watched acct (s.watched acct - 1)
    conn := Function.update s.conn m none }

/-- deactivate_super(). -/
def release (m : M) : State M S H W :=
  { s with
    sbact := Function.update s.sbact (cfg.sb m) false
    pins := s.pins ∪ (cfg.pin (cfg.sb m)).toFinset
    releases := Function.update s.releases m (s.releases m + 1)
    warn := s.warn ∪ warnIf (s.sbact (cfg.sb m) = false) .doubleRelease }

inductive TaskWork (it : Item M H W) : State M S H W → Prop
  | stuckDone (here : it ∈ s.tw) (step : it.step = .stuck) (runs : s.Runnable cfg it) (none : s.stuck it.m = ∅) :
      TaskWork it (s.advance it)
  | stuckFree {c} (here : it ∈ s.tw) (step : it.step = .stuck) (runs : s.Runnable cfg it) (child : c ∈ s.stuck it.m)
      (mode : cfg.noref = true) :
      TaskWork it ({ s with stuck := Function.update s.stuck it.m ((s.stuck it.m).erase c) }.free c)
  | stuckPut {c} (here : it ∈ s.tw) (step : it.step = .stuck) (runs : s.Runnable cfg it) (child : c ∈ s.stuck it.m)
      (mode : cfg.noref = false) :
      TaskWork it ({ s with stuck := Function.update s.stuck it.m ((s.stuck it.m).erase c) }.put cfg c .c)
  | sbHangs (here : it ∈ s.tw) (step : it.step = .sb) (runs : s.Runnable cfg it)
      (waits : 0 < (s.unmark it.m).watched (some (cfg.sb it.m))) :
      TaskWork it { s.unmark it.m with tw := s.tw.erase it, hung := true }
  | sb (here : it ∈ s.tw) (step : it.step = .sb) (runs : s.Runnable cfg it)
      (clear : ¬ 0 < (s.unmark it.m).watched (some (cfg.sb it.m))) :
      TaskWork it (((s.unmark it.m).release cfg it.m).advance it)
  | free (here : it ∈ s.tw) (step : it.step = .free) (runs : s.Runnable cfg it) :
      TaskWork it ((s.free it.m).advance it)
  | handoffFree (here : it ∈ s.tw) (step : it.step = .handoff) (runs : s.Runnable cfg it) (doomed : s.doomed it.m = true) :
      TaskWork it (({ s with oldroot := Function.update s.oldroot it.m false }.free it.m).advance it)
  | handoff (here : it ∈ s.tw) (step : it.step = .handoff) (runs : s.Runnable cfg it) (alive : s.doomed it.m = false) :
      TaskWork it ({ s with oldroot := Function.update s.oldroot it.m false }.advance it)

/-! ### U: namespace_unlock() and mntput_unmounted() -/

def UMayPut : Prop :=
  s.Quiet .u ∧ (cfg.uInline = true → ∀ it ∈ s.tw, it.owner ≠ .u) ∧
    (cfg.holderOrder = .early → ∀ h, RootHolder cfg h → s.hdone h = true)

inductive Unlocker : State M S H W → Prop
  | gp (here : s.upc = .gp) : Unlocker { s with ugp := s.rcu, upc := .wait }
  | wait (here : s.upc = .wait) (passed : s.ugp = ∅) : Unlocker { s with upc := .put }
  | done (here : s.upc = .put) (may : s.UMayPut cfg) (empty : s.uhead = []) : Unlocker { s with upc := .done }
  | put {m rest} (here : s.upc = .put) (may : s.UMayPut cfg) (head : s.uhead = m :: rest) :
      Unlocker ({ s with uhead := rest }.put cfg m .u)

/-! ### Holders: a mark, then close the file -/

/-- fanotify_mark() reaches the holder's mount and the one below it. -/
def Markable (h : H) (m : M) : Prop :=
  cfg.marks = true ∧ s.hdone h = false ∧ s.Quiet (.holder h) ∧
    (m = cfg.holderMnt h ∨ m ∈ s.kids (cfg.holderMnt h)) ∧ s.conn m = none ∧ s.freed m = false

inductive Holder (h : H) : State M S H W → Prop
  | refused {m} (may : s.Markable cfg h m) (vacant : s.vacant m = true) (first : s.markRefused = false) :
      Holder h { s with markRefused := true }
  | mark {m} (may : s.Markable cfg h m) (own : s.vacant m = false) :
      Holder h { s with
        conn := Function.update s.conn m (some (s.curSb cfg m))
        watched := Function.update s.watched (s.curSb cfg m) (s.watched (s.curSb cfg m) + 1) }
  | close (opened : s.hdone h = false) (quiet : s.Quiet (.holder h))
      (order : cfg.holderOrder = .late → RootHolder cfg h → s.upc = .done) :
      Holder h ({ s with
        hdone := Function.update s.hdone h true
        ext := Function.update s.ext (cfg.holderMnt h) (s.ext (cfg.holderMnt h) - 1) }.put cfg
          (cfg.holderMnt h) (.holder h))

/-! ### Walkers -/

def addCount (m : M) (delta : ℤ) : State M S H W := { s with count := Function.update s.count m (s.count m + delta) }

def mark (m : M) : State M S H W := { s with held := Function.update s.held m (s.held m || s.vacant m) }

variable (w : W)

/-- The walk ends. -/
def answer (res : Result) : State M S H W := s.setWalker w { s.walker w with pc := .idle, res := some res }

def goto (pc : WLabel) : State M S H W := s.setWalker w { s.walker w with pc := pc }

/-- `found`: the mountpoint of `t` is in the hash. -/
def Found (p t : M) : Prop := s.hashed t = true ∧ s.parent t = some p

inductive Walk : State M S H W → Prop
  | start {p t} (here : (s.walker w).pc = .idle) (more : (s.walker w).n < cfg.walkBudget) (quiet : s.Quiet (.walker w))
      (file : 0 < s.ext p) (below : cfg.parent t = some p) :
      Walk { s.setWalker w { s.walker w with
        pc := .lookup, src := some p, tgt := some t, seq := s.seq, res := none, n := (s.walker w).n + 1 } with
        rcu := insert w s.rcu }
  | lookupGone {t} (here : (s.walker w).pc = .lookup) (tgt : (s.walker w).tgt = some t) (gone : s.mpgone t = true) :
      Walk ((s.answer w .enoent).rcuOut w)
  | lookupFound {p t} (here : (s.walker w).pc = .lookup) (src : (s.walker w).src = some p) (tgt : (s.walker w).tgt = some t)
      (there : s.mpgone t = false) (found : s.Found p t) : Walk (s.goto w .legit1)
  | lookupBeneath {p t} (here : (s.walker w).pc = .lookup) (src : (s.walker w).src = some p) (tgt : (s.walker w).tgt = some t)
      (there : s.mpgone t = false) (missed : ¬ s.Found p t) (same : s.seq = (s.walker w).seq) :
      Walk ((s.answer w .beneath).rcuOut w)
  | lookupRef {p t} (here : (s.walker w).pc = .lookup) (src : (s.walker w).src = some p) (tgt : (s.walker w).tgt = some t)
      (there : s.mpgone t = false) (missed : ¬ s.Found p t) (other : s.seq ≠ (s.walker w).seq) :
      Walk ((s.goto w .ref).rcuOut w)
  | legit1Ref (here : (s.walker w).pc = .legit1) (other : s.seq ≠ (s.walker w).seq) : Walk ((s.goto w .ref).rcuOut w)
  | legit1 {t} (here : (s.walker w).pc = .legit1) (tgt : (s.walker w).tgt = some t) (same : s.seq = (s.walker w).seq)
      (stores : cfg.markStores = .sc) : Walk (((s.goto w .legit2).mark t).addCount t 1)
  | legit1Stores {t} (here : (s.walker w).pc = .legit1) (tgt : (s.walker w).tgt = some t) (same : s.seq = (s.walker w).seq)
      (stores : cfg.markStores ≠ .sc) :
      Walk (s.setWalker w { s.walker w with pc := .drain, stHeld := s.vacant t, stCnt := true })
  | drainHeld {t} (here : (s.walker w).pc = .drain) (tgt : (s.walker w).tgt = some t) (buffered : (s.walker w).stHeld = true) :
      Walk { s.setWalker w { s.walker w with
        pc := if (s.walker w).stCnt then .drain else .legit2, stHeld := false } with
        held := Function.update s.held t true }
  | drainCnt {t} (here : (s.walker w).pc = .drain) (tgt : (s.walker w).tgt = some t) (buffered : (s.walker w).stCnt = true)
      (order : cfg.markStores = .weak ∨ (s.walker w).stHeld = false) :
      Walk ((s.setWalker w { s.walker w with
        pc := if (s.walker w).stHeld then .drain else .legit2, stCnt := false }).addCount t 1)
  | legit2Use (here : (s.walker w).pc = .legit2) (same : s.seq = (s.walker w).seq) : Walk ((s.goto w .use).rcuOut w)
  | legit2Lock (here : (s.walker w).pc = .legit2) (other : s.seq ≠ (s.walker w).seq) : Walk (s.goto w .lock)
  | lockDoomed {t} (here : (s.walker w).pc = .lock) (tgt : (s.walker w).tgt = some t) (doomed : s.doomed t = true) :
      Walk (({ s.goto w .ref with seq := s.seq + 1 }.addCount t (-1)).rcuOut w)
  | lock {t} (here : (s.walker w).pc = .lock) (tgt : (s.walker w).tgt = some t) (alive : s.doomed t = false) :
      Walk (({ s.goto w .put with seq := s.seq + 1 }.mark t).rcuOut w)
  | put {t} (here : (s.walker w).pc = .put) (tgt : (s.walker w).tgt = some t) :
      Walk ((s.goto w .ref).put cfg t (.walker w))
  | use {t} (here : (s.walker w).pc = .use) (tgt : (s.walker w).tgt = some t) :
      Walk ((s.answer w .into).put cfg t (.walker w))
  | refClosed {p} (here : (s.walker w).pc = .ref) (quiet : s.Quiet (.walker w)) (src : (s.walker w).src = some p)
      (closed : s.ext p = 0) : Walk (s.answer w .ebadf)
  | refGone {p t} (here : (s.walker w).pc = .ref) (quiet : s.Quiet (.walker w)) (src : (s.walker w).src = some p)
      (tgt : (s.walker w).tgt = some t) (file : s.ext p ≠ 0) (gone : s.mpgone t = true) : Walk (s.answer w .enoent)
  | refBeneath {p t} (here : (s.walker w).pc = .ref) (quiet : s.Quiet (.walker w)) (src : (s.walker w).src = some p)
      (tgt : (s.walker w).tgt = some t) (file : s.ext p ≠ 0) (there : s.mpgone t = false) (missed : ¬ s.Found p t) :
      Walk (s.answer w .beneath)
  | refHangs {p t} (here : (s.walker w).pc = .ref) (quiet : s.Quiet (.walker w)) (src : (s.walker w).src = some p)
      (tgt : (s.walker w).tgt = some t) (file : s.ext p ≠ 0) (there : s.mpgone t = false) (found : s.Found p t)
      (doomed : s.doomed t = true) : Walk (s.answer w .hang)
  | ref {p t} (here : (s.walker w).pc = .ref) (quiet : s.Quiet (.walker w)) (src : (s.walker w).src = some p)
      (tgt : (s.walker w).tgt = some t) (file : s.ext p ≠ 0) (there : s.mpgone t = false) (found : s.Found p t)
      (alive : s.doomed t = false) : Walk (({ s.goto w .use with seq := s.seq + 1 }.mark t).addCount t 1)

/-! ### D: rmdir of a mountpoint -/

/-- The mountpoint is gone, under mount_lock. -/
def unlink (t : M) : State M S H W :=
  { s with mpgone := Function.update s.mpgone t true, seq := s.seq + 1, dtargets := s.dtargets.erase t }

/-- __detach_mounts() cuts the mount at the removed directory loose. What it owes of a stand-in
with a reference is put by namespace_unlock(); a dead one without is freed. -/
def detach (t : M) : State M S H W :=
  if s.hashed t = true ∧ s.parent t = cfg.parent t then
    if s.vacant t = true then
      if cfg.noref = true then
        if s.dead t = true then ((s.unlink t).cut cfg {t}).free t else (s.unlink t).cut cfg {t}
      else { (s.unlink t).cut cfg {t} with vq := Function.update s.vq .d [t] }
    else (s.unlink t).cut cfg {t}
  else s.unlink t

inductive Detach : State M S H W → Prop
  | detach {t p} (quiet : s.Quiet .d) (target : t ∈ s.dtargets) (there : s.mpgone t = false)
      (below : cfg.parent t = some p) (mounted : s.sbact (cfg.sb p) = true) : Detach (s.detach cfg t)

/-! ### The specification -/

structure Settled : Prop where
  upc : s.upc = .done
  hdone : ∀ h, s.hdone h = true
  walkers : ∀ w, (s.walker w).pc = .idle
  tw : s.tw = ∅
  pins : s.pins = ∅
  quiet : ∀ t, s.Quiet t
  freed : ∀ m, s.rcufree m = true → s.freed m = true

inductive Next : State M S H W → Prop
  | unlocker {after} (step : s.Unlocker cfg after) : Next after
  | holder {h after} (step : s.Holder cfg h after) : Next after
  | walk {w after} (step : s.Walk cfg w after) : Next after
  | detach {after} (step : s.Detach cfg after) : Next after
  | taskWork {it after} (step : s.TaskWork cfg it after) : Next after
  | vput {t m rest} (owes : s.vq t = m :: rest) :
      Next ({ s with vq := Function.update s.vq t rest }.put cfg m t)
  | pinPut {m} (drop : m ∈ s.pins) (quiet : s.Quiet .k) : Next ({ s with pins := s.pins.erase m }.put cfg m .k)
  | rcuFree {m} (called : s.rcufree m = true) (pending : s.freed m = false) (left : s.freewait m = ∅) :
      Next { s with freed := Function.update s.freed m true }
  | settled (all : s.Settled) : Next s

end State

/-- namespace_unlock() right after up_write(&namespace_sem). -/
def init : State M S H W where
  hashed m := (cfg.parent m).isSome
  parent := cfg.parent
  count m := 1 + ext0 cfg m + pinned0 cfg m
  doomed _ := false
  vacant _ := false
  oldroot _ := false
  inst _ := .fs
  stuck _ := ∅
  held _ := false
  freed _ := false
  rcufree _ := false
  mpgone _ := false
  conn _ := none
  sbact _ := true
  watched _ := 0
  seq := 0
  uhead := ordered cfg Finset.univ
  upc := .gp
  ugp := ∅
  ext := ext0 cfg
  hdone _ := false
  walker _ := ⟨.idle, none, none, 0, none, 0, false, false⟩
  rcu := ∅
  dtargets := cfg.detachTargets
  tw := ∅
  vq _ := []
  pins := ∅
  freewait _ := ∅
  negative := false
  warn := ∅
  frees _ := 0
  releases _ := 0
  hung := false
  markRefused := false

def spec : Lib.System (State M S H W) where
  init s := s = init cfg
  next s after := s.Next cfg after

/-! ### What is checked -/

section Checked

variable [Fintype W] (s : State M S H W) (w : W) (m : M)

def NoNegative : Prop := s.negative = false

def NoWarn : Prop := s.warn = ∅

def ExactlyOnce : Prop := ∀ m, s.frees m ≤ 1 ∧ s.releases m ≤ 1

/-- Past the lookup in RCU mode. -/
def Crossing : WLabel → Prop := fun pc => pc = .legit1 ∨ pc = .drain ∨ pc = .legit2 ∨ pc = .lock

/-- Nothing refers to `m`. -/
structure Unreferenced : Prop where
  hashed : s.hashed m = false
  inst : s.inst m = .none
  stuck : s.stuck m = ∅
  ext : s.ext m = 0
  mark : s.conn m = none
  others : ∀ x, s.parent x ≠ some m ∧ m ∉ s.stuck x
  uhead : m ∉ s.uhead
  pins : m ∉ s.pins
  vq : ∀ t, m ∉ s.vq t
  tw : ∀ it ∈ s.tw, it.m ≠ m
  tgt : ∀ w, Crossing (s.walker w).pc ∨ (s.walker w).pc = .put ∨ (s.walker w).pc = .use → (s.walker w).tgt ≠ some m
  src : ∀ w, (s.walker w).pc = .lookup ∨ Crossing (s.walker w).pc → (s.walker w).src ≠ some m

def NoDangling : Prop := ∀ m, s.freed m = true → Unreferenced s m

def HashedHasRef : Prop :=
  ∀ m, s.freed m = false → s.hashed m = true →
    s.doomed m = false ∧ (1 ≤ s.count m ∨ cfg.noref = true ∧ s.vacant m = true)

/-- The walker's increment has left its store buffer and has not been taken back. -/
def Visible : Prop :=
  (s.walker w).tgt = some m ∧
    ((s.walker w).pc = .legit2 ∨ (s.walker w).pc = .lock ∨ (s.walker w).pc = .put ∨ (s.walker w).pc = .use ∨
      (s.walker w).pc = .drain ∧ (s.walker w).stCnt = false)

instance : Decidable (Visible s w m) := inferInstanceAs (Decidable (_ ∧ _))

def wrefs : ℕ := (Finset.univ.filter fun w => Visible s w m).card

/-- On the way to its lock_mount_hash() path, or in it. -/
def Transient (pc : WLabel) : Prop := pc = .drain ∨ pc = .legit2 ∨ pc = .lock

instance (pc : WLabel) : Decidable (Transient pc) := inferInstanceAs (Decidable (_ ∨ _))

def DoomedIsLast : Prop :=
  ∀ m, s.doomed m = true →
    s.count m = (Finset.univ.filter fun w => Visible s w m ∧ Transient (s.walker w).pc).card

def OwnRefOnRing : Prop :=
  ∀ m ∈ s.uhead, s.freed m = false ∧ s.vacant m = false ∧ s.doomed m = false ∧ 1 ≤ s.count m

def InFlight : Prop := s.hashed m = true ∨ ∃ t, m ∈ s.vq t

open Classical in
noncomputable def ownRef : ℕ := if cfg.noref then 0 else if InFlight s m then 1 else 0

def VacantCount : Prop :=
  ∀ m, s.vacant m = true → s.doomed m = false → s.freed m = false → s.count m = ownRef cfg s m + wrefs s m

def HeldCoversRefs : Prop :=
  ∀ m, cfg.noref = true → s.vacant m = true → s.freed m = false → ∀ w, (s.walker w).tgt = some m →
    ((s.walker w).pc = .legit2 ∨ (s.walker w).pc = .lock ∨ (s.walker w).pc = .put ∨ (s.walker w).pc = .use) →
    s.held m = true ∨ ((s.walker w).pc = .legit2 ∨ (s.walker w).pc = .lock) ∧ s.seq ≠ (s.walker w).seq

def VacantOK : Prop :=
  ∀ m, s.vacant m = true → s.doomed m = false →
    s.inst m = if cfg.noref = true ∧ s.hashed m = false then .none else .null

def KnullfsOK : Prop :=
  ∀ m, s.freed m = false → (s.inst m = .null → s.vacant m = true) ∧ (s.vacant m = true → s.kids m = ∅)

def NoVacantOnRing : Prop := ∀ m, s.vacant m = true → m ∉ s.uhead

def NoReveal : Prop := ∀ w, (s.walker w).res ≠ some .beneath

def NoHang : Prop := ∀ w, (s.walker w).res ≠ some .hang

def NoNegativeWatch : Prop := ∀ b, 0 ≤ s.watched b

def NoTeardownHang : Prop := s.hung = false

def WatchedBalanced : Prop := s.Settled → ∀ b, s.watched b = 0

def Reaped : Prop := s.Settled → (∀ m, s.freed m = true) ∧ ∀ b, s.sbact b = false

end Checked

end LinuxTla.MntVacant
