import LinuxTla.LockMount.Tree

/-! `LockMount.tla`: do_lock_mount() and get_mountpoint() against vfs_rmdir(),
d_invalidate() and a lazy umount. Every section under mount_lock is one step. -/

namespace LinuxTla.LockMount

inductive Label
  | mStart | lmW1 | lmIlock | lmNsem | lmW2
  | gmStart | gmLookup | gmSet | gmCreate
  | lmFail | lmOk | amCheck | amAttach | umUnlock
  | rIlock | rLocal | rUnlock | rDelete
  | dDrop | dFind
  | uNsem | uTree | uUnlock
  | dmStart | dmNsem | dmBody | dmUnlock
  | done
deriving DecidableEq, Repr

inductive Error
  | none | eagain | enoent | einval | ebusy
deriving DecidableEq, Repr

structure Local (M E : Type) where
  pc : Label
  ret : Label
  wm : Option (M × E)
  tmp : Option M
  err : Error
  dt : Option E
  todo : Finset M
  budget : ℕ

structure State (M E N T : Type) where
  tables : Tables M E N T
  ilock : E → Option (Task T)
  nsem : Option (Task T)
  nsreaders : Finset (Task T)
  task : Task T → Local M E
  bad : Bool

variable {M E N T : Type} [Fintype M] [LinearOrder M] [Fintype E] [DecidableEq E] [DecidableEq N] [Fintype T]
  [DecidableEq T] (cfg : Config M E N T)

/-- `Tasks` -/
def Running : Task T → Prop
  | .mounter _ => True
  | .rmdir => cfg.rmdirTarget ≠ none
  | .inval => cfg.invalTarget ≠ none
  | .umount => cfg.umountTarget ≠ none

def start : Task T → Label
  | .mounter _ => .mStart
  | .rmdir => .rIlock
  | .inval => .dDrop
  | .umount => .uNsem

def initLocal (t : Task T) : Local M E where
  pc := start t
  ret := .done
  wm := none
  tmp := none
  err := .none
  dt := none
  todo := ∅
  budget := match t with
    | .mounter t => (cfg.info t).budget
    | _ => 0

def initCount (x : M) : ℤ := 1 + (Finset.univ.filter fun t => (cfg.info t).pm = x).card

/-- The root mount of a namespace. -/
def IsRoot (x : M) : Prop := ∃ n, cfg.roots n = some x

structure Init (s : State M E N T) : Prop where
  root : ∀ x, IsRoot cfg x → s.tables.mnt x =
    { fresh cfg x with alive := true, ns := some (cfg.rootNs x), count := initCount cfg x }
  other : ∀ x, ¬ IsRoot cfg x → s.tables.mnt x = fresh cfg x
  den : ∀ d, s.tables.den d = { unhashed := false, mounted := false, cant := false, mp := false, pins := ∅ }
  ilock : ∀ d, s.ilock d = none
  nsem : s.nsem = none
  nsreaders : s.nsreaders = ∅
  task : s.task = initLocal cfg
  bad : s.bad = false

namespace State

variable (s : State M E N T)

def NsFree : Prop := s.nsem = none ∧ s.nsreaders = ∅

@[simps] def set (t : Task T) (l : Local M E) : State M E N T := { s with task := Function.update s.task t l }

@[simps!] def goto (t : Task T) (l : Label) : State M E N T := s.set t { s.task t with pc := l }

@[simps] def lock (d : E) (t : Option (Task T)) : State M E N T := { s with ilock := Function.update s.ilock d t }

@[simps] def setTables (st : Tables M E N T) : State M E N T := { s with tables := st }

@[simps] def setNsem (t : Option (Task T)) : State M E N T := { s with nsem := t }

def fail (t : Task T) (e : Error) : State M E N T := s.set t { s.task t with pc := .lmFail, err := e }

def putTmp (t : Task T) : Tables M E N T :=
  match (s.task t).tmp with
  | none => s.tables
  | some x => s.tables.put {x}

/-- namespace_unlock(): drop namespace_sem, then mntput() everything unmounted. -/
def nsUnlock (t : Task T) (l : Label) : State M E N T :=
  ((s.setNsem none).setTables (s.tables.put (s.task t).todo)).set t { s.task t with pc := l, todo := ∅ }

end State

/-! ### detach_mounts() -/

inductive Detach (s : State M E N T) (t : Task T) : State M E N T → Prop
  | start {d} (here : (s.task t).pc = .dmStart) (target : (s.task t).dt = some d) :
      Detach s t (s.goto t (if (s.tables.den d).mounted then .dmNsem else (s.task t).ret))
  | nsem (here : (s.task t).pc = .dmNsem) (free : s.NsFree) : Detach s t ((s.setNsem (some t)).goto t .dmBody)
  | body {d} (here : (s.task t).pc = .dmBody) (target : (s.task t).dt = some d) :
      Detach s t ((s.setTables (s.tables.detachBody cfg t d).1).set t
        { s.task t with pc := .dmUnlock, todo := (s.task t).todo ∪ (s.tables.detachBody cfg t d).2 })
  | unlock (here : (s.task t).pc = .dmUnlock) : Detach s t (s.nsUnlock t (s.task t).ret)

/-! ### The mounter -/

namespace Tables

variable (st : Tables M E N T)

@[simps!] def setMounted (d : E) : Tables M E N T := st.setDen d { st.den d with mounted := true }

/-- The new struct mountpoint, pinned. -/
@[simps!] def create (t : Task T) (d : E) : Tables M E N T :=
  st.setDen d { st.den d with mp := true, pins := insert t (st.den d).pins }

/-- The new mount at its place. -/
@[simps!] def attach (x p : M) (d : E) (n : N) : Tables M E N T :=
  st.setMnt x { fresh cfg x with alive := true, parent := p, mp := d, root := cfg.newRoot, hashed := true,
                                 ns := some n, count := 1 }

/-- What must be true of the place when the mount is attached. -/
def Checks (t : Task T) (p : M) (d : E) : Prop :=
  st.lookupMnt p d = none ∧ (st.mnt p).ns ≠ none ∧ (st.mnt p).umount = false ∧ (st.den d).mounted = true ∧
    (st.den d).mp = true ∧ t ∈ (st.den d).pins ∧ (st.den d).cant = false

instance (t : Task T) (p : M) (d : E) : Decidable (st.Checks t p d) := by unfold Checks; infer_instance

/-- d_set_mounted() refuses a dentry below an unhashed one. -/
def Gone (d : E) : Prop :=
  (∃ a ∈ ancestors cfg d, (st.den a).unhashed = true ∧ cfg.dparent a ≠ a) ∨
    (st.den d).unhashed = true ∧ cfg.dparent d ≠ d

instance (d : E) : Decidable (st.Gone cfg d) := by unfold Gone; infer_instance

end Tables

/-- The path of a mounter, looked up now. -/
def place (st : Tables M E N T) (t : T) : M × E := st.whereToMount (cfg.info t).pm (cfg.info t).pd

/-- do_lock_mount() will not mount there. -/
def Dead (st : Tables M E N T) (t : T) (d : E) : Prop :=
  cfg.fixDontMount = true ∧ (st.den d).cant = true ∨ (st.mnt (cfg.info t).pm).ns = none

inductive Mounting (s : State M E N T) (t : T) : State M E N T → Prop
  | start (here : (s.task (.mounter t)).pc = .mStart) :
      Mounting s t (s.goto (.mounter t) (if (s.task (.mounter t)).budget = 0 then .done else .lmW1))
  | w1Own (here : (s.task (.mounter t)).pc = .lmW1) (own : (place cfg s.tables t).1 = (cfg.info t).pm) :
      Mounting s t (s.set (.mounter t)
        { s.task (.mounter t) with pc := .lmIlock, wm := some (place cfg s.tables t), tmp := none })
  | w1Top {x} (here : (s.task (.mounter t)).pc = .lmW1) (top : (place cfg s.tables t).1 = x)
      (other : x ≠ (cfg.info t).pm) :
      Mounting s t ((s.setTables (s.tables.setCount x ((s.tables.mnt x).count + 1))).set (.mounter t)
        { s.task (.mounter t) with pc := .lmIlock, wm := some (place cfg s.tables t), tmp := some x })
  | ilock {p d} (here : (s.task (.mounter t)).pc = .lmIlock) (answer : (s.task (.mounter t)).wm = some (p, d))
      (free : s.ilock d = none) : Mounting s t ((s.lock d (some (.mounter t))).goto (.mounter t) .lmNsem)
  | nsem (here : (s.task (.mounter t)).pc = .lmNsem) (free : s.NsFree) :
      Mounting s t ((s.setNsem (some (.mounter t))).goto (.mounter t) .lmW2)
  | moved {p d} (here : (s.task (.mounter t)).pc = .lmW2) (answer : (s.task (.mounter t)).wm = some (p, d))
      (moved : cfg.fixRecheck = true ∧ place cfg s.tables t ≠ (p, d)) : Mounting s t (s.fail (.mounter t) .eagain)
  | dead {p d} (here : (s.task (.mounter t)).pc = .lmW2) (answer : (s.task (.mounter t)).wm = some (p, d))
      (stays : ¬ (cfg.fixRecheck = true ∧ place cfg s.tables t ≠ (p, d))) (dead : Dead cfg s.tables t d) :
      Mounting s t (s.fail (.mounter t) .enoent)
  | w2 {p d} (here : (s.task (.mounter t)).pc = .lmW2) (answer : (s.task (.mounter t)).wm = some (p, d))
      (stays : ¬ (cfg.fixRecheck = true ∧ place cfg s.tables t ≠ (p, d))) (lives : ¬ Dead cfg s.tables t d) :
      Mounting s t (s.goto (.mounter t) .gmStart)
  | gmUnlinked {p d} (here : (s.task (.mounter t)).pc = .gmStart) (answer : (s.task (.mounter t)).wm = some (p, d))
      (mounted : (s.tables.den d).mounted = true) (gone : cfg.fixUnlinked = true ∧ (s.tables.den d).unhashed = true) :
      Mounting s t (s.fail (.mounter t) .enoent)
  | gmStart {p d} (here : (s.task (.mounter t)).pc = .gmStart) (answer : (s.task (.mounter t)).wm = some (p, d))
      (linked : (s.tables.den d).mounted = true → ¬ (cfg.fixUnlinked = true ∧ (s.tables.den d).unhashed = true)) :
      Mounting s t (s.goto (.mounter t) (if (s.tables.den d).mounted then .gmLookup else .gmSet))
  | gmFound {p d} (here : (s.task (.mounter t)).pc = .gmLookup) (answer : (s.task (.mounter t)).wm = some (p, d))
      (found : (s.tables.den d).mp = true ∧ (cfg.fixLookupUnlinked = true ∨ (s.tables.den d).unhashed = false)) :
      Mounting s t ((s.setTables (s.tables.pin (.mounter t) d)).goto (.mounter t) .lmOk)
  | gmLookup {p d} (here : (s.task (.mounter t)).pc = .gmLookup) (answer : (s.task (.mounter t)).wm = some (p, d))
      (missing : ¬ ((s.tables.den d).mp = true ∧ (cfg.fixLookupUnlinked = true ∨ (s.tables.den d).unhashed = false))) :
      Mounting s t (s.goto (.mounter t) .gmSet)
  | gmGone {p d} (here : (s.task (.mounter t)).pc = .gmSet) (answer : (s.task (.mounter t)).wm = some (p, d))
      (gone : s.tables.Gone cfg d) : Mounting s t (s.fail (.mounter t) .enoent)
  | gmBusy {p d} (here : (s.task (.mounter t)).pc = .gmSet) (answer : (s.task (.mounter t)).wm = some (p, d))
      (linked : ¬ s.tables.Gone cfg d) (mounted : (s.tables.den d).mounted = true) :
      Mounting s t (s.goto (.mounter t) .gmLookup)
  | gmSet {p d} (here : (s.task (.mounter t)).pc = .gmSet) (answer : (s.task (.mounter t)).wm = some (p, d))
      (linked : ¬ s.tables.Gone cfg d) (clear : (s.tables.den d).mounted = false) :
      Mounting s t ((s.setTables (s.tables.setMounted d)).goto (.mounter t) .gmCreate)
  | gmCreate {p d} (here : (s.task (.mounter t)).pc = .gmCreate) (answer : (s.task (.mounter t)).wm = some (p, d)) :
      Mounting s t ((s.setTables (s.tables.create (.mounter t) d)).goto (.mounter t) .lmOk)
  | again {p d} (here : (s.task (.mounter t)).pc = .lmFail) (answer : (s.task (.mounter t)).wm = some (p, d))
      (again : (s.task (.mounter t)).err = .eagain) :
      Mounting s t ((((s.setNsem none).lock d none).setTables (s.putTmp (.mounter t))).set (.mounter t)
        { s.task (.mounter t) with pc := .lmW1, tmp := none })
  | lmFail {p d} (here : (s.task (.mounter t)).pc = .lmFail) (answer : (s.task (.mounter t)).wm = some (p, d))
      (final : (s.task (.mounter t)).err ≠ .eagain) :
      Mounting s t ((((s.setNsem none).lock d none).setTables (s.putTmp (.mounter t))).set (.mounter t)
        { s.task (.mounter t) with pc := .mStart, tmp := none, budget := (s.task (.mounter t)).budget - 1 })
  | lmOk (here : (s.task (.mounter t)).pc = .lmOk) :
      Mounting s t ((s.setTables (s.putTmp (.mounter t))).set (.mounter t)
        { s.task (.mounter t) with pc := .amCheck, tmp := none })
  | amInval {p d} (here : (s.task (.mounter t)).pc = .amCheck) (answer : (s.task (.mounter t)).wm = some (p, d))
      (foreign : (s.tables.mnt p).ns ≠ some (cfg.info t).ns) :
      Mounting s t (s.set (.mounter t) { s.task (.mounter t) with pc := .umUnlock, err := .einval })
  | amCheck {p d} (here : (s.task (.mounter t)).pc = .amCheck) (answer : (s.task (.mounter t)).wm = some (p, d))
      (own : (s.tables.mnt p).ns = some (cfg.info t).ns) : Mounting s t (s.goto (.mounter t) .amAttach)
  | amAttach {p d x} (here : (s.task (.mounter t)).pc = .amAttach) (answer : (s.task (.mounter t)).wm = some (p, d))
      (free : s.tables.freeId = some x) :
      Mounting s t { (s.setTables (s.tables.attach cfg x p d (cfg.info t).ns)).set (.mounter t)
          { s.task (.mounter t) with
            pc := .umUnlock, err := .none, budget := (s.task (.mounter t)).budget - 1 } with
        bad := s.bad || !decide (s.tables.Checks (.mounter t) p d) }
  | umUnlock {p d} (here : (s.task (.mounter t)).pc = .umUnlock) (answer : (s.task (.mounter t)).wm = some (p, d)) :
      Mounting s t ((((s.setNsem none).lock d none).setTables (s.tables.unpin (.mounter t) d)).goto (.mounter t) .mStart)

/-! ### vfs_rmdir() -/

def LocalMountpoint (st : Tables M E N T) (d : E) : Prop :=
  (st.den d).mounted = true ∧ ∃ x, (st.mnt x).alive = true ∧ (st.mnt x).ns = some cfg.localNs ∧ st.HasParent x ∧
    (st.mnt x).mp = d ∧ (st.mnt x).hashed = true

inductive Rmdir (s : State M E N T) (d : E) : State M E N T → Prop
  | ilock (here : (s.task .rmdir).pc = .rIlock) (free : s.ilock d = none) :
      Rmdir s d ((s.lock d (some .rmdir)).goto .rmdir .rLocal)
  | busy (here : (s.task .rmdir).pc = .rLocal) (free : s.nsem = none) (busy : LocalMountpoint cfg s.tables d) :
      Rmdir s d ((s.lock d none).set .rmdir { s.task .rmdir with pc := .done, err := .ebusy })
  | dontMount (here : (s.task .rmdir).pc = .rLocal) (free : s.nsem = none) (idle : ¬ LocalMountpoint cfg s.tables d) :
      Rmdir s d ((s.setTables (s.tables.setDen d { s.tables.den d with cant := true })).set .rmdir
        { s.task .rmdir with pc := .dmStart, dt := some d, ret := .rUnlock })
  | unlock (here : (s.task .rmdir).pc = .rUnlock) : Rmdir s d ((s.lock d none).goto .rmdir .rDelete)
  | delete (here : (s.task .rmdir).pc = .rDelete) :
      Rmdir s d ((s.setTables (s.tables.setDen d { s.tables.den d with unhashed := true })).goto .rmdir .done)

/-! ### d_invalidate() -/

inductive Inval (s : State M E N T) (d : E) : State M E N T → Prop
  | gone (here : (s.task .inval).pc = .dDrop) (gone : (s.tables.den d).unhashed = true) :
      Inval s d (s.goto .inval .done)
  | drop (here : (s.task .inval).pc = .dDrop) (hashed : (s.tables.den d).unhashed = false) :
      Inval s d ((s.setTables (s.tables.setDen d { s.tables.den d with unhashed := true })).goto .inval .dFind)
  | none (here : (s.task .inval).pc = .dFind) (none : ∀ v ∈ below cfg d, (s.tables.den v).mounted = false) :
      Inval s d (s.goto .inval .done)
  | found {v} (here : (s.task .inval).pc = .dFind) (inside : v ∈ below cfg d) (mounted : (s.tables.den v).mounted = true) :
      Inval s d (s.set .inval { s.task .inval with pc := .dmStart, dt := some v, ret := .dFind })

/-! ### umount2(MNT_DETACH) -/

def Tables.Umountable (st : Tables M E N T) (x : M) : Prop :=
  (st.mnt x).alive = true ∧ (st.mnt x).hashed = true ∧ (st.mnt x).ns ≠ none

inductive Umount (s : State M E N T) (x : M) : State M E N T → Prop
  | nsem (here : (s.task .umount).pc = .uNsem) (there : s.tables.Umountable x) (free : s.NsFree) :
      Umount s x ((s.setNsem (some .umount)).goto .umount .uTree)
  | never (here : (s.task .umount).pc = .uNsem) (missing : ¬ s.tables.Umountable x)
      (finished : ∀ t, (s.task (.mounter t)).pc = .done) : Umount s x (s.goto .umount .done)
  | tree (here : (s.task .umount).pc = .uTree) :
      Umount s x ((s.setTables (s.tables.umountTree x false).1).set .umount
        { s.task .umount with pc := .uUnlock, todo := (s.tables.umountTree x false).2 })
  | unlock (here : (s.task .umount).pc = .uUnlock) : Umount s x (s.nsUnlock .umount .done)

def State.Settled (s : State M E N T) : Prop := ∀ t, Running cfg t → (s.task t).pc = .done

inductive Next (s : State M E N T) : State M E N T → Prop
  | detach {t after} (step : Detach cfg s t after) : Next s after
  | mount {t after} (step : Mounting cfg s t after) : Next s after
  | rmdir {d after} (target : cfg.rmdirTarget = some d) (step : Rmdir cfg s d after) : Next s after
  | inval {d after} (target : cfg.invalTarget = some d) (step : Inval cfg s d after) : Next s after
  | umount {x after} (target : cfg.umountTarget = some x) (step : Umount s x after) : Next s after
  | settled (all : s.Settled cfg) : Next s s

def spec : Lib.System (State M E N T) where
  init := Init cfg
  next := Next cfg

/-! ### What is checked -/

section Checked

variable (s : State M E N T)

def HashUnique : Prop :=
  ∀ x y, (s.tables.mnt x).alive = true → (s.tables.mnt y).alive = true → (s.tables.mnt x).hashed = true →
    (s.tables.mnt y).hashed = true → x ≠ y →
      (s.tables.mnt x).parent ≠ (s.tables.mnt y).parent ∨ (s.tables.mnt x).mp ≠ (s.tables.mnt y).mp

structure MountpointOK : Prop where
  mounted : ∀ d, (s.tables.den d).mp = true → (s.tables.den d).mounted = true
  window : ∀ d, (s.tables.den d).mounted = true → (s.tables.den d).mp = true ∨
    ∃ t p, (s.task (.mounter t)).pc = .gmCreate ∧ (s.task (.mounter t)).wm = some (p, d)
  used : ∀ d, (s.tables.den d).mp = true → s.tables.mlist d ≠ ∅ ∨ (s.tables.den d).pins ≠ ∅
  there : ∀ d, s.tables.mlist d ≠ ∅ ∨ (s.tables.den d).pins ≠ ∅ → (s.tables.den d).mp = true

def PinsUnderNsem : Prop := ∀ d, ∀ t ∈ (s.tables.den d).pins, s.nsem = some t

structure NoUAF : Prop where
  tmp : ∀ t x, (s.task t).tmp = some x → (s.tables.mnt x).freed = false
  answer : ∀ t p d, (s.task (.mounter t)).pc ∈ [Label.lmOk, .amCheck, .amAttach] →
    (s.task (.mounter t)).wm = some (p, d) → (s.tables.mnt p).freed = false
  parent : ∀ x, (s.tables.mnt x).alive = true → s.tables.HasParent x →
    (s.tables.mnt (s.tables.mnt x).parent).freed = false

def AttachOK : Prop := s.bad = false

def NoOrphans : Prop :=
  s.Settled cfg → ∀ x, (s.tables.mnt x).alive = true → (s.tables.mnt x).hashed = true → (s.tables.mnt x).ns ≠ none →
    (s.tables.den (s.tables.mnt x).mp).unhashed = false ∧ (s.tables.den (s.tables.mnt x).mp).cant = false

end Checked

end LinuxTla.LockMount
