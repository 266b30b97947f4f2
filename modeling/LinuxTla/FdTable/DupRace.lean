import LinuxTla.FdTable.Race

/-! `DupFdRace.tla`: dup_fd() on a shared table. fd_install() is lockless, and the lock
is dropped to allocate a bigger table. -/

namespace LinuxTla.FdTable.DupRace

open Lib

structure Config where
  W : ℕ
  nWords : ℕ
  inf : ℕ
  dropInDupFd : Bool
  /-- `FlagSet` -/
  flagSet : Flags → Prop

inductive Label
  | size | alloc | copy | finish | done
deriving DecidableEq, Repr

/-- `clone` has the slots, the full_fds_bits words and the references taken. -/
structure State where
  table : Table
  range : FdRange
  flags : Flags
  pc : Label
  cap : ℕ
  openFiles : ℕ
  snap : Table
  i : ℕ
  clone : Clone

/-- A slot of the copied bitmaps: no file yet. -/
def claimed (s : Slot) : Slot := ⟨s.opened, false, s.cloexec, Bool.noConfusion⟩

/-- copy_fd_bitmaps(): `n` descriptors and their full words. -/
def copyFdBitmaps (W n : ℕ) (t : Table) : Clone where
  max := n
  slots d := claimed (t.slot d)
  full w := decide (openBits W t w = wordBits W)
  refs := ∅

section Steps

variable (cfg : Config) (s s' : State)

/-- `Drop`: the range dup_fd() is to leave behind. -/
def State.drop : Option FdRange := if s.flags.cloexec = true then none else some s.range

/-- One word, and room for it. The others grow the table only while dup_fd() allocates, so
it never has to. -/
def Init : Prop :=
  s.table.maxFds = cfg.W ∧ Race.RangesUpTo cfg.inf (cfg.W * cfg.nWords) s.range ∧ cfg.flagSet s.flags ∧
    s.pc = .size ∧ s.cap = cfg.W ∧ s.openFiles = 0 ∧ s.snap = s.table ∧ s.i = 0 ∧
    s.clone = ⟨0, fun _ => Free, fun _ => false, ∅⟩

def State.sized : ℕ := saneFdtableSize cfg.W cfg.dropInDupFd s.table s.drop s.flags

/-- Under the lock: a table bigger than what there is means dropping the lock. -/
def Size : Prop :=
  s.pc = .size ∧
    s' = if s.cap < s.sized cfg then { s with openFiles := s.sized cfg, pc := .alloc }
      else { s with
        openFiles := s.sized cfg
        pc := .copy
        snap := s.table
        clone := copyFdBitmaps cfg.W (s.sized cfg) s.table
        i := 0 }

/-- alloc_fdtable() without the lock; then the sizing starts over. -/
def Alloc : Prop := s.pc = .alloc ∧ s' = { s with cap := s.openFiles, pc := .size }

def State.carried : Clone :=
  { s.clone with
    slots := Function.update s.clone.slots s.i (copySlot (s.table.slot s.i) true)
    refs := insert s.i s.clone.refs }

/-- The slot at `i` is left behind: `__clear_open_fd()`. -/
def State.cleared : Clone :=
  { s.clone with
    slots := Function.update s.clone.slots s.i (copySlot (s.clone.slots s.i) false)
    full := Function.update s.clone.full (s.i / cfg.W) false }

/-- One slot of the copy loop, under the lock: the file pointer is read now. -/
def Copy : Prop :=
  s.pc = .copy ∧
    s' = if s.i = s.openFiles then { s with pc := .finish }
      else if Keeps cfg.W cfg.dropInDupFd s.table s.i s.drop s.flags then
        { s with i := s.i + 1, clone := s.carried }
      else { s with i := s.i + 1, clone := s.cleared cfg }

def closedClone (W : ℕ) (c : Clone) (r : FdRange) (f : Flags) : Clone :=
  { c with
    slots := (rangeClose c.table r f).slot
    full := fun w => c.full w && decide (∀ b ∈ wordBits W, ((rangeClose c.table r f).slot (w * W + b)).opened = true) }

/-- Back in sys_close_range(). -/
def Finish : Prop :=
  s.pc = .finish ∧
    s' = if s.flags.cloexec = true then
        { s with pc := .done, clone := { s.clone with slots := (rangeCloexec s.clone.table s.range s.flags).slot } }
      else if cfg.dropInDupFd = true then { s with pc := .done }
      else { s with pc := .done, clone := closedClone cfg.W s.clone s.range s.flags }

/-- What the others do to the table without the lock. -/
inductive Unlocked (t : Table) : Table → Prop
  | grow (room : t.maxFds < cfg.W * cfg.nWords) :
      Unlocked t { maxFds := t.maxFds + cfg.W, slot := fun d => if d < t.maxFds then t.slot d else Free }
  | opens (b : Bool) (free : (Finset.range t.maxFds).filter (fun d => (t.slot d).opened = false) ≠ ∅) :
      Unlocked t { t with
        slot := Function.update t.slot
          (least ((Finset.range t.maxFds).filter fun d => (t.slot d).opened = false) 0) ⟨true, false, b, fun _ => rfl⟩ }
  | close {d} (inside : d < t.maxFds) (file : (t.slot d).file = true) : Unlocked t (closeSlot t d)
  | setFd {d} (inside : d < t.maxFds) (file : (t.slot d).file = true) :
      Unlocked t { t with slot := Function.update t.slot d { t.slot d with cloexec := !(t.slot d).cloexec } }

def Installs (t t' : Table) : Prop :=
  ∃ d < t.maxFds, (t.slot d).opened = true ∧ (t.slot d).file = false ∧
    t' = { t with slot := Function.update t.slot d ⟨true, true, (t.slot d).cloexec, Slot.filed⟩ }

/-- The rest of the process: everything but fd_install() needs the lock. -/
def Others : Prop :=
  (s.pc = .alloc ∧ ∃ t, Unlocked cfg s.table t ∧ s' = { s with table := t }) ∨
    (s.pc ≠ .done ∧ ∃ t, Installs s.table t ∧ s' = { s with table := t })

def Next : Prop := Size cfg s s' ∨ Alloc s s' ∨ Copy cfg s s' ∨ Finish cfg s s' ∨ Others cfg s s'

end Steps

def spec (cfg : Config) : System State := ⟨Init cfg, Next cfg⟩

/-! ### What is checked when the copy is done -/

section Checked

variable (W : ℕ) (s : State)

/-- No file without an open bit, full_fds_bits exact. -/
def CloneOK : Prop :=
  (∀ d < s.clone.max, (s.clone.slots d).file = true → (s.clone.slots d).opened = true) ∧
    ∀ w < s.clone.max / W, s.clone.full w = true ↔ ∀ b ∈ wordBits W, (s.clone.slots (w * W + b)).opened = true

/-- Only descriptors that are carried over are referenced. -/
def NoRefOnDropped : Prop :=
  ∀ r, s.drop = some r → ∀ d ∈ s.clone.refs, ¬ Selected s.snap r s.flags d

/-- Every descriptor that was installed and not dropped when the copy was sized is in
the clone. -/
def KeptCopied : Prop :=
  ∀ d < s.snap.maxFds, (s.snap.slot d).file = true → ¬ DupFdDrops W s.snap d s.drop s.flags →
    d ∈ s.clone.refs ∧ d < s.clone.max ∧ (s.clone.slots d).file = true

def DroppedNotInClone : Prop :=
  ∀ d < s.clone.max, DupFdDrops W s.snap d s.drop s.flags → (s.clone.slots d).opened = false

def CopiedAreFiles : Prop :=
  ∀ d < s.clone.max, (s.clone.slots d).file = true → d < s.table.maxFds ∧ (s.table.slot d).file = true

end Checked

/-! ### What the others can do -/

section Others

variable {cfg : Config} {s s' : State} {t t' : Table} {W : ℕ}

/-- fd_install() only stores a file into a claimed slot. -/
structure Grows (t t' : Table) : Prop where
  maxFds : t'.maxFds = t.maxFds
  opened : ∀ d, (t'.slot d).opened = (t.slot d).opened
  cloexec : ∀ d, (t'.slot d).cloexec = (t.slot d).cloexec
  file : ∀ d, (t.slot d).file = true → (t'.slot d).file = true

theorem Installs.grows (installs : Installs t t') : Grows t t' := by
  obtain ⟨d, _, opened, _, rfl⟩ := installs
  have slot (e : ℕ) : e = d ∨ Function.update t.slot d ⟨true, true, (t.slot d).cloexec, Slot.filed⟩ e = t.slot e := by
    by_cases same : e = d
    · exact .inl same
    · exact .inr (Function.update_of_ne same ..)
  refine ⟨rfl, fun e => ?_, fun e => ?_, fun e file => ?_⟩
  all_goals
    dsimp only
    obtain rfl | same := slot e
  · rw [Function.update_self, opened]
  · rw [same]
  · rw [Function.update_self]
  · rw [same]
  · rw [Function.update_self]
  · rwa [same]

theorem Unlocked.maxFds (step : Unlocked cfg t t') :
    t'.maxFds = t.maxFds ∨ t.maxFds < cfg.W * cfg.nWords ∧ t'.maxFds = t.maxFds + cfg.W := by
  cases step with
  | grow room => exact .inr ⟨room, rfl⟩
  | opens | close | setFd => exact .inl rfl

theorem dupFdDrops_congr (positive : 0 < W) {d : ℕ} {r : Option FdRange} {f : Flags}
    (cloexec : (t'.slot d).cloexec = (t.slot d).cloexec) : DupFdDrops W t' d r f ↔ DupFdDrops W t d r f := by
  cases r with
  | none => exact iff_of_false not_dupFdDrops_none not_dupFdDrops_none
  | some r => rw [dupFdDrops_some positive, dupFdDrops_some positive, cloexec]

end Others

/-! ### How often a bigger table is allocated -/

section Sizing

variable {cfg : Config} {s s' : State}

/-- A whole number of words, at least one and at most what tables grow to. -/
def Fits (cfg : Config) (n : ℕ) : Prop := ∃ k, n = k * cfg.W ∧ 1 ≤ k ∧ k ≤ max 1 cfg.nWords

structure Sized (cfg : Config) (s : State) : Prop where
  table : Fits cfg s.table.maxFds
  cap : Fits cfg s.cap
  alloc : s.pc = .alloc → Fits cfg s.openFiles ∧ s.cap < s.openFiles

theorem fits_word : Fits cfg cfg.W := ⟨1, (Nat.one_mul _).symm, le_rfl, Nat.le_max_left ..⟩

theorem Fits.of_le {n k : ℕ} (positive : 0 < cfg.W) (fits : Fits cfg n) (whole : 1 ≤ k) (bound : k * cfg.W ≤ n) :
    Fits cfg (k * cfg.W) := by
  obtain ⟨m, rfl, _, upto⟩ := fits
  exact ⟨k, rfl, whole, (Nat.le_of_mul_le_mul_right bound positive).trans upto⟩

theorem Fits.unlocked {t t' : Table} (fits : Fits cfg t.maxFds) (step : Unlocked cfg t t') :
    Fits cfg t'.maxFds := by
  obtain same | ⟨room, more⟩ := step.maxFds
  · rwa [same]
  · obtain ⟨k, size, whole, upto⟩ := fits
    rw [size, Nat.mul_comm] at room
    have below : k < cfg.nWords := Nat.lt_of_mul_lt_mul_left room
    refine ⟨k + 1, ?_, by omega, by omega⟩
    rw [more, size, Nat.succ_mul]

theorem saneFdtableSizeNew_whole (W : ℕ) (t : Table) (r : Option FdRange) (f : Flags) :
    ∃ k, saneFdtableSizeNew W t r f = k * W ∧ 1 ≤ k := by
  unfold saneFdtableSizeNew
  dsimp only
  split
  · exact ⟨1, (Nat.one_mul W).symm, le_rfl⟩
  · exact ⟨_, rfl, Nat.succ_pos _⟩

theorem sized_new (series : cfg.dropInDupFd = true) (s : State) :
    s.sized cfg = saneFdtableSizeNew cfg.W s.table s.drop s.flags := by
  unfold State.sized saneFdtableSize
  rw [if_pos series]

theorem sized_le (positive : 0 < cfg.W) (series : cfg.dropInDupFd = true) (fits : Fits cfg s.table.maxFds) :
    s.sized cfg ≤ s.table.maxFds := by
  obtain ⟨k, size, whole, _⟩ := fits
  rw [sized_new series]
  exact saneFdtableSizeNew_le positive size whole s.drop s.flags

theorem Sized.fits (positive : 0 < cfg.W) (series : cfg.dropInDupFd = true) (sized : Sized cfg s) :
    Fits cfg (s.sized cfg) := by
  obtain ⟨k, size, whole⟩ := saneFdtableSizeNew_whole cfg.W s.table s.drop s.flags
  have bound := sized_le positive series sized.table
  rw [sized_new series, size] at bound ⊢
  exact sized.table.of_le positive whole bound

/-- The copy loop and what follows it leave the table and the sizes alone. -/
theorem copying_frame (step : Copy cfg s s' ∨ Finish cfg s s') :
    s'.table = s.table ∧ s'.cap = s.cap ∧ s'.pc ≠ .alloc := by
  obtain ⟨pc, rfl⟩ | ⟨_, rfl⟩ := step
  · split
    · exact ⟨rfl, rfl, Label.noConfusion⟩
    · split
      all_goals
        refine ⟨rfl, rfl, ?_⟩
        dsimp only
        rw [pc]
        exact Label.noConfusion
  · split
    · exact ⟨rfl, rfl, Label.noConfusion⟩
    · split
      all_goals exact ⟨rfl, rfl, Label.noConfusion⟩

theorem Sized.copying (sized : Sized cfg s) (step : Copy cfg s s' ∨ Finish cfg s s') : Sized cfg s' := by
  obtain ⟨table, cap, pc⟩ := copying_frame step
  refine ⟨?_, ?_, fun alloc => absurd alloc pc⟩
  · rw [table]
    exact sized.table
  · rw [cap]
    exact sized.cap

theorem Sized.step (positive : 0 < cfg.W) (series : cfg.dropInDupFd = true) (sized : Sized cfg s)
    (step : Next cfg s s') : Sized cfg s' := by
  obtain ⟨_, rfl⟩ | ⟨pc, rfl⟩ | copy | finish | others := step
  · split
    · case isTrue more => exact ⟨sized.table, sized.cap, fun _ => ⟨sized.fits positive series, more⟩⟩
    · exact ⟨sized.table, sized.cap, Label.noConfusion⟩
  · exact ⟨sized.table, (sized.alloc pc).1, Label.noConfusion⟩
  · exact sized.copying (.inl copy)
  · exact sized.copying (.inr finish)
  · obtain ⟨_, t, unlocked, rfl⟩ | ⟨_, t, installs, rfl⟩ := others
    · exact ⟨sized.table.unlocked unlocked, sized.cap, sized.alloc⟩
    · refine ⟨?_, sized.cap, sized.alloc⟩
      dsimp only
      rw [installs.grows.maxFds]
      exact sized.table

theorem sized (positive : 0 < cfg.W) (series : cfg.dropInDupFd = true) : (spec cfg).Invariant (Sized cfg) := by
  refine Lib.System.Invariant.of_step ?_ fun _ _ sized step => sized.step positive series step
  rintro s ⟨size, _, _, pc, cap, _⟩
  refine ⟨?_, ?_, fun other => ?_⟩
  · rw [size]
    exact fits_word
  · rw [cap]
    exact fits_word
  · rw [pc] at other
    cases other

/-- The words allocated beyond the first. -/
def State.grown (cfg : Config) (s : State) : ℕ := s.cap / cfg.W - 1

theorem grown_step (sized : Sized cfg s) (step : Next cfg s s') : s.grown cfg ≤ s'.grown cfg := by
  have same {c : ℕ} (cap : c = s.cap) : s.grown cfg ≤ c / cfg.W - 1 := by
    rw [cap]
    exact le_rfl
  obtain ⟨_, rfl⟩ | ⟨pc, rfl⟩ | copy | finish | ⟨_, t, _, rfl⟩ | ⟨_, t, _, rfl⟩ := step
  · exact same (by split <;> rfl)
  · have more := (sized.alloc pc).2
    exact Nat.sub_le_sub_right (Nat.div_le_div_right more.le) 1
  · exact same (copying_frame (.inl copy)).2.1
  · exact same (copying_frame (.inr finish)).2.1
  · exact le_rfl
  · exact le_rfl

theorem grown_alloc (positive : 0 < cfg.W) (sized : Sized cfg s) (step : Alloc s s') : s.grown cfg < s'.grown cfg := by
  obtain ⟨pc, rfl⟩ := step
  obtain ⟨⟨n, size, _, _⟩, more⟩ := sized.alloc pc
  obtain ⟨c, cap, whole, _⟩ := sized.cap
  unfold State.grown
  dsimp only
  rw [size, cap] at more
  have words : c < n := Nat.lt_of_mul_lt_mul_right more
  rw [size, cap, Nat.mul_div_cancel _ positive, Nat.mul_div_cancel _ positive]
  omega

theorem Sized.grown_le (positive : 0 < cfg.W) (sized : Sized cfg s) : s.grown cfg ≤ cfg.nWords - 1 := by
  obtain ⟨c, cap, _, upto⟩ := sized.cap
  unfold State.grown
  rw [cap, Nat.mul_div_cancel c positive]
  omega

theorem allocs_le (positive : 0 < cfg.W) (series : cfg.dropInDupFd = true) {length : ℕ} {states : ℕ → State}
    (run : (spec cfg).Run length states) : System.occurrences Alloc states length ≤ cfg.nWords - 1 := by
  have known := sized positive series
  have counted := run.occurrences_le (State.grown cfg) (fun s _ reached step => grown_step (known s reached) step)
    (fun s _ reached step => grown_alloc positive (known s reached) step) length le_rfl
  exact counted.trans ((known _ (run.reachable length le_rfl)).grown_le positive)

end Sizing

/-! ### The copy loop -/

section Copying

variable {cfg : Config} {s s' : State}

/-- What the copy has done with descriptor `d`. -/
def Passed (cfg : Config) (s : State) (d : ℕ) : Prop :=
  (d ∈ s.clone.refs ∧ ¬ DupFdDrops cfg.W s.snap d s.drop s.flags ∧ (s.clone.slots d).file = true ∧
      (s.table.slot d).file = true) ∨
    (d ∉ s.clone.refs ∧ (s.clone.slots d).opened = false ∧
      ((s.snap.slot d).file = true → DupFdDrops cfg.W s.snap d s.drop s.flags))

structure Copying (cfg : Config) (s : State) : Prop where
  table : Grows s.snap s.table
  max : s.clone.max = s.openFiles
  upto : s.openFiles ≤ s.table.maxFds
  reach : ∀ d < s.snap.maxFds, (s.snap.slot d).opened = true → ¬ DupFdDrops cfg.W s.snap d s.drop s.flags → d < s.openFiles
  at' : s.i ≤ s.openFiles
  behind : ∀ d < s.i, Passed cfg s d
  ahead : ∀ d, s.i ≤ d → d ∉ s.clone.refs ∧ (s.clone.slots d).opened = (s.snap.slot d).opened
  full : ∀ w, s.clone.full w = true ↔ ∀ b ∈ wordBits cfg.W, (s.clone.slots (w * cfg.W + b)).opened = true

theorem openBits_full {W : ℕ} {t : Table} {w : ℕ} :
    openBits W t w = wordBits W ↔ ∀ b ∈ wordBits W, (t.slot (w * W + b)).opened = true :=
  Finset.filter_eq_self

/-- The copy is sized on the table as it is, and reaches what it keeps. -/
theorem Copying.start (positive : 0 < cfg.W) (series : cfg.dropInDupFd = true) (sized : Sized cfg s) :
    Copying cfg { s with
      openFiles := s.sized cfg
      pc := .copy
      snap := s.table
      clone := copyFdBitmaps cfg.W (s.sized cfg) s.table
      i := 0 } := by
  refine ⟨⟨rfl, fun _ => rfl, fun _ => rfl, fun _ => id⟩, rfl, sized_le positive series sized.table, ?_,
    Nat.zero_le _, fun _ none => absurd none (Nat.not_lt_zero _), fun d _ => ⟨Finset.notMem_empty d, rfl⟩, fun w => ?_⟩
  · obtain ⟨k, size, _⟩ := sized.table
    intro d inside opened carried
    dsimp only at carried ⊢
    rw [sized_new series]
    exact lt_saneFdtableSizeNew positive size inside opened carried
  · exact decide_eq_true_iff.trans openBits_full

theorem Passed.congr {d : ℕ} {i : ℕ} {c : Clone} (passed : Passed cfg s d) (slot : c.slots d = s.clone.slots d)
    (refs : d ∈ c.refs ↔ d ∈ s.clone.refs) : Passed cfg { s with i := i, clone := c } d := by
  unfold Passed at passed ⊢
  dsimp only
  rw [slot, refs]
  exact passed

/-- A file that was installed before or after the sizing is copied. -/
theorem Copying.carried (positive : 0 < cfg.W) (copying : Copying cfg s) (more : s.i < s.openFiles)
    (keeps : Keeps cfg.W true s.table s.i s.drop s.flags) :
    Copying cfg { s with i := s.i + 1, clone := s.carried } := by
  obtain ⟨file, kept⟩ := keeps
  have other {d : ℕ} (apart : d ≠ s.i) : s.carried.slots d = s.clone.slots d := Function.update_of_ne apart ..
  have here : s.carried.slots s.i = copySlot (s.table.slot s.i) true := Function.update_self ..
  have opened (d : ℕ) : (s.carried.slots d).opened = (s.clone.slots d).opened := by
    by_cases same : d = s.i
    · have claimed := (copying.ahead s.i le_rfl).2
      rw [same, here, claimed, ← copying.table.opened, (s.table.slot s.i).installed file]
      rfl
    · rw [other same]
  have refs {d : ℕ} (apart : d ≠ s.i) : d ∈ s.carried.refs ↔ d ∈ s.clone.refs :=
    ⟨fun inside => Finset.mem_of_mem_insert_of_ne inside apart, Finset.mem_insert_of_mem⟩
  refine ⟨copying.table, copying.max, copying.upto, copying.reach, more, ?_, ?_, ?_⟩
  · intro d before
    obtain earlier | same := Nat.lt_succ_iff_lt_or_eq.mp before
    · exact (copying.behind d earlier).congr (other earlier.ne) (refs earlier.ne)
    · refine .inl ⟨?_, ?_, ?_, ?_⟩
      · rw [same]
        exact Finset.mem_insert_self ..
      · rw [same]
        exact fun drops => kept rfl ((dupFdDrops_congr positive (copying.table.cloexec s.i)).mpr drops)
      · dsimp only
        rw [same, here]
        rfl
      · rw [same]
        exact file
  · intro d after
    obtain ⟨absent, claimed⟩ := copying.ahead d (Nat.le_of_succ_le after)
    have apart : d ≠ s.i := by
      rintro rfl
      exact absurd after (Nat.not_succ_le_self _)
    exact ⟨fun inside => absent ((refs apart).mp inside), (opened d).trans claimed⟩
  · intro w
    dsimp only
    simp only [opened]
    exact copying.full w

/-- What is left behind loses its open bit, and its word is full no more. -/
theorem Copying.cleared (positive : 0 < cfg.W) (copying : Copying cfg s) (more : s.i < s.openFiles)
    (left : ¬ Keeps cfg.W true s.table s.i s.drop s.flags) :
    Copying cfg { s with i := s.i + 1, clone := s.cleared cfg } := by
  have other {d : ℕ} (apart : d ≠ s.i) : (s.cleared cfg).slots d = s.clone.slots d := Function.update_of_ne apart ..
  have here : ((s.cleared cfg).slots s.i).opened = false := by
    unfold State.cleared
    dsimp only
    rw [Function.update_self]
    rfl
  refine ⟨copying.table, copying.max, copying.upto, copying.reach, more, ?_, ?_, ?_⟩
  · intro d before
    obtain earlier | same := Nat.lt_succ_iff_lt_or_eq.mp before
    · exact (copying.behind d earlier).congr (other earlier.ne) Iff.rfl
    · rw [same]
      refine .inr ⟨(copying.ahead s.i le_rfl).1, here, fun file => ?_⟩
      by_contra kept
      refine left ⟨copying.table.file s.i file, fun _ drops => kept ?_⟩
      exact (dupFdDrops_congr positive (copying.table.cloexec s.i)).mp drops
  · intro d after
    obtain ⟨absent, claimed⟩ := copying.ahead d (Nat.le_of_succ_le after)
    have apart : d ≠ s.i := by
      rintro rfl
      exact absurd after (Nat.not_succ_le_self _)
    exact ⟨absent, by rw [← claimed, ← other apart]⟩
  · intro w
    have back : s.i / cfg.W * cfg.W + s.i % cfg.W = s.i := Nat.div_add_mod' s.i cfg.W
    by_cases word : w = s.i / cfg.W
    · have cleared : (s.cleared cfg).full w = false := by
        rw [word]
        exact Function.update_self ..
      refine iff_of_false (fun full => Bool.noConfusion (cleared.symm.trans full)) fun all => ?_
      have open' := all (s.i % cfg.W) (Finset.mem_range.mpr (Nat.mod_lt _ positive))
      rw [word, back] at open'
      exact Bool.noConfusion (here.symm.trans open')
    · have kept : (s.cleared cfg).full w = s.clone.full w := Function.update_of_ne word ..
      have slots (b : ℕ) (bit : b ∈ wordBits cfg.W) : w * cfg.W + b ≠ s.i := by
        intro same
        apply word
        rw [← same, Nat.add_comm, Nat.add_mul_div_right b w positive, Nat.div_eq_of_lt (Finset.mem_range.mp bit),
          Nat.zero_add]
      dsimp only
      rw [kept, copying.full w]
      exact forall₂_congr fun b bit => by rw [other (slots b bit)]

theorem Copying.installs (copying : Copying cfg s) {t : Table} (grows : Grows s.table t) :
    Copying cfg { s with table := t } := by
  obtain ⟨table, max, upto, reach, at', behind, ahead, full⟩ := copying
  refine ⟨⟨grows.maxFds.trans table.maxFds, fun d => (grows.opened d).trans (table.opened d),
    fun d => (grows.cloexec d).trans (table.cloexec d), fun d file => grows.file d (table.file d file)⟩,
    max, upto.trans grows.maxFds.ge, reach, at', fun d before => ?_, ahead, full⟩
  obtain ⟨inside, kept, copied, file⟩ | left := behind d before
  · exact .inl ⟨inside, kept, copied, grows.file d file⟩
  · exact .inr left

/-- Marking the clone changes neither open bits nor files. -/
theorem Copying.marked (copying : Copying cfg s) {slots : ℕ → Slot}
    (opened : ∀ d, (slots d).opened = (s.clone.slots d).opened) (file : ∀ d, (slots d).file = (s.clone.slots d).file) :
    Copying cfg { s with pc := .done, clone := { s.clone with slots := slots } } := by
  refine ⟨copying.table, copying.max, copying.upto, copying.reach, copying.at', fun d before => ?_, fun d after => ?_,
    fun w => ?_⟩
  · obtain ⟨inside, kept, copied, installed⟩ | ⟨outside, closed, dropped⟩ := copying.behind d before
    · exact .inl ⟨inside, kept, (file d).trans copied, installed⟩
    · exact .inr ⟨outside, (opened d).trans closed, dropped⟩
  · obtain ⟨absent, claimed⟩ := copying.ahead d after
    exact ⟨absent, (opened d).trans claimed⟩
  · dsimp only
    simp only [opened]
    exact copying.full w

/-- The invariant of the steps after the sizing. -/
structure Copied (cfg : Config) (s : State) : Prop where
  copying : s.pc = .copy ∨ s.pc = .finish ∨ s.pc = .done → Copying cfg s
  ended : s.pc = .finish ∨ s.pc = .done → s.i = s.openFiles

theorem rangeCloexec_bits (t : Table) (r : FdRange) (f : Flags) (d : ℕ) :
    ((rangeCloexec t r f).slot d).opened = (t.slot d).opened ∧ ((rangeCloexec t r f).slot d).file = (t.slot d).file := by
  have file (marked : Prop) [Decidable marked] : (if marked then (t.slot d).mark else t.slot d).file = (t.slot d).file := by
    split <;> rfl
  exact ⟨Slot.marked_opened .., file _⟩

theorem Copied.step (positive : 0 < cfg.W) (series : cfg.dropInDupFd = true) (sized : Sized cfg s)
    (copied : Copied cfg s) (step : Next cfg s s') : Copied cfg s' := by
  have idle {s' : State} (pc : s'.pc = .size ∨ s'.pc = .alloc) : Copied cfg s' := by
    constructor
    · obtain here | here := pc <;> rw [here] <;> exact fun busy => by obtain busy | busy | busy := busy <;> cases busy
    · obtain here | here := pc <;> rw [here] <;> exact fun busy => by obtain busy | busy := busy <;> cases busy
  obtain ⟨pc, rfl⟩ | ⟨pc, rfl⟩ | ⟨pc, rfl⟩ | ⟨pc, rfl⟩ | ⟨pc, t, _, rfl⟩ | ⟨_, t, installs, rfl⟩ := step
  · split
    · exact idle (.inr rfl)
    · exact ⟨fun _ => Copying.start positive series sized, fun busy => by obtain busy | busy := busy <;> cases busy⟩
  · exact idle (.inl rfl)
  · have copying := copied.copying (.inl pc)
    split
    · case isTrue ended =>
      obtain ⟨table, max, upto, reach, at', behind, ahead, full⟩ := copying
      exact ⟨fun _ => ⟨table, max, upto, reach, at', behind, ahead, full⟩, fun _ => ended⟩
    · case isFalse open' =>
      have more : s.i < s.openFiles := Nat.lt_of_le_of_ne copying.at' open'
      rw [series]
      split
      · case isTrue keeps =>
        exact ⟨fun _ => copying.carried positive more keeps, fun busy => by
          dsimp only at busy
          rw [pc] at busy
          obtain busy | busy := busy <;> cases busy⟩
      · case isFalse left =>
        exact ⟨fun _ => copying.cleared positive more left, fun busy => by
          dsimp only at busy
          rw [pc] at busy
          obtain busy | busy := busy <;> cases busy⟩
  · have copying := copied.copying (.inr (.inl pc))
    have ended := copied.ended (.inl pc)
    rw [if_pos series]
    split
    · refine ⟨fun _ => copying.marked (fun d => ?_) fun d => ?_, fun _ => ended⟩
      · exact (rangeCloexec_bits s.clone.table s.range s.flags d).1
      · exact (rangeCloexec_bits s.clone.table s.range s.flags d).2
    · exact ⟨fun _ => copying.marked (fun _ => rfl) fun _ => rfl, fun _ => ended⟩
  · exact idle (.inr pc)
  · exact ⟨fun busy => (copied.copying busy).installs installs.grows, copied.ended⟩

theorem copied (positive : 0 < cfg.W) (series : cfg.dropInDupFd = true) : (spec cfg).Invariant (Copied cfg) := by
  refine (sized positive series).relative ?_ fun _ _ sized _ copied step => copied.step positive series sized step
  rintro s ⟨_, _, _, pc, _⟩
  constructor
  · rw [pc]
    intro busy
    obtain busy | busy | busy := busy <;> cases busy
  · rw [pc]
    intro busy
    obtain busy | busy := busy <;> cases busy

end Copying

/-! ### The claimed slots, the files and the references of the clone -/

section Done

variable {cfg : Config} {s : State}

theorem Copying.passed (copying : Copying cfg s) (ended : s.i = s.openFiles) {d : ℕ} (inside : d < s.clone.max) :
    Passed cfg s d := by
  apply copying.behind
  rwa [ended, ← copying.max]

theorem Copying.refs (copying : Copying cfg s) {d : ℕ} (taken : d ∈ s.clone.refs) :
    ¬ DupFdDrops cfg.W s.snap d s.drop s.flags := by
  obtain before | after := Nat.lt_or_ge d s.i
  · obtain ⟨_, kept, _⟩ | ⟨outside, _⟩ := copying.behind d before
    · exact kept
    · exact absurd taken outside
  · exact absurd taken (copying.ahead d after).1

theorem Copying.noRefOnDropped (positive : 0 < cfg.W) (copying : Copying cfg s) : NoRefOnDropped s := by
  intro r drop d taken selected
  have kept := copying.refs taken
  rw [drop, dupFdDrops_some positive] at kept
  exact kept selected.2

theorem Copying.keptCopied (copying : Copying cfg s) (ended : s.i = s.openFiles) : KeptCopied cfg.W s := by
  intro d inside file kept
  have reached := copying.reach d inside ((s.snap.slot d).installed file) kept
  have within : d < s.clone.max := by rwa [copying.max]
  obtain ⟨taken, _, copied, _⟩ | ⟨_, _, dropped⟩ := copying.passed ended within
  · exact ⟨taken, within, copied⟩
  · exact absurd (dropped file) kept

theorem Copying.droppedNotInClone (copying : Copying cfg s) (ended : s.i = s.openFiles) : DroppedNotInClone cfg.W s := by
  intro d inside drops
  obtain ⟨_, kept, _⟩ | ⟨_, closed, _⟩ := copying.passed ended inside
  · exact absurd drops kept
  · exact closed

theorem Copying.copiedAreFiles (copying : Copying cfg s) (ended : s.i = s.openFiles) : CopiedAreFiles s := by
  intro d inside file
  obtain ⟨_, _, _, installed⟩ | ⟨_, closed, _⟩ := copying.passed ended inside
  · refine ⟨Nat.lt_of_lt_of_le ?_ copying.upto, installed⟩
    rwa [← copying.max]
  · exact Bool.noConfusion (closed.symm.trans ((s.clone.slots d).installed file))

/-- dup_fd() allocates at most once for every word beyond the first, and its clone is
consistent with the table it was sized on. -/
theorem dup_fd_safe (cfg : Config) (positive : 1 ≤ cfg.W) (series : cfg.dropInDupFd = true) :
    (∀ length states, (spec cfg).Run length states → System.occurrences Alloc states length ≤ cfg.nWords - 1) ∧
      (spec cfg).Invariant fun s => s.pc = .done →
        CloneOK cfg.W s ∧ KeptCopied cfg.W s ∧ DroppedNotInClone cfg.W s ∧ CopiedAreFiles s ∧ NoRefOnDropped s := by
  refine ⟨fun length states run => allocs_le positive series run, ?_⟩
  refine (copied positive series).mono fun s copied done => ?_
  have copying := copied.copying (.inr (.inr done))
  have ended := copied.ended (.inr done)
  exact ⟨⟨fun d _ => (s.clone.slots d).installed, fun w _ => copying.full w⟩, copying.keptCopied ended,
    copying.droppedNotInClone ended, copying.copiedAreFiles ended, copying.noRefOnDropped positive⟩

end Done

section Small

/-- One word of three descriptors. -/
def small : Config := ⟨3, 1, 9, true, fun f => f.Valid ∧ f.unshare = true⟩

def smallTable : Table :=
  ⟨3, fun d => if d = 1 then ⟨true, false, false, Slot.bare⟩ else ⟨true, true, false, Slot.filed⟩⟩

/-- Descriptor `1` is claimed, the others are installed; `0` is the range to leave behind. -/
def smallOpen : State where
  table := smallTable
  range := ⟨0, 0, le_rfl⟩
  flags := ⟨true, false, false, false⟩
  pc := .size
  cap := 3
  openFiles := 0
  snap := smallTable
  i := 0
  clone := ⟨0, fun _ => Free, fun _ => false, ∅⟩

theorem smallOpen_init : Init small smallOpen :=
  ⟨rfl, ⟨.inl (by decide), .inl (by decide)⟩, ⟨fun both => Bool.noConfusion both.1, rfl⟩, rfl, rfl, rfl, rfl, rfl, rfl⟩

/-- Descriptor `1` gets its file when the copy has passed `0`. -/
theorem small_copied : ∃ s, (spec small).Reachable s ∧ s.pc = .done ∧ (s.snap.slot 1).file = false ∧
    (s.snap.slot 2).file = true ∧ s.drop = some ⟨0, 0, le_rfl⟩ ∧ s.clone.refs = {1, 2} := by
  have copy {s s' : State} (run : (spec small).Reachable s) (step : Copy small s s') : (spec small).Reachable s' :=
    run.next (.inr (.inr (.inl step)))
  have run : (spec small).Reachable smallOpen := .init smallOpen_init
  have run := run.next (.inl ⟨rfl, (if_neg (by decide)).symm⟩)
  have run := copy run ⟨rfl, ((if_neg (by decide)).trans (if_neg (by decide))).symm⟩
  have run := run.next (.inr (.inr (.inr (.inr (.inr ⟨by decide, _, ⟨1, by decide, rfl, rfl, rfl⟩, rfl⟩)))))
  have run := copy run ⟨rfl, ((if_neg (by decide)).trans (if_pos (by decide))).symm⟩
  have run := copy run ⟨rfl, ((if_neg (by decide)).trans (if_pos (by decide))).symm⟩
  have run := copy run ⟨rfl, (if_pos (by decide)).symm⟩
  have run := run.next (.inr (.inr (.inr (.inl ⟨rfl, ((if_neg (by decide)).trans (if_pos rfl)).symm⟩))))
  exact ⟨_, run, rfl, rfl, rfl, rfl, by decide⟩

theorem small_clone_ok : ∃ s, s.pc = .done ∧ (s.snap.slot 1).file = false ∧ (s.snap.slot 2).file = true ∧
    s.clone.refs = {1, 2} ∧ CloneOK 3 s ∧ KeptCopied 3 s ∧ DroppedNotInClone 3 s ∧ CopiedAreFiles s ∧ NoRefOnDropped s := by
  obtain ⟨s, reached, done, claimed, file, -, refs⟩ := small_copied
  exact ⟨s, done, claimed, file, refs, (dup_fd_safe small (by decide) rfl).2 s reached done⟩

end Small

end LinuxTla.FdTable.DupRace
