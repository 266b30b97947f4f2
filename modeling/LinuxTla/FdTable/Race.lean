import LinuxTla.FdTable.CloseRange
import LinuxTla.Lib.Fairness

/-! `RangeCloseRace.tla`: `__range_close()` in place while other threads open,
install, close and re-flag descriptors of the shared table. -/

namespace LinuxTla.FdTable.Race

open Lib

/-- `fixHop` false takes the hop out of next_fd_to_close(); `inf` stands for ~0U. -/
structure Config where
  W : ℕ
  nWords : ℕ
  inf : ℕ
  fixHop : Bool

inductive Label
  | start | scan | closing | done
deriving DecidableEq, Repr

structure State where
  table : Table
  range : FdRange
  flags : Flags
  pc : Label
  cur : ℕ
  maxFd : ℕ
  ok : Bool

def LoopFlags (f : Flags) : Prop := f.Valid ∧ f.unshare = false ∧ f.cloexec = false

def RangesUpTo (inf m : ℕ) (r : FdRange) : Prop :=
  (r.fromFd ≤ m ∨ r.fromFd = inf) ∧ (r.toFd ≤ m ∨ r.toFd = inf)

def nextToClose (cfg : Config) (t : Table) (fd0 m : ℕ) (r : FdRange) (f : Flags) : ℕ :=
  if cfg.fixHop = true then nextFdToClose t fd0 m r f else nextOpenFd t fd0 m f

section Steps

variable (cfg : Config) (s s' : State)

def Init : Prop :=
  s.table.maxFds = cfg.W ∧ RangesUpTo cfg.inf (cfg.W * cfg.nWords) s.range ∧ LoopFlags s.flags ∧
    s.pc = .start ∧ s.cur = 0 ∧ s.maxFd = 0 ∧ s.ok = true

/-- The bounds, computed once under the lock. -/
def Start : Prop :=
  s.pc = .start ∧
    s' = { s with
      cur := if s.flags.except = true then 0 else s.range.fromFd
      maxFd := if s.flags.except = true then lastFd s.table else min s.range.toFd (lastFd s.table)
      pc := .scan }

/-- The descriptor a scan stops at. -/
def State.fd : ℕ := nextToClose cfg s.table s.cur s.maxFd s.range s.flags

/-- One iteration under the lock: find the next descriptor and take it out of the
table. A claimed slot is passed by. -/
def Scan : Prop :=
  s.pc = .scan ∧
    s' = if s.fd cfg > s.maxFd then { s with pc := .done }
      else if (s.table.slot (s.fd cfg)).file = true then
        { s with
          table := closeSlot s.table (s.fd cfg)
          ok := s.ok && decide (Selected s.table s.range s.flags (s.fd cfg))
          cur := s.fd cfg + 1
          pc := .closing }
      else { s with cur := s.fd cfg + 1 }

def FilpClose : Prop := s.pc = .closing ∧ s' = { s with pc := .scan }

/-- expand_fdtable(). -/
def Grow : Prop :=
  s.table.maxFds < cfg.W * cfg.nWords ∧
    s' = { s with table :=
      { maxFds := s.table.maxFds + cfg.W
        slot := fun d => if d < s.table.maxFds then s.table.slot d else Free } }

/-- alloc_fd(): the lowest free slot, close-on-exec or not. -/
def Open : Prop :=
  ∃ b : Bool,
    let free := (Finset.range s.table.maxFds).filter fun d => (s.table.slot d).opened = false
    free ≠ ∅ ∧
      s' = { s with table := { s.table with
        slot := Function.update s.table.slot (least free 0) ⟨true, false, b, fun _ => rfl⟩ } }

def Install : Prop :=
  ∃ d < s.table.maxFds, (s.table.slot d).opened = true ∧ (s.table.slot d).file = false ∧
    s' = { s with table := { s.table with
      slot := Function.update s.table.slot d ⟨true, true, (s.table.slot d).cloexec, Slot.filed⟩ } }

def Close : Prop :=
  ∃ d < s.table.maxFds, (s.table.slot d).file = true ∧ s' = { s with table := closeSlot s.table d }

/-- fcntl(F_SETFD). -/
def SetFd : Prop :=
  ∃ d < s.table.maxFds, (s.table.slot d).file = true ∧
    s' = { s with table := { s.table with
      slot := Function.update s.table.slot d { s.table.slot d with cloexec := !(s.table.slot d).cloexec } } }

def Others : Prop := Grow cfg s s' ∨ Open s s' ∨ Install s s' ∨ Close s s' ∨ SetFd s s'

def Next : Prop := Start s s' ∨ Scan cfg s s' ∨ FilpClose s s' ∨ Others cfg s s'

end Steps

def spec (cfg : Config) : System State := ⟨Init cfg, Next cfg⟩

/-! ### What the others can do -/

/-- The other threads touch nothing but the table, which never shrinks. -/
theorem Others.frame {cfg : Config} {s s' : State} (others : Others cfg s s') :
    s' = { s with table := s'.table } ∧ s.table.maxFds ≤ s'.table.maxFds := by
  obtain ⟨-, rfl⟩ | ⟨_, -, rfl⟩ | ⟨_, -, -, -, rfl⟩ | ⟨_, -, -, rfl⟩ | ⟨_, -, -, rfl⟩ := others
  · exact ⟨rfl, Nat.le_add_right ..⟩
  all_goals exact ⟨rfl, Nat.le_refl _⟩

/-- The loop is under way. -/
def State.Walking (s : State) : Prop := s.pc = .scan ∨ s.pc = .closing

/-- A scan ends the walk, closes a wanted descriptor or passes a claimed slot. -/
theorem Scan.cases {cfg : Config} {s s' : State} (hop : cfg.fixHop = true) (scan : Scan cfg s s') :
    s.pc = .scan ∧
      ((s' = { s with pc := .done } ∧
          ∀ d, s.cur ≤ d → d ≤ s.maxFd → ¬ Wanted s.table s.range s.flags d) ∨
        ∃ fd, (s.cur ≤ fd ∧ fd ≤ s.maxFd) ∧ Wanted s.table s.range s.flags fd ∧
          (∀ d, s.cur ≤ d → d < fd → ¬ Wanted s.table s.range s.flags d) ∧
          (((s.table.slot fd).file = true ∧
            s' = { s with
              table := closeSlot s.table fd
              ok := s.ok && decide (Selected s.table s.range s.flags fd)
              cur := fd + 1
              pc := .closing }) ∨
            (s.table.slot fd).file = false ∧ s' = { s with cur := fd + 1 })) := by
  obtain ⟨here, result⟩ := scan
  have walk : s.fd cfg = nextFdToClose s.table s.cur s.maxFd s.range s.flags := if_pos hop
  rw [walk] at result
  refine ⟨here, ?_⟩
  obtain ⟨ended, none⟩ | ⟨⟨low, high, wanted⟩, skipped⟩ :=
    nextFdToClose_spec s.table s.cur s.maxFd s.range s.flags
  · rw [if_pos (by omega)] at result
    exact .inl ⟨result, none⟩
  · rw [if_neg (by omega)] at result
    refine .inr ⟨_, ⟨low, high⟩, wanted, skipped, ?_⟩
    split at result
    next file => exact .inl ⟨file, result⟩
    next claimed => exact .inr ⟨Bool.eq_false_iff.2 claimed, result⟩

/-! ### What the walk keeps -/

/-- While the loop is under way its bound stays inside the table, and without
CLOSE_RANGE_EXCEPT the walk stays inside the range. -/
structure Bounds (s : State) : Prop where
  room : 0 < s.table.maxFds
  inside : s.Walking → s.maxFd < s.table.maxFds
  window : s.Walking → s.flags.except = false → s.range.fromFd ≤ s.cur ∧ s.maxFd ≤ s.range.toFd
  selected : s.ok = true

theorem Bounds.start {s s' : State} (bounds : Bounds s) (step : Start s s') : Bounds s' := by
  obtain ⟨-, rfl⟩ := step
  have room := bounds.room
  refine ⟨room, fun _ => ?_, fun _ plain => ?_, bounds.selected⟩
  · simp only
    unfold lastFd
    split <;> omega
  · have plain : s.flags.except = false := plain
    simp only [plain, Bool.false_eq_true, if_false]
    omega

theorem Bounds.scan {cfg : Config} {s s' : State} (hop : cfg.fixHop = true) (bounds : Bounds s)
    (step : Scan cfg s s') : Bounds s' := by
  obtain ⟨here, ⟨rfl, -⟩ | ⟨fd, ⟨low, high⟩, wanted, -, moved⟩⟩ := Scan.cases hop step
  · exact ⟨bounds.room, nofun, nofun, bounds.selected⟩
  have walking : s.Walking := .inl here
  have window (plain : s.flags.except = false) : s.range.fromFd ≤ fd + 1 ∧ s.maxFd ≤ s.range.toFd := by
    have := bounds.window walking plain
    omega
  obtain ⟨-, rfl⟩ | ⟨-, rfl⟩ := moved
  · have chosen : Selected s.table s.range s.flags fd := by
      refine selected_iff_wanted.2 ⟨wanted, fun plain => ?_⟩
      have := bounds.window walking plain
      exact ⟨by omega, by omega⟩
    refine ⟨bounds.room, fun _ => bounds.inside walking, fun _ => window, ?_⟩
    rw [Bool.and_eq_true]
    exact ⟨bounds.selected, decide_eq_true chosen⟩
  · exact ⟨bounds.room, fun _ => bounds.inside walking, fun _ => window, bounds.selected⟩

theorem Bounds.others {cfg : Config} {s s' : State} (bounds : Bounds s) (step : Others cfg s s') :
    Bounds s' := by
  obtain ⟨frame, larger⟩ := step.frame
  generalize s'.table = table at frame larger
  subst frame
  exact ⟨Nat.lt_of_lt_of_le bounds.room larger,
    fun walking => Nat.lt_of_lt_of_le (bounds.inside walking) larger, bounds.window, bounds.selected⟩

theorem bounds_invariant {cfg : Config} (word : 1 ≤ cfg.W) (hop : cfg.fixHop = true) :
    (spec cfg).Invariant Bounds := by
  refine System.Invariant.of_step ?_ ?_
  · intro s init
    obtain ⟨size, -, -, pc, -, -, ok⟩ := init
    have idle : ¬ s.Walking := by
      unfold State.Walking
      rw [pc]
      exact nofun
    exact ⟨size ▸ word, fun walking => absurd walking idle, fun walking => absurd walking idle, ok⟩
  · intro s s' bounds step
    obtain start | scan | ⟨here, rfl⟩ | others := step
    · exact bounds.start start
    · exact bounds.scan hop scan
    · have walking : s.Walking := .inr here
      exact ⟨bounds.room, fun _ => bounds.inside walking, fun _ => bounds.window walking, bounds.selected⟩
    · exact bounds.others others

/-! ### Every scan advances -/

/-- How far the walk has come; one more when it is over. -/
def State.progress (s : State) : ℕ :=
  match s.pc with
  | .start => 0
  | .scan | .closing => min s.cur (s.maxFd + 1)
  | .done => s.maxFd + 2

theorem progress_le (s : State) : s.progress ≤ s.maxFd + 2 := by
  unfold State.progress
  split <;> omega

theorem progress_scan {cfg : Config} {s s' : State} (hop : cfg.fixHop = true) (step : Scan cfg s s') :
    s.progress < s'.progress ∧ s'.maxFd = s.maxFd := by
  obtain ⟨here, ⟨rfl, -⟩ | ⟨fd, ⟨low, high⟩, -, -, ⟨-, rfl⟩ | ⟨-, rfl⟩⟩⟩ := Scan.cases hop step
  all_goals
    refine ⟨?_, rfl⟩
    unfold State.progress
    simp only [here]
    omega

theorem progress_step {cfg : Config} {s s' : State} (hop : cfg.fixHop = true) (step : Next cfg s s') :
    s.progress ≤ s'.progress := by
  obtain ⟨here, rfl⟩ | scan | ⟨here, rfl⟩ | others := step
  · unfold State.progress
    simp only [here, Nat.zero_le]
  · exact (progress_scan hop scan).1.le
  · unfold State.progress
    simp only [here, Nat.le_refl]
  · rw [others.frame.1]
    exact Nat.le_refl _

/-! ### The loop ends -/

/-- `WF_vars` of the loop's own actions. -/
structure Fair (cfg : Config) (states : ℕ → State) : Prop where
  start : System.WeaklyFair Start states
  scan : System.WeaklyFair (Scan cfg) states
  filpClose : System.WeaklyFair FilpClose states

/-- The loop's own action at a label. -/
def Own (cfg : Config) : Label → State → State → Prop
  | .start => Start
  | .scan => Scan cfg
  | .closing => FilpClose
  | .done => fun _ _ => False

theorem own_enabled {cfg : Config} (s : State) (busy : s.pc ≠ .done) : ∃ s', Own cfg s.pc s s' := by
  cases here : s.pc with
  | start => exact ⟨_, here, rfl⟩
  | scan => exact ⟨_, here, rfl⟩
  | closing => exact ⟨_, here, rfl⟩
  | done => exact absurd here busy

/-- The loop waits at its label until it takes its own step. -/
theorem own_or_waits {cfg : Config} {s s' : State} (step : Next cfg s s') :
    Own cfg s.pc s s' ∨ s'.pc = s.pc := by
  obtain start | scan | close | others := step
  · refine .inl ?_
    rw [start.1]
    exact start
  · refine .inl ?_
    rw [scan.1]
    exact scan
  · refine .inl ?_
    rw [close.1]
    exact close
  · rw [others.frame.1]
    exact .inr rfl

/-- Past its start the walk keeps its bound and never falls back. -/
theorem advances {cfg : Config} (hop : cfg.fixHop = true) {bound passed : ℕ} (s s' : State)
    (past : s.pc ≠ .start ∧ s.maxFd = bound ∧ passed ≤ s.progress) (step : Next cfg s s') :
    s'.pc ≠ .start ∧ s'.maxFd = bound ∧ passed ≤ s'.progress := by
  obtain ⟨moved, same, reached⟩ := past
  have grows := progress_step hop step
  have kept : s'.pc ≠ .start ∧ s'.maxFd = s.maxFd := by
    obtain ⟨here, -⟩ | scan | ⟨here, rfl⟩ | others := step
    · exact absurd here moved
    · obtain ⟨here, ⟨rfl, -⟩ | ⟨fd, -, -, -, ⟨-, rfl⟩ | ⟨-, rfl⟩⟩⟩ := Scan.cases hop scan
      · exact ⟨nofun, rfl⟩
      · exact ⟨nofun, rfl⟩
      · exact ⟨moved, rfl⟩
    · exact ⟨nofun, rfl⟩
    · rw [others.frame.1]
      exact ⟨moved, rfl⟩
  exact ⟨kept.1, kept.2.trans same, reached.trans grows⟩

section Ends

variable {cfg : Config} {states : ℕ → State}

theorem Fair.taken (fair : Fair cfg states) (behaviour : (spec cfg).Behaviour states) {n : ℕ}
    {label : Label} (here : (states n).pc = label) (busy : label ≠ .done) :
    ∃ m, n ≤ m ∧ (states m).pc = label ∧ Own cfg label (states m) (states (m + 1)) := by
  have weakly : System.WeaklyFair (Own cfg label) states := by
    cases label with
    | start => exact fair.start
    | scan => exact fair.scan
    | closing => exact fair.filpClose
    | done => exact absurd rfl busy
  refine behaviour.taken weakly (fun s => s.pc = label) ?_ ?_ here
  · rintro s rfl
    exact own_enabled s busy
  · rintro s s' rfl step
    exact own_or_waits step

theorem ends_from_scan (hop : cfg.fixHop = true) (fair : Fair cfg states)
    (behaviour : (spec cfg).Behaviour states) (left : ℕ) :
    ∀ n, (states n).pc = .scan → (states n).maxFd + 2 - (states n).progress ≤ left →
      ∃ m, (states m).pc = .done := by
  induction left with
  | zero =>
    intro n here room
    have : (states n).progress ≤ (states n).maxFd + 1 := by
      unfold State.progress
      rw [here]
      exact Nat.min_le_right ..
    omega
  | succ left ih =>
    intro n here room
    obtain ⟨m, later, at_scan, scan⟩ := fair.taken behaviour here nofun
    obtain ⟨-, same, passed⟩ := behaviour.stays (advances hop) later
      ⟨by rw [here]; exact nofun, rfl, Nat.le_refl (states n).progress⟩
    obtain ⟨further, kept⟩ := progress_scan hop scan
    have shorter {k : ℕ} (past : (states k).pc ≠ .start ∧ (states k).maxFd = (states (m + 1)).maxFd ∧
        (states (m + 1)).progress ≤ (states k).progress) :
        (states k).maxFd + 2 - (states k).progress ≤ left := by
      have := progress_le (states (m + 1))
      omega
    obtain ⟨-, ⟨ended, -⟩ | ⟨fd, -, -, -, ⟨-, closes⟩ | ⟨-, claimed⟩⟩⟩ := Scan.cases hop scan
    · exact ⟨m + 1, by rw [ended]⟩
    · have closing : (states (m + 1)).pc = .closing := by rw [closes]
      obtain ⟨k, after, -, close⟩ := fair.taken behaviour closing nofun
      have past := behaviour.stays (advances hop) (after.trans (Nat.le_succ k))
        ⟨by rw [closing]; exact nofun, rfl, Nat.le_refl (states (m + 1)).progress⟩
      exact ih (k + 1) (by rw [close.2]) (shorter past)
    · have again : (states (m + 1)).pc = .scan := by rw [claimed]; exact at_scan
      exact ih (m + 1) again (shorter ⟨by rw [again]; exact nofun, rfl, Nat.le_refl _⟩)

/-- `Terminates`. -/
theorem ends (hop : cfg.fixHop = true) (fair : Fair cfg states)
    (behaviour : (spec cfg).Behaviour states) : ∃ n, (states n).pc = .done := by
  obtain ⟨-, -, -, pc, -⟩ := behaviour.start
  obtain ⟨m, -, -, start⟩ := fair.taken behaviour pc nofun
  exact ends_from_scan hop fair behaviour _ (m + 1) (by rw [start.2]) (Nat.le_refl _)

end Ends

/-! ### Nothing is missed -/

/-- A descriptor the others leave alone is closed, or still ahead of the walk as
it was. -/
structure Pending (d : ℕ) (slot : Slot) (s : State) : Prop where
  started : s.pc ≠ .start
  upto : d ≤ s.maxFd
  ahead : s.table.slot d = Closed slot ∨
    s.table.slot d = slot ∧ s.Walking ∧ s.cur ≤ d ∧ Selected s.table s.range s.flags d

theorem Pending.scan {cfg : Config} {d : ℕ} {slot : Slot} {s s' : State} (hop : cfg.fixHop = true)
    (file : slot.file = true) (pending : Pending d slot s) (step : Scan cfg s s') : Pending d slot s' := by
  obtain ⟨here, ⟨rfl, none⟩ | ⟨fd, ⟨low, high⟩, wanted, skipped, moved⟩⟩ := Scan.cases hop step
  · refine ⟨nofun, pending.upto, ?_⟩
    obtain closed | ⟨-, -, after, chosen⟩ := pending.ahead
    · exact .inl closed
    · exact absurd (selected_iff_wanted.1 chosen).1 (none d after pending.upto)
  obtain different | rfl := ne_or_eq d fd
  · have beyond (after : s.cur ≤ d) (chosen : Selected s.table s.range s.flags d) : fd + 1 ≤ d := by
      have : ¬ d < fd := fun before => skipped d after before (selected_iff_wanted.1 chosen).1
      omega
    obtain ⟨-, rfl⟩ | ⟨-, rfl⟩ := moved
    · have same := closeSlot_other s.table different
      refine ⟨nofun, pending.upto, ?_⟩
      simp only
      rw [same, selected_congr same]
      obtain closed | ⟨kept, -, after, chosen⟩ := pending.ahead
      · exact .inl closed
      · exact .inr ⟨kept, .inr rfl, beyond after chosen, chosen⟩
    · refine ⟨pending.started, pending.upto, ?_⟩
      obtain closed | ⟨kept, -, after, chosen⟩ := pending.ahead
      · exact .inl closed
      · exact .inr ⟨kept, .inl here, beyond after chosen, chosen⟩
  · -- The walk stops at `d` itself: it is open, so it has not been closed before.
    obtain closed | ⟨kept, -⟩ := pending.ahead
    · have := wanted.1
      rw [closed] at this
      exact absurd this Bool.false_ne_true
    obtain ⟨-, rfl⟩ | ⟨claimed, -⟩ := moved
    · refine ⟨nofun, pending.upto, .inl ?_⟩
      simp only
      rw [closeSlot_self, kept]
    · rw [kept, file] at claimed
      exact nomatch claimed

theorem Pending.step {cfg : Config} {d : ℕ} {slot : Slot} {s s' : State} (hop : cfg.fixHop = true)
    (file : slot.file = true) (pending : Pending d slot s) (step : Next cfg s s')
    (untouched : Others cfg s s' → s'.table.slot d = s.table.slot d) : Pending d slot s' := by
  obtain ⟨here, -⟩ | scan | ⟨here, rfl⟩ | others := step
  · exact absurd here pending.started
  · exact pending.scan hop file scan
  · refine ⟨nofun, pending.upto, ?_⟩
    obtain closed | ⟨kept, -, after, chosen⟩ := pending.ahead
    · exact .inl closed
    · exact .inr ⟨kept, .inl rfl, after, chosen⟩
  · have same := untouched others
    have frame := others.frame.1
    generalize s'.table = table at frame same
    subst frame
    refine ⟨pending.started, pending.upto, ?_⟩
    have chosen := selected_congr (r := s.range) (f := s.flags) same
    simp only
    rw [same, chosen]
    exact pending.ahead

/-- A selected descriptor with a file that the others leave alone is closed when
the loop is done. -/
theorem not_missed {cfg : Config} (hop : cfg.fixHop = true) {length : ℕ} {states : ℕ → State}
    (run : (spec cfg).Run length states) {i j d : ℕ} (order : i < j) (inside : j ≤ length)
    (start : Start (states i) (states (i + 1))) (ended : (states j).pc = .done)
    (upto : d ≤ (states j).maxFd) (file : ((states i).table.slot d).file = true)
    (chosen : Selected (states i).table (states i).range (states i).flags d)
    (untouched : ∀ k, i ≤ k → k < j → Others cfg (states k) (states (k + 1)) →
      (states (k + 1)).table.slot d = (states k).table.slot d) :
    (states j).table.slot d = Closed ((states i).table.slot d) := by
  have begun : (states (i + 1)).pc = .scan := by rw [start.2]
  have bound : (states j).maxFd = (states (i + 1)).maxFd :=
    (run.stays (advances hop) (i := i + 1) (by omega) inside
      ⟨by rw [begun]; exact nofun, rfl, Nat.zero_le _⟩).2.1
  have first : Pending d ((states i).table.slot d) (states (i + 1)) := by
    refine ⟨by rw [begun]; exact nofun, bound ▸ upto, .inr ?_⟩
    rw [start.2]
    refine ⟨rfl, .inl rfl, ?_, chosen⟩
    simp only
    split
    next => exact Nat.zero_le d
    next only => exact ((selected_iff_wanted.1 chosen).2 (Bool.eq_false_iff.2 only)).1
  have all (k : ℕ) (later : i + 1 ≤ k) : k ≤ j → Pending d ((states i).table.slot d) (states k) := by
    induction k, later using Nat.le_induction with
    | base => exact fun _ => first
    | succ k later ih =>
      intro within
      exact (ih (by omega)).step hop file (run.next k (by omega)) (untouched k (by omega) (by omega))
  obtain closed | ⟨-, walking, -⟩ := (all j order (Nat.le_refl j)).ahead
  · exact closed
  · unfold State.Walking at walking
    rw [ended] at walking
    exact walking.elim nofun nofun

/-- The closing loop under interference: it closes only what is selected, its
bound stays inside the table, it takes at most `maxFd + 2` scans and ends when its
own steps are not put off for ever, and it misses nothing the others leave alone. -/
theorem close_loop_safe (cfg : Config) (word : 1 ≤ cfg.W) (hop : cfg.fixHop = true) :
    (spec cfg).Invariant (fun s => s.ok = true) ∧
    (spec cfg).Invariant (fun s => s.pc = .scan ∨ s.pc = .closing → s.maxFd < s.table.maxFds) ∧
    (∀ length states, (spec cfg).Run length states →
      System.occurrences (Scan cfg) states length ≤ (states length).maxFd + 2) ∧
    (∀ states, (spec cfg).Behaviour states → Fair cfg states → ∃ n, (states n).pc = .done) ∧
    (∀ length states, (spec cfg).Run length states → ∀ i j d, i < j → j ≤ length →
      Start (states i) (states (i + 1)) → (states j).pc = .done → d ≤ (states j).maxFd →
      ((states i).table.slot d).file = true →
      Selected (states i).table (states i).range (states i).flags d →
      (∀ k, i ≤ k → k < j → Others cfg (states k) (states (k + 1)) →
        (states (k + 1)).table.slot d = (states k).table.slot d) →
      (states j).table.slot d = Closed ((states i).table.slot d)) := by
  have bounds := bounds_invariant word hop
  refine ⟨bounds.mono fun s held => held.selected, bounds.mono fun s held => held.inside, ?_, ?_, ?_⟩
  · intro length states run
    have counted := run.occurrences_le State.progress (fun _ _ _ step => progress_step hop step)
      (fun _ _ _ scan => (progress_scan hop scan).1) length (Nat.le_refl length)
    exact counted.trans (progress_le (states length))
  · exact fun states behaviour fair => ends hop fair behaviour
  · intro length states run i j d order inside start ended upto file chosen untouched
    exact not_missed hop run order inside start ended upto file chosen untouched

/-! ### A run with the others in it -/

section Window

def fourSlots : Config := ⟨4, 1, 9, true⟩

/-- Everything but descriptor `1` is to be closed; descriptor `2` is only claimed yet. -/
def windowOpen : State where
  table := ⟨4, fun d => if d = 2 then ⟨true, false, false, Slot.bare⟩ else ⟨true, true, false, Slot.filed⟩⟩
  range := ⟨1, 1, le_rfl⟩
  flags := ⟨false, false, true, false⟩
  pc := .start
  cur := 0
  maxFd := 0
  ok := true

/-- While the loop closes `0`, `2` and `3`, others re-flag `1`, install a file at `2` and open `0` again. -/
def windowSteps : List (State → State) := [
  fun s => { s with maxFd := 3, pc := .scan },
  fun s => { s with table := closeSlot s.table 0, cur := 1, pc := .closing },
  fun s => { s with table := { s.table with
    slot := Function.update s.table.slot 1 { s.table.slot 1 with cloexec := !(s.table.slot 1).cloexec } } },
  fun s => { s with pc := .scan },
  fun s => { s with table := { s.table with
    slot := Function.update s.table.slot 2 ⟨true, true, (s.table.slot 2).cloexec, Slot.filed⟩ } },
  fun s => { s with table := closeSlot s.table 2, cur := 3, pc := .closing },
  fun s => { s with table := { s.table with slot := Function.update s.table.slot 0 ⟨true, false, true, fun _ => rfl⟩ } },
  fun s => { s with pc := .scan },
  fun s => { s with table := closeSlot s.table 3, cur := 4, pc := .closing },
  fun s => { s with pc := .scan },
  fun s => { s with pc := .done }]

def windowRun (n : ℕ) : State := (windowSteps.take n).foldl (fun s step => step s) windowOpen

theorem windowRun_run : (spec fourSlots).Run 11 windowRun where
  start := ⟨rfl, ⟨.inl (by decide), .inl (by decide)⟩, ⟨fun both => Bool.noConfusion both.1, rfl, rfl⟩, rfl, rfl, rfl, rfl⟩
  next i inside := by
    match i, inside with
    | 0, _ => exact .inl ⟨rfl, rfl⟩
    | 1, _ => exact .inr (.inl ⟨rfl, rfl⟩)
    | 2, _ => exact .inr (.inr (.inr (.inr (.inr (.inr (.inr ⟨1, by decide, rfl, rfl⟩))))))
    | 3, _ => exact .inr (.inr (.inl ⟨rfl, rfl⟩))
    | 4, _ => exact .inr (.inr (.inr (.inr (.inr (.inl ⟨2, by decide, rfl, rfl, rfl⟩)))))
    | 5, _ => exact .inr (.inl ⟨rfl, rfl⟩)
    | 6, _ => exact .inr (.inr (.inr (.inr (.inl ⟨true, by decide, rfl⟩))))
    | 7, _ => exact .inr (.inr (.inl ⟨rfl, rfl⟩))
    | 8, _ => exact .inr (.inl ⟨rfl, rfl⟩)
    | 9, _ => exact .inr (.inr (.inl ⟨rfl, rfl⟩))
    | 10, _ => exact .inr (.inl ⟨rfl, rfl⟩)

theorem windowRun_closes : (windowRun 11).table.slot 3 = Closed ((windowRun 0).table.slot 3) ∧
    ((windowRun 11).table.slot 1).file = true ∧ ((windowRun 11).table.slot 0).opened = true := by
  refine ⟨(close_loop_safe fourSlots (by decide) rfl).2.2.2.2 11 windowRun windowRun_run 0 11 3 (by decide) (by decide)
    ⟨rfl, rfl⟩ rfl (by decide) rfl (by decide) ?_, rfl, rfl⟩
  intro k _ inside others
  match k, inside with
  | 0, _ | 1, _ | 2, _ | 3, _ | 4, _ | 5, _ | 6, _ | 7, _ | 9, _ | 10, _ => rfl
  | 8, _ =>
    -- The one step that touches the slot is the loop's own: it moves the label.
    have same : (windowRun 9).pc = (windowRun 8).pc := by rw [others.frame.1]
    cases same

end Window

end LinuxTla.FdTable.Race
