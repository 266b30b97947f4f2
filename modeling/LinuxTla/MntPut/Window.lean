import LinuxTla.MntPut.Safety

/-! A sum and the references that stand while it runs. Each of its loads happens at
another moment, but whoever holds a reference from the first load to the last is
counted. -/

namespace LinuxTla.MntPut

open Lib

section Steps

variable {T : Type} [DecidableEq T] {cfg : Config T} {s after : State T} {t u : T} {bound : ℤ}

/-- A reference that is held on does not become transient. -/
theorem Step.settled_stays (wf : cfg.WellFormed) (member : t ∈ cfg.taskList) (step : Step cfg s t after) (control : Control cfg s)
    (settled : Settled cfg s u) (held : 1 ≤ after.refs u) : Settled cfg after u := by
  by_cases same : u = t
  · subst same
    refine ⟨held, fun transient => ?_⟩
    obtain ⟨walker, window⟩ := transient
    have own := control.walker u walker
    have refs := settled.1
    have before : s.pc u ∉ [Label.wMb, .wL4, .wLock, .wFlags] := fun inside => settled.2 ⟨walker, inside⟩
    have back := control.ret_cases wf member
    have notU : u ≠ cfg.umounter := fun same => wf.umounter_walker (same ▸ walker)
    cases step
    case putFast label _ | putFastWaited label _ | putCheckOther label _ | putCleanup label =>
      have := back (by simp [label, Label.preDrop, Label.postDrop])
      simp only [List.mem_cons, List.not_mem_nil, or_false] at this
      rcases this with back | back | back | back <;> simp [back] at window
    case wL2 label =>
      rw [label] at own
      have none : s.refs u = 0 := own.1
      omega
    all_goals first
      | exact absurd ‹u = cfg.umounter› notU
      | exact before window
      | (simp at window; done)
      | simp [‹s.pc u = _›] at before
  · exact (step.settled_other same).mpr settled

def Adding (s : State T) (t : T) : Prop := s.pc t = .pSum ∨ s.pc t = .uSum

instance (s : State T) (t : T) : Decidable (Adding s t) := inferInstanceAs (Decidable (_ ∨ _))

/-- While `t` sums a step of anybody keeps what the sum will come out at. -/
theorem Covers.next (ok : Covers cfg s t bound) (fixed : cfg.Fixed) (member : t ∈ cfg.taskList) (buffer : Buffers cfg s)
    (next : Next cfg s after) (before : Adding s t) (still : Adding after t)
    (seen : bound ≤ ∑ c ∈ cfg.cpus, s.seenGets t c - ∑ c ∈ cfg.cpus, s.seenPuts t c) : Covers cfg after t bound := by
  cases next with
  | @task u after listed step =>
    by_cases same : t = u
    · subst same
      cases step
      case putSum more | uSum more => exact ok.read fixed more seen
      case putSumEnd | uSumEnd => simp [Adding] at still
      all_goals simp [Adding, ‹s.pc t = _›] at before
    · obtain ⟨acc, ci⟩ := step.acc_other same
      exact ok.mono acc ci le_rfl fun c => step.seen_le fixed listed buffer member c
  | @flush u i e listed entry => exact ok.mono rfl rfl le_rfl fun c => flush_seen (buffer u listed) entry t c
  | rcuFree => exact ok.mono rfl rfl le_rfl fun _ => ⟨le_rfl, le_rfl⟩

theorem Next.starts (wf : cfg.WellFormed) (next : Next cfg s after) (control : Control cfg s) (before : ¬ Adding s t)
    (adds : Adding after t) : after.acc t = 0 ∧ after.ci t = 1 := by
  cases next with
  | @task u after listed step =>
    by_cases same : t = u
    · subst same
      have back := control.ret_cases wf listed
      cases step
      case putFast label _ | putFastWaited label _ | putCheckOther label _ | putCleanup label =>
        have := back (by simp [label, Label.preDrop, Label.postDrop])
        simp only [List.mem_cons, List.not_mem_nil, or_false] at this
        rcases this with back | back | back | back <;> simp [Adding, back] at adds
      case putDec | uMb => simp
      all_goals first
        | exact absurd adds before
        | simp [Adding] at adds
    · rw [Adding, step.pc_other same] at adds
      exact absurd adds before
  | flush | rcuFree => exact absurd adds before

end Steps

/-! ### From the first load to the last -/

section Windows

variable {T : Type} [DecidableEq T] {cfg : Config T} {states : ℕ → State T} {t u : T} {i j k length : ℕ}

/-- A sum of `t`: in state `i` nothing has been read yet, in state `k` everything has. -/
structure Sums (cfg : Config T) (states : ℕ → State T) (t : T) (i k : ℕ) : Prop where
  order : i ≤ k
  starts : (states i).acc t = 0 ∧ (states i).ci t = 1
  adds : ∀ j ∈ Finset.Icc i k, Adding (states j) t
  ends : reads cfg < (states k).ci t

/-- Who holds a reference all the time and is in no transient window at the start. -/
def standing (cfg : Config T) (states : ℕ → State T) (i k : ℕ) : Finset T :=
  cfg.tasks.filter fun u => (∀ j ∈ Finset.Icc i k, 1 ≤ (states j).refs u) ∧ ¬ Transient cfg (states i) u

/-- The reference of the namespace, if it is held all the time. -/
def standingNs (states : ℕ → State T) (i k : ℕ) : ℕ := if ∀ j ∈ Finset.Icc i k, (states j).nsref = true then 1 else 0

theorem settled_of_standing (wf : cfg.WellFormed) (run : (spec cfg).Run length states) (inside : k ≤ length)
    (stands : u ∈ standing cfg states i k) (order : i ≤ j) (within : j ≤ k) : Settled cfg (states j) u := by
  obtain ⟨_, held, still⟩ := Finset.mem_filter.mp stands
  induction j, order using Nat.le_induction with
  | base =>
    refine ⟨held i (Finset.mem_Icc.mpr ⟨le_rfl, within⟩), fun window => still ⟨window.1, .inl window.2⟩⟩
  | succ j later ih =>
    have before := ih (by omega)
    have now := held (j + 1) (Finset.mem_Icc.mpr ⟨by omega, within⟩)
    have known := control wf (states j) (run.reachable j (by omega))
    have step : Next cfg (states j) (states (j + 1)) := run.next j (by omega)
    generalize states (j + 1) = after at step now
    cases step with
    | task member step => exact step.settled_stays wf member known before now
    | flush | rcuFree => exact before

/-- The references that stand are among those a task would see at any moment. -/
theorem standing_le (wf : cfg.WellFormed) (run : (spec cfg).Run length states) (inside : k ≤ length) (order : i ≤ j)
    (within : j ≤ k) : ((standing cfg states i k).card + standingNs states i k : ℤ) ≤ settledRefs cfg (states j) := by
  have tasks : ((standing cfg states i k).card : ℤ) ≤ ∑ u ∈ cfg.tasks, if Settled cfg (states j) u then 1 else 0 := by
    rw [Finset.sum_boole]
    refine Int.ofNat_le.mpr (Finset.card_le_card fun u stands => Finset.mem_filter.mpr ⟨?_, ?_⟩)
    · exact (Finset.mem_filter.mp stands).1
    · exact settled_of_standing wf run inside stands order within
  have ns : (standingNs states i k : ℤ) ≤ if (states j).nsref then 1 else 0 := by
    rw [standingNs]
    split_ifs with all here
    · exact le_rfl
    · exact absurd (all j (Finset.mem_Icc.mpr ⟨order, within⟩)) here
    · exact zero_le_one
    · exact le_rfl
  rw [settledRefs]
  omega

theorem Sums.covers (sum : Sums cfg states t i k) (wf : cfg.WellFormed) (fixed : cfg.Fixed)
    (run : (spec cfg).Run length states) (member : t ∈ cfg.taskList) (inside : k ≤ length) :
    ((standing cfg states i k).card + standingNs states i k : ℤ) ≤ (states k).acc t := by
  set bound : ℤ := (standing cfg states i k).card + standingNs states i k with bounded
  have covers (j : ℕ) (order : i ≤ j) : j ≤ k → Covers cfg (states j) t bound := by
    induction j, order using Nat.le_induction with
    | base =>
      intro _
      have two := wf.ncpu
      rw [Covers, sum.starts.1, sum.starts.2]
      exact SplitCount.AtLeast.start (by omega)
    | succ j later ih =>
      intro within
      have reached := run.reachable j (by omega)
      have seen := settledRefs_le_seen wf (control wf _ reached) (buffers wf fixed _ reached) (balanced wf fixed _ reached) member
      refine (ih (by omega)).next fixed member (buffers wf fixed _ reached) (run.next j (by omega)) ?_ ?_ ?_
      · exact sum.adds j (Finset.mem_Icc.mpr ⟨later, by omega⟩)
      · exact sum.adds (j + 1) (Finset.mem_Icc.mpr ⟨by omega, within⟩)
      · exact (standing_le wf run inside later (by omega)).trans seen
  have ended : 2 * cfg.ncpu < (states k).ci t := by
    have ends := sum.ends
    rwa [reads, fixed.splitCount, if_pos rfl] at ends
  exact (covers k sum.order le_rfl).finish ended

theorem sum_started (wf : cfg.WellFormed) (run : (spec cfg).Run length states) (inside : k ≤ length) (adds : Adding (states k) t) :
    ∃ i ≤ k, ((states i).acc t = 0 ∧ (states i).ci t = 1) ∧ ∀ j ∈ Finset.Icc i k, Adding (states j) t := by
  induction k with
  | zero =>
    rw [show states 0 = init cfg from run.start, Adding, init] at adds
    dsimp only at adds
    split_ifs at adds <;> simp at adds
  | succ k ih =>
    by_cases before : Adding (states k) t
    · obtain ⟨i, order, starts, all⟩ := ih (by omega) before
      refine ⟨i, by omega, starts, fun j within => ?_⟩
      obtain ⟨later, earlier⟩ := Finset.mem_Icc.mp within
      obtain rfl | differs := eq_or_ne j (k + 1)
      · exact adds
      · exact all j (Finset.mem_Icc.mpr ⟨later, by omega⟩)
    · have starts := Next.starts wf (run.next k (by omega)) (control wf _ (run.reachable k (by omega))) before adds
      refine ⟨k + 1, le_rfl, starts, fun j within => ?_⟩
      obtain rfl : j = k + 1 := by
        have := Finset.mem_Icc.mp within
        omega
      exact adds

/-- The split sum never under-counts: when it ends it is at least the number of tasks that
held a reference from its start on, and one more if the namespace did. -/
theorem split_sum_covers (wf : cfg.WellFormed) (fixed : cfg.Fixed) (run : (spec cfg).Run length states)
    (member : t ∈ cfg.taskList) (inside : k ≤ length) (adds : Adding (states k) t) (ends : reads cfg < (states k).ci t) :
    (∃ i, Sums cfg states t i k) ∧ ∀ i, Sums cfg states t i k →
      ((standing cfg states i k).card + standingNs states i k : ℤ) ≤ (states k).acc t := by
  obtain ⟨i, order, starts, all⟩ := sum_started wf run inside adds
  exact ⟨⟨i, order, starts, all, ends⟩, fun i sum => sum.covers wf fixed run member inside⟩

end Windows

section Small

def smallBarrier : State (Fin 2) := flush (flush (((init small).locked 0).setPc 0 .uMb) 0 0 (.seq 1)) 0 0 .wmb

def smallStart : State (Fin 2) := (smallBarrier.startSum 0).setPc 0 .uSum

/-- The umounter takes the lock and sums. -/
def smallRun : ℕ → State (Fin 2)
  | 0 => init small
  | 1 => ((init small).locked 0).setPc 0 .uMb
  | 2 => flush (((init small).locked 0).setPc 0 .uMb) 0 0 (.seq 1)
  | 3 => smallBarrier
  | 4 => smallStart
  | 5 => sumRead small smallStart 0
  | 6 => sumRead small (sumRead small smallStart 0) 0
  | 7 => sumRead small (sumRead small (sumRead small smallStart 0) 0) 0
  | _ => sumRead small (sumRead small (sumRead small (sumRead small smallStart 0) 0) 0) 0

theorem smallRun_run : (spec small).Run 8 smallRun := by
  constructor
  · rfl
  · intro i inside
    match i, inside with
    | 0, _ => exact .task (t := 0) (by decide) (.uLock rfl rfl ⟨rfl, rfl⟩ rfl)
    | 1, _ => exact .flush (t := 0) (i := 0) (e := .seq 1) (by decide) rfl (by decide)
    | 2, _ => exact .flush (t := 0) (i := 0) (e := .wmb) (by decide) rfl (by decide)
    | 3, _ => exact .task (t := 0) (by decide) (.uMb rfl rfl fun _ => rfl)
    | 4, _ | 5, _ | 6, _ | 7, _ => exact .task (t := 0) (by decide) (.uSum rfl rfl (by decide))

theorem smallRun_covers : (standing small smallRun 4 8).card + standingNs smallRun 4 8 = 2 ∧ 2 ≤ (smallRun 8).acc 0 := by
  have stands : (standing small smallRun 4 8).card + standingNs smallRun 4 8 = 2 := by decide
  have sums : Sums small smallRun 0 4 8 := ⟨by decide, ⟨rfl, rfl⟩, by decide, by decide⟩
  have covers := (split_sum_covers small_wellFormed small_fixed smallRun_run (t := 0) (k := 8) (by decide) le_rfl (.inr rfl)
    (by decide)).2 4 sums
  omega

end Small

end LinuxTla.MntPut
