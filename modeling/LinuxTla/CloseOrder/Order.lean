import LinuxTla.Lib.Transition
import Mathlib.Data.Finset.Basic
import Mathlib.Order.Interval.Finset.Nat

/-! `CloseOrder.tla`: three orders in which a dying descriptor table closes its files,
against flushes and releases that wait for another file of the same table. -/

namespace LinuxTla.CloseOrder

open Lib

inductive Discipline
  | deferred | ascending | descending
deriving DecidableEq, Repr

/-- A step calls ->flush() or ->release() of a descriptor. -/
inductive Call
  | flush (fd : ℕ)
  | release (fd : ℕ)
deriving DecidableEq, Repr

variable (n : ℕ)

def fds : Finset ℕ := Finset.Icc 1 n

/-- Step `k` of a discipline, counted from one: the deferred puts run last in, first out. -/
def steps (d : Discipline) (k : ℕ) : Call :=
  match d with
  | .deferred => if k ≤ n then .flush k else .release (n + 1 - (k - n))
  | .ascending => if k % 2 = 1 then .flush ((k + 1) / 2) else .release (k / 2)
  | .descending => if k % 2 = 1 then .flush (n + 1 - (k + 1) / 2) else .release (n + 1 - k / 2)

structure State where
  relWaits : ℕ → Finset ℕ
  flushWaits : ℕ → Finset ℕ
  pos : Discipline → ℕ
  released : Discipline → Finset ℕ

/-- `Deps`: a descriptor does not wait for itself. -/
def Deps (waits : ℕ → Finset ℕ) : Prop := ∀ i ∈ fds n, waits i ⊆ fds n ∧ i ∉ waits i

section Steps

variable (s : State) (d : Discipline)

def needs : Call → Finset ℕ
  | .flush i => s.flushWaits i
  | .release i => s.relWaits i

def Done : Prop := s.pos d > 2 * n

def needsOf : Finset ℕ := needs s (steps n d (s.pos d))

def Stuck : Prop := ¬ Done n s d ∧ ¬ needsOf n s d ⊆ s.released d

def Settled : Prop := Done n s d ∨ Stuck n s d

structure Step (t : State) : Prop where
  more : ¬ Done n s d
  met : needsOf n s d ⊆ s.released d
  next : t = { s with
    released := Function.update s.released d (match steps n d (s.pos d) with
      | .release i => insert i (s.released d)
      | .flush _ => s.released d)
    pos := Function.update s.pos d (s.pos d + 1) }

end Steps

structure Init (s : State) : Prop where
  relWaits : Deps n s.relWaits
  flushWaits : Deps n s.flushWaits
  pos : ∀ d, s.pos d = 1
  released : ∀ d, s.released d = ∅

def spec : System State := ⟨Init n, fun s t => ∃ d, Step n s d t⟩

def NoFlushDeps (s : State) : Prop := ∀ i ∈ fds n, s.flushWaits i = ∅

/-! ### How far a discipline has come -/

/-- The release of `i` is among the steps before `k`. -/
def Before (d : Discipline) (k i : ℕ) : Prop := ∃ j, 1 ≤ j ∧ j < k ∧ steps n d j = .release i

/-- A discipline has released what its steps so far release, and each of them found what it
needs. -/
structure Walked (s : State) (d : Discipline) : Prop where
  started : 1 ≤ s.pos d
  inside : s.pos d ≤ 2 * n + 1
  released : ∀ i, i ∈ s.released d ↔ Before n d (s.pos d) i
  met : ∀ k, 1 ≤ k → k < s.pos d → ∀ i ∈ needs s (steps n d k), Before n d k i

variable {n} {s t : State} {d : Discipline}

theorem before_succ {k i : ℕ} (started : 1 ≤ k) : Before n d (k + 1) i ↔ Before n d k i ∨ steps n d k = .release i := by
  constructor
  · rintro ⟨j, first, earlier, release⟩
    rcases Nat.lt_succ_iff_lt_or_eq.mp earlier with before | rfl
    · exact .inl ⟨j, first, before, release⟩
    · exact .inr release
  · rintro (⟨j, first, before, release⟩ | release)
    · exact ⟨j, first, Nat.lt_succ_of_lt before, release⟩
    · exact ⟨k, started, Nat.lt_succ_self k, release⟩

theorem Walked.init (start : Init n s) : Walked n s d := by
  have pos := start.pos d
  refine ⟨pos.ge, by omega, fun i => ?_, fun k first earlier => ?_⟩
  · rw [start.released d]
    constructor
    · exact fun none => absurd none (Finset.notMem_empty i)
    · rintro ⟨j, first, earlier, _⟩
      omega
  · omega

theorem Walked.step {e : Discipline} (walked : Walked n s d) (step : Step n s e t) : Walked n t d := by
  obtain ⟨more, met, rfl⟩ := step
  by_cases same : d = e
  · subst same
    have inside : s.pos d ≤ 2 * n := Nat.le_of_not_gt more
    have next : Function.update s.pos d (s.pos d + 1) d = s.pos d + 1 := Function.update_self ..
    refine ⟨?_, ?_, fun i => ?_, fun k first earlier => ?_⟩
    · change 1 ≤ Function.update s.pos d (s.pos d + 1) d
      omega
    · change Function.update s.pos d (s.pos d + 1) d ≤ 2 * n + 1
      omega
    · change i ∈ Function.update s.released d _ d ↔ Before n d (Function.update s.pos d (s.pos d + 1) d) i
      rw [next, Function.update_self, before_succ walked.started, ← walked.released i]
      cases call : steps n d (s.pos d) with
      | flush j => exact (or_iff_left nofun).symm
      | release j =>
        rw [Finset.mem_insert, or_comm]
        exact or_congr_right ⟨fun here => by rw [here], fun here => (Call.release.inj here).symm⟩
    · change k < Function.update s.pos d (s.pos d + 1) d at earlier
      rw [next] at earlier
      rcases Nat.lt_succ_iff_lt_or_eq.mp earlier with before | rfl
      · exact walked.met k first before
      · exact fun i needed => (walked.released i).mp (met needed)
  · have pos : Function.update s.pos e (s.pos e + 1) d = s.pos d := Function.update_of_ne same ..
    have released (x : Finset ℕ) : Function.update s.released e x d = s.released d := Function.update_of_ne same ..
    refine ⟨?_, ?_, fun i => ?_, fun k first earlier => ?_⟩
    · change 1 ≤ Function.update s.pos e _ d
      rw [pos]
      exact walked.started
    · change Function.update s.pos e _ d ≤ _
      rw [pos]
      exact walked.inside
    · change i ∈ Function.update s.released e _ d ↔ Before n d (Function.update s.pos e _ d) i
      rw [pos, released]
      exact walked.released i
    · change k < Function.update s.pos e _ d at earlier
      rw [pos] at earlier
      exact walked.met k first earlier

theorem walked (n : ℕ) : (spec n).Invariant fun s => ∀ d, Walked n s d := by
  apply System.Invariant.of_step
  · exact fun s start d => .init start
  · rintro s t walked ⟨e, step⟩ d
    exact (walked d).step step

/-! ### The deferred puts and the descending walk -/

theorem steps_flush {i : ℕ} (inside : i ≤ n) : steps n .deferred i = .flush i := if_pos inside

theorem steps_release {i : ℕ} (first : 1 ≤ i) (inside : i ≤ n) : steps n .deferred (2 * n + 1 - i) = .release i := by
  have late : ¬ 2 * n + 1 - i ≤ n := by omega
  have back : n + 1 - (2 * n + 1 - i - n) = i := by omega
  rw [steps, if_neg late, back]

theorem before_deferred {k i : ℕ} (upto : k ≤ 2 * n + 1) :
    Before n .deferred k i ↔ 1 ≤ i ∧ i ≤ n ∧ 2 * n + 1 - i < k := by
  constructor
  · rintro ⟨j, first, earlier, release⟩
    rw [steps] at release
    split at release
    next => exact absurd release nofun
    next late =>
      have same := Call.release.inj release
      omega
  · rintro ⟨first, inside, earlier⟩
    exact ⟨2 * n + 1 - i, by omega, earlier, steps_release first inside⟩

theorem before_descending {k i : ℕ} (upto : k ≤ 2 * n + 1) :
    Before n .descending k i ↔ 1 ≤ i ∧ i ≤ n ∧ 2 * (n + 1 - i) < k := by
  constructor
  · rintro ⟨j, first, earlier, release⟩
    rw [steps] at release
    split at release
    next => exact absurd release nofun
    next even =>
      have same := Call.release.inj release
      omega
  · rintro ⟨first, inside, earlier⟩
    refine ⟨2 * (n + 1 - i), by omega, earlier, ?_⟩
    have even : ¬ 2 * (n + 1 - i) % 2 = 1 := by omega
    have back : n + 1 - 2 * (n + 1 - i) / 2 = i := by omega
    rw [steps, if_neg even, back]

theorem descending_at {k : ℕ} (first : 1 ≤ k) (inside : k ≤ 2 * n) :
    ∃ m, 1 ≤ m ∧ m ≤ n ∧
      (steps n .descending k = .flush m ∧ k = 2 * (n + 1 - m) - 1 ∨
        steps n .descending k = .release m ∧ k = 2 * (n + 1 - m)) := by
  rcases Nat.mod_two_eq_zero_or_one k with even | odd
  · refine ⟨n + 1 - k / 2, by omega, by omega, .inr ⟨?_, by omega⟩⟩
    rw [steps, if_neg (by omega)]
  · refine ⟨n + 1 - (k + 1) / 2, by omega, by omega, .inl ⟨?_, by omega⟩⟩
    rw [steps, if_pos odd]

/-- The deferred puts are at the flush or at the release of a descriptor. -/
theorem deferred_at {k : ℕ} (first : 1 ≤ k) (inside : k ≤ 2 * n) :
    ∃ m, 1 ≤ m ∧ m ≤ n ∧
      (steps n .deferred k = .flush m ∧ k = m ∨ steps n .deferred k = .release m ∧ k = 2 * n + 1 - m) := by
  by_cases early : k ≤ n
  · exact ⟨k, first, early, .inl ⟨steps_flush early, rfl⟩⟩
  · refine ⟨2 * n + 1 - k, by omega, by omega, .inr ⟨?_, by omega⟩⟩
    have release := steps_release (n := n) (i := 2 * n + 1 - k) (by omega) (by omega)
    have back : 2 * n + 1 - (2 * n + 1 - k) = k := by omega
    rwa [back] at release

/-- While the deferred puts release `i`, the flush of every descriptor needed nothing. -/
theorem Walked.flushed {i m : ℕ} (deferred : Walked n s .deferred) (gone : i ∈ s.released .deferred) (first : 1 ≤ m)
    (inside : m ≤ n) : s.flushWaits m = ∅ := by
  obtain ⟨_, upto, past⟩ := (before_deferred deferred.inside).mp ((deferred.released i).mp gone)
  apply Finset.eq_empty_of_forall_notMem
  intro j needed
  have met := deferred.met m first (by omega) j (by rw [steps_flush inside]; exact needed)
  have := (before_deferred (by omega)).mp met
  omega

/-- A release that the deferred puts have done needed only higher descriptors. -/
theorem Walked.higher {m j : ℕ} (deferred : Walked n s .deferred) (gone : m ∈ s.released .deferred)
    (needed : j ∈ s.relWaits m) : m < j ∧ j ≤ n := by
  obtain ⟨first, inside, past⟩ := (before_deferred deferred.inside).mp ((deferred.released m).mp gone)
  have met := deferred.met (2 * n + 1 - m) (by omega) past j (by rw [steps_release first inside]; exact needed)
  have := (before_deferred (by omega)).mp met
  omega

theorem Walked.higher_descending {m j : ℕ} (descending : Walked n s .descending) (gone : m ∈ s.released .descending)
    (needed : j ∈ s.relWaits m) : m < j ∧ j ≤ n := by
  obtain ⟨k, first, earlier, release⟩ := (descending.released m).mp gone
  have upto := descending.inside
  have met := descending.met k first earlier j (by rw [release]; exact needed)
  obtain ⟨_, inside, before⟩ := (before_descending (by omega)).mp met
  obtain ⟨m', _, _, ⟨flush, _⟩ | ⟨release', here⟩⟩ := descending_at (n := n) (k := k) first (by omega)
  · exact absurd (release.symm.trans flush) nofun
  · have same : m = m' := Call.release.inj (release.symm.trans release')
    omega

section Settled

variable (deferred : Walked n s .deferred) (descending : Walked n s .descending)

include deferred descending

/-- What the deferred puts released, a descending walk that is settled released too. -/
theorem deferred_subset (settled : Settled n s .descending) : s.released .deferred ⊆ s.released .descending := by
  intro i gone
  obtain ⟨first, inside, past⟩ := (before_deferred deferred.inside).mp ((deferred.released i).mp gone)
  rw [descending.released i, before_descending descending.inside]
  refine ⟨first, inside, ?_⟩
  rcases settled with done | ⟨more, waits⟩
  · exact Nat.lt_of_le_of_lt (by omega) done
  · by_contra early
    apply waits
    intro j needed
    rw [descending.released j, before_descending descending.inside]
    -- Where the walk stands, the deferred puts had nothing to wait for, or only for what is above.
    obtain ⟨m, low, high, ⟨flush, here⟩ | ⟨release, here⟩⟩ := descending_at descending.started (Nat.le_of_not_gt more)
    · rw [needsOf, flush] at needed
      change j ∈ s.flushWaits m at needed
      rw [deferred.flushed gone low high] at needed
      exact absurd needed (Finset.notMem_empty j)
    · rw [needsOf, release] at needed
      have reached : m ∈ s.released .deferred :=
        (deferred.released m).mpr ((before_deferred deferred.inside).mpr ⟨low, high, by omega⟩)
      have above := deferred.higher reached needed
      omega

theorem descending_subset (bare : NoFlushDeps n s) (settled : Settled n s .deferred) :
    s.released .descending ⊆ s.released .deferred := by
  intro i gone
  obtain ⟨first, inside, past⟩ := (before_descending descending.inside).mp ((descending.released i).mp gone)
  rw [deferred.released i, before_deferred deferred.inside]
  refine ⟨first, inside, ?_⟩
  rcases settled with done | ⟨more, waits⟩
  · exact Nat.lt_of_le_of_lt (by omega) done
  · by_contra early
    apply waits
    intro j needed
    rw [deferred.released j, before_deferred deferred.inside]
    obtain ⟨m, low, high, ⟨flush, here⟩ | ⟨release, here⟩⟩ := deferred_at deferred.started (Nat.le_of_not_gt more)
    · rw [needsOf, flush] at needed
      change j ∈ s.flushWaits m at needed
      rw [bare m (Finset.mem_Icc.mpr ⟨low, high⟩)] at needed
      exact absurd needed (Finset.notMem_empty j)
    · rw [needsOf, release] at needed
      have reached : m ∈ s.released .descending :=
        (descending.released m).mpr ((before_descending descending.inside).mpr ⟨low, high, by omega⟩)
      have above := descending.higher_descending reached needed
      omega

/-- A descending walk that is stuck has not released its last descriptor, so neither have
the deferred puts. -/
theorem stuck_deferred (stuck : Stuck n s .descending) (settled : Settled n s .deferred) : Stuck n s .deferred := by
  refine settled.resolve_left fun done => ?_
  have inside : s.pos .descending ≤ 2 * n := Nat.le_of_not_gt stuck.1
  have started := descending.started
  have finished : 2 * n < s.pos .deferred := done
  have last : 1 ∈ s.released .deferred :=
    (deferred.released 1).mpr ((before_deferred deferred.inside).mpr ⟨le_rfl, by omega, by omega⟩)
  have also := deferred_subset deferred descending (.inr stuck) last
  have := (before_descending descending.inside).mp ((descending.released 1).mp also)
  omega

end Settled

theorem Stuck.release (stuck : Stuck n s d) (bare : NoFlushDeps n s) {m : ℕ} (low : 1 ≤ m) (high : m ≤ n) :
    steps n d (s.pos d) ≠ .flush m := by
  intro flush
  apply stuck.2
  intro j needed
  rw [needsOf, flush] at needed
  change j ∈ s.flushWaits m at needed
  rw [bare m (Finset.mem_Icc.mpr ⟨low, high⟩)] at needed
  exact absurd needed (Finset.notMem_empty j)

section Same

variable (deferred : Walked n s .deferred) (descending : Walked n s .descending)
  (same : s.released .deferred = s.released .descending)

include deferred descending same

theorem stuck_descending (bare : NoFlushDeps n s) (stuck : Stuck n s .deferred) (settled : Settled n s .descending) :
    Stuck n s .descending := by
  refine settled.resolve_left fun done => ?_
  have inside : s.pos .deferred ≤ 2 * n := Nat.le_of_not_gt stuck.1
  have started := deferred.started
  have finished : 2 * n < s.pos .descending := done
  have last : 1 ∈ s.released .descending :=
    (descending.released 1).mpr ((before_descending descending.inside).mpr ⟨le_rfl, by omega, by omega⟩)
  rw [← same] at last
  have := (before_deferred deferred.inside).mp ((deferred.released 1).mp last)
  obtain ⟨m, low, high, ⟨flush, here⟩ | ⟨release, here⟩⟩ := deferred_at started inside
  · exact stuck.release bare low high flush
  · omega

/-- The highest descriptor that is not released is the one both wait in. -/
theorem same_release (bare : NoFlushDeps n s) (walk : Stuck n s .descending) (puts : Stuck n s .deferred) :
    ∃ m, steps n .descending (s.pos .descending) = .release m ∧ steps n .deferred (s.pos .deferred) = .release m := by
  obtain ⟨m, low, high, ⟨flush, here⟩ | ⟨release, here⟩⟩ :=
    descending_at descending.started (Nat.le_of_not_gt walk.1)
  · exact absurd flush (walk.release bare low high)
  obtain ⟨m', low', high', ⟨flush', here'⟩ | ⟨release', here'⟩⟩ :=
    deferred_at deferred.started (Nat.le_of_not_gt puts.1)
  · exact absurd flush' (puts.release bare low' high')
  -- Both have released what is above their own descriptor, and not that descriptor.
  have equal : m = m' := by
    have member := Finset.ext_iff.mp same
    have reached (i : ℕ) : (1 ≤ i ∧ i ≤ n ∧ 2 * n + 1 - i < s.pos .deferred) ↔
        (1 ≤ i ∧ i ≤ n ∧ 2 * (n + 1 - i) < s.pos .descending) := by
      rw [← before_deferred deferred.inside, ← before_descending descending.inside, ← deferred.released,
        ← descending.released]
      exact member i
    have one := reached m
    have two := reached m'
    omega
  exact ⟨m, release, equal ▸ release'⟩

end Same

/-- Closing from the highest descriptor down gets at least as far as the deferred puts did, and
exactly as far when no flush waits. -/
theorem descending_no_worse (n : ℕ) : (spec n).Invariant fun s =>
    Settled n s .descending → Settled n s .deferred →
      s.released .deferred ⊆ s.released .descending ∧
      (Stuck n s .descending → Stuck n s .deferred) ∧
      (NoFlushDeps n s →
        s.released .deferred = s.released .descending ∧
        (Stuck n s .descending ↔ Stuck n s .deferred) ∧
        (Stuck n s .descending → ∃ m,
          steps n .descending (s.pos .descending) = .release m ∧
          steps n .deferred (s.pos .deferred) = .release m)) := by
  intro s reachable settled settled'
  have deferred := walked n s reachable .deferred
  have descending := walked n s reachable .descending
  have further := deferred_subset deferred descending settled
  have hangs (stuck : Stuck n s .descending) := stuck_deferred deferred descending stuck settled'
  refine ⟨further, hangs, fun bare => ?_⟩
  have same := further.antisymm (descending_subset deferred descending bare settled')
  refine ⟨same, ⟨hangs, fun stuck => ?_⟩, fun stuck => ?_⟩
  · exact stuck_descending deferred descending same bare stuck settled
  · exact same_release deferred descending same bare stuck (hangs stuck)

end LinuxTla.CloseOrder
