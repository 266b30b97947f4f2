import LinuxTla.CloseOrder.Order

/-! Which dependencies hang which discipline: each walk comes through exactly if whatever a
flush or a release waits for has its own release earlier in that walk. -/

namespace LinuxTla.CloseOrder

open Lib

variable (n : ℕ)

def flushAt (d : Discipline) (i : ℕ) : ℕ :=
  match d with
  | .deferred => i
  | .ascending => 2 * i - 1
  | .descending => 2 * (n + 1 - i) - 1

def releaseAt (d : Discipline) (i : ℕ) : ℕ :=
  match d with
  | .deferred => 2 * n + 1 - i
  | .ascending => 2 * i
  | .descending => 2 * (n + 1 - i)

/-- Nothing waits for what comes later: the deferred puts flush before they release anything,
and the synchronous walks go one way. -/
def Suits (s : State) (d : Discipline) : Prop :=
  ∀ i ∈ fds n, match d with
    | .deferred => s.flushWaits i = ∅ ∧ ∀ j ∈ s.relWaits i, i < j
    | .ascending => (∀ j ∈ s.flushWaits i, j < i) ∧ ∀ j ∈ s.relWaits i, j < i
    | .descending => (∀ j ∈ s.flushWaits i, i < j) ∧ ∀ j ∈ s.relWaits i, i < j

variable {n} {s t : State} {d : Discipline} {i j k : ℕ}

theorem steps_flushAt (inside : i ∈ fds n) : 1 ≤ flushAt n d i ∧ flushAt n d i ≤ 2 * n ∧ steps n d (flushAt n d i) = .flush i := by
  obtain ⟨first, last⟩ := Finset.mem_Icc.mp inside
  cases d with
  | deferred => exact ⟨first, by rw [flushAt]; omega, if_pos last⟩
  | ascending =>
    have odd : (2 * i - 1) % 2 = 1 := by omega
    have back : (2 * i - 1 + 1) / 2 = i := by omega
    refine ⟨by rw [flushAt]; omega, by rw [flushAt]; omega, ?_⟩
    rw [flushAt, steps, if_pos odd, back]
  | descending =>
    have odd : (2 * (n + 1 - i) - 1) % 2 = 1 := by omega
    have back : n + 1 - (2 * (n + 1 - i) - 1 + 1) / 2 = i := by omega
    refine ⟨by rw [flushAt]; omega, by rw [flushAt]; omega, ?_⟩
    rw [flushAt, steps, if_pos odd, back]

theorem steps_releaseAt (inside : i ∈ fds n) :
    1 ≤ releaseAt n d i ∧ releaseAt n d i ≤ 2 * n ∧ steps n d (releaseAt n d i) = .release i := by
  obtain ⟨first, last⟩ := Finset.mem_Icc.mp inside
  cases d with
  | deferred => exact ⟨by rw [releaseAt]; omega, by rw [releaseAt]; omega, steps_release first last⟩
  | ascending =>
    have even : ¬ 2 * i % 2 = 1 := by omega
    have back : 2 * i / 2 = i := by omega
    refine ⟨by rw [releaseAt]; omega, by rw [releaseAt]; omega, ?_⟩
    rw [releaseAt, steps, if_neg even, back]
  | descending =>
    have even : ¬ 2 * (n + 1 - i) % 2 = 1 := by omega
    have back : n + 1 - 2 * (n + 1 - i) / 2 = i := by omega
    refine ⟨by rw [releaseAt]; omega, by rw [releaseAt]; omega, ?_⟩
    rw [releaseAt, steps, if_neg even, back]

theorem steps_cases (first : 1 ≤ k) (last : k ≤ 2 * n) :
    ∃ i ∈ fds n, steps n d k = .flush i ∧ k = flushAt n d i ∨ steps n d k = .release i ∧ k = releaseAt n d i := by
  cases d with
  | deferred =>
    obtain ⟨m, low, high, here⟩ := deferred_at (n := n) first last
    exact ⟨m, Finset.mem_Icc.mpr ⟨low, high⟩, here⟩
  | descending =>
    obtain ⟨m, low, high, here⟩ := descending_at (n := n) first last
    exact ⟨m, Finset.mem_Icc.mpr ⟨low, high⟩, here⟩
  | ascending =>
    rcases Nat.mod_two_eq_zero_or_one k with even | odd
    · refine ⟨k / 2, Finset.mem_Icc.mpr ⟨by omega, by omega⟩, .inr ⟨if_neg (by omega), ?_⟩⟩
      rw [releaseAt]
      omega
    · refine ⟨(k + 1) / 2, Finset.mem_Icc.mpr ⟨by omega, by omega⟩, .inl ⟨if_pos odd, ?_⟩⟩
      rw [flushAt]
      omega

theorem before_iff (upto : k ≤ 2 * n + 1) : Before n d k i ↔ i ∈ fds n ∧ releaseAt n d i < k := by
  constructor
  · rintro ⟨l, first, earlier, release⟩
    obtain ⟨m, inside, ⟨flush, _⟩ | ⟨release', here⟩⟩ := steps_cases (n := n) (d := d) first (by omega : l ≤ 2 * n)
    · cases flush.symm.trans release
    · obtain rfl : i = m := Call.release.inj (release.symm.trans release')
      exact ⟨inside, here ▸ earlier⟩
  · rintro ⟨inside, earlier⟩
    obtain ⟨first, _, release⟩ := steps_releaseAt (d := d) inside
    exact ⟨releaseAt n d i, first, earlier, release⟩

theorem suits_iff (deps : Deps n s.flushWaits ∧ Deps n s.relWaits) : Suits n s d ↔ ∀ i ∈ fds n,
    (∀ j ∈ s.flushWaits i, releaseAt n d j < flushAt n d i) ∧ ∀ j ∈ s.relWaits i, releaseAt n d j < releaseAt n d i := by
  refine forall₂_congr fun i inside => ?_
  obtain ⟨_, last⟩ := Finset.mem_Icc.mp inside
  have flush (j : ℕ) (needed : j ∈ s.flushWaits i) : 1 ≤ j ∧ j ≤ n := Finset.mem_Icc.mp ((deps.1 i inside).1 needed)
  have release (j : ℕ) (needed : j ∈ s.relWaits i) : 1 ≤ j ∧ j ≤ n := Finset.mem_Icc.mp ((deps.2 i inside).1 needed)
  cases d with
  | deferred =>
    refine and_congr ⟨fun none j needed => ?_, fun earlier => ?_⟩ (forall₂_congr fun j needed => ?_)
    · rw [none] at needed
      exact absurd needed (Finset.notMem_empty j)
    · refine Finset.eq_empty_of_forall_notMem fun j needed => ?_
      have := flush j needed
      have before := earlier j needed
      simp only [releaseAt, flushAt] at before
      omega
    · have := release j needed
      simp only [releaseAt]
      omega
  | ascending | descending =>
    refine and_congr (forall₂_congr fun j needed => ?_) (forall₂_congr fun j needed => ?_)
    · have := flush j needed
      simp only [releaseAt, flushAt]
      omega
    · have := release j needed
      simp only [releaseAt]
      omega

theorem deps (n : ℕ) : (spec n).Invariant fun s => Deps n s.flushWaits ∧ Deps n s.relWaits := by
  apply System.Invariant.of_step
  · exact fun s start => ⟨start.flushWaits, start.relWaits⟩
  · rintro s t known ⟨d, _, _, rfl⟩
    exact known

/-- A walk that is done met what every call waits for. -/
theorem Walked.suits (walked : Walked n s d) (deps : Deps n s.flushWaits ∧ Deps n s.relWaits) (done : Done n s d) : Suits n s d := by
  have finished : 2 * n < s.pos d := done
  rw [suits_iff deps]
  intro i inside
  obtain ⟨first, last, flush⟩ := steps_flushAt (d := d) inside
  obtain ⟨first', last', release⟩ := steps_releaseAt (d := d) inside
  refine ⟨fun j needed => ?_, fun j needed => ?_⟩
  · have met := walked.met _ first (by omega) j (by rw [flush]; exact needed)
    exact ((before_iff (by omega)).mp met).2
  · have met := walked.met _ first' (by omega) j (by rw [release]; exact needed)
    exact ((before_iff (by omega)).mp met).2

/-- A walk whose dependencies suit it waits nowhere. -/
theorem Walked.unstuck (walked : Walked n s d) (deps : Deps n s.flushWaits ∧ Deps n s.relWaits) (suits : Suits n s d) : ¬ Stuck n s d := by
  rintro ⟨more, waits⟩
  apply waits
  rw [suits_iff deps] at suits
  have last : s.pos d ≤ 2 * n := Nat.le_of_not_gt more
  intro j needed
  rw [walked.released j, before_iff (by omega)]
  obtain ⟨i, inside, ⟨flush, here⟩ | ⟨release, here⟩⟩ := steps_cases (d := d) walked.started last
  · rw [needsOf, flush] at needed
    change j ∈ s.flushWaits i at needed
    exact ⟨(deps.1 i inside).1 needed, here ▸ (suits i inside).1 j needed⟩
  · rw [needsOf, release] at needed
    change j ∈ s.relWaits i at needed
    exact ⟨(deps.2 i inside).1 needed, here ▸ (suits i inside).2 j needed⟩

/-- Whatever waits for what, each discipline hangs exactly if something waits for a later call
of its walk. The descending walk comes through wherever the deferred puts do; the ascending walk
and another one both come through only if nothing waits at all. -/
theorem hangs_iff (n : ℕ) : (spec n).Invariant fun s =>
    (∀ d, Settled n s d → (Stuck n s d ↔ ¬ Suits n s d)) ∧
      (Suits n s .deferred → Suits n s .descending) ∧
      (Suits n s .ascending → Suits n s .deferred ∨ Suits n s .descending → ∀ i ∈ fds n, s.flushWaits i = ∅ ∧ s.relWaits i = ∅) := by
  intro s reachable
  have walked := walked n s reachable
  have known := deps n s reachable
  refine ⟨fun d settled => ⟨fun stuck suits => (walked d).unstuck known suits stuck, fun unsuited => ?_⟩, fun suits i inside => ?_,
    fun up down i inside => ?_⟩
  · exact settled.resolve_left fun done => unsuited ((walked d).suits known done)
  · obtain ⟨none, higher⟩ := suits i inside
    refine ⟨fun j needed => ?_, higher⟩
    rw [none] at needed
    exact absurd needed (Finset.notMem_empty j)
  · obtain ⟨flushes, releases⟩ := up i inside
    refine ⟨Finset.eq_empty_of_forall_notMem fun j needed => ?_, Finset.eq_empty_of_forall_notMem fun j needed => ?_⟩
    · have lower := flushes j needed
      obtain down | down := down
      · rw [(down i inside).1] at needed
        exact Finset.notMem_empty j needed
      · exact absurd lower (Nat.lt_asymm ((down i inside).1 j needed))
    · have lower := releases j needed
      obtain down | down := down
      · exact absurd lower (Nat.lt_asymm ((down i inside).2 j needed))
      · exact absurd lower (Nat.lt_asymm ((down i inside).2 j needed))

end LinuxTla.CloseOrder
