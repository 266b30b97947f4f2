import Mathlib.Algebra.BigOperators.Intervals
import Mathlib.Algebra.Order.BigOperators.Group.Finset
import Mathlib.Algebra.Order.Group.Int
import Mathlib.Order.Interval.Finset.Nat

/-! A counter split into gets and puts, one pair for each CPU, and the sum that
reads the puts of every CPU first and the gets second. Both only grow, so what the
first pass takes off stays accounted for. -/

namespace LinuxTla.Lib.SplitCount

def cpus (ncpu : ℕ) : Finset ℕ := Finset.Icc 1 ncpu

def load (ncpu : ℕ) (puts gets : ℕ → ℤ) (i : ℕ) : ℤ := if i ≤ ncpu then -puts i else gets (i - ncpu)

/-- What the first pass still has to take off again. -/
def passOne (puts : ℕ → ℤ) (acc : ℤ) (i : ℕ) : ℤ := acc + ∑ c ∈ Finset.Ico 1 i, puts c

def passTwo (ncpu : ℕ) (gets : ℕ → ℤ) (acc : ℤ) (i : ℕ) : ℤ :=
  acc + ∑ c ∈ Finset.Ico (i - ncpu) (ncpu + 1), gets c

variable {ncpu i : ℕ} {puts gets puts' gets' : ℕ → ℤ} {acc : ℤ}

theorem passOne_load (started : 1 ≤ i) (pass : i ≤ ncpu) :
    passOne puts (acc + load ncpu puts gets i) (i + 1) = passOne puts acc i := by
  simp only [passOne, load, if_pos pass]
  rw [Finset.sum_Ico_succ_top started]
  omega

/-- Between the passes the puts are all counted and no get is. -/
theorem pass_turn (puts gets : ℕ → ℤ) (acc : ℤ) (started : 1 ≤ i) (last : i = ncpu) :
    passTwo ncpu gets (acc + load ncpu puts gets i) (i + 1) =
      passOne puts acc i + (∑ c ∈ cpus ncpu, gets c - ∑ c ∈ cpus ncpu, puts c) := by
  have whole : cpus ncpu = Finset.Ico 1 (ncpu + 1) := rfl
  have top := Finset.sum_Ico_succ_top started puts
  simp only [passTwo, passOne, load, whole, if_pos last.le, show i + 1 - ncpu = 1 by omega]
  rw [last] at top ⊢
  omega

theorem passTwo_load (past : ncpu < i) (more : i ≤ 2 * ncpu) :
    passTwo ncpu gets (acc + load ncpu puts gets i) (i + 1) = passTwo ncpu gets acc i := by
  simp only [passTwo, load, if_neg (show ¬ i ≤ ncpu by omega)]
  rw [show i + 1 - ncpu = i - ncpu + 1 by omega, Finset.sum_eq_sum_Ico_succ_bot (a := i - ncpu) (by omega)]
  omega

theorem passTwo_done (ended : 2 * ncpu < i) : passTwo ncpu gets acc i = acc := by
  rw [passTwo, Finset.Ico_eq_empty (by omega)]
  simp

theorem passOne_mono (grow : ∀ c, puts c ≤ puts' c) : passOne puts acc i ≤ passOne puts' acc i := by
  have : ∑ c ∈ Finset.Ico 1 i, puts c ≤ ∑ c ∈ Finset.Ico 1 i, puts' c := Finset.sum_le_sum fun c _ => grow c
  unfold passOne
  omega

theorem passTwo_mono (grow : ∀ c, gets c ≤ gets' c) : passTwo ncpu gets acc i ≤ passTwo ncpu gets' acc i := by
  have : ∑ c ∈ Finset.Ico (i - ncpu) (ncpu + 1), gets c ≤ ∑ c ∈ Finset.Ico (i - ncpu) (ncpu + 1), gets' c :=
    Finset.sum_le_sum fun c _ => grow c
  unfold passTwo
  omega

/-! ### A lower bound -/

/-- However the sum goes on it will come out at `bound` or above. -/
structure AtLeast (ncpu : ℕ) (puts gets : ℕ → ℤ) (bound acc : ℤ) (i : ℕ) : Prop where
  started : 1 ≤ i
  first : i ≤ ncpu → 0 ≤ passOne puts acc i
  second : ncpu < i → bound ≤ passTwo ncpu gets acc i

variable {bound bound' : ℤ}

theorem AtLeast.start (cpus : 1 ≤ ncpu) : AtLeast ncpu puts gets bound 0 1 :=
  ⟨le_rfl, fun _ => by simp [passOne], fun past => by omega⟩

theorem AtLeast.mono (ok : AtLeast ncpu puts gets bound acc i) (fewer : bound' ≤ bound)
    (grow : ∀ c, puts c ≤ puts' c ∧ gets c ≤ gets' c) : AtLeast ncpu puts' gets' bound' acc i where
  started := ok.started
  first before := (ok.first before).trans (passOne_mono fun c => (grow c).1)
  second past := (fewer.trans (ok.second past)).trans (passTwo_mono fun c => (grow c).2)

theorem AtLeast.load (ok : AtLeast ncpu puts gets bound acc i) (more : i ≤ 2 * ncpu)
    (seen : bound ≤ ∑ c ∈ cpus ncpu, gets c - ∑ c ∈ cpus ncpu, puts c) :
    AtLeast ncpu puts gets bound (acc + SplitCount.load ncpu puts gets i) (i + 1) := by
  have started := ok.started
  refine ⟨by omega, fun before => ?_, fun past => ?_⟩
  · exact (ok.first (by omega)).trans_eq (passOne_load started (by omega)).symm
  · by_cases pass : i ≤ ncpu
    · have first := ok.first pass
      have turn := pass_turn puts gets acc started (show i = ncpu by omega)
      omega
    · exact (ok.second (by omega)).trans_eq (passTwo_load (by omega) more).symm

theorem AtLeast.finish (ok : AtLeast ncpu puts gets bound acc i) (ended : 2 * ncpu < i) : bound ≤ acc := by
  have := ok.second (by omega)
  rwa [passTwo_done ended] at this

/-! ### Nothing left -/

structure Zero (ncpu : ℕ) (puts gets : ℕ → ℤ) (acc : ℤ) (i : ℕ) : Prop where
  started : 1 ≤ i
  first : i ≤ ncpu → passOne puts acc i = 0
  second : ncpu < i → passTwo ncpu gets acc i = 0

theorem Zero.start (cpus : 1 ≤ ncpu) : Zero ncpu puts gets 0 1 :=
  ⟨le_rfl, fun _ => by simp [passOne], fun past => by omega⟩

theorem Zero.load (ok : Zero ncpu puts gets acc i) (more : i ≤ 2 * ncpu)
    (seen : ∑ c ∈ cpus ncpu, gets c = ∑ c ∈ cpus ncpu, puts c) :
    Zero ncpu puts gets (acc + SplitCount.load ncpu puts gets i) (i + 1) := by
  have started := ok.started
  refine ⟨by omega, fun before => ?_, fun past => ?_⟩
  · exact (passOne_load started (by omega)).trans (ok.first (by omega))
  · by_cases pass : i ≤ ncpu
    · have first := ok.first pass
      have turn := pass_turn puts gets acc started (show i = ncpu by omega)
      omega
    · exact (passTwo_load (by omega) more).trans (ok.second (by omega))

theorem Zero.finish (ok : Zero ncpu puts gets acc i) (ended : 2 * ncpu < i) : acc = 0 := by
  have := ok.second (by omega)
  rwa [passTwo_done ended] at this

end LinuxTla.Lib.SplitCount
