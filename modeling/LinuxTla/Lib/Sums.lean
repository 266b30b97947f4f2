import Mathlib.Algebra.BigOperators.Group.Finset.Basic
import Mathlib.Algebra.Order.BigOperators.Group.Finset
import Mathlib.Algebra.Order.Group.Int

/-! Integer sums over a finite set when only one summand changes. -/

namespace LinuxTla.Lib

variable {ι : Type*} [DecidableEq ι] {s : Finset ι} {f g : ι → ℤ} {i : ι}

theorem sum_change (member : i ∈ s) (same : ∀ j ∈ s, j ≠ i → f j = g j) :
    ∑ j ∈ s, f j = ∑ j ∈ s, g j + (f i - g i) := by
  have first := Finset.add_sum_erase s f member
  have second := Finset.add_sum_erase s g member
  have rest : ∑ j ∈ s.erase i, f j = ∑ j ∈ s.erase i, g j :=
    Finset.sum_congr rfl fun j inside => same j (Finset.mem_of_mem_erase inside) (Finset.ne_of_mem_erase inside)
  omega

omit [DecidableEq ι] in
theorem eq_zero_of_sum_le (nonneg : ∀ j ∈ s, 0 ≤ f j) (bound : ∑ j ∈ s, f j ≤ 0) : ∀ j ∈ s, f j = 0 :=
  (Finset.sum_eq_zero_iff_of_nonneg nonneg).mp (le_antisymm bound (Finset.sum_nonneg nonneg))

end LinuxTla.Lib
