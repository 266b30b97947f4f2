import Mathlib.Data.Finset.Max

/-! The least and the greatest hit of a bounded search, with a value for a
search that finds nothing. -/

namespace LinuxTla.Lib

variable {α : Type} [LinearOrder α]

def least (hits : Finset α) (absent : α) : α :=
  if found : hits.Nonempty then hits.min' found else absent

def greatest (hits : Finset α) (absent : α) : α :=
  if found : hits.Nonempty then hits.max' found else absent

theorem least_spec (hits : Finset α) (absent : α) :
    hits = ∅ ∧ least hits absent = absent ∨
      least hits absent ∈ hits ∧ ∀ x ∈ hits, least hits absent ≤ x := by
  unfold least
  split
  next found => exact .inr ⟨hits.min'_mem found, fun x inside => hits.min'_le x inside⟩
  next none => exact .inl ⟨Finset.not_nonempty_iff_eq_empty.1 none, rfl⟩

theorem greatest_spec (hits : Finset α) (absent : α) :
    hits = ∅ ∧ greatest hits absent = absent ∨
      greatest hits absent ∈ hits ∧ ∀ x ∈ hits, x ≤ greatest hits absent := by
  unfold greatest
  split
  next found => exact .inr ⟨hits.max'_mem found, fun x inside => hits.le_max' x inside⟩
  next none => exact .inl ⟨Finset.not_nonempty_iff_eq_empty.1 none, rfl⟩

end LinuxTla.Lib
