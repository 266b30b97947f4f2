import Mathlib.Algebra.Group.Pi.Basic
import Mathlib.Algebra.GroupWithZero.Nat
import Mathlib.Data.Finset.Card
import Mathlib.Data.Fintype.Basic
import Mathlib.Tactic.Common

/-! Counting who refers to what: counts are functions that add up, and the size of a
set of holders changes with one of them. -/

namespace LinuxTla.Lib

variable {α : Type} [DecidableEq α] {a b : α} {s t : Finset α}

def one (a : α) : α → ℕ := fun b => if b = a then 1 else 0

@[simp] theorem one_self (a : α) : one a a = 1 := if_pos rfl

@[simp] theorem one_other (other : b ≠ a) : one a b = 0 := if_neg other

def members (s : Finset α) : α → ℕ := fun b => if b ∈ s then 1 else 0

theorem members_mem (inside : b ∈ s) : members s b = 1 := if_pos inside

theorem members_notMem (outside : b ∉ s) : members s b = 0 := if_neg outside

@[simp] theorem members_empty : members (∅ : Finset α) = 0 := rfl

@[simp] theorem members_singleton : members {a} = one a := by
  funext b
  simp [members, one]

theorem members_erase (inside : a ∈ s) : members s = members (s.erase a) + one a := by
  funext b
  by_cases here : b = a
  · subst here
    simp [members, inside]
  · simp [members, here]

theorem members_union (apart : Disjoint s t) : members (s ∪ t) = members s + members t := by
  funext b
  simp only [members, Finset.mem_union, Pi.add_apply]
  by_cases first : b ∈ s
  · have second : b ∉ t := Finset.disjoint_left.mp apart first
    simp [first, second]
  · simp [first]

/-- Two counts that differ at most in one element. -/
theorem card_filter_drop [Fintype α] {p q : α → Prop} [DecidablePred p] [DecidablePred q]
    (other : ∀ b, b ≠ a → (p b ↔ q b)) (gone : ¬ q a) :
    (Finset.univ.filter p).card = (Finset.univ.filter q).card + if p a then 1 else 0 := by
  have absent : a ∉ Finset.univ.filter q := by simp [gone]
  split
  · case isTrue here =>
    have grown : Finset.univ.filter p = insert a (Finset.univ.filter q) := by
      ext b
      by_cases same : b = a
      · subst same; simp [here]
      · simp [same, other b same]
    rw [grown, Finset.card_insert_of_notMem absent]
  · case isFalse here =>
    have kept : Finset.univ.filter p = Finset.univ.filter q := by
      ext b
      by_cases same : b = a
      · subst same; simp [here, gone]
      · simp [other b same]
    rw [kept, Nat.add_zero]

end LinuxTla.Lib
