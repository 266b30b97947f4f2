import Mathlib.Data.List.Nodup
import Mathlib.Logic.Function.Basic

/-! Resources on the stacks of their owners. Every resource knows its owner, so that no
two stacks share one and a stack has it once. -/

namespace LinuxTla.Lib

variable {α : Type u} {β : Type v}

structure Stacks (own : α → List β) (owner : β → Option α) : Prop where
  mem : ∀ a x, x ∈ own a ↔ owner x = some a
  nodup : ∀ a, (own a).Nodup

namespace Stacks

variable {own : α → List β} {owner : β → Option α} (valid : Stacks own owner)

include valid

theorem eq_of_mem {a b : α} {x : β} (first : x ∈ own a) (second : x ∈ own b) : a = b := by
  have := ((valid.mem a x).mp first).symm.trans ((valid.mem b x).mp second)
  exact Option.some.inj this

variable [DecidableEq α] [DecidableEq β]

theorem push {a : α} {x : β} (free : owner x = none) :
    Stacks (Function.update own a (x :: own a)) (Function.update owner x (some a)) := by
  have fresh (b : α) : x ∉ own b := by
    intro inside
    have := (valid.mem b x).mp inside
    rw [free] at this
    cases this
  refine ⟨fun b y => ?_, fun b => ?_⟩
  · obtain rfl | other := eq_or_ne b a
    · rw [Function.update_self, List.mem_cons]
      obtain rfl | differs := eq_or_ne y x
      · rw [Function.update_self]
        exact iff_of_true (.inl rfl) rfl
      · rw [Function.update_of_ne differs, valid.mem]
        exact or_iff_right differs
    · rw [Function.update_of_ne other]
      obtain rfl | differs := eq_or_ne y x
      · rw [Function.update_self]
        exact iff_of_false (fresh b) fun same => other (Option.some.inj same).symm
      · rw [Function.update_of_ne differs, valid.mem]
  · obtain rfl | other := eq_or_ne b a
    · rw [Function.update_self]
      exact List.nodup_cons.mpr ⟨fresh b, valid.nodup b⟩
    · rw [Function.update_of_ne other]
      exact valid.nodup b

theorem pop {a : α} {x : β} {rest : List β} (top : own a = x :: rest) :
    Stacks (Function.update own a rest) (Function.update owner x none) := by
  have held : x ∈ own a := by
    rw [top]
    exact List.mem_cons_self
  have once : x ∉ rest ∧ rest.Nodup := by
    have := valid.nodup a
    rw [top] at this
    exact List.nodup_cons.mp this
  refine ⟨fun b y => ?_, fun b => ?_⟩
  · obtain rfl | other := eq_or_ne b a
    · rw [Function.update_self]
      obtain rfl | differs := eq_or_ne y x
      · rw [Function.update_self]
        exact iff_of_false once.1 nofun
      · rw [Function.update_of_ne differs, ← valid.mem, top, List.mem_cons]
        exact (or_iff_right differs).symm
    · rw [Function.update_of_ne other]
      obtain rfl | differs := eq_or_ne y x
      · rw [Function.update_self]
        exact iff_of_false (fun inside => other (valid.eq_of_mem inside held)) nofun
      · rw [Function.update_of_ne differs, valid.mem]
  · obtain rfl | other := eq_or_ne b a
    · rw [Function.update_self]
      exact once.2
    · rw [Function.update_of_ne other]
      exact valid.nodup b

end Stacks

end LinuxTla.Lib
