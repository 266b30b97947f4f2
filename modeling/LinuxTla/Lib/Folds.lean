import Mathlib.Data.List.Basic

/-! Rules for loops that may have no result: a fold in `Option` keeps what one
round keeps, and has a result when every round has one. -/

namespace LinuxTla.Lib

variable {σ : Type u} {α : Type v} {f : σ → α → Option σ}

theorem foldlM_keeps {P : σ → Prop} {l : List α}
    (round : ∀ s a s', a ∈ l → P s → f s a = some s' → P s') {s s' : σ}
    (start : P s) (run : l.foldlM f s = some s') : P s' := by
  induction l generalizing s with
  | nil => cases run; exact start
  | cons a l ih =>
    rw [List.foldlM_cons] at run
    obtain ⟨mid, first, rest⟩ := Option.bind_eq_some_iff.mp run
    exact ih (fun s a s' here => round s a s' (List.mem_cons_of_mem _ here)) (round _ _ _ List.mem_cons_self start first)
      rest

/-- An invariant that knows what has been gone through and what is left. -/
theorem foldlM_split {P : List α → List α → σ → Prop} {l : List α}
    (round : ∀ done a rest s s', l = done ++ a :: rest → P done (a :: rest) s → f s a = some s' →
      P (done ++ [a]) rest s')
    {s s' : σ} (start : P [] l s) (run : l.foldlM f s = some s') : P l [] s' := by
  suffices go : ∀ done rest s, l = done ++ rest → P done rest s → rest.foldlM f s = some s' → P l [] s' from
    go [] l s rfl start run
  intro done rest
  induction rest generalizing done with
  | nil =>
    intro s split holds stop
    cases stop
    rw [List.append_nil] at split
    rwa [split]
  | cons a rest ih =>
    intro s split holds run
    rw [List.foldlM_cons] at run
    obtain ⟨mid, first, later⟩ := Option.bind_eq_some_iff.mp run
    exact ih (done ++ [a]) mid (by rw [split, List.append_assoc]; rfl) (round done a rest s mid split holds first) later

/-- A loop every round of which has a result has one, and keeps what they keep. -/
theorem foldlM_total {P : List α → List α → σ → Prop} {l : List α}
    (round : ∀ done a rest s, l = done ++ a :: rest → P done (a :: rest) s →
      ∃ s', f s a = some s' ∧ P (done ++ [a]) rest s')
    {s : σ} (start : P [] l s) : ∃ s', l.foldlM f s = some s' ∧ P l [] s' := by
  suffices go : ∀ rest done s, l = done ++ rest → P done rest s → ∃ s', rest.foldlM f s = some s' ∧ P l [] s' from
    go l [] s rfl start
  intro rest
  induction rest with
  | nil =>
    intro done s split holds
    rw [List.append_nil] at split
    exact ⟨s, rfl, split ▸ holds⟩
  | cons a rest ih =>
    intro done s split holds
    obtain ⟨mid, first, holds'⟩ := round done a rest s split holds
    obtain ⟨s', later, last⟩ := ih (done ++ [a]) mid (by rw [split, List.append_assoc]; rfl) holds'
    exact ⟨s', by rw [List.foldlM_cons, first]; exact later, last⟩

theorem foldl_keeps {g : σ → α → σ} {P : σ → Prop} {l : List α} (round : ∀ s a, a ∈ l → P s → P (g s a)) {s : σ}
    (start : P s) : P (l.foldl g s) := by
  induction l generalizing s with
  | nil => exact start
  | cons a l ih =>
    exact ih (fun s a here => round s a (List.mem_cons_of_mem _ here)) (round s a List.mem_cons_self start)

end LinuxTla.Lib
