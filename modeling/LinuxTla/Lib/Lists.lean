import Mathlib.Data.List.Infix
import Mathlib.Data.List.Nodup
import Mathlib.Data.List.Flatten

/-! Order on linked lists: what stands next to what, and between what, after an
insertion, a deletion or a splice. -/

namespace LinuxTla.Lib

open List

variable {α : Type u} {β : Type v}

/-! ### Insertion behind an entry -/

section InsertAfter

variable [DecidableEq α]

/-- `new` goes right after `old`. -/
def insertAfter : List α → α → α → List α
  | [], _, _ => []
  | y :: s, x, new => if y = x then y :: new :: s else y :: insertAfter s x new

theorem insertAfter_split {l : List α} {old : α} (mem : old ∈ l) (new : α) :
    ∃ before after, l = before ++ old :: after ∧ insertAfter l old new = before ++ old :: new :: after := by
  induction l with
  | nil => cases mem
  | cons y l ih =>
    by_cases here : y = old
    · exact ⟨[], l, by rw [here]; rfl, by rw [insertAfter, if_pos here, here]; rfl⟩
    · obtain ⟨before, after, split, split'⟩ := ih ((mem_cons.mp mem).resolve_left fun h => here h.symm)
      exact ⟨y :: before, after, by rw [split]; rfl, by rw [insertAfter, if_neg here, split']; rfl⟩

theorem mem_insertAfter {l : List α} {old new x : α} (mem : old ∈ l) :
    x ∈ insertAfter l old new ↔ x = new ∨ x ∈ l := by
  obtain ⟨before, after, split, split'⟩ := insertAfter_split mem new
  rw [split', split]
  simp only [mem_append, mem_cons]
  tauto

theorem nodup_insertAfter {l : List α} {old new : α} (mem : old ∈ l) (nodup : l.Nodup) (absent : new ∉ l) :
    (insertAfter l old new).Nodup := by
  obtain ⟨before, after, split, split'⟩ := insertAfter_split mem new
  rw [split] at nodup absent
  rw [split']
  simp only [nodup_append, nodup_cons, mem_append, mem_cons, not_or] at nodup absent ⊢
  grind

end InsertAfter

/-! ### What stands between -/

/-- Around an entry that occurs once, a subsequence splits where the list does. -/
theorem sublist_split {l₁ l₂ p q : List α} {z : α} (fresh₁ : z ∉ l₁) (fresh₂ : z ∉ l₂)
    (sub : p ++ z :: q <+ l₁ ++ z :: l₂) : p <+ l₁ ∧ q <+ l₂ := by
  have absent : ∀ {u : List α}, ¬ (u ++ z :: q <+ l₂) := fun {u} sub =>
    fresh₂ (sub.subset (mem_append_right u mem_cons_self))
  induction l₁ generalizing p with
  | nil =>
    cases p with
    | nil => exact ⟨.slnil, cons_sublist_cons.mp sub⟩
    | cons x p =>
      rcases cons_sublist_cons'.mp sub with skip | ⟨-, take⟩
      · exact absurd skip (absent (u := x :: p))
      · exact absurd take absent
  | cons h t ih =>
    have fresh_t : z ∉ t := fun mem => fresh₁ (mem_cons_of_mem h mem)
    cases p with
    | nil =>
      rcases cons_sublist_cons'.mp sub with skip | ⟨same, -⟩
      · exact ⟨nil_sublist _, (ih (p := []) fresh_t skip).2⟩
      · exact absurd (same ▸ mem_cons_self) fresh₁
    | cons x p =>
      rcases cons_sublist_cons'.mp sub with skip | ⟨same, take⟩
      · exact ⟨(ih (p := x :: p) fresh_t skip).1.cons h, (ih (p := x :: p) fresh_t skip).2⟩
      · exact ⟨same ▸ (ih fresh_t take).1.cons_cons x, (ih fresh_t take).2⟩

theorem sublist_pair_trans {l : List α} {a b c : α} (nodup : l.Nodup) (first : [a, b] <+ l) (second : [b, c] <+ l) :
    [a, c] <+ l := by
  obtain ⟨l₁, l₂, rfl⟩ := append_of_mem (second.subset mem_cons_self)
  have fresh := (nodup_cons.mp (nodup_middle.mp nodup)).1
  rw [mem_append, not_or] at fresh
  have before := (sublist_split (p := [a]) (q := []) fresh.1 fresh.2 first).1
  have behind := (sublist_split (p := []) (q := [c]) fresh.1 fresh.2 second).2
  exact before.append (behind.trans (sublist_cons_self b l₂))

theorem sublist_three {l₁ l₂ : List α} {a b c : α} (sub : [a, b, c] <+ l₁ ++ l₂) :
    [a, b, c] <+ l₁ ∨ [a, b, c] <+ l₂ ∨ a ∈ l₁ ∧ c ∈ l₂ := by
  obtain ⟨xs, ys, split, left, right⟩ := sublist_append_iff.mp sub
  rcases xs with _ | ⟨x, _ | ⟨y, _ | ⟨z, xs⟩⟩⟩ <;> simp only [nil_append, cons_append, cons.injEq] at split
  · exact .inr (.inl (split ▸ right))
  · obtain ⟨rfl, rfl⟩ := split
    exact .inr (.inr ⟨left.subset mem_cons_self, right.subset (by simp)⟩)
  · obtain ⟨rfl, rfl, rfl⟩ := split
    exact .inr (.inr ⟨left.subset mem_cons_self, right.subset (by simp)⟩)
  · obtain ⟨rfl, rfl, rfl, split⟩ := split
    obtain ⟨rfl, rfl⟩ := append_eq_nil_iff.mp split.symm
    exact .inl left

/-- Lists joined one after the other: what stands between two entries of one of them is in it too. -/
theorem sublist_flatMap {key : α → β} {block : β → List α} (own : ∀ z, ∀ x ∈ block z, key x = z) {zs : List β}
    (nodup : zs.Nodup) {a b c : α} (sub : [a, b, c] <+ zs.flatMap block) (same : key a = key c) :
    [a, b, c] <+ block (key a) := by
  induction zs with
  | nil => simp at sub
  | cons z zs ih =>
    rw [flatMap_cons] at sub
    rcases sublist_three sub with left | right | ⟨first, last⟩
    · rwa [own z a (left.subset mem_cons_self)]
    · exact ih nodup.of_cons right
    · obtain ⟨z', mem, mem'⟩ := mem_flatMap.mp last
      rw [own z a first, own z' c mem'] at same
      exact absurd (same ▸ mem) (nodup_cons.mp nodup).1

/-! ### What stands next to what -/

theorem infix_pair_cons {l : List α} {a b h : α} : [a, b] <:+: h :: l ↔ (a = h ∧ l.head? = some b) ∨ [a, b] <:+: l := by
  rw [infix_cons_iff]
  refine or_congr_left ?_
  cases l with
  | nil => simp
  | cons x l => simp [cons_prefix_cons, eq_comm]

theorem infix_pair_append {l₁ l₂ : List α} {a b : α} (pair : [a, b] <:+: l₁ ++ l₂) :
    [a, b] <:+: l₁ ∨ [a, b] <:+: l₂ ∨ l₁.getLast? = some a ∧ l₂.head? = some b := by
  induction l₁ with
  | nil => exact .inr (.inl pair)
  | cons h t ih =>
    rw [cons_append, infix_pair_cons] at pair
    rcases pair with ⟨rfl, head⟩ | rest
    · cases t with
      | nil => exact .inr (.inr ⟨rfl, head⟩)
      | cons x t =>
        cases head
        exact .inl (prefix_append [a, b] t).isInfix
    · rcases ih rest with left | right | ⟨last, head⟩
      · exact .inl (infix_cons left)
      · exact .inr (.inl right)
      · exact .inr (.inr ⟨by rw [getLast?_cons, last]; rfl, head⟩)

theorem infix_flatMap {key : α → β} {block : β → List α} (own : ∀ z, ∀ x ∈ block z, key x = z) {zs : List β}
    (nodup : zs.Nodup) {a b : α} (pair : [a, b] <:+: zs.flatMap block) (same : key a = key b) :
    [a, b] <:+: block (key a) := by
  induction zs with
  | nil => simp at pair
  | cons z zs ih =>
    rw [flatMap_cons] at pair
    rcases infix_pair_append pair with left | right | ⟨last, head⟩
    · rwa [own z a (left.subset mem_cons_self)]
    · exact ih nodup.of_cons right
    · obtain ⟨z', mem, mem'⟩ := mem_flatMap.mp (mem_of_mem_head? head)
      rw [own z a (mem_of_mem_getLast? last), own z' b mem'] at same
      exact absurd (same ▸ mem) (nodup_cons.mp nodup).1

theorem filter_head? {p : α → Bool} {l : List α} {b : α} (head : (l.filter p).head? = some b) :
    ∃ mid rest, l = mid ++ b :: rest ∧ ∀ v ∈ mid, p v = false := by
  induction l with
  | nil => cases head
  | cons x l ih =>
    rw [filter_cons] at head
    split at head
    · cases head
      exact ⟨[], l, rfl, nofun⟩
    · rename_i out
      obtain ⟨mid, rest, split, dropped⟩ := ih head
      refine ⟨x :: mid, rest, by rw [split]; rfl, fun v mem => ?_⟩
      rcases mem_cons.mp mem with rfl | mem
      · simpa using out
      · exact dropped v mem

/-- Neighbours after a deletion: only deleted entries stood between them. -/
theorem infix_filter {p : α → Bool} {l : List α} {a b : α} (pair : [a, b] <:+: l.filter p) :
    ∃ mid, a :: (mid ++ [b]) <:+: l ∧ ∀ v ∈ mid, p v = false := by
  induction l with
  | nil => simp at pair
  | cons x l ih =>
    rw [filter_cons] at pair
    have deeper : [a, b] <:+: l.filter p → ∃ mid, a :: (mid ++ [b]) <:+: x :: l ∧ ∀ v ∈ mid, p v = false := fun pair => by
      obtain ⟨mid, inside, dropped⟩ := ih pair
      exact ⟨mid, infix_cons inside, dropped⟩
    split at pair
    · rcases infix_pair_cons.mp pair with ⟨rfl, head⟩ | rest
      · obtain ⟨mid, rest, split, dropped⟩ := filter_head? head
        refine ⟨mid, ?_, dropped⟩
        rw [split]
        exact (prefix_append (a :: (mid ++ [b])) rest |>.isInfix).trans (by simp)
      · exact deeper rest
    · exact deeper pair

/-! ### Around an inserted entry -/

section InsertAfter

variable [DecidableEq α]

theorem sublist_insertAfter {l : List α} {old new a b c : α} (mem : old ∈ l) (absent : new ∉ l)
    (sub : [a, b, c] <+ insertAfter l old new) :
    (a = new ∧ b ∈ l ∧ c ∈ l ∧ [old, b, c] <+ l) ∨ (b = new ∧ a ∈ l ∧ c ∈ l ∧ (a = old ∨ [a, old, c] <+ l)) ∨
      (c = new ∧ a ∈ l ∧ b ∈ l ∧ (b = old ∨ [a, b, old] <+ l)) ∨ [a, b, c] <+ l := by
  obtain ⟨before, after, split, split'⟩ := insertAfter_split mem new
  rw [split', append_cons] at sub
  rw [split] at absent ⊢
  have fresh₁ : new ∉ before ++ [old] := fun h => absent (by simp at h ⊢; tauto)
  have fresh₂ : new ∉ after := fun h => absent (by simp [h])
  have cut : ∀ {p q}, p ++ new :: q <+ before ++ [old] ++ new :: after → p <+ before ++ [old] ∧ q <+ after :=
    sublist_split fresh₁ fresh₂
  have left_mem : ∀ {x}, x ∈ before ++ [old] → x ∈ before ++ old :: after := fun h => by simp at h ⊢; tauto
  have right_mem : ∀ {x}, x ∈ after → x ∈ before ++ old :: after := by simp +contextual
  by_cases a_new : a = new
  · subst a_new
    obtain ⟨-, right⟩ := cut (p := []) sub
    exact .inl ⟨rfl, right_mem (right.subset (by simp)), right_mem (right.subset (by simp)),
      (right.cons_cons old).trans (sublist_append_right ..)⟩
  by_cases b_new : b = new
  · subst b_new
    obtain ⟨left, right⟩ := cut (p := [a]) sub
    have a_mem := left.subset mem_cons_self
    refine .inr (.inl ⟨rfl, left_mem a_mem, right_mem (right.subset (by simp)), ?_⟩)
    rcases mem_append.mp a_mem with h | h
    · exact .inr (by simpa using (singleton_sublist.mpr h).append (right.cons_cons old))
    · exact .inl (mem_singleton.mp h)
  by_cases c_new : c = new
  · subst c_new
    obtain ⟨left, -⟩ := cut (p := [a, b]) sub
    refine .inr (.inr (.inl ⟨rfl, left_mem (left.subset (by simp)), left_mem (left.subset (by simp)), ?_⟩))
    rcases sublist_append_iff.mp left with ⟨xs, ys, split, first, last⟩
    rcases sublist_singleton.mp last with rfl | rfl
    · rw [append_nil] at split
      have sub := (split ▸ first).append (singleton_sublist.mpr (mem_cons_self (a := old) (l := after)))
      exact .inr sub
    · have ends : [a] ++ [b] = xs ++ [old] := split
      exact .inl (cons.inj (append_inj' ends rfl).2).1
  · refine .inr (.inr (.inr ?_))
    have keep : ∀ {l : List α}, new ∉ l → l.filter (· ≠ new) = l := fun out =>
      filter_eq_self.mpr fun x mem => decide_eq_true fun here : x = new => out (here ▸ mem)
    have apart : new ∉ [a, b, c] := by simp [Ne.symm a_new, Ne.symm b_new, Ne.symm c_new]
    have kept := sub.filter (· ≠ new)
    rw [keep apart, filter_append, keep fresh₁, filter_cons_of_neg (by simp), keep fresh₂] at kept
    rwa [append_cons]

theorem infix_insertAfter {l : List α} {old new a b : α} (mem : old ∈ l) (nodup : l.Nodup)
    (pair : [a, b] <:+: insertAfter l old new) :
    (a = new ∧ [old, b] <:+: l) ∨ (a = old ∧ b = new) ∨ a ≠ old ∧ [a, b] <:+: l := by
  obtain ⟨before, after, split, split'⟩ := insertAfter_split mem new
  rw [split', append_cons] at pair
  rw [split] at nodup ⊢
  have old_before : old ∉ before := fun mem => (nodup_append.mp nodup).2.2 old mem old mem_cons_self rfl
  have old_after : old ∉ after := (nodup_cons.mp (nodup_append.mp nodup).2.1).1
  rcases infix_pair_append pair with left | right | ⟨last, head⟩
  · have part : before ++ [old] <:+: before ++ old :: after := by
      rw [append_cons before old after]
      exact (prefix_append _ after).isInfix
    refine .inr (.inr ⟨fun here => ?_, left.trans part⟩)
    have := (sublist_split (p := []) old_before not_mem_nil (here ▸ left.sublist)).2
    simp at this
  · rcases infix_pair_cons.mp right with ⟨same, head⟩ | inside
    · exact .inl ⟨same, (infix_pair_cons.mpr (.inl ⟨rfl, head⟩)).trans (suffix_append ..).isInfix⟩
    · exact .inr (.inr ⟨fun here => old_after (here ▸ inside.subset mem_cons_self),
        inside.trans ((infix_cons (infix_refl _)).trans (suffix_append ..).isInfix)⟩)
  · cases head
    rw [getLast?_append] at last
    obtain rfl : old = a := Option.some.inj last
    exact .inr (.inl ⟨rfl, rfl⟩)

end InsertAfter

end LinuxTla.Lib
