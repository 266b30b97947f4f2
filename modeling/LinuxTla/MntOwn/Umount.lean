import LinuxTla.MntOwn.Cleanup

/-! umount_tree() keeps the books: a victim's own reference passes to the unmounted
list or to its parent. -/

namespace LinuxTla.MntOwn

open Lib

variable {M S : Type} [Fintype M] [LinearOrder M] {cfg : Config M S}
  {st after : Tables M S} {ext hand : M → ℕ} {owe : S → ℕ} {busy : Option M} {due : Finset M} {m x p : M} {s b : S}

/-! ### The subtree -/

theorem mem_subtreeTo_self (k : ℕ) : m ∈ st.subtreeTo k m := by
  cases k with
  | zero => exact Finset.mem_singleton_self m
  | succ k => exact Finset.mem_insert_self m _

theorem mem_subtreeTo_succ {k : ℕ} :
    x ∈ st.subtreeTo (k + 1) m ↔ x = m ∨ ∃ c ∈ st.children m, x ∈ st.subtreeTo k c := by
  simp [Tables.subtreeTo]

theorem subtreeTo_mono {j k : ℕ} (order : j ≤ k) (inside : x ∈ st.subtreeTo j m) : x ∈ st.subtreeTo k m := by
  induction k generalizing j m with
  | zero =>
    obtain rfl : j = 0 := by omega
    exact inside
  | succ k ih =>
    cases j with
    | zero =>
      obtain rfl := Finset.mem_singleton.mp inside
      exact mem_subtreeTo_self _
    | succ j =>
      rcases mem_subtreeTo_succ.mp inside with rfl | ⟨c, child, inside⟩
      · exact mem_subtreeTo_self _
      · exact mem_subtreeTo_succ.mpr (.inr ⟨c, child, ih (by omega) inside⟩)

theorem subtreeTo_child {k : ℕ} (inside : x ∈ st.subtreeTo k m) (child : p ∈ st.children x) :
    p ∈ st.subtreeTo (k + 1) m := by
  induction k generalizing m with
  | zero =>
    obtain rfl := Finset.mem_singleton.mp inside
    exact mem_subtreeTo_succ.mpr (.inr ⟨p, child, mem_subtreeTo_self _⟩)
  | succ k ih =>
    rcases mem_subtreeTo_succ.mp inside with rfl | ⟨c, below, inside⟩
    · exact mem_subtreeTo_succ.mpr (.inr ⟨p, child, mem_subtreeTo_self _⟩)
    · exact mem_subtreeTo_succ.mpr (.inr ⟨c, below, ih inside⟩)

/-- A mount is found as deep as its rank says. -/
theorem subtreeTo_rank {rank : M → ℕ} (falls : ∀ x c, c ∈ st.children x → rank x < rank c) {k : ℕ}
    (inside : x ∈ st.subtreeTo k m) : rank m ≤ rank x ∧ x ∈ st.subtreeTo (rank x - rank m) m := by
  induction k generalizing m with
  | zero =>
    obtain rfl := Finset.mem_singleton.mp inside
    exact ⟨le_rfl, mem_subtreeTo_self _⟩
  | succ k ih =>
    rcases mem_subtreeTo_succ.mp inside with rfl | ⟨c, below, inside⟩
    · exact ⟨le_rfl, mem_subtreeTo_self _⟩
    · have deeper := falls m c below
      obtain ⟨order, inside⟩ := ih inside
      refine ⟨by omega, subtreeTo_mono (show rank x - rank c + 1 ≤ rank x - rank m by omega) ?_⟩
      exact mem_subtreeTo_succ.mpr (.inr ⟨c, below, inside⟩)

theorem mem_subtree_self : m ∈ st.subtree m := mem_subtreeTo_self _

variable [Fintype S] [DecidableEq S]

/-- A parent is taken with its children. -/
theorem Sound.subtree_closed (wf : cfg.WellFormed) (ok : Sound cfg ext hand owe busy due st) (inside : p ∈ st.subtree m)
    (parent : st.parent x = some p) : x ∈ st.subtree m := by
  obtain ⟨rank, falls, bound⟩ := wf.tree.bounded Finset.univ.toList (by simp)
  have deeper : ∀ y c, c ∈ st.children y → rank y < rank c := fun y c child =>
    falls c y (ok.parent c y (ok.mem_children.mp child)).1
  have found := subtreeTo_child inside (ok.mem_children.mpr parent)
  obtain ⟨-, found⟩ := subtreeTo_rank deeper found
  have few := bound x
  rw [Finset.length_toList, Finset.card_univ] at few
  exact subtreeTo_mono (by omega) found

omit [Fintype S] [DecidableEq S] in
theorem subtreeTo_induction {motive : M → Prop} (step : ∀ x, motive x → ∀ c ∈ st.children x, motive c) {k : ℕ}
    (root : motive m) (inside : x ∈ st.subtreeTo k m) : motive x := by
  induction k generalizing m with
  | zero =>
    obtain rfl := Finset.mem_singleton.mp inside
    exact root
  | succ k ih =>
    rcases mem_subtreeTo_succ.mp inside with rfl | ⟨c, below, inside⟩
    · exact root
    · exact ih (step m root c below) inside

omit [Fintype S] [DecidableEq S] in
theorem subtreeTo_parent {k : ℕ} (inside : x ∈ st.subtreeTo k m) (other : x ≠ m) : ∃ p, x ∈ st.children p := by
  induction k generalizing m with
  | zero => exact absurd (Finset.mem_singleton.mp inside) other
  | succ k ih =>
    rcases mem_subtreeTo_succ.mp inside with rfl | ⟨c, below, inside⟩
    · exact absurd rfl other
    · by_cases here : x = c
      · exact ⟨m, here ▸ below⟩
      · exact ih inside here

theorem Sound.root_notMem (wf : cfg.WellFormed) (ok : Sound cfg ext hand owe busy due st) (other : m ≠ cfg.root) :
    cfg.root ∉ st.subtree m := by
  intro inside
  obtain ⟨p, child⟩ := subtreeTo_parent inside other.symm
  have tree := (ok.parent _ p (ok.mem_children.mp child)).1
  rw [(wf.root _).mpr rfl] at tree
  cases tree

/-- What hangs below a mount of the namespace is in the namespace. -/
theorem Sound.subtree_ns (ok : Sound cfg ext hand owe busy ∅ st) (mounted : st.ns m = true) :
    ∀ x ∈ st.subtree m, st.ns x = true := by
  intro x inside
  refine subtreeTo_induction (motive := fun x => st.ns x = true) (fun x mounted c child => ?_) mounted inside
  have same := (ok.below c x (ok.mem_children.mp child)).2.2 (Finset.notMem_empty c)
  rw [ok.ns] at mounted ⊢
  rw [same]
  exact mounted.imp_right fun absurd => (Finset.notMem_empty _ absurd).elim

/-- Without an umount_tree() in between, the whole namespace hangs below its root. -/
theorem Sound.subtree_root (wf : cfg.WellFormed) (ok : Sound cfg ext hand owe busy ∅ st) :
    ∀ x, st.ns x = true → x ∈ st.subtree cfg.root := by
  obtain ⟨rank, falls⟩ := wf.tree
  intro x
  induction h : rank x using Nat.strong_induction_on generalizing x with
  | _ n ih =>
    intro ns
    have mounted : st.umount x = false := ((ok.ns x).mp ns).resolve_right (Finset.notMem_empty x)
    have linked := (ok.mounted x mounted).2
    cases tree : cfg.parent x with
    | none =>
      rw [(wf.root x).mp tree]
      exact mem_subtree_self
    | some p =>
      rw [tree] at linked
      have same := (ok.below x p linked).2.2 (Finset.notMem_empty x)
      have above := falls x p tree
      exact ok.subtree_closed wf (ih (rank p) (by omega) p rfl ((ok.ns p).mpr (.inl (same ▸ mounted)))) linked

/-! ### The victims one by one -/

theorem Sound.markUmount {victims : Finset M} (ok : Sound cfg ext hand owe busy ∅ st)
    (mounted : ∀ x ∈ victims, st.ns x = true)
    (closed : ∀ x p, st.parent x = some p → p ∈ victims → x ∈ victims) :
    Sound cfg ext hand owe busy victims (st.markUmount victims) :=
  have unmarked : ∀ x, (st.markUmount victims).umount x = false ↔ x ∉ victims ∧ st.umount x = false := by
    intro x
    rw [Tables.markUmount_umount]
    split <;> simp_all
  { ok with
    below := fun x p parent => by
      obtain ⟨alive, open', same⟩ := ok.below x p parent
      refine ⟨alive, open', fun outside => ?_⟩
      have above : p ∉ victims := fun inside => outside (closed x p parent inside)
      rw [Tables.markUmount_umount, Tables.markUmount_umount, if_neg outside, if_neg above]
      exact same (Finset.notMem_empty x)
    mounted := fun x still => ok.mounted x ((unmarked x).mp still).2
    ns := fun x => by
      rw [unmarked]
      change st.ns x = true ↔ _
      by_cases inside : x ∈ victims
      · simp [inside, mounted x inside]
      · rw [ok.ns]
        simp [inside] }

omit [Fintype S] [DecidableEq S] in
/-- A victim with its parent gone is disconnected. -/
theorem connected {how : How} (kept : ¬ st.Disconnect cfg p how) :
    st.attached p = true ∧ ∃ q, st.parent p = some q ∧ st.umount q = true := by
  unfold Tables.Disconnect at kept
  push Not at kept
  obtain ⟨-, attached, ⟨q, parent, umounted⟩, -⟩ := kept
  exact ⟨by simpa using attached, q, parent, by simpa using umounted⟩

namespace Tables

/-- Onto the unmounted list, for namespace_unlock() to put. -/
@[simps] def list (st : Tables M S) (ms : List M) : Tables M S := { st with unm := st.unm ++ ms }

@[simps] def leave (st : Tables M S) (p : M) : Tables M S := { st with ns := Function.update st.ns p false }

end Tables

theorem Sound.list (ms : List M) (ok : Sound cfg ext (hand + fun x => ms.count x) owe busy due st) :
    Sound cfg ext hand owe busy due (st.list ms) :=
  { ok with
    count := fun x => by
      have count := ok.count x
      have pins : pinsOn cfg (st.list ms) x = pinsOn cfg st x := pinsOn_congr rfl (holds_congr rfl)
      have owned : Owned cfg (st.list ms) x ↔ Owned cfg st x := Iff.rfl
      have stuck : stuckIn (st.list ms) x = stuckIn st x := rfl
      change st.count x = _
      rw [refs_hand] at count
      unfold refs at count ⊢
      rw [pins, stuck, if_congr owned rfl rfl, Tables.list_ns, Tables.list_release, Tables.list_unm, List.count_append]
      omega }

/-- Unhashed mounts get back the reference their parents held. -/
theorem Sound.detach (c : Finset M) (ok : Sound cfg ext hand owe busy due st) (marked : ∀ x ∈ c, st.umount x = true) :
    Sound cfg ext (hand + fun x => if x ∈ c ∧ Owned cfg st x then 1 else 0) owe busy due (st.detach c) :=
  have linked : ∀ x p, (st.detach c).parent x = some p → x ∉ c ∧ st.parent x = some p := by
    intro x p parent
    rw [Tables.detach_parent] at parent
    split at parent
    · cases parent
    · case isFalse outside => exact ⟨outside, parent⟩
  { ok with
    count := fun x => by
      have count := ok.count x
      have pins : pinsOn cfg (st.detach c) x = pinsOn cfg st x := pinsOn_congr rfl (holds_congr rfl)
      have owned : Owned cfg (st.detach c) x ↔ Owned cfg st x ∧ x ∉ c := by
        unfold Owned
        rw [Tables.detach_attached]
        split <;> simp_all
      have stuck : stuckIn (st.detach c) x = stuckIn st x := rfl
      change st.count x = _
      rw [refs_hand]
      unfold refs at count ⊢
      rw [pins, stuck, if_congr owned rfl rfl, Tables.detach_ns, Tables.detach_release, Tables.detach_unm]
      by_cases inside : x ∈ c
      · simp only [inside, not_true_eq_false, and_false, if_false, true_and]
        omega
      · simp only [inside, not_false_eq_true, and_true, false_and, if_false]
        omega
    parent := fun x p parent => by
      obtain ⟨outside, was⟩ := linked x p parent
      rw [Tables.detach_attached, if_neg outside]
      exact ok.parent x p was
    below := fun x p parent => ok.below x p (linked x p parent).2
    attached := fun x gone attached => by
      rw [Tables.detach_attached] at attached
      rw [Tables.detach_parent]
      split at attached
      · cases attached
      · case isFalse outside =>
        rw [if_neg outside]
        exact ok.attached x gone attached
    mounted := fun x still => by
      have outside : x ∉ c := fun inside => by
        have := marked x inside
        exact absurd this (by simpa using still)
      rw [Tables.detach_attached, Tables.detach_parent, if_neg outside, if_neg outside]
      exact ok.mounted x still }

/-- A victim leaves the namespace: its reference passes to the parent it stays attached
to, or into the hands of umount_tree(). -/
theorem Sound.leave (ok : Sound cfg ext hand owe busy due st) (victim : p ∈ due) (marked : st.umount p = true)
    (linked : st.attached p = true → ∃ q, st.parent p = some q ∧ st.umount q = true) :
    Sound cfg ext (hand + if Owned cfg (st.leave p) p then 0 else one p) owe busy (due.erase p) (st.leave p) :=
  have mounted : st.ns p = true := (ok.ns p).mpr (.inr victim)
  { ok with
    count := fun x => by
      have count := ok.count x
      have pins : pinsOn cfg (st.leave p) x = pinsOn cfg st x := pinsOn_congr rfl (holds_congr rfl)
      have stuck : stuckIn (st.leave p) x = stuckIn st x := rfl
      change st.count x = _
      rw [refs_hand]
      unfold refs at count ⊢
      rw [pins, stuck, Tables.leave_ns, Tables.leave_release, Tables.leave_unm]
      by_cases here : x = p
      · subst here
        have before : ¬ Owned cfg st x := fun owned => by simpa [mounted] using owned.2.1
        rw [if_neg before, mounted] at count
        rw [Function.update_self, Bool.toNat_false]
        rw [Bool.toNat_true] at count
        by_cases owned : Owned cfg (st.leave x) x
        · simp only [owned, if_true, Pi.zero_apply]
          omega
        · simp only [owned, if_false, one_self]
          omega
      · have owned : Owned cfg (st.leave p) x ↔ Owned cfg st x := by
          unfold Owned
          rw [Tables.leave_ns, Function.update_of_ne here]
          rfl
        have none : (if Owned cfg (st.leave p) p then 0 else one p) x = 0 := by
          split
          · rfl
          · exact one_other here
        rw [if_congr owned rfl rfl, Function.update_of_ne here, none]
        omega
    below := fun x q parent => by
      obtain ⟨alive, open', same⟩ := ok.below x q parent
      refine ⟨alive, open', fun outside => ?_⟩
      by_cases here : x = p
      · subst here
        obtain ⟨q', parent', umounted⟩ := linked (ok.parent x q parent).2.1
        obtain rfl : q' = q := Option.some_injective _ (parent'.symm.trans parent)
        exact marked.trans umounted.symm
      · exact same fun inside => outside (Finset.mem_erase.mpr ⟨here, inside⟩)
    attached := fun x gone attached => by
      by_cases here : x = p
      · subst here
        obtain ⟨q, parent, -⟩ := linked attached
        change st.parent x ≠ none
        rw [parent]
        exact Option.some_ne_none q
      · rw [Tables.leave_ns, Function.update_of_ne here] at gone
        exact ok.attached x gone attached
    ns := fun x => by
      rw [Tables.leave_ns, Finset.mem_erase]
      by_cases here : x = p
      · subst here
        change _ ↔ st.umount x = false ∨ _
        simp [marked]
      · rw [Function.update_of_ne here, ok.ns]
        change _ ↔ st.umount x = false ∨ _
        simp [here]
    disowned := fun x tomb => by
      obtain ⟨disown, gone⟩ := ok.disowned x tomb
      refine ⟨disown, ?_⟩
      rw [Tables.leave_ns]
      by_cases here : x = p
      · subst here
        rw [Function.update_self]
      · rwa [Function.update_of_ne here] }

omit [Fintype S] [DecidableEq S] in
theorem umountOne_eq {how : How} (marked : st.umount p = true) : st.umountOne cfg p how =
    if st.Disconnect cfg p how then ((st.detach {p}).leave p).list [p]
    else (st.leave p).list (if cfg.fixDisown then [p] else []) := by
  have same : Function.update st.umount p true = st.umount := by
    rw [← marked]
    exact Function.update_eq_self p st.umount
  unfold Tables.umountOne
  by_cases gone : st.Disconnect cfg p how
  · simp only [gone, if_true, or_true, Tables.list, Tables.leave, Tables.detach, same]
  · cases disown : cfg.fixDisown
    · simp [gone, Tables.list, Tables.leave, same]
    · simp [gone, Tables.list, Tables.leave, same]

omit [Fintype M] in
theorem count_one (m : M) : (fun x => [m].count x) = one m := by
  rw [one_add_count]
  funext x
  simp

theorem Sound.umountOne (how : How) (ok : Sound cfg ext hand owe busy due st) (victim : p ∈ due)
    (marked : st.umount p = true) : Sound cfg ext hand owe busy (due.erase p) (st.umountOne cfg p how) := by
  have mounted : st.ns p = true := (ok.ns p).mpr (.inr victim)
  rw [umountOne_eq marked]
  split
  · apply Sound.list
    rw [count_one]
    have loose : (st.detach {p}).attached p = false := by simp
    have detached := ok.detach {p} (by simpa using marked)
    have left := detached.leave victim marked (by simp)
    have owned : ¬ Owned cfg ((st.detach {p}).leave p) p := fun owned => by simpa [loose] using owned.1
    have hands : (fun x => if x ∈ ({p} : Finset M) ∧ Owned cfg st x then 1 else 0) = (0 : M → ℕ) := by
      funext x
      refine if_neg fun both => ?_
      obtain ⟨here, before⟩ := both
      obtain rfl := Finset.mem_singleton.mp here
      simpa [mounted] using before.2.1
    rwa [if_neg owned, hands, add_zero] at left
  · case isFalse kept =>
    obtain ⟨attached, linked⟩ := connected kept
    have left := ok.leave victim marked fun _ => linked
    apply Sound.list
    cases disown : cfg.fixDisown
    · have owned : Owned cfg (st.leave p) p := ⟨attached, by simp, by simp [disown]⟩
      rw [if_pos owned] at left
      exact left
    · have owned : ¬ Owned cfg (st.leave p) p := fun owned => by
        have := (ok.disowned p (owned.2.2 disown)).2
        simp [mounted] at this
      rw [if_neg owned] at left
      simpa only [if_true, count_one] using left

omit [Fintype S] [DecidableEq S] in
theorem umountOne_umount {how : How} (marked : st.umount p = true) : (st.umountOne cfg p how).umount = st.umount := by
  rw [umountOne_eq marked]
  split <;> rfl

theorem Sound.umountEach (how : How) {ps : List M} (ok : Sound cfg ext hand owe busy ps.toFinset st) (distinct : ps.Nodup)
    (marked : ∀ x ∈ ps, st.umount x = true) : Sound cfg ext hand owe busy ∅ (st.umountEach cfg how ps) := by
  induction ps generalizing st with
  | nil => exact ok
  | cons p ps ih =>
    obtain ⟨fresh, distinct⟩ := List.nodup_cons.mp distinct
    have here := marked p List.mem_cons_self
    have one := ok.umountOne how (List.mem_toFinset.mpr List.mem_cons_self) here
    rw [List.toFinset_cons, Finset.erase_insert (by simpa using fresh)] at one
    refine ih one distinct fun x inside => ?_
    rw [umountOne_umount here]
    exact marked x (List.mem_cons_of_mem p inside)

/-- The mounts left connected before get their references back as they are unhashed. -/
theorem Sound.reexamine (owns : cfg.fixDisown = false) (victims : Finset M) (ok : Sound cfg ext hand owe busy ∅ st) :
    Sound cfg ext hand owe busy ∅ (st.reexamine cfg victims) := by
  have late : ∀ x, x ∈ st.late cfg victims → st.umount x = true ∧ Owned cfg st x := by
    intro x inside
    obtain ⟨-, umounted, attached, -⟩ := (Finset.mem_filter.mp inside).2
    refine ⟨umounted, attached, ?_, by simp [owns]⟩
    have := ok.ns x
    simp_all
  have detached := ok.detach (st.late cfg victims) fun x inside => (late x inside).1
  refine Sound.list _ ?_
  convert detached using 2
  funext x
  rw [count_ordered]
  exact if_congr ⟨fun inside => ⟨inside, (late x inside).2⟩, fun inside => inside.1⟩ rfl rfl

theorem Sound.reverse (ok : Sound cfg ext hand owe busy due st) :
    Sound cfg ext hand owe busy due { st with unm := st.unm.reverse } :=
  { ok with
    count := fun x => by
      have count := ok.count x
      have pins : pinsOn cfg { st with unm := st.unm.reverse } x = pinsOn cfg st x := pinsOn_congr rfl (holds_congr rfl)
      have owned : Owned cfg { st with unm := st.unm.reverse } x ↔ Owned cfg st x := Iff.rfl
      have stuck : stuckIn { st with unm := st.unm.reverse } x = stuckIn st x := rfl
      unfold refs at count ⊢
      rwa [pins, stuck, if_congr owned rfl rfl, List.count_reverse] }

theorem Sound.umountTree (wf : cfg.WellFormed) (how : How) (ok : Sound cfg ext hand owe busy ∅ st)
    (owns : cfg.fixDisconnectPinners = true → cfg.fixDisown = false) (mounted : st.ns m = true) :
    Sound cfg ext hand owe busy ∅ (st.umountTree cfg m how) := by
  have marked := ok.markUmount (ok.subtree_ns mounted) fun x p parent inside => ok.subtree_closed wf inside parent
  have listed : (ordered cfg (st.subtree m)).toFinset = st.subtree m := Finset.sort_toFinset _ _
  rw [← listed] at marked
  have each := marked.umountEach how (Finset.sort_nodup _ _) fun x inside => by
    rw [listed, Tables.markUmount_umount, if_pos ((Finset.mem_sort _).mp inside)]
  rw [listed] at each
  unfold Tables.umountTree
  by_cases on : cfg.fixDisconnectPinners = true ∧ cfg.pinnersReexamine = true
  · have late := each.reexamine (owns on.1) (st.subtree m)
    simp only [on, and_self, if_true]
    split
    · exact late
    · exact late.reverse
  · simp only [on, if_false]
    split
    · exact each
    · exact each.reverse

/-! ### What is left in the namespace -/

omit [Fintype S] [DecidableEq S] in
theorem umountEach_ns (how : How) (ps : List M) (x : M) (marked : ∀ x ∈ ps, st.umount x = true) :
    (st.umountEach cfg how ps).ns x = if x ∈ ps then false else st.ns x := by
  induction ps generalizing st with
  | nil => simp [Tables.umountEach]
  | cons p ps ih =>
    have here := marked p List.mem_cons_self
    have left : (st.umountOne cfg p how).ns = Function.update st.ns p false := by
      rw [umountOne_eq here]
      split <;> rfl
    rw [Tables.umountEach, ih fun x inside => by
      rw [umountOne_umount here]
      exact marked x (List.mem_cons_of_mem p inside), left]
    by_cases same : x = p
    · subst same; simp
    · simp [same]

omit [Fintype S] [DecidableEq S] in
theorem umountTree_ns {how : How} :
    (st.umountTree cfg m how).ns x = if x ∈ st.subtree m then false else st.ns x := by
  have each : (Tables.umountEach cfg how (st.markUmount (st.subtree m)) (ordered cfg (st.subtree m))).ns x = _ :=
    umountEach_ns how (ordered cfg (st.subtree m)) x fun y inside => by
      rw [Tables.markUmount_umount, if_pos ((Finset.mem_sort _).mp inside)]
  simp only [ordered, Finset.mem_sort] at each
  have late : ∀ (t : Tables M S) v, (t.reexamine cfg v).ns = t.ns := fun _ _ => rfl
  unfold Tables.umountTree
  split <;> split <;> simp only [late] <;> exact each

end LinuxTla.MntOwn
