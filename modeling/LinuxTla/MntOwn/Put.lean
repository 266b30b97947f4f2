import LinuxTla.MntOwn.Accounts

/-! mntput(), deactivate_super() and cleanup_mnt() keep the books. -/

namespace LinuxTla.MntOwn

open Lib

variable {M S : Type} [Fintype M] [LinearOrder M] {cfg : Config M S}
  {st after : Tables M S} {ext hand : M → ℕ} {owe : S → ℕ} {busy : Option M} {due : Finset M} {m x p : M} {s b : S}

/-! ### The cascade of a final mntput() -/

theorem mem_stuckOf : x ∈ st.stuckOf cfg m ↔ x ∈ st.children m ∧ (cfg.fixDisown = true → st.tomb x = true) := by
  unfold Tables.stuckOf
  split <;> simp_all

/-- A final mntput() finds the mount alive and nothing stuck on it. -/
structure Final (st : Tables M S) (busy : Option M) (m : M) : Prop where
  alive : st.doomed m = false
  kept : st.freed m = false
  idle : busy ≠ some m
  unstuck : st.stuck m = ∅

variable [Fintype S] [DecidableEq S]

theorem Sound.final (ok : Sound cfg ext (hand + one m) owe busy due st) (last : st.count m ≤ 1) : Final st busy m := by
  have held := ok.held
  have alive : st.doomed m = false := by
    by_contra doomed
    have := (ok.doomed m).mp (by simpa using doomed)
    omega
  have release := (ok.last last).release
  refine ⟨alive, ?_, ?_, ?_⟩
  · by_contra freed
    have := ok.freed m (by simpa using freed)
    simp [alive] at this
  · intro same
    have := (ok.freeing m same).1
    simp [alive] at this
  · by_contra stuck
    have := ((ok.queued m).mp (ok.stuck m stuck)).2.2
    simp [alive, release] at this

theorem Sound.child (ok : Sound cfg ext hand owe busy ∅ st) (unmounted : st.ns m = false) (child : x ∈ st.children m) :
    st.parent x = some m ∧ st.attached x = true ∧ st.umount x = true ∧ st.ns x = false := by
  have parent := ok.mem_children.mp child
  have umount : st.umount m = true := by
    by_contra mounted
    have := (ok.ns m).mpr (.inl (by simpa using mounted))
    simp [unmounted] at this
  have same : st.umount x = true := ((ok.below x m parent).2.2 (by simp)).trans umount
  refine ⟨parent, (ok.parent x m parent).2.1, same, ?_⟩
  have := ok.ns x
  simp_all

/-- The reference the parent held passes to its cleanup. -/
theorem Sound.cascade (ok : Sound cfg ext hand owe busy ∅ st) (unmounted : st.ns m = false) (empty : st.stuck m = ∅)
    (attached : after.attached = (st.detach (st.children m)).attached) (ns : after.ns = st.ns)
    (tomb : ∀ y, y ≠ m → after.tomb y = st.tomb y)
    (stuck : after.stuck = Function.update st.stuck m (st.stuckOf cfg m)) (other : x ≠ m) :
    (if Owned cfg after x then 1 else 0) + stuckIn after x = (if Owned cfg st x then 1 else 0) + stuckIn st x := by
  have grown : stuckIn after x = stuckIn st x + if x ∈ st.stuckOf cfg m then 1 else 0 := by
    unfold stuckIn
    rw [stuck, card_filter_drop (q := fun p => x ∈ st.stuck p) (a := m)]
    · rw [Function.update_self]
    · intro p elsewhere
      rw [Function.update_of_ne elsewhere]
    · simp [empty]
  have owned : Owned cfg after x ↔ Owned cfg st x ∧ x ∉ st.children m := by
    unfold Owned
    rw [attached, ns, tomb x other, Tables.detach_attached]
    split <;> simp_all
  have passed : x ∈ st.stuckOf cfg m ↔ Owned cfg st x ∧ x ∈ st.children m := by
    rw [mem_stuckOf]
    constructor
    · rintro ⟨child, tomb⟩
      obtain ⟨-, here, -, gone⟩ := ok.child unmounted child
      exact ⟨⟨here, gone, tomb⟩, child⟩
    · rintro ⟨⟨-, -, tomb⟩, child⟩
      exact ⟨child, tomb⟩
  rw [grown, if_congr owned rfl rfl, if_congr passed rfl rfl]
  by_cases child : x ∈ st.children m
  · simp only [child, not_true_eq_false, and_false, and_true, if_false]
    omega
  · simp [child]

omit [Fintype S] [DecidableEq S] in
theorem stuckIn_self (unlinked : m ∉ st.children m) (empty : stuckIn st m = 0)
    (stuck : after.stuck = Function.update st.stuck m (st.stuckOf cfg m)) : stuckIn after m = 0 := by
  have other : m ∉ st.stuckOf cfg m := fun stuck => unlinked (mem_stuckOf.mp stuck).1
  unfold stuckIn at *
  rw [Finset.card_eq_zero, Finset.filter_eq_empty_iff] at *
  intro p inside
  rw [stuck]
  by_cases here : p = m
  · subst here
    rwa [Function.update_self]
  · rw [Function.update_of_ne here]
    exact empty inside

/-- Nothing but the unmounted children is taken out of the tree. -/
theorem Sound.detached (ok : Sound cfg ext hand owe busy ∅ st) (unmounted : st.ns m = false) :
    (∀ x p, (st.detach (st.children m)).parent x = some p →
        st.parent x = some p ∧ p ≠ m ∧ (st.detach (st.children m)).attached x = st.attached x) ∧
      (∀ x, st.ns x = false → (st.detach (st.children m)).attached x = true →
        (st.detach (st.children m)).parent x ≠ none) ∧
      (∀ x, st.umount x = false → (st.detach (st.children m)).attached x = st.attached x ∧
        (st.detach (st.children m)).parent x = st.parent x) := by
  refine ⟨fun x p parent => ?_, fun x gone attached => ?_, fun x mounted => ?_⟩
  · rw [Tables.detach_parent] at parent
    split at parent
    · cases parent
    · case isFalse other =>
      refine ⟨parent, ?_, by rw [Tables.detach_attached, if_neg other]⟩
      rintro rfl
      exact other (ok.mem_children.mpr parent)
  · rw [Tables.detach_attached] at attached
    rw [Tables.detach_parent]
    split at attached
    · cases attached
    · case isFalse other =>
      rw [if_neg other]
      exact ok.attached x gone attached
  · have other : x ∉ st.children m := by
      intro child
      have := (ok.child unmounted child).2.2.1
      simp [mounted] at this
    simp [other]

/-- Only `m` itself gets another count. -/
theorem Sound.refs_cascade (ok : Sound cfg ext (hand + one m) owe busy ∅ st) (unmounted : st.ns m = false)
    (empty : st.stuck m = ∅) (pin : after.pin = st.pin) (active : after.active = st.active) (ns : after.ns = st.ns)
    (unm : after.unm = st.unm) (release : ∀ y, y ≠ m → after.release y = st.release y)
    (attached : after.attached = (st.detach (st.children m)).attached) (tomb : ∀ y, y ≠ m → after.tomb y = st.tomb y)
    (stuck : after.stuck = Function.update st.stuck m (st.stuckOf cfg m)) (other : x ≠ m) :
    st.count x = refs cfg ext hand after x := by
  have held := ok.cascade unmounted empty attached ns tomb stuck other
  have pins : pinsOn cfg after x = pinsOn cfg st x := pinsOn_congr pin (holds_congr active)
  have count := ok.count x
  rw [refs_hand, one_other other] at count
  unfold refs at count ⊢
  rw [ns, unm, release x other, pins]
  omega

/-- The last reference of a mount that is not attached goes. -/
theorem Sound.doom (ok : Sound cfg ext (hand + one m) owe busy ∅ st) (last : st.count m ≤ 1)
    (loose : st.attached m = false) : Sound cfg ext hand owe busy ∅ (st.doom cfg m) := by
  have final := ok.final last
  have gone := ok.last last
  have orphan : st.parent m = none := by
    by_contra parent
    obtain ⟨p, parent⟩ := Option.ne_none_iff_exists'.mp parent
    have := (ok.parent m p parent).2.1
    simp [loose] at this
  have unlinked : m ∉ st.children m := by
    rw [ok.mem_children, orphan]
    exact nofun
  obtain ⟨linked, attached, mounted⟩ := ok.detached gone.ns
  have doomed : ∀ x, (st.doom cfg m).doomed x = true ↔ x = m ∨ st.doomed x = true := by
    intro x
    rw [Tables.doom_doomed]
    by_cases here : x = m
    · subst here; simp
    · simp [here]
  exact
    { null_active := ok.null_active
      null_pin := ok.null_pin
      ns := ok.ns
      tomb := ok.tomb
      sb := ok.sb
      released := ok.released
      disowned := ok.disowned
      attached := attached
      mounted := fun x still => by
        obtain ⟨same, same'⟩ := mounted x still
        exact ⟨same.trans (ok.mounted x still).1, same'.trans (ok.mounted x still).2⟩
      count := fun x => by
        by_cases here : x = m
        · subst here
          have stuck : stuckIn (st.doom cfg x) x = 0 := stuckIn_self unlinked gone.stuck rfl
          have pins : pinsOn cfg (st.doom cfg x) x = 0 := (pinsOn_congr rfl (holds_congr rfl)).trans gone.pins
          have none : Last cfg ext hand (st.doom cfg x) x :=
            ⟨gone.ext, gone.hand, pins, gone.ns, gone.unm, gone.release, fun owned => by simpa [unlinked, loose] using owned.1, stuck⟩
          rw [none.refs, Tables.doom_count, Function.update_self]
          rfl
        · rw [Tables.doom_count, Function.update_of_ne here]
          exact ok.refs_cascade gone.ns final.unstuck rfl rfl rfl rfl (fun _ _ => rfl) rfl (fun _ _ => rfl) rfl here
      active := fun s real => by
        have clones : clonesOf cfg (st.doom cfg m) s = clonesOf cfg st s := clonesOf_congr rfl (holds_congr rfl)
        have users : users (st.doom cfg m) busy s = users st busy s := users_congr fun _ => Iff.rfl
        rw [clones, users]
        exact ok.active s real
      doomed := fun x => by
        rw [doomed, Tables.doom_count, ok.doomed]
        by_cases here : x = m
        · subst here; simp
        · simp [here]
      freed := fun x freed => (doomed x).mpr (.inr (ok.freed x freed))
      freeing := fun x busy => ⟨(doomed x).mpr (.inr (ok.freeing x busy).1), (ok.freeing x busy).2⟩
      queued := fun x => by
        rw [Tables.doom_cleanq, Tables.doom_freed, Tables.doom_release, doomed, Finset.mem_insert, ok.queued]
        by_cases here : x = m
        · subst here
          simp [final.kept, final.idle]
        · simp [here]
      stuck := fun x stuck => by
        rw [Tables.doom_cleanq, Finset.mem_insert]
        by_cases here : x = m
        · exact .inl here
        · rw [Tables.doom_stuck, Function.update_of_ne here] at stuck
          exact .inr (ok.stuck x stuck)
      parent := fun x p parent => by
        obtain ⟨was, -, attached⟩ := linked x p parent
        obtain ⟨tree, here, alive⟩ := ok.parent x p was
        refine ⟨tree, attached.trans here, ?_⟩
        by_contra dead
        rcases (doomed x).mp (by simpa using dead) with rfl | dead
        · rw [orphan] at was
          cases was
        · simp [alive] at dead
      below := fun x p parent => by
        obtain ⟨was, apart, -⟩ := linked x p parent
        obtain ⟨alive, rest⟩ := ok.below x p was
        refine ⟨?_, rest⟩
        by_contra dead
        rcases (doomed p).mp (by simpa using dead) with same | dead
        · exact apart same
        · simp [alive] at dead }

/-- An attached mount that loses its last reference keeps its slot as a tombstone. -/
theorem Sound.entomb (wf : cfg.WellFormed) (ok : Sound cfg ext (hand + one m) owe busy ∅ st) (last : st.count m ≤ 1)
    (disown : cfg.fixDisown = true) (attached : st.attached m = true) (filled : st.tomb m = false) :
    Sound cfg ext hand owe busy ∅ (st.entomb cfg m) := by
  have final := ok.final last
  have gone := ok.last last
  have held := ok.held
  have unlinked : m ∉ st.children m := fun child =>
    wf.parent_ne (ok.parent m m (ok.mem_children.mp child)).1 rfl
  obtain ⟨linked, loose, mounted⟩ := ok.detached gone.ns
  have counted : ∀ x, x ≠ m → (st.entomb cfg m).count x = st.count x := fun x other => by
    rw [Tables.entomb_count, Function.update_of_ne other]
  have tombs : ∀ x, (st.entomb cfg m).tomb x = true ↔ x = m ∨ st.tomb x = true := by
    intro x
    rw [Tables.entomb_tomb]
    by_cases here : x = m
    · subst here; simp
    · simp [here]
  have releases : ∀ x, (st.entomb cfg m).release x = true ↔ x = m ∨ st.release x = true := by
    intro x
    rw [Tables.entomb_release]
    by_cases here : x = m
    · subst here; simp
    · simp [here]
  exact
    { null_active := ok.null_active
      null_pin := ok.null_pin
      ns := ok.ns
      freed := ok.freed
      freeing := ok.freeing
      attached := loose
      mounted := fun x still => by
        obtain ⟨same, same'⟩ := mounted x still
        exact ⟨same.trans (ok.mounted x still).1, same'.trans (ok.mounted x still).2⟩
      count := fun x => by
        by_cases here : x = m
        · subst here
          have stuck : stuckIn (st.entomb cfg x) x = 0 := stuckIn_self unlinked gone.stuck rfl
          have pins : pinsOn cfg (st.entomb cfg x) x = 0 := (pinsOn_congr rfl (holds_congr rfl)).trans gone.pins
          have owned : Owned cfg (st.entomb cfg x) x :=
            ⟨by simp [unlinked, attached], gone.ns, fun _ => (tombs x).mpr (.inl rfl)⟩
          unfold refs
          rw [gone.ext, gone.hand, pins, stuck, if_pos owned, (releases x).mpr (.inl rfl), Tables.entomb_count,
            Function.update_self, Tables.entomb_ns, Tables.detach_ns, Tables.entomb_unm, Tables.detach_unm, gone.ns,
            gone.unm]
          rfl
        · rw [counted x here]
          exact ok.refs_cascade gone.ns final.unstuck rfl rfl rfl rfl
            (fun y other => by rw [Tables.entomb_release, Function.update_of_ne other]) rfl
            (fun y other => by rw [Tables.entomb_tomb, Function.update_of_ne other]) rfl here
      active := fun s real => by
        have clones : clonesOf cfg (st.entomb cfg m) s = clonesOf cfg st s := clonesOf_congr rfl (holds_congr rfl)
        have users : users (st.entomb cfg m) busy s = users st busy s := by
          refine users_congr fun x => ?_
          by_cases here : x = m
          · subst here
            simp [Uses, gone.release, real.symm]
          · simp [Uses, here]
        rw [clones, users]
        exact ok.active s real
      doomed := fun x => by
        change st.doomed x = true ↔ _
        by_cases here : x = m
        · subst here
          simp [final.alive]
        · rw [counted x here]
          exact ok.doomed x
      queued := fun x => by
        rw [Tables.entomb_cleanq, Finset.mem_insert, releases]
        change x = m ∨ x ∈ st.cleanq ↔ st.freed x = false ∧ busy ≠ some x ∧ (st.doomed x = true ∨ _)
        rw [ok.queued]
        by_cases here : x = m
        · subst here
          simp [final.kept, final.idle]
        · simp [here]
      stuck := fun x stuck => by
        rw [Tables.entomb_cleanq, Finset.mem_insert]
        by_cases here : x = m
        · exact .inl here
        · rw [Tables.entomb_stuck, Function.update_of_ne here] at stuck
          exact .inr (ok.stuck x stuck)
      parent := fun x p parent => by
        obtain ⟨was, -, attached⟩ := linked x p parent
        obtain ⟨tree, here, alive⟩ := ok.parent x p was
        exact ⟨tree, attached.trans here, alive⟩
      below := fun x p parent => by
        obtain ⟨was, apart, -⟩ := linked x p parent
        obtain ⟨alive, open', same⟩ := ok.below x p was
        refine ⟨alive, ?_, same⟩
        rwa [Tables.entomb_tomb, Function.update_of_ne apart]
      tomb := fun x => by
        rw [tombs, Tables.entomb_sb, ok.tomb]
        by_cases here : x = m
        · subst here; simp
        · simp [here]
      sb := fun x filled => by
        rw [Tables.entomb_tomb] at filled
        rw [Tables.entomb_sb]
        by_cases here : x = m
        · subst here
          simp at filled
        · rw [Function.update_of_ne here] at filled ⊢
          exact ok.sb x filled
      released := fun x release => by
        rw [tombs, Tables.entomb_oldsb]
        by_cases here : x = m
        · subst here
          simpa using ok.sb x filled
        · rw [Function.update_of_ne here]
          have := ok.released x (by simpa [here] using (releases x).mp release)
          exact ⟨.inr this.1, this.2⟩
      disowned := fun x tomb => by
        change cfg.fixDisown = true ∧ st.ns x = false
        rcases (tombs x).mp tomb with rfl | tomb
        · exact ⟨disown, gone.ns⟩
        · exact ok.disowned x tomb }

theorem Sound.put (wf : cfg.WellFormed) (ok : Sound cfg ext (hand + one m) owe busy ∅ st) :
    Sound cfg ext hand owe busy ∅ (st.put cfg m) := by
  have held := ok.held
  unfold Tables.put
  by_cases last : st.count m ≤ 1
  · have gone := ok.last last
    have final := ok.final last
    have spent : ¬ (0 < st.count m - 1 ∨ st.ns m = true) := by
      simp only [gone.ns, Bool.false_eq_true, or_false]
      omega
    rw [if_neg spent, if_neg (by simp [final.alive])]
    split
    · case isTrue attached =>
      exact ok.entomb wf last attached.1 attached.2.2.1 attached.2.2.2
    · case isFalse loose =>
      refine ok.doom last ?_
      -- an attached mount would be owned by its parent
      by_contra attached
      have attached : st.attached m = true := by simpa using attached
      refine gone.owned ⟨attached, gone.ns, fun disown => ?_⟩
      by_contra filled
      exact loose ⟨disown, ok.attached m gone.ns attached, attached, by simpa using filled⟩
  · rw [if_pos (.inl (by omega))]
    exact ok.setCount (by omega)

omit [Fintype M] in
theorem one_add_count (m : M) (ms : List M) : (fun x => (m :: ms).count x) = (fun x => ms.count x) + one m := by
  funext x
  by_cases here : x = m
  · subst here; simp
  · simp [here, Ne.symm here]

theorem Sound.putAll (wf : cfg.WellFormed) {ms : List M} (ok : Sound cfg ext (hand + fun x => ms.count x) owe busy ∅ st) :
    Sound cfg ext hand owe busy ∅ (st.putAll cfg ms) := by
  induction ms generalizing st with
  | nil => exact ok
  | cons m ms ih =>
    rw [one_add_count, ← add_assoc] at ok
    exact ih (ok.put wf)

end LinuxTla.MntOwn
