import LinuxTla.MntOwn.Put

/-! deactivate_super() and cleanup_mnt() keep the books. -/

namespace LinuxTla.MntOwn

open Lib

variable {M S : Type} [Fintype M] [LinearOrder M] [Fintype S] [DecidableEq S] {cfg : Config M S}
  {st after : Tables M S} {ext hand : M → ℕ} {owe : S → ℕ} {busy : Option M} {due : Finset M} {m x p : M} {s b : S}

/-! ### deactivate_super() -/

/-- An active count that goes hands on what the superblock held. -/
theorem Sound.setActive (ok : Sound cfg ext hand (owe + one s) busy due st) (extra : M → ℕ) (more : S → ℕ)
    (real : s ≠ cfg.nullSb)
    (pins : ∀ m, pinsOn cfg st m = pinsOn cfg (st.setActive s (st.active s - 1)) m + extra m)
    (clones : ∀ t, clonesOf cfg st t = clonesOf cfg (st.setActive s (st.active s - 1)) t + more t) :
    Sound cfg ext (hand + extra) (owe + more) busy due (st.setActive s (st.active s - 1)) :=
  { ok with
    count := fun m => by
      have count := ok.count m
      have moved := pins m
      rw [refs_hand]
      change st.count m = _
      unfold refs at count ⊢
      rw [Tables.setActive_ns, Tables.setActive_unm, Tables.setActive_release]
      change _ = (((ext m + hand m + _ + _ + _ + _ + (if Owned cfg st m then 1 else 0) + stuckIn st m : ℕ) + extra m : ℕ) : ℤ)
      omega
    active := fun t other => by
      have active := ok.active t other
      have moved := clones t
      change Function.update st.active s (st.active s - 1) t = (users st busy t + _ + _ : ℤ)
      simp only [Pi.add_apply] at active ⊢
      by_cases here : t = s
      · subst here
        rw [one_self] at active
        rw [Function.update_self]
        omega
      · rw [one_other here] at active
        rw [Function.update_of_ne here]
        omega
    null_active := by
      change Function.update st.active s (st.active s - 1) cfg.nullSb = 0
      rw [Function.update_of_ne real.symm]
      exact ok.null_active }

theorem Sound.owes (ok : Sound cfg ext hand (owe + one s) busy due st) (real : s ≠ cfg.nullSb) : 1 ≤ st.active s := by
  have active := ok.active s real
  simp only [Pi.add_apply, one_self] at active
  omega

omit [Fintype M] [LinearOrder M] [Fintype S] in
/-- The last active count of a superblock with mounts lets go of its file. -/
theorem holds_last (last : st.active s = 1) (home : ∃ m, cfg.sb m = s) :
    Holds cfg st s ∧ ¬ Holds cfg (st.setActive s (st.active s - 1)) s := by
  refine ⟨.inl (by omega), ?_⟩
  rintro (active | homeless)
  · rw [Tables.setActive_active, Function.update_self] at active
    omega
  · obtain ⟨m, here⟩ := home
    exact homeless m here

omit [Fintype M] [LinearOrder M] [Fintype S] in
theorem holds_other {a : ℤ} (other : b ≠ s) : Holds cfg (st.setActive s a) b ↔ Holds cfg st b := by
  unfold Holds
  rw [Tables.setActive_active, Function.update_of_ne other]

omit [Fintype M] [LinearOrder M] [Fintype S] in
theorem holds_more (more : 1 < st.active s) : Holds cfg (st.setActive s (st.active s - 1)) b ↔ Holds cfg st b := by
  by_cases here : b = s
  · subst here
    unfold Holds
    rw [Tables.setActive_active, Function.update_self]
    have : 0 < st.active b := by omega
    have : 0 < st.active b - 1 := by omega
    tauto
  · exact holds_other here

theorem pinsOn_last (direct : cfg.fixInternalClone = false) (last : st.active s = 1) (home : ∃ m, cfg.sb m = s) :
    pinsOn cfg st m = pinsOn cfg (st.setActive s (st.active s - 1)) m + if st.pin s = some m then 1 else 0 := by
  obtain ⟨held, gone⟩ := holds_last last home
  unfold pinsOn
  simp only [direct, Bool.false_eq_true, if_false]
  rw [card_filter_drop (q := fun t => st.pin t = some m ∧ Holds cfg (st.setActive s (st.active s - 1)) t) (a := s)]
  · simp [held]
  · intro t other
    rw [holds_other other]
  · simp [gone]

omit [LinearOrder M] in
theorem clonesOf_last (cloned : cfg.fixInternalClone = true) (last : st.active s = 1) (home : ∃ m, cfg.sb m = s) :
    clonesOf cfg st b = clonesOf cfg (st.setActive s (st.active s - 1)) b +
      if (st.pin s).map cfg.sb = some b then 1 else 0 := by
  obtain ⟨held, gone⟩ := holds_last last home
  unfold clonesOf
  simp only [cloned, if_true]
  rw [card_filter_drop
    (q := fun t => (st.pin t).map cfg.sb = some b ∧ Holds cfg (st.setActive s (st.active s - 1)) t) (a := s)]
  · simp [held]
  · intro t other
    rw [holds_other other]
  · simp [gone]

/-- With the internal clones no mount is kept by a file. -/
theorem pinsOn_cloned (cloned : cfg.fixInternalClone = true) : pinsOn cfg st m = 0 := by simp [pinsOn, cloned]

omit [LinearOrder M] in
theorem clonesOf_direct (direct : cfg.fixInternalClone = false) : clonesOf cfg st s = 0 := by simp [clonesOf, direct]

/-- deactivate_super() on a superblock that has mounts. -/
theorem Sound.dropSb (wf : cfg.WellFormed) (ok : Sound cfg ext hand (owe + one s) busy ∅ st) (home : ∃ m, cfg.sb m = s) :
    Sound cfg ext hand owe busy ∅ (st.dropSb cfg s) := by
  have real : s ≠ cfg.nullSb := by
    obtain ⟨m, rfl⟩ := home
    exact wf.null_sb m
  induction st, s using Tables.dropSb.induct cfg with
  | case1 st s a zero none =>
    have last : st.active s = 1 := by omega
    rw [Tables.dropSb, dif_pos zero]
    simp only [none]
    apply ok.setActive 0 0 real <;> intro t
    · cases clone : cfg.fixInternalClone
      · simpa [none] using pinsOn_last clone last home
      · simp [pinsOn_cloned clone]
    · cases clone : cfg.fixInternalClone
      · simp [clonesOf_direct clone]
      · simpa [none] using clonesOf_last clone last home
  | case2 st s a zero x file cloned ih =>
    have last : st.active s = 1 := by omega
    rw [Tables.dropSb, dif_pos zero]
    simp only [file, cloned, if_true]
    refine ih ?_ ⟨x, rfl⟩ (wf.null_sb x)
    apply ok.setActive 0 (one (cfg.sb x)) real <;> intro t
    · simp [pinsOn_cloned cloned]
    · rw [clonesOf_last cloned last home, file]
      simp [one, eq_comm]
  | case3 st s a zero x file direct =>
    have direct : cfg.fixInternalClone = false := by simpa using direct
    have last : st.active s = 1 := by omega
    rw [Tables.dropSb, dif_pos zero]
    simp only [file, direct, Bool.false_eq_true, if_false]
    apply Sound.put wf
    apply ok.setActive (one x) 0 real <;> intro t
    · rw [pinsOn_last direct last home, file]
      simp [one, eq_comm]
    · simp [clonesOf_direct direct]
  | case4 st s a more =>
    have owes := ok.owes real
    have holds : ∀ t, Holds cfg (st.setActive s (st.active s - 1)) t ↔ Holds cfg st t := fun t => holds_more (by omega)
    have pin : (st.setActive s (st.active s - 1)).pin = st.pin := rfl
    rw [Tables.dropSb, dif_neg more]
    apply ok.setActive 0 0 real <;> intro t
    · exact (pinsOn_congr pin holds).symm
    · exact (clonesOf_congr pin holds).symm

/-! ### cleanup_mnt() -/

omit [Fintype S] [DecidableEq S] in
theorem count_ordered (c : Finset M) (x : M) : (ordered cfg c).count x = if x ∈ c then 1 else 0 := by
  split
  · case isTrue inside =>
    exact List.count_eq_one_of_mem (Finset.sort_nodup _ _) ((Finset.mem_sort _).mpr inside)
  · case isFalse outside =>
    exact List.count_eq_zero.mpr fun inside => outside ((Finset.mem_sort _).mp inside)

omit [Fintype S] [DecidableEq S] in
/-- The stuck children pass from the mount to the hands of its cleanup. -/
theorem stuckIn_visit (stuck : after.stuck = Function.update st.stuck m ∅) :
    stuckIn st x = stuckIn after x + (ordered cfg (st.stuck m)).count x := by
  unfold stuckIn
  rw [count_ordered, stuck, card_filter_drop (q := fun p => x ∈ Function.update st.stuck m ∅ p) (a := m)]
  · intro p elsewhere
    rw [Function.update_of_ne elsewhere]
  · simp

theorem stuck_visit (ok : Sound cfg ext hand owe none ∅ st) (x : M) (stuck : (st.visit m).stuck x ≠ ∅) :
    x ∈ (st.visit m).cleanq := by
  rw [Tables.visit_stuck] at stuck
  by_cases here : x = m
  · subst here
    simp at stuck
  · rw [Function.update_of_ne here] at stuck
    rw [Tables.visit_cleanq, Finset.mem_erase]
    exact ⟨here, ok.stuck x stuck⟩

theorem Sound.visit_release (ok : Sound cfg ext 0 0 none ∅ st) (release : st.release m = true) :
    Sound cfg ext (one m + fun x => (ordered cfg (st.stuck m)).count x) (one (st.oldsb m)) none ∅
      ((st.visit m).released m) := by
  have empty : st.sb m = cfg.nullSb := (ok.tomb m).mp (ok.released m release).1
  have alive : st.doomed m = false := by
    by_contra doomed
    have := (ok.gone (by simpa using doomed)).release
    simp [release] at this
  have kept : st.freed m = false := by
    by_contra freed
    have := ok.freed m (by simpa using freed)
    simp [alive] at this
  have update : ((st.visit m).released m).release = Function.update st.release m false := rfl
  have releases : ∀ x, ((st.visit m).released m).release x = true ↔ x ≠ m ∧ st.release x = true := by
    intro x
    rw [update]
    by_cases here : x = m
    · subst here; simp
    · simp [here]
  exact
    { ok with
      count := fun x => by
        have count := ok.count x
        have same : ((st.visit m).released m).stuck = Function.update st.stuck m ∅ := rfl
        have stuck : stuckIn st x = _ + (ordered cfg (st.stuck m)).count x := stuckIn_visit same
        have pins : pinsOn cfg ((st.visit m).released m) x = pinsOn cfg st x := pinsOn_congr rfl (holds_congr rfl)
        have owned : Owned cfg ((st.visit m).released m) x ↔ Owned cfg st x := Iff.rfl
        have spent : (st.release x).toNat = (((st.visit m).released m).release x).toNat + one m x := by
          rw [update]
          by_cases here : x = m
          · subst here; simp [release]
          · simp [here]
        change st.count x = _
        rw [refs_hand]
        unfold refs at count ⊢
        rw [pins, if_congr owned rfl rfl, Tables.released_ns, Tables.visit_ns, Tables.released_unm, Tables.visit_unm]
        simp only [Pi.zero_apply] at count
        omega
      active := fun s real => by
        have active := ok.active s real
        have clones : clonesOf cfg ((st.visit m).released m) s = clonesOf cfg st s := clonesOf_congr rfl (holds_congr rfl)
        have users : users st none s = users ((st.visit m).released m) none s + one (st.oldsb m) s := by
          unfold users
          rw [card_filter_drop (q := fun x => Uses ((st.visit m).released m) none s x) (a := m)]
          · have : Uses st none s m ↔ s = st.oldsb m := by simp [Uses, kept, empty, real.symm, release, eq_comm]
            simp [one, this]
          · intro x other
            simp [Uses, other]
          · simp [Uses, empty, real.symm]
        rw [clones]
        change st.active s = _
        simp only [Pi.zero_apply] at active
        omega
      queued := fun x => by
        rw [releases, Tables.released_cleanq, Tables.visit_cleanq, Finset.mem_erase, ok.queued]
        change _ ↔ st.freed x = false ∧ none ≠ some x ∧ (st.doomed x = true ∨ _)
        by_cases here : x = m
        · subst here
          simp [alive]
        · simp [here]
      stuck := stuck_visit ok
      released := fun x release => ok.released x ((releases x).mp release).2 }

theorem Sound.visit_doomed (ok : Sound cfg ext 0 0 none ∅ st) (doomed : st.doomed m = true) (kept : st.freed m = false) :
    Sound cfg ext (fun x => (ordered cfg (st.stuck m)).count x)
      (fun s => if st.sb m = cfg.nullSb then 0 else one (st.sb m) s) (some m) ∅ (st.visit m) := by
  have release := (ok.gone doomed).release
  exact
    { ok with
      count := fun x => by
        have count := ok.count x
        have same : (st.visit m).stuck = Function.update st.stuck m ∅ := rfl
        have stuck : stuckIn st x = _ + (ordered cfg (st.stuck m)).count x := stuckIn_visit same
        have pins : pinsOn cfg (st.visit m) x = pinsOn cfg st x := pinsOn_congr rfl (holds_congr rfl)
        have owned : Owned cfg (st.visit m) x ↔ Owned cfg st x := Iff.rfl
        change st.count x = _
        unfold refs at count ⊢
        rw [pins, if_congr owned rfl rfl, Tables.visit_ns, Tables.visit_unm, Tables.visit_release]
        simp only [Pi.zero_apply] at count ⊢
        omega
      active := fun s real => by
        have active := ok.active s real
        have clones : clonesOf cfg (st.visit m) s = clonesOf cfg st s := clonesOf_congr rfl (holds_congr rfl)
        have users : users st none s = users (st.visit m) (some m) s +
            if st.sb m = cfg.nullSb then 0 else one (st.sb m) s := by
          unfold users
          rw [card_filter_drop (q := fun x => Uses (st.visit m) (some m) s x) (a := m)]
          · have : Uses st none s m ↔ st.sb m = s := by simp [Uses, kept, release]
            rw [if_congr this rfl rfl]
            by_cases null : st.sb m = cfg.nullSb
            · rw [if_pos null, if_neg fun same => real (same.symm.trans null)]
            · simp [null, one, eq_comm]
          · intro x other
            simp [Uses, Ne.symm other]
          · simp [Uses]
        rw [clones]
        change st.active s = _
        simp only [Pi.zero_apply] at active
        omega
      freeing := fun x same => by
        obtain rfl := Option.some_injective _ same
        exact ⟨doomed, kept⟩
      queued := fun x => by
        rw [Tables.visit_cleanq, Finset.mem_erase, ok.queued]
        change _ ↔ st.freed x = false ∧ _ ∧ (st.doomed x = true ∨ st.release x = true)
        by_cases here : x = m
        · subst here
          simp
        · simp [here, Ne.symm here]
      stuck := stuck_visit ok }

theorem Sound.free (ok : Sound cfg ext 0 0 (some m) ∅ st) : Sound cfg ext 0 0 none ∅ (st.free m) := by
  obtain ⟨doomed, kept⟩ := ok.freeing m rfl
  have gone := ok.gone doomed
  have umounted : st.umount m = true := by
    by_contra mounted
    have := (ok.ns m).mpr (.inl (by simpa using mounted))
    simp [gone.ns] at this
  have updated : (st.free m).freed = Function.update st.freed m true := rfl
  have owned : ∀ x, Owned cfg (st.free m) x ↔ Owned cfg st x := by
    intro x
    by_cases here : x = m
    · subst here
      refine ⟨fun owned => ?_, fun owned => absurd owned gone.owned⟩
      simpa using owned.1
    · unfold Owned
      rw [Tables.free_attached, Function.update_of_ne here]
      rfl
  have linked : ∀ x p, (st.free m).parent x = some p → x ≠ m ∧ st.parent x = some p := by
    intro x p parent
    rw [Tables.free_parent] at parent
    by_cases here : x = m
    · subst here
      simp at parent
    · rw [Function.update_of_ne here] at parent
      exact ⟨here, parent⟩
  have other : ∀ x, x ≠ m → (st.free m).attached x = st.attached x ∧ (st.free m).parent x = st.parent x := by
    intro x other
    rw [Tables.free_attached, Tables.free_parent, Function.update_of_ne other, Function.update_of_ne other]
    exact ⟨rfl, rfl⟩
  exact
    { ok with
      count := fun x => by
        have pins : pinsOn cfg (st.free m) x = pinsOn cfg st x := pinsOn_congr rfl (holds_congr rfl)
        have stuck : stuckIn (st.free m) x = stuckIn st x := rfl
        have count := ok.count x
        unfold refs at count ⊢
        rwa [pins, if_congr (owned x) rfl rfl, stuck]
      active := fun s real => by
        have clones : clonesOf cfg (st.free m) s = clonesOf cfg st s := clonesOf_congr rfl (holds_congr rfl)
        have users : users (st.free m) none s = users st (some m) s := by
          unfold users
          congr 1
          refine Finset.filter_congr fun x _ => ?_
          unfold Uses
          rw [updated]
          by_cases here : x = m
          · subst here; simp
          · simp [here, Ne.symm here]
        rw [clones, users]
        exact ok.active s real
      freed := fun x freed => by
        rw [updated] at freed
        change st.doomed x = true
        by_cases here : x = m
        · exact here ▸ doomed
        · rw [Function.update_of_ne here] at freed
          exact ok.freed x freed
      freeing := nofun
      queued := fun x => by
        rw [updated]
        change x ∈ st.cleanq ↔ _ ∧ _ ∧ (st.doomed x = true ∨ st.release x = true)
        rw [ok.queued]
        by_cases here : x = m
        · subst here; simp
        · simp [here, Ne.symm here]
      parent := fun x p parent => by
        obtain ⟨apart, was⟩ := linked x p parent
        rw [(other x apart).1]
        exact ok.parent x p was
      below := fun x p parent => ok.below x p (linked x p parent).2
      attached := fun x gone attached => by
        have apart : x ≠ m := by
          rintro rfl
          simp at attached
        rw [(other x apart).1] at attached
        rw [(other x apart).2]
        exact ok.attached x gone attached
      mounted := fun x mounted => by
        have apart : x ≠ m := by
          rintro rfl
          exact absurd umounted (by simpa using mounted)
        rw [(other x apart).1, (other x apart).2]
        exact ok.mounted x mounted }

theorem Sound.cleanup (wf : cfg.WellFormed) (ok : Sound cfg ext 0 0 none ∅ st) (queued : m ∈ st.cleanq) :
    Sound cfg ext 0 0 none ∅ (st.cleanup cfg m) := by
  obtain ⟨kept, -, pending⟩ := (ok.queued m).mp queued
  unfold Tables.cleanup
  split
  · case isTrue release =>
    have visited := ok.visit_release release.2
    have put := visited.putAll wf
    refine Sound.put wf ?_
    rw [zero_add]
    refine Sound.dropSb wf ?_ ⟨m, (ok.released m release.2).2.symm⟩
    rwa [zero_add]
  · case isFalse release =>
    have doomed : st.doomed m = true := by
      refine pending.resolve_right fun pending => release ⟨?_, pending⟩
      exact (ok.disowned m (ok.released m pending).1).1
    have visited := ok.visit_doomed doomed kept
    rw [← zero_add (fun x => (ordered cfg (st.stuck m)).count x)] at visited
    have put := visited.putAll wf
    apply Sound.free
    by_cases null : st.sb m = cfg.nullSb
    · simp only [null, if_true] at put ⊢
      exact put
    · simp only [null, if_false] at put ⊢
      have filled : st.tomb m = false := by
        by_contra tomb
        exact null ((ok.tomb m).mp (by simpa using tomb))
      refine Sound.dropSb wf ?_ ⟨m, (ok.sb m filled).symm⟩
      rwa [zero_add]

end LinuxTla.MntOwn
