import LinuxTla.MntVacant.Cleanup
import LinuxTla.MntVacant.Walks

/-! Every step of `MntVacant.tla` keeps the invariant. -/

namespace LinuxTla.MntVacant

open Lib

variable {M S H W : Type} {cfg : Config M S H} {s after : State M S H W} {m t p : M} {h : H}

theorem fallen_singleton (own : ¬ (cfg.noref = true ∧ s.vacant t = true ∧ s.dead t = true)) : fallen cfg s {t} = ∅ := by
  rw [fallen, Finset.filter_singleton, if_neg own]

variable [LinearOrder M] [Fintype S] [Fintype H] [Fintype W]

theorem Ledger.up_of_outer (ledger : Ledger cfg s 0 none) (some' : 0 < outer cfg s m) : s.doomed m = false :=
  Bool.eq_false_of_not_eq_true fun doomed => by
    have none := ledger.final m (.inr doomed)
    omega

theorem Inv.control (inv : Inv cfg s 0 none ∅) (upc : ULabel) (ugp : Finset W) (refused : Bool) :
    Inv cfg { s with upc := upc, ugp := ugp, markRefused := refused } 0 none ∅ where
  tree := { inv.tree with }
  stages := { inv.stages with }
  releases := { inv.releases with }
  ledger := { inv.ledger with }
  walkers := ⟨fun w => { inv.walkers.each w with }, inv.walkers.gone⟩
  clean := { inv.clean with }

theorem Inv.rcuFree (inv : Inv cfg s 0 none ∅) (called : s.rcufree m = true) (left : s.freewait m = ∅) :
    Inv cfg { s with freed := Function.update s.freed m true } 0 none ∅ where
  tree := { inv.tree with }
  stages :=
    { inv.stages with
      freed := fun x freed => by
        by_cases here : x = m
        · exact here ▸ called
        · exact inv.stages.freed x (by simpa [here] using freed) }
  releases := { inv.releases with }
  ledger := { inv.ledger with }
  walkers :=
    { each := fun w => { inv.walkers.each w with }
      gone := fun x freed => by
        by_cases here : x = m
        · exact here ▸ left
        · exact inv.walkers.gone x (by simpa [here] using freed) }
  clean := { inv.clean with }

theorem Inv.unlink (inv : Inv cfg s 0 none ∅) (t : M) : Inv cfg (s.unlink t) 0 none ∅ ∧ Behind (s.unlink t) := by
  have walkers := inv.walkers.drop (m := t)
  have there : ∀ c, (s.unlink t).mpgone c = false → s.mpgone c = false := fun c there => by
    by_cases here : c = t
    · simp [State.unlink, here] at there
    · simpa [State.unlink, here] using there
  refine ⟨?_, walkers.2⟩
  exact
    { tree := { inv.tree with covers := fun c p parent live on => inv.tree.covers c p parent live (there c on) }
      stages := { inv.stages with }
      releases := { inv.releases with }
      ledger := { inv.ledger with }
      walkers :=
        ⟨fun w => { walkers.1.each w with looks := fun _ _ same => absurd same (walkers.2 w) }, inv.walkers.gone⟩
      clean := { inv.clean with } }

/-! ### At the start -/

theorem refs_init [Fintype M] (m : M) : (refs cfg (init cfg : State M S H W) m : ℤ) = (init cfg : State M S H W).count m := by
  have listed : (init cfg : State M S H W).uhead.count m = 1 := by simp [init, count_ordered]
  have unseen : wrefs (init cfg : State M S H W) m = 0 := by simp [wrefs, Visible, init]
  have unowed : owed (init cfg : State M S H W) m = 0 := by simp [owed, init]
  have own : parentRef cfg (init cfg : State M S H W) m = 0 := by simp [parentRef, init]
  unfold refs outer
  rw [listed, unseen, unowed, own]
  simp [init, pinned, pinned0]

theorem inv_init [Fintype M] : Inv cfg (init cfg : State M S H W) 0 none ∅ where
  tree :=
    { parent := fun m => by cases parent : cfg.parent m <;> simp [init, parent]
      top := fun m => by simp [init, Option.ne_none_iff_isSome]
      alive := by simp [init]
      below := by simp [init, State.Live]
      covers := fun c p parent _ _ _ => by simp [init, parent] }
  stages := by constructor <;> simp [init, place]
  releases := by constructor <;> simp [init, State.Live]
  ledger :=
    { least := fun m => (refs_init m).le
      exact := fun m _ => (refs_init m).symm
      ext := fun m => by simp [init, ext0]
      final := by simp [init]
      unowed := by simp [init]
      noref := by simp [init]
      alive := fun m _ _ _ => by
        simp only [init]
        omega
      pins := by simp [init] }
  walkers := ⟨fun w => by constructor <;> simp [init, Reading, Crossing, Transient, Holding], by simp [init]⟩
  clean := by constructor <;> simp [init]

/-! ### A fanotify mark -/

theorem Inv.mark [Fintype M] [DecidableEq S] (wf : cfg.WellFormed) (inv : Inv cfg s 0 none ∅) (may : s.Markable cfg h m)
    (own : s.vacant m = false) : Inv cfg { s with
      conn := Function.update s.conn m (some (s.curSb cfg m))
      watched := Function.update s.watched (s.curSb cfg m) (s.watched (s.curSb cfg m) + 1) } 0 none ∅ := by
  obtain ⟨-, opened, -, reach, unmarked, -⟩ := may
  have up : s.doomed m = false := by
    obtain rfl | child := reach
    · refine (inv.live_of_ext ?_).2
      rw [inv.ledger.ext]
      exact (Finset.card_pos.mpr ⟨h, by simp [opened]⟩).ne'
    · exact inv.tree.alive m ((inv.tree.mem_kids inv.stages).mp child).1
  have active : s.sbact (cfg.sb m) = true := (inv.releases.sbact m).mpr (.inl ⟨own, up⟩)
  have sb : s.curSb cfg m = some (cfg.sb m) := by simp [State.curSb, own]
  rw [sb]
  exact
    { tree := { inv.tree with }
      stages := { inv.stages with }
      releases :=
        { inv.releases with
          conn := fun x acct mark => by
            by_cases here : x = m
            · subst here
              simp only [Function.update_self, Option.some.injEq] at mark
              exact ⟨mark.symm, active⟩
            · exact inv.releases.conn x acct (by simpa [here] using mark)
          watched := fun x => by
            have watched := inv.releases.watched x
            by_cases here : x = m
            · subst here
              simp [watched, unmarked]
            · have other : cfg.sb x ≠ cfg.sb m := fun same => here (wf.sb.1 same)
              simpa [here, other] using watched
          unwatched := fun x none => by
            simpa [none m] using inv.releases.unwatched x none }
      ledger := { inv.ledger with }
      walkers := ⟨fun w => { inv.walkers.each w with }, inv.walkers.gone⟩
      clean := { inv.clean with } }

/-! ### A reference is taken from where it was -/

theorem Ledger.give (ledger : Ledger cfg s 0 none) (moved : ∀ x, refs cfg after x + one m x = refs cfg s x)
    (outer_le : ∀ x, outer cfg after x ≤ outer cfg s x) (owed_le : ∀ x, owed after x ≤ owed s x)
    (same : after.count = s.count ∧ after.vacant = s.vacant ∧ after.doomed = s.doomed ∧ after.hashed = s.hashed)
    (ext : ∀ x, after.ext x = (Finset.univ.filter fun h => cfg.holderMnt h = x ∧ after.hdone h = false).card)
    (noref : cfg.noref = true → ∀ t, after.vq t = [])
    (pins : ∀ x ∈ after.pins, ∃ b, cfg.pin b = some x ∧ after.sbact b = false) : Ledger cfg after (one m) none := by
  obtain ⟨count, vacant, doomed, hashed⟩ := same
  exact
    { least := fun x => by
        have least := ledger.least x
        rw [count, moved]
        simpa using least
      exact := fun x ends => by
        rw [vacant, doomed] at ends
        rw [count, moved]
        simpa using ledger.exact x ends
      ext := ext
      final := fun x ends => by
        rw [vacant, doomed] at ends
        have final := ledger.final x ends
        have less := outer_le x
        omega
      unowed := fun x ends => by
        rw [doomed] at ends
        have unowed := ledger.unowed x ends
        have less := owed_le x
        omega
      noref := noref
      alive := by rw [count, vacant, doomed, hashed]; exact ledger.alive
      pins := pins }

/-- Where references are listed and who has files open is all that changes. -/
theorem Inv.give (inv : Inv cfg s 0 none ∅) {uhead : List M} {ext : M → ℕ} {hdone : H → Bool} {pins : Finset M}
    {vq : Task H W → List M}
    (ledger : Ledger cfg { s with uhead := uhead, ext := ext, hdone := hdone, pins := pins, vq := vq } (one m) none) :
    Inv cfg { s with uhead := uhead, ext := ext, hdone := hdone, pins := pins, vq := vq } (one m) none ∅ where
  tree := { inv.tree with }
  stages := { inv.stages with }
  releases := { inv.releases with }
  ledger := ledger
  walkers := ⟨fun w => { inv.walkers.each w with }, inv.walkers.gone⟩
  clean := { inv.clean with }

variable [DecidableEq H] [DecidableEq W] {task : Task H W}

theorem count_head (m : M) (rest : List M) (x : M) : (m :: rest).count x = rest.count x + one m x := by
  by_cases here : x = m
  · subst here
    simp
  · rw [List.count_cons_of_ne (Ne.symm here), one_other here, add_zero]

variable [Fintype M]

theorem Inv.put_outer (wf : cfg.WellFormed) (inv : Inv cfg s 0 none ∅) {uhead : List M} {ext : M → ℕ} {hdone : H → Bool}
    {pins : Finset M}
    (moved : ∀ x, outer cfg { s with uhead := uhead, ext := ext, hdone := hdone, pins := pins } x + one m x = outer cfg s x)
    (files : ∀ x, ext x = (Finset.univ.filter fun h => cfg.holderMnt h = x ∧ hdone h = false).card)
    (fewer : pins ⊆ s.pins) :
    Inv cfg ({ s with uhead := uhead, ext := ext, hdone := hdone, pins := pins }.put cfg m task) 0 none ∅ := by
  have some' := moved m
  rw [one_self] at some'
  refine Inv.put wf (inv.give (inv.ledger.give (fun x => ?_) (fun x => ?_) (fun _ => le_rfl) ⟨rfl, rfl, rfl, rfl⟩ files
    inv.ledger.noref fun x inside => inv.ledger.pins x (fewer inside))) (inv.ledger.up_of_outer (by omega))
  · have moved := moved x
    change outer cfg _ x + wrefs s x + owed s x + parentRef cfg s x + one m x =
      outer cfg s x + wrefs s x + owed s x + parentRef cfg s x
    omega
  · have moved := moved x
    change outer cfg _ x ≤ outer cfg s x
    omega

theorem Inv.uput (wf : cfg.WellFormed) (inv : Inv cfg s 0 none ∅) {rest : List M} (head : s.uhead = m :: rest) :
    Inv cfg ({ s with uhead := rest }.put cfg m .u) 0 none ∅ := by
  refine inv.put_outer wf (fun x => ?_) inv.ledger.ext (Finset.Subset.refl _)
  have count : s.uhead.count x = rest.count x + one m x := by rw [head, count_head]
  change rest.count x + s.ext x + pinned cfg s x + one m x = s.uhead.count x + s.ext x + pinned cfg s x
  omega

theorem Inv.pinPut (wf : cfg.WellFormed) (inv : Inv cfg s 0 none ∅) (drop : m ∈ s.pins) :
    Inv cfg ({ s with pins := s.pins.erase m }.put cfg m .k) 0 none ∅ := by
  refine inv.put_outer wf (fun x => ?_) inv.ledger.ext (Finset.erase_subset m _)
  have moved : pinned cfg { s with pins := s.pins.erase m } x + one m x = pinned cfg s x := by
    by_cases here : x = m
    · subst here
      simp [pinned, drop]
    · simp [pinned, here]
  change s.uhead.count x + s.ext x + pinned cfg { s with pins := s.pins.erase m } x + one m x =
    s.uhead.count x + s.ext x + pinned cfg s x
  omega

theorem Inv.close (wf : cfg.WellFormed) (inv : Inv cfg s 0 none ∅) (opened : s.hdone h = false) :
    Inv cfg ({ s with
      hdone := Function.update s.hdone h true
      ext := Function.update s.ext (cfg.holderMnt h) (s.ext (cfg.holderMnt h) - 1) }.put cfg (cfg.holderMnt h) (.holder h)) 0 none
      ∅ := by
  have files : ∀ x, s.ext x = (Finset.univ.filter fun k => cfg.holderMnt k = x ∧ Function.update s.hdone h true k = false).card +
      one (cfg.holderMnt h) x := fun x => by
    rw [inv.ledger.ext x, card_filter_drop (a := h) (q := fun k => cfg.holderMnt k = x ∧ Function.update s.hdone h true k = false)
      (fun k other => by simp [other]) (by simp)]
    simp only [opened, and_true, one, eq_comm]
  have moved : ∀ x, Function.update s.ext (cfg.holderMnt h) (s.ext (cfg.holderMnt h) - 1) x + one (cfg.holderMnt h) x = s.ext x :=
    fun x => by
      have files := files x
      by_cases here : x = cfg.holderMnt h
      · subst here
        rw [one_self] at files ⊢
        rw [Function.update_self]
        omega
      · simp [here]
  refine inv.put_outer wf (fun x => ?_) (fun x => ?_) (Finset.Subset.refl _)
  · have moved := moved x
    change s.uhead.count x + Function.update s.ext (cfg.holderMnt h) (s.ext (cfg.holderMnt h) - 1) x + pinned cfg s x + _ =
      s.uhead.count x + s.ext x + pinned cfg s x
    omega
  · have moved := moved x
    have files := files x
    omega

theorem Inv.vput (wf : cfg.WellFormed) (inv : Inv cfg s 0 none ∅) {rest : List M} (owes : s.vq task = m :: rest) :
    Inv cfg ({ s with vq := Function.update s.vq task rest }.put cfg m task) 0 none ∅ := by
  have moved : ∀ x, owed { s with vq := Function.update s.vq task rest } x + one m x = owed s x := fun x => by
    refine (owed_change (fun t (other : t ≠ task) => (Function.update_of_ne other _ _).symm) ?_).symm
    rw [owes, Function.update_self, count_head]
  have mode : cfg.noref ≠ true := fun mode => by
    have none := inv.ledger.noref mode task
    simp [owes] at none
  have up : s.doomed m = false := Bool.eq_false_of_not_eq_true fun doomed => by
    have none := inv.ledger.unowed m doomed
    have moved := moved m
    rw [one_self] at moved
    omega
  refine Inv.put wf (inv.give (inv.ledger.give (fun x => ?_) (fun x => le_rfl) (fun x => ?_) ⟨rfl, rfl, rfl, rfl⟩ inv.ledger.ext
    (fun noref => absurd noref mode) inv.ledger.pins)) up
  · have moved := moved x
    change outer cfg s x + wrefs s x + owed _ x + parentRef cfg s x + one m x =
      outer cfg s x + wrefs s x + owed s x + parentRef cfg s x
    omega
  · have moved := moved x
    change owed _ x ≤ owed s x
    omega

/-! ### rmdir of a mountpoint -/

theorem Inv.detach (inv : Inv cfg s 0 none ∅) (quiet : s.Quiet .d) : Inv cfg (s.detach cfg t) 0 none ∅ := by
  obtain ⟨kept, behind⟩ := inv.unlink t
  unfold State.detach
  split
  · case isTrue attached =>
    have hashed : ∀ c ∈ ({t} : Finset M), s.hashed c = true := fun c inside => Finset.mem_singleton.mp inside ▸ attached.1
    have gone : ∀ c ∈ ({t} : Finset M), ∀ p, cfg.parent c = some p →
        (s.unlink t).mpgone c = true ∨ (none : Option M) = some p := fun c inside _ _ =>
      .inl (by simp [State.unlink, Finset.mem_singleton.mp inside])
    -- nothing is owed unless a stand-in has a reference of its own
    have cut : (s.vacant t = true → cfg.noref = true) → Inv cfg ((s.unlink t).cut cfg {t}) 0 none (fallen cfg (s.unlink t) {t}) :=
      fun unowned => by
        refine kept.cut behind hashed gone inv.ledger.noref fun x => ?_
        rw [if_neg]
        · rfl
        · rintro ⟨here, mode, vacant⟩
          have here := Finset.mem_singleton.mp here
          simp [unowned (here ▸ vacant)] at mode
    split
    · case isTrue vacant =>
      split
      · case isTrue mode =>
        have cut := cut fun _ => mode
        split
        · case isTrue dead =>
          have own : fallen cfg (s.unlink t) {t} = {t} := by
            rw [fallen, Finset.filter_singleton, if_pos ⟨mode, vacant, dead⟩]
          rw [own] at cut
          simpa using cut.free (Finset.mem_singleton_self t)
        · case isFalse alive =>
          rw [fallen_singleton (s := s.unlink t) fun found => alive found.2.2] at cut
          exact cut
      · case isFalse mode =>
        have cut : Inv cfg { (s.unlink t).cut cfg {t} with vq := Function.update s.vq .d [t] } 0 none
            (fallen cfg (s.unlink t) {t}) := by
          refine kept.cut behind hashed gone (fun noref => absurd noref mode) fun x => ?_
          have empty : s.vq .d = [] := quiet
          have owes := owed_update s.vq .d [t] x
          rw [empty, List.nil_append] at owes
          rw [owes]
          have single : List.count x [t] =
              if x ∈ ({t} : Finset M) ∧ cfg.noref = false ∧ (s.unlink t).vacant x = true then 1 else 0 := by
            by_cases here : x = t
            · subst here
              have vacant : (s.unlink x).vacant x = true := vacant
              simp [mode, vacant]
            · simp [here, Ne.symm here]
          rw [single]
          rfl
        rw [fallen_singleton (s := s.unlink t) fun found => mode found.1] at cut
        exact cut
    · case isFalse own =>
      have cut := cut fun vacant => absurd vacant own
      rw [fallen_singleton (s := s.unlink t) fun found => own found.2.1] at cut
      exact cut
  · case isFalse => exact kept

/-! ### Every run -/

theorem Inv.next [DecidableEq S] (wf : cfg.WellFormed) (inv : Inv cfg s 0 none ∅) (step : s.Next cfg after) :
    Inv cfg after 0 none ∅ := by
  cases step with
  | unlocker step =>
    cases step with
    | gp => exact inv.control .wait s.rcu s.markRefused
    | wait => exact inv.control .put s.ugp s.markRefused
    | done => exact inv.control .done s.ugp s.markRefused
    | put _ _ head => exact inv.uput wf head
  | holder step =>
    cases step with
    | refused => exact inv.control s.upc s.ugp true
    | mark may own => exact inv.mark wf may own
    | close opened => exact inv.close wf opened
  | walk step => exact inv.walk wf step
  | detach step =>
    cases step with
    | detach quiet => exact inv.detach quiet
  | taskWork step => exact inv.taskWork wf step
  | vput owes => exact inv.vput wf owes
  | pinPut drop => exact inv.pinPut wf drop
  | rcuFree called _ left => exact inv.rcuFree called left
  | settled => exact inv

theorem inv [DecidableEq S] (wf : cfg.WellFormed) : (spec cfg).Invariant fun s : State M S H W => Inv cfg s 0 none ∅ :=
  .of_step (fun _ start => start ▸ inv_init) fun _ _ inv step => inv.next wf step

end LinuxTla.MntVacant
