import LinuxTla.MntVacant.Put

/-! cleanup_mnt() of `MntVacant.tla`: one item after the other advances, releases what its mount
carried, and frees the mount or leaves that to its last put. -/

namespace LinuxTla.MntVacant

open Lib

variable {M S H W : Type} {cfg : Config M S H} {s after : State M S H W} {m x c : M} {it : Item M H W} {loose : Finset M}

theorem Stages.not_live (stages : Stages cfg s loose) (inside : it ∈ s.tw) : ¬ s.Live it.m :=
  fun live => stages.idle live it inside rfl

variable [LinearOrder M]

theorem mem_unstick {p : M} : x ∈ Function.update s.stuck m ((s.stuck m).erase c) p ↔ x ∈ s.stuck p ∧ ¬ (x = c ∧ p = m) := by
  by_cases here : p = m
  · subst here
    simp [and_comm]
  · simp [here]

/-- A dead stand-in leaves the list of its parent. -/
theorem Inv.unstick [Fintype S] [Fintype H] [Fintype W] (inv : Inv cfg s 0 none ∅) (child : c ∈ s.stuck m) :
    Inv cfg { s with stuck := Function.update s.stuck m ((s.stuck m).erase c) } 0 none {c} where
  tree := { inv.tree with }
  stages :=
    { inv.stages with
      stuck := fun x p member => by
        obtain ⟨mode, vacant, doomed, released, called, only, item⟩ := inv.stages.stuck x p (mem_unstick.mp member).1
        exact ⟨mode, vacant, doomed, released, called, fun q again => only q (mem_unstick.mp again).1, item⟩
      left := fun x member => by
        obtain rfl := Finset.mem_singleton.mp member
        obtain ⟨-, vacant, doomed, released, called, only, -⟩ := inv.stages.stuck x m child
        refine ⟨doomed, released, called, inv.stages.noItem vacant released, fun p again => ?_⟩
        obtain ⟨again, other⟩ := mem_unstick.mp again
        exact other ⟨rfl, inv.stages.stuck x m child |>.2.2.2.2.2.1 p again⟩
      ends := fun x doomed released called => by
        by_cases here : x = c
        · exact .inl (Finset.mem_singleton.mpr here)
        · exact .inr (((inv.stages.ends x doomed released called).resolve_left (Finset.notMem_empty x)).imp_right
            fun ⟨p, member⟩ => ⟨p, mem_unstick.mpr ⟨member, fun same => here same.1⟩⟩) }
  releases := { inv.releases with }
  ledger := { inv.ledger with }
  walkers := ⟨fun w => { inv.walkers.each w with }, inv.walkers.gone⟩
  clean := { inv.clean with }

section

variable [DecidableEq H] [DecidableEq W]

/-! ### An item advances -/

/-- The same item, one step further. -/
def State.step (s : State M S H W) (it : Item M H W) (step : TwStep) : State M S H W :=
  { s with tw := insert { it with step := step } (s.tw.erase it) }

theorem mem_step {step : TwStep} {i : Item M H W} :
    i ∈ (s.step it step).tw ↔ i = { it with step := step } ∨ i ≠ it ∧ i ∈ s.tw := by
  simp [State.step]

theorem Stages.step (stages : Stages cfg s loose) (inside : it ∈ s.tw) {step : TwStep}
    (fits : it.kind = .release ∧ step ≠ .free ∨ it.kind = .cleanup ∧ step ≠ .handoff)
    (empty : it.step = .stuck → s.stuck it.m = ∅) : Stages cfg (s.step it step) loose := by
  have apart : ∀ i ∈ s.tw, i ≠ it → i.m ≠ it.m := fun i member other same => other (stages.unique i member it inside same)
  have advanced : { it with step := step } ∈ (s.step it step).tw := mem_step.mpr (.inl rfl)
  have keeps : ∀ m, (∃ i ∈ s.tw, i.m = m) → ∃ i ∈ (s.step it step).tw, i.m = m := by
    rintro m ⟨i, member, here⟩
    by_cases same : i = it
    · exact ⟨_, advanced, same ▸ here⟩
    · exact ⟨i, mem_step.mpr (.inr ⟨same, member⟩), here⟩
  exact
    { stages with
      unique := fun i member i' member' same => by
        obtain rfl | ⟨other, member⟩ := mem_step.mp member <;> obtain rfl | ⟨other', member'⟩ := mem_step.mp member'
        · rfl
        · exact absurd same.symm (apart i' member' other')
        · exact absurd same (apart i member other)
        · exact stages.unique i member i' member' same
      release := fun i member kind => by
        obtain rfl | ⟨-, member⟩ := mem_step.mp member
        · refine ⟨(stages.release it inside kind).1, ?_⟩
          obtain ⟨-, step⟩ | ⟨kind', -⟩ := fits
          · exact step
          · simp [show it.kind = .release from kind] at kind'
        · exact stages.release i member kind
      cleanup := fun i member kind => by
        obtain rfl | ⟨-, member⟩ := mem_step.mp member
        · obtain ⟨own, doomed, called, -⟩ := stages.cleanup it inside kind
          refine ⟨own, doomed, called, ?_⟩
          obtain ⟨kind', -⟩ | ⟨-, step⟩ := fits
          · simp [show it.kind = .cleanup from kind] at kind'
          · exact step
        · exact stages.cleanup i member kind
      pending := fun x pending => keeps x (stages.pending x pending)
      stuck := fun c p member => by
        obtain ⟨mode, vacant, doomed, released, called, only, i, listed, here, here'⟩ := stages.stuck c p member
        refine ⟨mode, vacant, doomed, released, called, only, i, mem_step.mpr (.inr ⟨?_, listed⟩), here, here'⟩
        rintro rfl
        have member : c ∈ s.stuck p := member
        rw [← here, empty here'] at member
        exact Finset.notMem_empty c member
      left := fun x member => by
        obtain ⟨doomed, released, called, idle, apart⟩ := stages.left x member
        refine ⟨doomed, released, called, fun i listed => ?_, apart⟩
        obtain rfl | ⟨-, listed⟩ := mem_step.mp listed
        · exact idle it inside
        · exact idle i listed
      ends := fun x doomed released called =>
        (stages.ends x doomed released called).imp_right (.imp_left (keeps x)) }

/-- The item is done: a stand-in's release has cleared mnt_old_root, and what is doomed is free
to go. -/
def State.retire (s : State M S H W) (it : Item M H W) : State M S H W :=
  { s with oldroot := Function.update s.oldroot it.m false, tw := s.tw.erase it }

theorem Stages.retire (stages : Stages cfg s ∅) (inside : it ∈ s.tw) (last : it.step ≠ .stuck) :
    Stages cfg (s.retire it) (if s.doomed it.m then {it.m} else ∅) := by
  have apart : ∀ i ∈ s.tw.erase it, i.m ≠ it.m ∧ i ∈ s.tw := fun i member => by
    obtain ⟨other, member⟩ := Finset.mem_erase.mp member
    exact ⟨fun same => other (stages.unique i member it inside same), member⟩
  have cleared : ∀ x, Function.update s.oldroot it.m false x = true ↔ x ≠ it.m ∧ s.oldroot x = true := fun x => by
    by_cases here : x = it.m <;> simp [here]
  have called : s.rcufree it.m = false := by
    by_contra called
    obtain ⟨-, released⟩ := stages.rcufree it.m (by simpa using called)
    obtain kind | kind : it.kind = .release ∨ it.kind = .cleanup := by cases it.kind <;> simp
    · simp [(stages.release it inside kind).1] at released
    · exact called (stages.cleanup it inside kind).2.2.1
  have free : ∀ p, it.m ∉ s.stuck p := fun p member => by
    obtain ⟨-, vacant, -, released, -⟩ := stages.stuck it.m p member
    exact stages.noItem vacant released it inside rfl
  exact
    { stages with
      rcufree := fun x called => by
        obtain ⟨doomed, released⟩ := stages.rcufree x called
        refine ⟨doomed, Bool.eq_false_of_not_eq_true fun pending => ?_⟩
        simp [((cleared x).mp pending).2] at released
      oldroot := fun x pending => stages.oldroot x ((cleared x).mp pending).2
      unique := fun i member i' member' => stages.unique i (apart i member).2 i' (apart i' member').2
      release := fun i member kind => by
        obtain ⟨other, member⟩ := apart i member
        obtain ⟨pending, step⟩ := stages.release i member kind
        exact ⟨(cleared i.m).mpr ⟨other, pending⟩, step⟩
      cleanup := fun i member => stages.cleanup i (apart i member).2
      pending := fun x pending => by
        obtain ⟨other, pending⟩ := (cleared x).mp pending
        obtain ⟨i, member, here⟩ := stages.pending x pending
        exact ⟨i, Finset.mem_erase.mpr ⟨fun same => other (here ▸ same ▸ rfl), member⟩, here⟩
      stuck := fun c p member => by
        obtain ⟨mode, vacant, doomed, released, called, only, i, listed, here, step⟩ := stages.stuck c p member
        refine ⟨mode, vacant, doomed, Bool.eq_false_of_not_eq_true fun pending => ?_, called, only, i,
          Finset.mem_erase.mpr ⟨fun same => last (same ▸ step), listed⟩, here, step⟩
        simp [((cleared c).mp pending).2] at released
      left := fun x member => by
        split at member
        · case isTrue doomed =>
          obtain rfl := Finset.mem_singleton.mp member
          exact ⟨doomed, by simp [State.retire], called, fun i listed => (apart i listed).1, free⟩
        · exact absurd member (Finset.notMem_empty x)
      ends := fun x doomed released called => by
        have doomed : s.doomed x = true := doomed
        by_cases here : x = it.m
        · subst here
          exact .inl (by rw [if_pos doomed]; exact Finset.mem_singleton_self _)
        · have released : s.oldroot x = false := by simpa [State.retire, here] using released
          obtain ⟨i, member, own⟩ | stuck := (stages.ends x doomed released called).resolve_left (Finset.notMem_empty x)
          · exact .inr (.inl ⟨i, Finset.mem_erase.mpr ⟨fun same => here (own ▸ same ▸ rfl), member⟩, own⟩)
          · exact .inr (.inr stuck) }

theorem Releases.step (releases : Releases cfg s) (inside : it ∈ s.tw) (here : it.step = .stuck) :
    Releases cfg (s.step it .sb) :=
  { releases with
    sbact := fun x => by
      refine (releases.sbact x).trans
        (or_congr_right ⟨fun ⟨i, member, own, step⟩ => ?_, fun ⟨i, member, own, step⟩ => ?_⟩)
      · by_cases same : i = it
        · exact ⟨_, mem_step.mpr (.inl rfl), same ▸ own, .inr rfl⟩
        · exact ⟨i, mem_step.mpr (.inr ⟨same, member⟩), own, step⟩
      · obtain rfl | ⟨-, member⟩ := mem_step.mp member
        · exact ⟨it, inside, own, .inl here⟩
        · exact ⟨i, member, own, step⟩ }

theorem Releases.retire (releases : Releases cfg s) (last : it.step ≠ .stuck ∧ it.step ≠ .sb) : Releases cfg (s.retire it) :=
  { releases with
    sbact := fun x => by
      refine (releases.sbact x).trans
        (or_congr_right ⟨fun ⟨i, member, own, step⟩ => ?_, fun ⟨i, member, own, step⟩ => ?_⟩)
      · refine ⟨i, Finset.mem_erase.mpr ⟨?_, member⟩, own, step⟩
        rintro rfl
        exact step.elim last.1 last.2
      · exact ⟨i, (Finset.mem_erase.mp member).2, own, step⟩ }

theorem Inv.retire [Fintype S] [Fintype H] [Fintype W] (inv : Inv cfg s 0 none ∅) (inside : it ∈ s.tw)
    (last : it.step ≠ .stuck ∧ it.step ≠ .sb) : Inv cfg (s.retire it) 0 none (if s.doomed it.m then {it.m} else ∅) where
  tree := { inv.tree with }
  stages := inv.stages.retire inside last.1
  releases := inv.releases.retire last
  ledger := { inv.ledger with }
  walkers := ⟨fun w => { inv.walkers.each w with }, inv.walkers.gone⟩
  clean := { inv.clean with }

def afterSb : Kind → TwStep
  | .cleanup => .free
  | .release => .handoff

theorem advance_stuck (here : it.step = .stuck) : s.advance it = s.step it .sb := by
  cases it
  cases here
  rfl

theorem advance_sb (here : it.step = .sb) : s.advance it = s.step it (afterSb it.kind) := by
  obtain ⟨m, kind, step, owner⟩ := it
  cases here
  cases kind <;> rfl

theorem advance_last (here : it.step = .free ∨ it.step = .handoff) : s.advance it = { s with tw := s.tw.erase it } := by
  cases it
  rcases here with rfl | rfl <;> rfl

end

/-! ### The release -/

variable [DecidableEq S]

/-- The teardown of the superblock never waits: the only mark it is accounted for has just gone. -/
theorem Releases.unmarked (releases : Releases cfg s) (m : M) : (s.unmark m).watched (some (cfg.sb m)) = 0 := by
  have watched := releases.watched m
  unfold State.unmark
  cases mark : s.conn m with
  | none => simpa [mark] using watched
  | some acct =>
    obtain ⟨rfl, -⟩ := releases.conn m acct mark
    simp [watched, mark]

theorem Releases.release [DecidableEq H] [DecidableEq W] (wf : cfg.WellFormed) (releases : Releases cfg s)
    (stages : Stages cfg s loose) (inside : it ∈ s.tw)
    (here : it.step = .sb) {step : TwStep} (later : step ≠ .stuck ∧ step ≠ .sb) :
    Releases cfg (((s.unmark it.m).release cfg it.m).step it step) := by
  have active : s.sbact (cfg.sb it.m) = true := (releases.sbact it.m).mpr (.inr ⟨it, inside, rfl, .inr here⟩)
  have other : ∀ {x}, x ≠ it.m → cfg.sb x ≠ cfg.sb it.m := fun apart same => apart (wf.sb.1 same)
  have sbact : ∀ x, ((s.unmark it.m).release cfg it.m).sbact (cfg.sb x) = true ↔ x ≠ it.m ∧ s.sbact (cfg.sb x) = true :=
    fun x => by
      by_cases same : x = it.m
      · simp [State.release, same]
      · simp [State.release, State.unmark, same, other same]
  have watched : ∀ x, x ≠ some (cfg.sb it.m) → (s.unmark it.m).watched x = s.watched x := fun x apart => by
    unfold State.unmark
    cases mark : s.conn it.m with
    | none => rfl
    | some acct =>
      obtain ⟨rfl, -⟩ := releases.conn it.m acct mark
      simp [apart]
  exact
    { sbact := fun x => by
        refine (sbact x).trans ?_
        rw [releases.sbact x]
        constructor
        · rintro ⟨apart, live | ⟨i, member, own, step⟩⟩
          · exact .inl live
          · exact .inr ⟨i, mem_step.mpr (.inr ⟨fun same => apart (own ▸ same ▸ rfl), member⟩), own, step⟩
        · rintro (live | ⟨i, member, own, step⟩)
          · exact ⟨fun same => stages.not_live inside (same ▸ live), .inl live⟩
          · obtain rfl | ⟨apart, member⟩ := mem_step.mp member
            · exact absurd step (by simp [later.1, later.2])
            · exact ⟨fun same => apart (stages.unique i member it inside (own.trans same)), .inr ⟨i, member, own, step⟩⟩
      conn := fun x acct mark => by
        have apart : x ≠ it.m := fun same => by
          rw [same] at mark
          simp [State.step, State.release, State.unmark] at mark
        have mark : s.conn x = some acct := by simpa [State.step, State.release, State.unmark, apart] using mark
        obtain ⟨own, up⟩ := releases.conn x acct mark
        exact ⟨own, (sbact x).mpr ⟨apart, up⟩⟩
      watched := fun x => by
        change (s.unmark it.m).watched _ = if Function.update s.conn it.m none x = none then 0 else 1
        by_cases same : x = it.m
        · subst same
          rw [releases.unmarked, Function.update_self, if_pos rfl]
        · rw [watched _ (by simpa using other same), Function.update_of_ne same]
          exact releases.watched x
      unwatched := fun x none => (watched x (none it.m)).trans (releases.unwatched x none)
      releases := fun x => by
        have count := releases.releases x
        by_cases same : x = it.m
        · subst same
          simp [State.step, State.release, State.unmark, count, active]
        · simp [State.step, State.release, State.unmark, same, other same, count] }

/-- The superblock goes down, and the file it keeps is going to be dropped. -/
def State.deactivate (cfg : Config M S H) (s : State M S H W) (b : S) : State M S H W :=
  { s with sbact := Function.update s.sbact b false, pins := s.pins ∪ (cfg.pin b).toFinset }

variable [Fintype S]

theorem pinned_deactivate {b : S} (active : s.sbact b = true) (x : M) :
    pinned cfg (s.deactivate cfg b) x + (if cfg.pin b = some x ∧ x ∈ s.pins then 1 else 0) = pinned cfg s x := by
  unfold pinned State.deactivate
  rw [card_filter_drop (a := b) (p := fun b => s.sbact b = true ∧ cfg.pin b = some x)
    (q := fun b' => Function.update s.sbact b false b' = true ∧ cfg.pin b' = some x) (fun b' other => by simp [other]) (by simp)]
  by_cases pinning : cfg.pin b = some x <;> by_cases inside : x ∈ s.pins <;> simp [active, pinning, inside]

theorem outer_deactivate {b : S} (active : s.sbact b = true) (x : M) :
    outer cfg (s.deactivate cfg b) x + (if cfg.pin b = some x ∧ x ∈ s.pins then 1 else 0) = outer cfg s x := by
  have moved : pinned cfg (s.deactivate cfg b) x + _ = _ := pinned_deactivate active x
  change s.uhead.count x + s.ext x + pinned cfg (s.deactivate cfg b) x + _ = s.uhead.count x + s.ext x + pinned cfg s x
  omega

variable [Fintype H] [Fintype W]

/-- The file of the superblock goes from the superblock to the pins that are dropped; a drop that
is already pending for the same mount takes it in. -/
theorem Ledger.deactivate (ledger : Ledger cfg s 0 none) {b : S} (active : s.sbact b = true) :
    Ledger cfg (s.deactivate cfg b) 0 none := by
  have moved : ∀ x, outer cfg (s.deactivate cfg b) x + _ = _ := outer_deactivate active
  have refs : ∀ x, refs cfg (s.deactivate cfg b) x + (if cfg.pin b = some x ∧ x ∈ s.pins then 1 else 0) = refs cfg s x :=
    fun x => by
      have moved := moved x
      change outer cfg (s.deactivate cfg b) x + wrefs s x + owed s x + parentRef cfg s x + _ =
        outer cfg s x + wrefs s x + owed s x + parentRef cfg s x
      omega
  exact
    { ledger with
      least := fun x => by
        have least := ledger.least x
        have refs := refs x
        change _ ≤ s.count x
        omega
      exact := fun x ends => by
        have ends : s.vacant x = true ∨ s.doomed x = true ∨ cfg.Alone := ends
        have exact := ledger.exact x ends
        have refs := refs x
        have moved := moved x
        have lost : ¬ (cfg.pin b = some x ∧ x ∈ s.pins) := by
          intro lost
          rw [if_pos lost] at moved
          obtain vacant | doomed | alone := ends
          · have final := ledger.final x (.inl vacant)
            omega
          · have final := ledger.final x (.inr doomed)
            omega
          · obtain ⟨b', pinning, down⟩ := ledger.pins x lost.2
            rw [alone b b' x lost.1 pinning, down] at active
            exact Bool.false_ne_true active
        rw [if_neg lost] at refs
        change s.count x = _
        omega
      final := fun x ends => by
        have final := ledger.final x ends
        have moved := moved x
        omega
      pins := fun x inside => by
        obtain inside | pinning := Finset.mem_union.mp inside
        · obtain ⟨b', pinning, down⟩ := ledger.pins x inside
          refine ⟨b', pinning, ?_⟩
          by_cases same : b' = b <;> simp [State.deactivate, same, down]
        · exact ⟨b, by simpa using pinning, by simp [State.deactivate]⟩ }

/-! ### One step of an item -/

variable [DecidableEq H] [DecidableEq W]

theorem Inv.release (wf : cfg.WellFormed) (inv : Inv cfg s 0 none ∅) (inside : it ∈ s.tw) (here : it.step = .sb) :
    Inv cfg (((s.unmark it.m).release cfg it.m).step it (afterSb it.kind)) 0 none ∅ := by
  have active : s.sbact (cfg.sb it.m) = true := (inv.releases.sbact it.m).mpr (.inr ⟨it, inside, rfl, .inr here⟩)
  have fits : it.kind = .release ∧ afterSb it.kind ≠ .free ∨ it.kind = .cleanup ∧ afterSb it.kind ≠ .handoff := by
    cases it.kind <;> simp [afterSb]
  exact
    { tree := { inv.tree with }
      stages := { inv.stages.step inside fits (by simp [here]) with }
      releases := inv.releases.release wf inv.stages inside here (by cases it.kind <;> simp [afterSb])
      ledger := { inv.ledger.deactivate active with }
      walkers := ⟨fun w => { inv.walkers.each w with }, inv.walkers.gone⟩
      clean :=
        { inv.clean with
          warn := by simp [State.step, State.release, State.unmark, warnIf, inv.clean.warn, active] } }

theorem Inv.taskWork [Fintype M] (wf : cfg.WellFormed) (inv : Inv cfg s 0 none ∅) (step : s.TaskWork cfg it after) :
    Inv cfg after 0 none ∅ := by
  cases step with
  | stuckDone inside here _ none =>
    rw [advance_stuck here]
    exact
      { tree := { inv.tree with }
        stages := inv.stages.step inside (by cases it.kind <;> simp) fun _ => none
        releases := inv.releases.step inside here
        ledger := { inv.ledger with }
        walkers := ⟨fun w => { inv.walkers.each w with }, inv.walkers.gone⟩
        clean := { inv.clean with } }
  | stuckFree inside here _ child mode => simpa using (inv.unstick child).free (Finset.mem_singleton_self _)
  | stuckPut inside here _ child mode =>
    have mode' := (inv.stages.stuck _ _ child).1
    simp [mode] at mode'
  | sbHangs inside here _ waits =>
    rw [inv.releases.unmarked] at waits
    exact absurd waits (lt_irrefl 0)
  | sb inside here =>
    rw [advance_sb here]
    exact inv.release wf inside here
  | free inside here =>
    have kind : it.kind = .cleanup := by
      cases kind : it.kind
      · rfl
      · exact absurd here (inv.stages.release it inside kind).2
    obtain ⟨own, doomed, -⟩ := inv.stages.cleanup it inside kind
    have released : s.oldroot it.m = false := Bool.eq_false_of_not_eq_true fun pending => by
      simp [inv.stages.oldroot it.m pending] at own
    have retired := inv.retire inside (by simp [here])
    have same : s.retire it = { s with tw := s.tw.erase it } := by
      unfold State.retire
      rw [← released, Function.update_eq_self]
    rw [if_pos doomed, same] at retired
    have freed := retired.free (Finset.mem_singleton_self it.m)
    rw [Finset.erase_singleton] at freed
    rw [advance_last (.inl here)]
    exact freed
  | handoffFree inside here _ doomed =>
    have retired := inv.retire inside (by simp [here])
    rw [if_pos doomed] at retired
    have freed := retired.free (Finset.mem_singleton_self it.m)
    rw [Finset.erase_singleton] at freed
    rw [advance_last (.inr here)]
    exact freed
  | handoff inside here _ alive =>
    have retired := inv.retire inside (by simp [here])
    rw [if_neg (by simp [alive])] at retired
    rw [advance_last (.inr here)]
    exact retired

end LinuxTla.MntVacant
