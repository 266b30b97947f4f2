import LinuxTla.Fiber.Scopes

/-! Fibers come and go: one is spawned, or completes and wakes whoever waits for it. -/

namespace LinuxTla.Fiber

open Lib

variable {F E W : Type} [DecidableEq F] [DecidableEq E] [DecidableEq W] {cfg : Config F E W} {s t u : State F E W} {f g : F}

/-! ### Spawning -/

namespace Core

variable (core : Core cfg s)

include core

/-- A fiber comes into being that nobody holds yet. -/
theorem born (unborn : (s.fib g).state = .none) {b : Fib F E W} (initial : b.state = .initial) (empty : b.owned = [])
    (away : s.phase ≠ some g) :
    Core cfg ((s.setFib g fun _ => b).setFut (.fiber g) fun _ => fiberFut none false) := by
  have dead : ¬ s.Alive g := fun live => live.1 unborn
  have untargeted (w : W) : (s.fut (.wait w)).target ≠ some g := by
    intro target
    exact dead (core.alive_of_held (core.held_of_target target).1)
  set r := (s.setFib g fun _ => b).setFut (.fiber g) fun _ => fiberFut none false with born
  have here : r.fib g = b := by rw [born, State.setFut_fib, State.setFib_self]
  have other {k : F} (differs : k ≠ g) : r.fib k = s.fib k := by
    rw [born, State.setFut_fib, State.setFib_of_ne differs]
  have fut {x : Id F E W} (differs : x ≠ .fiber g) : r.fut x = s.fut x := by
    rw [born, State.setFut_of_ne differs, State.setFib_fut]
  have self : r.fut (.fiber g) = fiberFut none false := State.setFut_self ..
  have owned (k : F) : (r.fib k).owned = (s.fib k).owned := by
    obtain rfl | differs := eq_or_ne k g
    · rw [here, empty, core.ended k (.inl unborn)]
    · rw [other differs]
  have owner : r.owner = s.owner := by
    funext x
    cases x with
    | fiber k =>
      obtain rfl | differs := eq_or_ne k g
      · rw [State.owner, State.owner, self, (core.dead k dead).held]
        rfl
      · rw [State.owner, State.owner, fut fun same => differs (Id.fiber.inj same), other differs]
    | ext x => rw [State.owner, State.owner, fut (Id.fiber_ne_ext g x).symm]
    | wait w => rw [State.owner, State.owner, fut (Id.fiber_ne_wait g w).symm]
  exact
    { scopes := by
        rw [owner, show (fun k => (r.fib k).owned) = fun k => (s.fib k).owned from funext owned]
        exact core.scopes
      ext := fun x => by
        rw [fut (Id.fiber_ne_ext g x).symm]
        exact core.ext x
      wait := fun w => by
        rw [fut (Id.fiber_ne_wait g w).symm]
        exact (core.wait w).imp_right fun waiting => waiting.mono fun h _ k inside => (owned h).symm ▸ inside
      alive := fun k live => by
        obtain rfl | differs := eq_or_ne k g
        · rw [self, here, initial]
          exact ⟨rfl, rfl, iff_of_true rfl (by decide)⟩
        · rw [State.Alive, other differs] at live
          rw [other differs, fut fun same => differs (Id.fiber.inj same)]
          exact core.alive k live
      dead := fun k gone => by
        have differs : k ≠ g := by
          rintro rfl
          rw [State.Alive, here, initial] at gone
          exact gone (by decide)
        rw [State.Alive, other differs] at gone
        rw [fut fun same => differs (Id.fiber.inj same)]
        exact core.dead k gone
      waiters := fun k w => by
        rw [fut (Id.fiber_ne_wait g w).symm]
        obtain rfl | differs := eq_or_ne k g
        · rw [self]
          exact iff_of_false (Finset.notMem_empty w) fun both => untargeted w both.1
        · rw [fut fun same => differs (Id.fiber.inj same)]
          exact core.waiters k w
      main := fun k top held => by
        have differs : k ≠ g := by
          rintro rfl
          have := (core.main k top held).1
          rw [(core.dead k dead).held] at this
          cases this
        rw [fut fun same => differs (Id.fiber.inj same), other differs]
        exact core.main k top held
      ended := fun k ended => by
        obtain rfl | differs := eq_or_ne k g
        · rw [here]
          exact empty
        · rw [other differs] at ended ⊢
          exact core.ended k ended
      fresh := fun k initial' away' => by
        obtain rfl | differs := eq_or_ne k g
        · rw [here]
          exact empty
        · rw [other differs] at initial' ⊢
          exact core.fresh k initial' away'
      running := fun k active => by
        have differs : k ≠ g := fun same => away (same ▸ active)
        rw [other differs]
        exact core.running k active
      noCrash := core.noCrash }

/-- The creator takes the handle of the fiber. -/
theorem adopt (running : s.phase = some f) (creator : (s.fib g).creator = .fiber f) (live : s.Alive g)
    (unheld : (s.fut (.fiber g)).held = false) :
    Core cfg ((s.setFut (.fiber g) fun u => { u with held := true }).setFib f (Fib.push (.fiber g))) := by
  set r := (s.setFut (.fiber g) fun u => { u with held := true }).setFib f (Fib.push (.fiber g)) with adopted
  have fut {x : Id F E W} (differs : x ≠ .fiber g) : r.fut x = s.fut x := by
    rw [adopted, State.setFib_fut, State.setFut_of_ne differs]
  have self : r.fut (.fiber g) = { s.fut (.fiber g) with held := true } := by
    rw [adopted, State.setFib_fut, State.setFut_self]
  have notMain {k : F} (main : k ∈ cfg.topLevel) (owned : k ∉ cfg.floatingTop) : k ≠ g := by
    rintro rfl
    rw [(core.main k main owned).2] at creator
    cases creator
  have plain : Restacked cfg s r f :=
    { state := fun k => (keeps_push _).setFib_state _ f k
      creator := fun k => (keeps_push _).setFib_creator _ f k
      owned := fun k apart => by rw [adopted, State.setFib_of_ne apart, State.setFut_fib]
      phase := rfl
      crash := rfl
      kind := fun k => by
        obtain rfl | differs := eq_or_ne k g
        · rw [self]
        · rw [fut fun same => differs (Id.fiber.inj same)]
      cb := fun k => by
        obtain rfl | differs := eq_or_ne k g
        · rw [self]
        · rw [fut fun same => differs (Id.fiber.inj same)]
      done := fun k => by
        obtain rfl | differs := eq_or_ne k g
        · rw [self]
        · rw [fut fun same => differs (Id.fiber.inj same)]
      dead := fun k dead => fut fun same => dead (Id.fiber.inj same ▸ live)
      main := fun k main owned => by rw [fut fun same => notMain main owned (Id.fiber.inj same)] }
  apply plain.core core running
  · rw [adopted, owned_update, ← adopted, owner_update (s := s) (x := .fiber g) (o := some f)]
    · apply core.scopes.push
      rw [State.owner, unheld]
      rfl
    · rw [State.owner, self, if_pos rfl, plain.creator, creator]
      rfl
    · intro y differs
      cases y with
      | fiber k => rw [State.owner, State.owner, fut differs, plain.creator]
      | ext x => rw [State.owner, State.owner, fut differs]
      | wait w => rw [State.owner, State.owner, fut differs]
  · intro x
    rw [fut (Id.fiber_ne_ext g x).symm]
    exact core.ext x
  · intro w
    rw [fut (Id.fiber_ne_wait g w).symm]
    exact (core.wait w).imp_right fun waiting => waiting.mono fun _ _ k owned => mem_push owned
  · intro k w
    rw [fut (Id.fiber_ne_wait g w).symm]
    obtain rfl | differs := eq_or_ne k g
    · rw [self]
      exact core.waiters k w
    · rw [fut fun same => differs (Id.fiber.inj same)]
      exact core.waiters k w

end Core

/-! ### Completing -/

/-- Fiber `g` completed and resolved its waiters; whoever was woken has begun. -/
structure Completes (s u : State F E W) (g : F) : Prop where
  completed : (u.fib g).state = .completed
  empty : (u.fib g).owned = []
  creator : ∀ h, (u.fib h).creator = (s.fib h).creator
  owned : ∀ h, h ≠ g → (u.fib h).owned = (s.fib h).owned
  state : ∀ h, h ≠ g → (u.fib h).state = (s.fib h).state ∨ (s.fib h).state.Begun ∧ (u.fib h).state.Begun
  kind : (u.fut (.fiber g)).kind = (s.fut (.fiber g)).kind
  cb : (u.fut (.fiber g)).cb = (s.fut (.fiber g)).cb
  held : (u.fut (.fiber g)).held = (s.fut (.fiber g)).held
  resolved : (u.fut (.fiber g)).state = .resolved
  alone : (u.fut (.fiber g)).waiters = ∅
  fut : ∀ x, x ≠ .fiber g → (s.fut x).Same (u.fut x)
  settled : ∀ w ∈ (s.fut (.fiber g)).waiters, (u.fut (.wait w)).state = .resolved
  still : ∀ x, x ≠ .fiber g → (∀ w ∈ (s.fut (.fiber g)).waiters, x ≠ .wait w) → (u.fut x).state = (s.fut x).state
  phase : ∀ h, u.phase = some h → s.phase = some h ∧ h ≠ g ∧ (u.fib h).state = (s.fib h).state
  away : ∀ h, h ≠ g → s.phase = some h → u.phase = some h
  crash : u.crash = s.crash

theorem Completes.core {F E W : Type} [DecidableEq W] {cfg : Config F E W} {s u : State F E W} {g : F}
    (step : Completes s u g) (core : Core cfg s) (live : s.Alive g) (empty : (s.fib g).owned = []) :
    Core cfg u := by
  have owned (h : F) : (u.fib h).owned = (s.fib h).owned := by
    obtain rfl | differs := eq_or_ne h g
    · rw [step.empty, empty]
    · exact step.owned h differs
  have owner : u.owner = s.owner := by
    funext x
    cases x with
    | fiber k =>
      obtain rfl | differs := eq_or_ne k g
      · rw [State.owner, State.owner, step.held, step.creator]
      · rw [State.owner, State.owner, (step.fut _ fun same => differs (Id.fiber.inj same)).held, step.creator]
    | ext x => exact (step.fut _ (Id.fiber_ne_ext g x).symm).cb
    | wait w => exact (step.fut _ (Id.fiber_ne_wait g w).symm).cb
  have alive' : u.Alive g := by
    rw [State.Alive, step.completed]
    decide
  have alive {h : F} (differs : h ≠ g) : u.Alive h ↔ s.Alive h := by
    obtain same | ⟨before, after⟩ := step.state h differs
    · rw [State.Alive, State.Alive, same]
    · exact iff_of_true after.alive before.alive
  exact
    { scopes := by
        rw [owner, show (fun k => (u.fib k).owned) = fun k => (s.fib k).owned from funext owned]
        exact core.scopes
      ext := fun x => by
        have same := step.fut _ (Id.fiber_ne_ext g x).symm
        refine (core.ext x).imp same.blank fun used => ⟨?_, same.waiters.trans used.2⟩
        rw [Fut.OnLoop, same.kind]
        exact used.1
      wait := fun w => by
        have same := step.fut _ (Id.fiber_ne_wait g w).symm
        refine (core.wait w).imp same.blank fun waiting => ?_
        obtain ⟨h, k, cb, target, anchored⟩ := waiting.link
        refine ⟨same.kind.trans waiting.kind, same.waiters.trans waiting.waiters, h, k, same.cb.trans cb,
          same.target.trans target, ?_⟩
        rw [Anchored, owned]
        exact anchored
      alive := fun h live' => by
        obtain rfl | differs := eq_or_ne h g
        · have before := core.alive h live
          refine ⟨step.kind.trans before.kind, step.cb.trans before.cb, ?_⟩
          rw [step.resolved, step.completed]
          exact iff_of_false (by decide) (not_not_intro rfl)
        · have before := core.alive h ((alive differs).mp live')
          have apart : (.fiber h : Id F E W) ≠ .fiber g := fun same => differs (Id.fiber.inj same)
          have same := step.fut _ apart
          refine ⟨same.kind.trans before.kind, same.cb.trans before.cb, ?_⟩
          rw [step.still _ apart fun w _ => Id.fiber_ne_wait h w, before.state]
          obtain same | ⟨begun, begun'⟩ := step.state h differs
          · rw [same]
          · exact iff_of_true begun.going begun'.going
      dead := fun h dead => by
        have differs : h ≠ g := fun same => dead (same ▸ alive')
        have apart : (.fiber h : Id F E W) ≠ .fiber g := fun same => differs (Id.fiber.inj same)
        exact (step.fut _ apart).blank (core.dead h (mt (alive differs).mpr dead))
      waiters := fun h w => by
        have before := core.waiters h w
        rw [(step.fut _ (Id.fiber_ne_wait g w).symm).target]
        obtain rfl | differs := eq_or_ne h g
        · rw [step.alone]
          refine iff_of_false (Finset.notMem_empty w) fun both => ?_
          by_cases waits : w ∈ (s.fut (.fiber h)).waiters
          · rw [step.settled w waits] at both
            cases both.2
          · rw [step.still _ (Id.fiber_ne_wait h w).symm fun y inside same => waits (Id.wait.inj same ▸ inside)] at both
            exact waits (before.mpr both)
        · have apart : (.fiber h : Id F E W) ≠ .fiber g := fun same => differs (Id.fiber.inj same)
          rw [(step.fut _ apart).waiters, before]
          refine and_congr_right fun target => ?_
          rw [step.still _ (Id.fiber_ne_wait g w).symm fun y inside same => ?_]
          cases same
          exact differs (Option.some.inj (target.symm.trans ((core.waiters g w).mp inside).1))
      main := fun h main owned' => by
        rw [step.creator]
        obtain rfl | differs := eq_or_ne h g
        · rw [step.held]
          exact core.main h main owned'
        · rw [(step.fut _ fun same => differs (Id.fiber.inj same)).held]
          exact core.main h main owned'
      ended := fun h ended => by
        rw [owned]
        obtain rfl | differs := eq_or_ne h g
        · exact empty
        · obtain same | ⟨_, begun⟩ := step.state h differs
          · rw [same] at ended
            exact core.ended h ended
          · exact absurd ended begun.notOver
      fresh := fun h initial away => by
        rw [owned]
        obtain rfl | differs := eq_or_ne h g
        · exact empty
        · obtain same | ⟨_, begun⟩ := step.state h differs
          · rw [same] at initial
            exact core.fresh h initial (mt (step.away h differs) away)
          · exact absurd initial begun.notInitial
      running := fun h active => by
        obtain ⟨before, _, same⟩ := step.phase h active
        rw [same]
        exact core.running h before
      noCrash := step.crash.trans core.noCrash }

/-- Completing fiber `g` of `s`, whose record may have been written to before. -/
theorem completes_of_resolved (core : Core cfg s) {h : Fib F E W → Fib F E W} {v : Val}
    (owned : (h (s.fib g)).owned = []) (creator : (h (s.fib g)).creator = (s.fib g).creator)
    (resolved : Resolved (closed (s.setFib g h) g v) (s.fut (.fiber g)).waiters v t)
    (fib : u.fib = (settledFiber t g).fib) (fut : u.fut = t.fut)
    (phase : ∀ k, u.phase = some k → s.phase = some k ∧ k ≠ g) (away : ∀ k, k ≠ g → s.phase = some k → u.phase = some k)
    (crash : u.crash = s.crash) : Completes s u g := by
  have here : t.fib g = { h (s.fib g) with state := .completed, result := v, deferOn := false, exitOn := false } := by
    rw [resolved.fib_eq]
    all_goals
      rw [closed, State.setFut_fib, State.setFib_self, State.setFib_self]
    all_goals
      intro same
      cases same
  have here' : u.fib g = { h (s.fib g) with
      state := .completed, result := v, deferOn := false, exitOn := false, floating := false } := by
    rw [fib, settledFiber, State.setFib_self, here]
  have before {k : F} (differs : k ≠ g) : (closed (s.setFib g h) g v).fib k = s.fib k := by
    rw [closed, State.setFut_fib, State.setFib_of_ne differs, State.setFib_of_ne differs]
  have there {k : F} (differs : k ≠ g) : u.fib k = t.fib k := by
    rw [fib, settledFiber, State.setFib_of_ne differs]
  have keeps {k : F} (differs : k ≠ g) := before differs ▸ resolved.keeps k
  have self : t.fut (.fiber g) = { s.fut (.fiber g) with state := .resolved, result := v, waiters := ∅ } := by
    rw [resolved.other _ fun w _ => Id.fiber_ne_wait g w, closed, State.setFut_self]
    rfl
  have closed_fut {x : Id F E W} (differs : x ≠ .fiber g) : (closed (s.setFib g h) g v).fut x = s.fut x := by
    rw [closed, State.setFut_of_ne differs]
    rfl
  exact
    { completed := by rw [here']
      empty := by
        rw [here']
        exact owned
      creator := fun k => by
        obtain rfl | differs := eq_or_ne k g
        · rw [here']
          exact creator
        · rw [there differs]
          exact (keeps differs).2.1
      owned := fun k differs => by
        rw [there differs]
        exact (keeps differs).1
      state := fun k differs => by
        rw [there differs]
        refine (keeps differs).2.2.imp_right fun woken => ?_
        rw [woken.1, woken.2]
        exact ⟨.inr (.inl rfl), .inl rfl⟩
      kind := by rw [fut, self]
      cb := by rw [fut, self]
      held := by rw [fut, self]
      resolved := by rw [fut, self]
      alone := by rw [fut, self]
      fut := fun x differs => by
        rw [fut]
        exact closed_fut differs ▸ resolved.same x
      settled := fun w inside => by rw [fut, resolved.settled w inside]
      still := fun x differs apart => by rw [fut, resolved.other x apart, closed_fut differs]
      phase := fun k active => by
        obtain ⟨running, differs⟩ := phase k active
        refine ⟨running, differs, ?_⟩
        rw [there differs]
        refine (keeps differs).2.2.resolve_right fun woken => ?_
        exact (core.running_alive running).2.2 woken.1
      away := away
      crash := crash }

/-- The fiber whose future is freed is the one that completed. -/
theorem freed_settled (t : State F E W) (g : F) : freedFiber (settledFiber t g) g = freedFiber t g := by
  simp only [freedFiber, settledFiber, State.setFib, State.setFut, Function.update_self, Function.update_idem]

namespace Core

variable (core : Core cfg s)

include core

/-- A fiber with nothing on its stack is done: the running one, which then switches out,
or one that never ran. -/
theorem complete (fixed : cfg.Fixed) (formed : cfg.WellFormed) {h : Fib F E W → Fib F E W} {v : Val} {p : Option F}
    (live : ¬ (s.fib g).state.Over) (empty : (s.fib g).owned = []) (owned : (h (s.fib g)).owned = [])
    (creator : (h (s.fib g)).creator = (s.fib g).creator) (phase : p = none ∨ p = s.phase)
    (left : p ≠ some g) (away : ∀ k, k ≠ g → s.phase = some k → p = some k) :
    Core cfg { completeFiber cfg (s.setFib g h) g v with phase := p } := by
  have there := (FibState.live live).1
  have before := core.alive g there
  obtain ⟨t, resolved, result⟩ := completeFiber_cases (s := s.setFib g h) (v := v) fixed formed
    (before.state.mpr (FibState.live live).2) before.cb (core.answerable _) before.kind
  have step : Completes s { settledFiber t g with phase := p } g := by
    refine completes_of_resolved core owned creator resolved rfl rfl (fun k active => ?_) away ?_
    · change p = some k at active
      obtain rfl | rfl := phase
      · cases active
      · exact ⟨active, fun same => left (same ▸ active)⟩
    · change t.crash = s.crash
      rw [resolved.rest]
      rfl
  have settled := step.core core there empty
  obtain same | ⟨unheld, freed⟩ := result
  · rw [same]
    exact settled
  · have gone := settled.free step.completed (step.held.trans unheld)
    rw [freed]
    have commute : freedFiber { settledFiber t g with phase := p } g =
        { freedFiber (settledFiber t g) g with phase := p } := rfl
    rw [commute, freed_settled] at gone
    exact gone

/-- sd_future_cancel() of a fiber that is not running. -/
theorem cancel (fixed : cfg.Fixed) (formed : cfg.WellFormed) (away : s.phase ≠ some g) : Core cfg (cancel cfg s g) := by
  obtain ⟨same, _⟩ | ⟨kind, pending, ⟨initial, step⟩ | ⟨began, going, _, step⟩⟩ := cancel_cases fixed s g
  · rw [same]
    exact core
  · have live : ¬ (s.fib g).state.Over := by
      rw [initial]
      simp [FibState.Over]
    have empty := core.fresh g initial away
    have done := core.complete fixed formed (h := id) (v := .canceled) live empty empty rfl (.inr rfl) away
      (fun _ _ active => active)
    have there := core.alive g (FibState.live live).1
    rw [setFib_id] at done
    have phase : (completeFiber cfg s g .canceled).phase = s.phase := by
      rw [(completeFiber_completion (v := .canceled) fixed formed pending there.cb (core.answerable _) there.kind).rest]
    rw [step]
    rw [← phase] at done
    exact done
  · have live : ¬ (s.fib g).state.Over := by
      have there : s.Alive g := by
        by_contra dead
        rw [(core.dead g dead).kind] at kind
        cases kind
      rw [FibState.Over, not_or, not_or]
      exact ⟨there.1, going, there.2⟩
    have alike : Alike (s.setFib g id) (marked s g) := alike_setFib rfl rfl (.inr ⟨live, .inr (.inr rfl)⟩)
    rw [setFib_id] at alike
    rw [step]
    refine alike.core core (fun _ _ apart => apart) fun f active => ?_
    have differs : f ≠ g := fun same => away (same ▸ active)
    rw [marked, State.setFib_of_ne differs]
    exact core.running f active

end Core

theorem Core.cancels (core : Core cfg s) (fixed : cfg.Fixed) (formed : cfg.WellFormed) (g : F) :
    Cancels s g (Fiber.cancel cfg s g) := by
  obtain ⟨same, idle⟩ | ⟨kind, pending, step⟩ := cancel_cases fixed s g
  · rw [same]
    refine .idle ?_
    by_cases live : s.Alive g
    · have there := core.alive g live
      refine .inr ?_
      obtain kind | resolved | completed | cancelled := idle
      · exact absurd there.kind kind
      · refine .inl ?_
        by_contra going
        rw [there.state.mpr going] at resolved
        cases resolved
      · exact .inl completed
      · exact .inr cancelled
    · exact .inl live
  · have live : s.Alive g := by
      by_contra dead
      rw [(core.dead g dead).kind] at kind
      cases kind
    have there := core.alive g live
    obtain ⟨initial, step⟩ | ⟨began, going, uncancelled, step⟩ := step
    · rw [step]
      exact .fresh initial (completeFiber_completion fixed formed pending there.cb (core.answerable _) there.kind)
    · rw [step]
      refine .marks ?_
      cases state : (s.fib g).state with
      | none => exact absurd state live.1
      | initial => exact absurd state began
      | ready => exact .inl rfl
      | suspended => exact .inr rfl
      | cancelled => exact absurd state uncancelled
      | completed => exact absurd state going
      | freed => exact absurd state live.2

end LinuxTla.Fiber
