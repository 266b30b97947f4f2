import LinuxTla.Fiber.Books

/-! The turns of the event loop, of main and of the kernel keep the books. -/

namespace LinuxTla.Fiber

open Lib

variable {F E W : Type} [DecidableEq F] [DecidableEq E] [DecidableEq W] {cfg : Config F E W} {s t : State F E W} {f g : F}

theorem Core.same {F E W : Type} {cfg : Config F E W} {s r : State F E W} (core : Core cfg s) (alike : Alike s r)
    (phase : r.phase = s.phase) (state : ∀ g, (r.fib g).state = (s.fib g).state) : Core cfg r := by
  refine alike.core core (fun g _ away => phase ▸ away) fun f active => ?_
  rw [state]
  exact core.running f (phase ▸ active)

theorem Core.flag {F E W : Type} {cfg : Config F E W} {s r : State F E W} (core : Core cfg s) (fib : r.fib = s.fib)
    (fut : r.fut = s.fut) (phase : r.phase = s.phase) (crash : r.crash = s.crash) : Core cfg r := by
  have state (g : F) : (r.fib g).state = (s.fib g).state := by rw [fib]
  refine core.same ⟨fun g => by rw [fib], fun g => by rw [fib], fun g => .inl (state g), fun x => ?_, fun x _ => by rw [fut],
    crash⟩ phase state
  rw [fut]
  exact .refl _

theorem norm_alike {F E W : Type} [DecidableEq F] [DecidableEq E] {cfg : Config F E W} (s : State F E W) : Alike s (s.norm cfg) where
  owned g := by
    rw [State.norm]
    dsimp only
    split <;> rfl
  creator g := by
    rw [State.norm]
    dsimp only
    split <;> rfl
  state g := by
    rw [State.norm]
    dsimp only
    split <;> exact .inl rfl
  fut x := by
    rw [State.norm]
    cases x with
    | fiber | wait => exact .refl _
    | ext y =>
      dsimp only
      split
      · exact ⟨rfl, rfl, rfl, rfl, rfl⟩
      · exact .refl _
  done x other := by
    cases x with
    | fiber | wait => rfl
    | ext y => exact absurd rfl (other y)
  crash := rfl

theorem observe_alike {F E W : Type} [DecidableEq E] {cfg : Config F E W} (s : State F E W) (i : ℕ) : Alike s (s.observe cfg i) where
  owned _ := rfl
  creator _ := rfl
  state _ := .inl rfl
  fut x := by
    rw [State.observe]
    cases x with
    | fiber | wait => exact .refl _
    | ext y =>
      dsimp only
      split
      · exact ⟨rfl, rfl, rfl, rfl, rfl⟩
      · exact .refl _
  done x other := by
    cases x with
    | fiber | wait => rfl
    | ext y => exact absurd rfl (other y)
  crash := rfl

theorem Core.norm {F E W : Type} [DecidableEq F] [DecidableEq E] {cfg : Config F E W} {s : State F E W} (core : Core cfg s) : Core cfg (s.norm cfg) := by
  have state (g : F) : ((s.norm cfg).fib g).state = (s.fib g).state := by
    rw [State.norm]
    dsimp only
    split <;> rfl
  refine (norm_alike s).core core (fun _ _ away => away) fun f active => ?_
  rw [state]
  exact core.running f active

/-- fiber_run() enters a fiber that may run. -/
theorem Core.enter {F E W : Type} [DecidableEq F] {cfg : Config F E W} {s : State F E W} {g : F} (core : Core cfg s) (idle : s.phase = none) (runs : (s.fib g).state.Runs) (x : Bool) :
    Core cfg (Fiber.enter cfg s g x) := by
  have alike : Alike (s.setFib g id) (Fiber.enter cfg s g x) := by
    have written : Alike (s.setFib g id) (s.setFib g (Fib.entered cfg)) := alike_setFib rfl rfl (.inl rfl)
    exact ⟨written.owned, written.creator, written.state, written.fut, written.done, written.crash⟩
  rw [setFib_id] at alike
  refine alike.core core (fun _ _ _ active => ?_) fun f active => ?_
  · rw [idle] at active
    cases active
  · obtain rfl : g = f := Option.some.inj active
    rw [Fiber.enter, State.setFib_self]
    exact runs

/-- A future whose event was dispatched. -/
def Fut.expired {F W : Type} (u : Fut F W) : Fut F W :=
  { u with srcOn := false, fired := false, obsIter := none, state := .resolved, result := u.fireResult, waiters := ∅ }

/-- A dispatched event: its future is resolved, and the fiber that waits for it, if it
does, is woken. -/
inductive Expires (s : State F E W) (x : E) : State F E W → Prop
  | late (resolved : (s.fut (.ext x)).state = .resolved) :
      Expires s x (s.setFut (.ext x) fun u => { u with srcOn := false, fired := false, obsIter := none })
  | alone (none : (s.fut (.ext x)).cb = none) : Expires s x (s.setFut (.ext x) Fut.expired)
  | wakes {g b fut} (pending : (s.fut (.ext x)).state = .pending) (cb : (s.fut (.ext x)).cb = some g)
      (nudged : Nudged s g (s.fut (.ext x)).fireResult (.future (.ext x)) b)
      (drops : Drops (s.setFut (.ext x) Fut.expired) g (s.fut (.ext x)).fireResult (.ext x) fut)
      (awake : b.state ≠ .suspended) :
      Expires s x { s.setFut (.ext x) Fut.expired with fib := Function.update s.fib g b, fut := fut }

theorem Core.expires (core : Core cfg s) (fixed : cfg.Fixed) (formed : cfg.WellFormed) (x : E) :
    Expires s x (Fiber.extTurn cfg s x) := by
  set s1 := s.setFut (.ext x) fun u => { u with srcOn := false, fired := false, obsIter := none } with disarmed
  have self : s1.fut (.ext x) = { s.fut (.ext x) with srcOn := false, fired := false, obsIter := none } := State.setFut_self ..
  have other (g : F) : s1.fut (.fiber g) = s.fut (.fiber g) := State.setFut_of_ne (Id.fiber_ne_ext g x) _
  have turn : Fiber.extTurn cfg s x = resolveFut cfg s1 (.ext x) (s.fut (.ext x)).fireResult := rfl
  rw [turn]
  cases state : (s.fut (.ext x)).state with
  | resolved =>
    rw [resolveFut_resolved (by rw [self]; exact state)]
    exact .late state
  | pending =>
    have alone : (s1.fut (.ext x)).waiters = ∅ := by
      rw [self]
      obtain blank | used := core.ext x
      · exact blank.waiters
      · exact used.2
    have there (g : F) (cb : (s1.fut (.ext x)).cb = some g) : (s1.fut (.fiber g)).kind = .fiber := by
      rw [self] at cb
      rw [other]
      exact (core.alive g (core.alive_of_owned ((core.scopes.mem g (.ext x)).mpr cb)).1).kind
    obtain ⟨r, resolved, step⟩ := resolveFut_ext (v := (s.fut (.ext x)).fireResult) fixed formed
      (by rw [self]; exact state) alone there
    rw [disarmed, State.setFut_setFut] at resolved
    have expired : r = s.setFut (.ext x) Fut.expired := by
      rw [resolved, State.setFut, State.setFut]
      rfl
    subst expired
    obtain ⟨none, eq⟩ | ⟨g, b, fut, cb, nudged, drops, awake, eq⟩ := step
    all_goals rw [eq]
    · rw [self] at none
      exact .alone none
    · rw [self] at cb
      exact .wakes state cb (nudged.of_eq rfl rfl) drops awake

theorem Expires.phase {x : E} (expires : Expires s x t) : t.phase = s.phase := by
  cases expires <;> rfl

theorem Expires.finished {x : E} (expires : Expires s x t) : t.finished = s.finished := by
  cases expires <;> rfl

/-- Only the future and the fiber that it wakes are written. -/
theorem Expires.fut {x : E} (expires : Expires s x t) {y : Id F E W} (differs : y ≠ .ext x) : t.fut y = s.fut y := by
  cases expires with
  | late => exact State.setFut_of_ne differs _
  | alone => exact State.setFut_of_ne differs _
  | wakes _ _ _ drops =>
    cases drops with
    | none => exact State.setFut_of_ne differs _
    | drop =>
      dsimp only
      rw [Function.update_of_ne differs]
      exact State.setFut_of_ne differs _

theorem Expires.self {x : E} (expires : Expires s x t) (alone : (s.fut (.ext x)).waiters = ∅) :
    (s.fut (.ext x)).Same (t.fut (.ext x)) := by
  have self : (s.setFut (.ext x) Fut.expired).fut (.ext x) = (s.fut (.ext x)).expired := State.setFut_self ..
  cases expires with
  | late =>
    rw [State.setFut_self]
    exact ⟨rfl, rfl, rfl, rfl, rfl⟩
  | alone =>
    rw [self]
    exact ⟨rfl, rfl, alone.symm, rfl, rfl⟩
  | wakes _ _ _ drops =>
    cases drops with
    | none =>
      dsimp only
      rw [self]
      exact ⟨rfl, rfl, alone.symm, rfl, rfl⟩
    | drop =>
      dsimp only
      rw [Function.update_self, self]
      exact ⟨rfl, rfl, alone.symm, rfl, rfl⟩

theorem Expires.fib {x : E} (expires : Expires s x t) (h : F) : t.fib h = s.fib h ∨
    (s.fut (.ext x)).cb = some h ∧ Nudged s h (s.fut (.ext x)).fireResult (.future (.ext x)) (t.fib h) := by
  cases expires with
  | late | alone => exact .inl rfl
  | @wakes g b fut _ cb nudged =>
    obtain rfl | differs := eq_or_ne h g
    · dsimp only
      rw [Function.update_self]
      exact .inr ⟨cb, nudged⟩
    · exact .inl (Function.update_of_ne differs ..)

/-- The fiber that an event woke was resumed with the result of the event. -/
theorem Expires.value {x : E} (expires : Expires s x t) (cb : (s.fut (.ext x)).cb = some f) :
    t.fib f = s.fib f ∨ (t.fut (.ext x)).state = .resolved ∧ (t.fut (.ext x)).result = (s.fut (.ext x)).fireResult := by
  have self : (s.setFut (.ext x) Fut.expired).fut (.ext x) = (s.fut (.ext x)).expired := State.setFut_self ..
  cases expires with
  | late => exact .inl rfl
  | alone none =>
    rw [none] at cb
    cases cb
  | wakes _ _ _ drops =>
    refine .inr ?_
    cases drops with
    | none =>
      dsimp only
      rw [self]
      exact ⟨rfl, rfl⟩
    | drop =>
      dsimp only
      rw [Function.update_self, self]
      exact ⟨rfl, rfl⟩

theorem Expires.alike {x : E} (expires : Expires s x t) (alone : (s.fut (.ext x)).waiters = ∅) : Alike s t := by
  have keeps (h : F) : (t.fib h).owned = (s.fib h).owned ∧ (t.fib h).creator = (s.fib h).creator ∧
      ((t.fib h).state = (s.fib h).state ∨ (s.fib h).state = .suspended ∧ (t.fib h).state = .ready) := by
    obtain same | ⟨_, nudged⟩ := expires.fib h
    · rw [same]
      exact ⟨rfl, rfl, .inl rfl⟩
    · exact nudged.keeps
  refine ⟨fun h => (keeps h).1, fun h => (keeps h).2.1, fun h => ?_, fun y => ?_, fun y apart => ?_, ?_⟩
  · refine (keeps h).2.2.imp_right fun woken => ?_
    rw [woken.1, woken.2]
    exact ⟨by simp [FibState.Over], .inl rfl⟩
  · obtain rfl | differs := eq_or_ne y (.ext x)
    · exact expires.self alone
    · rw [expires.fut differs]
      exact .refl _
  · rw [expires.fut (apart x)]
  · cases expires <;> rfl

/-- An event of the loop wakes the fiber that waits for it, if it does. -/
theorem Core.extTurn (core : Core cfg s) (fixed : cfg.Fixed) (formed : cfg.WellFormed) (idle : s.phase = none) (x : E) :
    Core cfg (Fiber.extTurn cfg s x) := by
  have expires := core.expires fixed formed x
  have alone : (s.fut (.ext x)).waiters = ∅ := by
    obtain blank | used := core.ext x
    · exact blank.waiters
    · exact used.2
  refine (expires.alike alone).core core (fun _ _ _ active => ?_) fun f active => ?_
  · rw [idle] at active
    cases active
  · rw [expires.phase, idle] at active
    cases active

theorem Core.waited {F E W : Type} [DecidableEq E] {cfg : Config F E W} {s : State F E W} (core : Core cfg s) : Core cfg (s.waited cfg) := by
  have flagged : Core cfg { s with iter := s.iter + 1, exitReq := false } := core.flag rfl rfl rfl rfl
  exact flagged.same (observe_alike _ _) rfl fun _ => rfl

theorem Core.exits {F E W : Type} [DecidableEq F] {cfg : Config F E W} {s : State F E W} (core : Core cfg s) (g : F) :
    Core cfg { s.exits.setFib g fun b => { b with exitOn := false } with exiting := true } := by
  have flagged : Core cfg s.exits := core.flag rfl rfl rfl rfl
  have taken : Core cfg (s.exits.setFib g fun b => { b with exitOn := false }) := flagged.act rfl rfl rfl
  exact taken.flag rfl rfl rfl rfl

theorem Turns.core (step : Turns cfg s t) (fixed : cfg.Fixed) (formed : cfg.WellFormed) (core : Core cfg s)
    (ready : ∀ g, s.exitReq = false → (s.fib g).deferOn = true → (s.fib g).state.Runs) : Core cfg t := by
  cases step with
  | finishes | mainExits => exact core.flag rfl rfl rfl rfl
  | @exitTurn g idle _ armed =>
    apply Core.norm
    have exiting := core.exits g
    rw [Fiber.exitTurn]
    dsimp only
    split_ifs with completed going
    · exact exiting.flag rfl rfl rfl rfl
    · have cancelled := exiting.cancel fixed formed (g := g) (by change s.phase ≠ some g; rw [idle]; nofun)
      exact cancelled.flag rfl rfl rfl rfl
    · refine exiting.enter idle ?_ true
      change ((s.exits.setFib g fun b => { b with exitOn := false }).fib g).state.Runs
      rw [State.setFib_self]
      exact .inr (.inr (not_not.mp going))
  | @deferTurn g idle _ exit online =>
    apply Core.norm
    rw [Fiber.deferTurn]
    have taken : Core cfg ((s.waited cfg).setFib g fun b => { b with deferOn := false, deferIter := (s.waited cfg).iter }) :=
      core.waited.act rfl rfl rfl
    split_ifs with completed runs
    · exact taken
    · refine taken.enter idle ?_ false
      rw [State.setFib_self]
      exact runs
    · exact absurd (ready g exit online.2) runs
  | extTurn idle => exact (core.waited.extTurn fixed formed idle _).norm
  | @fires x =>
    refine core.same ⟨fun _ => rfl, fun _ => rfl, fun _ => .inl rfl, fun y => ?_, fun y apart => ?_, rfl⟩ rfl fun _ => rfl
    · obtain rfl | differs := eq_or_ne y (.ext x)
      · rw [State.setFut_self]
        exact ⟨rfl, rfl, rfl, rfl, rfl⟩
      · rw [State.setFut_of_ne differs]
        exact .refl _
    · rw [State.setFut_of_ne (apart x)]
  | @mainCancels g t idle _ _ _ _ rest =>
    have cancelled := core.cancel fixed formed (g := g) (by rw [idle]; nofun)
    rw [rest]
    exact cancelled.flag rfl rfl rfl rfl
  | stays => exact core

end LinuxTla.Fiber
