import LinuxTla.Fiber.Plans

/-! An exiting loop gets every fiber to its end: whoever is neither done nor running keeps
its exit source, or waits in a cleanup for a child that is not done. -/

namespace LinuxTla.Fiber

open Lib

section Wakes

variable {F E W : Type}

/-- The fiber waits in a cleanup for a child that is not done. -/
def State.Cleaning (s : State F E W) (g : F) : Prop :=
  (s.fib g).state = .suspended ∧ (s.fib g).cont = .cwu ∧ ∃ x, (s.fib g).optarget = some x ∧ ¬ (s.fib x).state.Over

/-- What gets a fiber to its end. -/
structure Wakes (s : State F E W) (g : F) : Prop where
  busy : (s.fib g).state.Begun → s.phase ≠ some g → (s.fib g).cont ≠ .none
  cleanup : ∀ x w, (s.fib g).cont = .cwu → (s.fib g).optarget = some x → (s.fib g).cwuWait = some w →
    (¬ (s.fib x).state.Over → (s.fut (.wait w)).state = .pending) ∧ ((s.fib x).state = .initial → s.phase = some x)
  armed : ¬ (s.fib g).state.Over → s.phase ≠ some g → (s.fib g).exitOn = true ∨ s.Cleaning g
  bound : s.phase = some g → (s.fib g).exitOn = true ∨ (s.fib g).Bound

variable {cfg : Config F E W} {s t : State F E W} {f g x : F}

/-- A fiber that is not acting neither begins nor ends by itself. -/
theorem Passive.begun (passive : Passive cfg s t g) (begun : (t.fib g).state.Begun) :
    (s.fib g).state.Begun ∨ t.phase = some g := by
  cases passive with
  | same fib =>
    rw [fib] at begun
    exact .inl begun
  | woken _ _ _ nudged fib =>
    rw [fib] at begun
    cases nudged with
    | same => exact .inl begun
    | woken _ waits => exact .inl (.inr (.inl waits))
    | kept queued => exact .inl (.inl queued)
  | marked began => exact .inl (began.imp_right .inl)
  | ended _ after _ fib =>
    obtain ⟨_, _, _, _, fib⟩ := fib
    rw [fib] at begun
    obtain rfl | rfl := after
    · exact absurd rfl begun.going
    · exact absurd rfl begun.alive.2
  | born _ _ creator =>
    obtain ⟨_, _, _, _, _, _, fib⟩ := creator
    rw [fib] at begun
    exact absurd rfl begun.notInitial
  | entered enters => exact .inr enters.active

/-- A fiber that has begun and is not acting is over when it was. -/
theorem Passive.gone (passive : Passive cfg s t x) (there : (s.fib x).state ≠ .none) (begun : (s.fib x).state ≠ .initial) :
    ((t.fib x).state.Over ↔ (s.fib x).state.Over) ∧ (t.fib x).state ≠ .initial := by
  cases passive with
  | same fib =>
    rw [fib]
    exact ⟨.rfl, begun⟩
  | woken _ _ _ nudged fib =>
    rw [fib]
    cases nudged with
    | same => exact ⟨.rfl, begun⟩
    | woken _ waits =>
      rw [waits]
      exact ⟨iff_of_false (FibState.Begun.notOver (.inl rfl)) (FibState.Begun.notOver (.inr (.inl rfl))), nofun⟩
    | kept => exact ⟨.rfl, begun⟩
  | marked began fib =>
    obtain ⟨_, _, fib⟩ := fib
    have before : (s.fib x).state.Begun := began.imp_right .inl
    rw [fib]
    exact ⟨iff_of_false (FibState.Begun.notOver (.inr (.inr rfl))) before.notOver, nofun⟩
  | ended before after _ fib =>
    obtain ⟨_, _, _, _, fib⟩ := fib
    have completed := before.resolve_left begun
    rw [fib]
    refine ⟨iff_of_true (.inr after) (.inr (.inl completed)), ?_⟩
    obtain rfl | rfl := after
    · nofun
    · nofun
  | born unborn => exact absurd unborn there
  | entered enters =>
    obtain ⟨_, _, _, _, fib⟩ := enters.fib
    rw [fib]
    exact ⟨.rfl, begun⟩

/-- How another fiber fares in a step: it is left to the others, or it acts. -/
def Fares (cfg : Config F E W) (s t : State F E W) (x : F) : Prop :=
  s.phase ≠ some x ∧ Frame cfg s t x ∨ s.phase = some x ∧ Actor cfg s t x

/-- The child of a cleanup begins and ends by its own steps only. -/
theorem Fares.child (fares : Fares cfg s t x) (core : Core cfg s) (there : s.Alive x)
    (begun : (s.fib x).state = .initial → s.phase = some x) :
    ((t.fib x).state = .initial → t.phase = some x) ∧ ((s.fib x).state.Over → (t.fib x).state.Over) ∧
      ((t.fib x).state.Over → (s.fib x).state.Over ∨ (t.fut (.fiber x)).waiters = ∅) := by
  obtain ⟨away, frame⟩ | ⟨running, actor⟩ := fares
  · obtain ⟨gone, later⟩ := frame.fib.gone there.1 fun initial => away (begun initial)
    exact ⟨fun initial => absurd initial later, gone.mpr, fun ended => .inl (gone.mp ended)⟩
  · have live := (core.running x running).live
    refine ⟨fun initial => ?_, fun gone => absurd gone live, fun gone => ?_⟩
    · cases actor.goes with
      | onward active => exact active
      | sleeps _ state | cleans _ state | lingers _ state | queued _ state =>
        rw [state] at initial
        cases initial
      | done _ ended =>
        rw [initial] at ended
        obtain ended | ended := ended <;> cases ended
    · cases actor.goes with
      | onward _ state =>
        rw [state] at gone
        exact absurd gone live
      | sleeps _ state | cleans _ state | lingers _ state =>
        rw [state] at gone
        exact absurd gone (FibState.Begun.notOver (.inr (.inl rfl)))
      | queued _ state =>
        rw [state] at gone
        exact absurd gone (FibState.Begun.notOver (.inl rfl))
      | done _ _ _ _ _ alone => exact .inr alone

theorem Plan.child (plan : Plan s g) (core : Core cfg s) {w : W} (cwu : (s.fib g).cont = .cwu)
    (goal : (s.fib g).optarget = some x) (wait : (s.fib g).cwuWait = some w) :
    s.Alive x ∧ x ≠ g ∧ (s.fib x).creator = .fiber g ∧ (s.fut (.wait w)).target = some x ∧ (s.fut (.wait w)).cb = some g := by
  obtain ⟨w', x', rest, _, goal', wait', top, _, target⟩ := plan.doing.cleans cwu
  obtain rfl : x' = x := Option.some.inj (goal'.symm.trans goal)
  obtain rfl : w' = w := Option.some.inj (wait'.symm.trans wait)
  have owned : (s.fib g).owned = .wait w' :: .fiber x' :: rest := by
    rw [Fib.owned, wait, top]
    rfl
  have child := core.child (f := g) (g := x') (owned ▸ List.mem_cons_of_mem _ List.mem_cons_self)
  refine ⟨core.alive_of_held child.1, ?_, child.2, target, (core.scopes.mem g (.wait w')).mp (owned ▸ List.mem_cons_self)⟩
  rintro rfl
  exact plan.orphan child.2

theorem Doing.waits {fut : Id F E W → Fut F W} {b : Fib F E W} (doing : Doing fut b) (cwu : b.cont = .cwu) :
    ∃ x w, b.optarget = some x ∧ b.cwuWait = some w := by
  obtain ⟨w, x, _, _, goal, wait, _⟩ := doing.cleans cwu
  exact ⟨x, w, goal, wait⟩

section Others

variable (frame : Frame cfg s t g) (core : Core cfg s) (after : Core cfg t) (plan : Plan s g) (known : Wakes s g)
  (fares : ∀ x, x ≠ g → Fares cfg s t x)

include frame core plan known fares

theorem Frame.cleanup {w : W} (cwu : (t.fib g).cont = .cwu) (goal : (t.fib g).optarget = some x)
    (wait : (t.fib g).cwuWait = some w) :
    (¬ (t.fib x).state.Over → (t.fut (.wait w)).state = .pending) ∧ ((t.fib x).state = .initial → t.phase = some x) := by
  obtain stays | ⟨_, _, _, _, _, _, _, _, fib⟩ := frame.fib.stays
  · rw [stays.cont] at cwu
    rw [stays.optarget] at goal
    rw [stays.cwuWait] at wait
    obtain ⟨there, differs, _, target, cb⟩ := plan.child core cwu goal wait
    obtain ⟨pending, begun⟩ := known.cleanup x w cwu goal wait
    obtain ⟨initial, stays, _⟩ := (fares x differs).child core there begun
    refine ⟨fun live => ?_, initial⟩
    obtain same | gone := frame.waits w x cb target
    · exact same.trans (pending (mt stays live))
    · exact absurd gone live
  · rw [fib] at cwu
    cases cwu

include after

/-- A fiber that sleeps on in a cleanup still has a child to wait for. -/
theorem Frame.cleaning {i : ℕ} (fib : t.fib g = { s.fib g with deferIter := i }) (cleaning : s.Cleaning g) : t.Cleaning g := by
  obtain ⟨asleep, cwu, x, goal, live⟩ := cleaning
  obtain ⟨x', w, goal', wait⟩ := plan.doing.waits cwu
  obtain rfl : x' = x := Option.some.inj (goal'.symm.trans goal)
  obtain ⟨there, differs, _, target, cb⟩ := plan.child core cwu goal wait
  obtain ⟨pending, begun⟩ := known.cleanup x' w cwu goal wait
  rw [State.Cleaning, fib]
  refine ⟨asleep, cwu, x', goal, fun gone => ?_⟩
  obtain before | alone := ((fares x' differs).child core there begun).2.2 gone
  · exact live before
  · have still : (t.fut (.wait w)).state = .pending := (frame.asleep (by rw [fib]; exact asleep) w cb).trans (pending live)
    have inside := (after.waiters x' w).mpr ⟨(frame.fut _ cb).same.target.trans target, still⟩
    rw [alone] at inside
    exact Finset.notMem_empty w inside

theorem Frame.wakes (stepped : Stepped cfg s t g) (away : s.phase ≠ some g) : Wakes t g := by
  have keeps {i : ℕ} (fib : t.fib g = { s.fib g with deferIter := i }) (live : ¬ (t.fib g).state.Over) :
      (t.fib g).exitOn = true ∨ t.Cleaning g := by
    have live' : ¬ (s.fib g).state.Over := by
      rw [fib] at live
      exact live
    refine (known.armed live' away).imp (fun on => ?_) fun cleaning => ?_
    · rw [fib]
      exact on
    · exact frame.cleaning core after plan known fares fib cleaning
  refine ⟨fun begun elsewhere => ?_, fun x w => frame.cleanup core plan known fares, fun live elsewhere => ?_, fun active => ?_⟩
  · have before := (frame.fib.begun begun).resolve_right elsewhere
    obtain stays | ⟨unborn, _⟩ := frame.fib.stays
    · rw [stays.cont]
      exact known.busy before away
    · exact absurd unborn before.alive.1
  · cases frame.fib with
    | same fib => exact keeps fib live
    | woken _ _ _ nudged fib =>
      cases nudged with
      | same => exact keeps fib live
      | woken =>
        rw [fib]
        exact .inl rfl
      | kept queued =>
        rw [fib] at live ⊢
        refine .inl ((known.armed live away).resolve_right fun cleaning => ?_)
        cases queued.symm.trans cleaning.1
    | marked _ fib =>
      obtain ⟨_, _, fib⟩ := fib
      rw [fib]
      exact .inl rfl
    | ended _ ends _ fib =>
      obtain ⟨_, _, _, _, fib⟩ := fib
      rw [fib] at live
      exact absurd (.inr ends) live
    | born _ _ creator =>
      obtain ⟨_, _, _, _, _, _, fib⟩ := creator
      rw [fib]
      exact .inl rfl
    | entered enters => exact absurd enters.active elsewhere
  · obtain ⟨running, _⟩ | enters := stepped active
    · exact absurd running away
    · have armed := known.armed enters.runs.live away
      obtain ⟨d, e, i, source, fib⟩ := enters.fib
      rw [fib]
      obtain ⟨_, same⟩ | ⟨cancelled, _⟩ := source
      · refine .inl (same.trans (armed.resolve_right fun cleaning => ?_))
        have runs := enters.runs
        rw [cleaning.1] at runs
        obtain runs | runs | runs := runs <;> cases runs
      · refine .inr (.inr (.inr ⟨known.busy (.inr (.inr cancelled)) away, if_pos cancelled, if_pos cancelled⟩))

end Others

/-- The fiber that acts either goes on to its end or leaves what wakes it. -/
theorem Actor.wakes (actor : Actor cfg s t f) (strict : cfg.allowIgnoreErrors = false) (core : Core cfg s)
    (running : s.phase = some f) (plan : Plan s f) (known : Wakes s f) : Wakes t f := by
  have elsewhere (idle : t.phase = none) : t.phase ≠ some f := by
    rw [idle]
    nofun
  cases actor.goes with
  | onward active _ sources cont _ bound =>
    refine ⟨fun _ away => absurd active away, fun x w cwu => ?_, fun _ away => absurd active away, fun _ => ?_⟩
    · rw [cont] at cwu
      cases cwu
    · rw [sources.2]
      exact (known.bound running).imp_right (bound strict)
  | sleeps idle _ sources _ cont _ _ free =>
    refine ⟨fun _ _ => ?_, fun x w cwu => ?_, fun _ _ => .inl ?_, fun active => absurd active (elsewhere idle)⟩
    · rw [cont]
      nofun
    · rw [cont] at cwu
      cases cwu
    · rw [sources.2]
      exact (known.bound running).resolve_right free
  | @cleans x w idle state _ _ cont goal wait begun pending =>
    refine ⟨fun _ _ => ?_, fun x' w' _ goal' wait' => ?_, fun _ _ => .inr ⟨state, cont, x, goal, begun.notOver⟩,
      fun active => absurd active (elsewhere idle)⟩
    · rw [cont]
      nofun
    · obtain rfl : x = x' := Option.some.inj (goal.symm.trans goal')
      obtain rfl : w = w' := Option.some.inj (wait.symm.trans wait')
      exact ⟨fun _ => pending, fun initial => absurd initial begun.notInitial⟩
  | @lingers x idle state _ _ before stays goal live other fut =>
    have apart {y : F} {w : W} (goal : (s.fib f).optarget = some y) (wait : (s.fib f).cwuWait = some w) : y ≠ f :=
      (plan.child core before goal wait).2.1
    obtain ⟨x', w, goal', wait⟩ := plan.doing.waits before
    obtain rfl : x' = x := Option.some.inj (goal'.symm.trans goal)
    refine ⟨fun _ _ => ?_, fun y v _ goal'' wait'' => ?_, fun _ _ => .inr ⟨state, stays.cont.trans before, x',
      stays.optarget.trans goal, ?_⟩, fun active => absurd active (elsewhere idle)⟩
    · rw [stays.cont, before]
      nofun
    · rw [stays.optarget] at goal''
      rw [stays.cwuWait] at wait''
      have differs := apart goal'' wait''
      obtain ⟨pending, begun⟩ := known.cleanup y v before goal'' wait''
      rw [other y differs, fut]
      exact ⟨pending, fun initial => absurd (Option.some.inj ((begun initial).symm.trans running)) differs⟩
    · rw [other x' (apart goal wait)]
      exact live
  | queued idle _ exitOn _ cont =>
    refine ⟨fun _ _ => ?_, fun x w cwu => ?_, fun _ _ => .inl exitOn, fun active => absurd active (elsewhere idle)⟩
    · rw [cont]
      nofun
    · rw [cont] at cwu
      cases cwu
  | done idle gone _ cont =>
    have ended : (t.fib f).state.Over := .inr gone
    refine ⟨fun begun => absurd ended begun.notOver, fun x w cwu => ?_, fun live => absurd ended live,
      fun active => absurd active (elsewhere idle)⟩
    rw [cont] at cwu
    cases cwu

/-! ### Families -/

/-- Every fiber is one of the list, and a child comes after the fiber that created it. -/
structure Family (cfg : Config F E W) (s : State F E W) : Prop where
  listed : ∀ g, (s.fib g).state ≠ .none → g ∈ cfg.fiberOrder
  rank : ∃ rank : F → ℕ, ∀ g h, (s.fib h).creator = .fiber g →
    (s.fib h).state ≠ .none ∧ (s.fib g).state ≠ .none ∧ rank g < rank h

/-- A fiber that was never spawned stays so until it is. -/
theorem Passive.unborn (passive : Passive cfg s t g) (unborn : (t.fib g).state = .none) : (s.fib g).state = .none := by
  cases passive with
  | same fib =>
    rw [fib] at unborn
    exact unborn
  | woken _ _ _ nudged fib =>
    rw [fib] at unborn
    cases nudged with
    | same => exact unborn
    | woken => cases unborn
    | kept => exact unborn
  | marked _ fib =>
    obtain ⟨_, _, fib⟩ := fib
    rw [fib] at unborn
    cases unborn
  | ended _ after _ fib =>
    obtain ⟨_, _, _, _, fib⟩ := fib
    rw [fib] at unborn
    obtain rfl | rfl := after <;> cases unborn
  | born before => exact before
  | entered enters =>
    obtain ⟨_, _, _, _, fib⟩ := enters.fib
    rw [fib] at unborn
    exact unborn

theorem Actor.there (actor : Actor cfg s t f) (core : Core cfg s) (running : s.phase = some f) : (t.fib f).state ≠ .none := by
  intro none
  cases actor.goes with
  | onward _ state => exact (core.running_alive running).1.1 (state.symm.trans none)
  | sleeps _ state | cleans _ state | lingers _ state | queued _ state =>
    rw [state] at none
    cases none
  | done _ gone =>
    rw [none] at gone
    obtain gone | gone := gone <;> cases gone

/-- A fiber that was never spawned is spawned or stays so. -/
theorem Passive.rests (passive : Passive cfg s t g) (unborn : (s.fib g).state = .none) :
    (t.fib g).state = .none ∨ Born cfg s t g := by
  cases passive with
  | same fib =>
    rw [fib]
    exact .inl unborn
  | woken _ _ _ nudged fib =>
    rw [fib]
    cases nudged with
    | same => exact .inl unborn
    | woken _ waits => cases unborn.symm.trans waits
    | kept queued => cases unborn.symm.trans queued
  | marked began =>
    rw [unborn] at began
    obtain began | began := began <;> cases began
  | ended before =>
    rw [unborn] at before
    obtain before | before := before <;> cases before
  | born _ listed creator => exact .inr ⟨unborn, listed, creator⟩
  | entered enters =>
    have runs := enters.runs
    rw [unborn] at runs
    obtain runs | runs | runs := runs <;> cases runs

theorem Family.next (family : Family cfg s) (core : Core cfg s) (fares : ∀ x, Fares cfg s t x) : Family cfg t := by
  have there (g : F) (before : (s.fib g).state ≠ .none) : (t.fib g).state ≠ .none := by
    obtain ⟨_, frame⟩ | ⟨running, actor⟩ := fares g
    · exact fun unborn => before (frame.fib.unborn unborn)
    · exact actor.there core running
  refine ⟨fun g here => ?_, ?_⟩
  · obtain ⟨_, frame⟩ | ⟨running, _⟩ := fares g
    · by_cases unborn : (s.fib g).state = .none
      · exact ((frame.fib.rests unborn).resolve_left here).2.1
      · exact family.listed g unborn
    · exact family.listed g (core.running_alive running).1.1
  · obtain ⟨rank, older⟩ := family.rank
    -- whoever is born comes right after the fiber that runs
    set later : F → ℕ := fun h =>
      if (s.fib h).state = .none then s.phase.elim 0 (fun f => rank f + 1) else rank h with ranks
    have grown {g h : F} (creator : (s.fib h).creator = .fiber g) :
        (t.fib h).state ≠ .none ∧ (t.fib g).state ≠ .none ∧ later g < later h := by
      obtain ⟨child, parent, less⟩ := older g h creator
      refine ⟨there h child, there g parent, ?_⟩
      rw [ranks]
      dsimp only
      rw [if_neg child, if_neg parent]
      exact less
    refine ⟨later, fun g h creator => ?_⟩
    obtain ⟨_, frame⟩ | ⟨_, actor⟩ := fares h
    · obtain stays | ⟨unborn, _, f, _, _, _, running, _, fib⟩ := frame.fib.stays
      · exact grown (stays.creator.symm.trans creator)
      · rw [fib] at creator ⊢
        obtain rfl : f = g := Creator.fiber.inj creator
        have parent := (core.running_alive running).1.1
        refine ⟨nofun, there f parent, ?_⟩
        rw [ranks]
        dsimp only
        rw [if_neg parent, if_pos unborn, running]
        exact Nat.lt_succ_self _
    · exact grown (actor.creator.symm.trans creator)

/-- When nobody runs and nobody has an exit source, every stack is unwound: of the fibers
that are not, the youngest would wait for a younger one. -/
theorem Family.unwound (family : Family cfg s) (sane : Sane cfg s) (wakes : ∀ g, Wakes s g) (idle : s.phase = none)
    (unarmed : ∀ g ∈ cfg.fiberOrder, ¬ s.ExitArmed g) : ∀ g, ¬ (s.fib g).state.Begun := by
  classical
  obtain ⟨rank, older⟩ := family.rank
  have away (g : F) : s.phase ≠ some g := by
    rw [idle]
    nofun
  have follows (g : F) (begun : (s.fib g).state.Begun) : ∃ x, rank g < rank x ∧ (s.fib x).state.Begun := by
    obtain armed | ⟨_, cwu, x, goal, live⟩ := (wakes g).armed begun.notOver (away g)
    · exact absurd ⟨begun.alive, armed⟩ (unarmed g (family.listed g begun.alive.1))
    · obtain ⟨x', w, goal', wait⟩ := (sane.plan g).doing.waits cwu
      obtain rfl : x' = x := Option.some.inj (goal'.symm.trans goal)
      obtain ⟨_, _, creator, _⟩ := (sane.plan g).child sane.core cwu goal wait
      refine ⟨x', (older g x' creator).2.2, ?_⟩
      have fresh := ((wakes g).cleanup x' w cwu goal wait).2
      cases state : (s.fib x').state with
      | none | completed | freed =>
        rw [state] at live
        exact absurd (by simp [FibState.Over]) live
      | initial => exact absurd (fresh state) (away x')
      | ready => exact .inl rfl
      | suspended => exact .inr (.inl rfl)
      | cancelled => exact .inr (.inr rfl)
  intro g begun
  obtain ⟨last, inside, most⟩ := (cfg.fiberOrder.toFinset.filter fun h => (s.fib h).state.Begun).exists_max_image rank
    ⟨g, Finset.mem_filter.mpr ⟨List.mem_toFinset.mpr (family.listed g begun.alive.1), begun⟩⟩
  obtain ⟨x, younger, begun⟩ := follows last (Finset.mem_filter.mp inside).2
  have listed := family.listed x begun.alive.1
  exact absurd (most x (Finset.mem_filter.mpr ⟨List.mem_toFinset.mpr listed, begun⟩)) (Nat.not_le_of_lt younger)

/-- Nothing but a flag or a source of the loop was set. -/
theorem Wakes.same {g : F} (known : Wakes s g) (fib : t.fib = s.fib) (phase : t.phase = s.phase)
    (fut : ∀ x, (∀ y, x ≠ .ext y) → t.fut x = s.fut x) : Wakes t g := by
  have wait (w : W) : t.fut (.wait w) = s.fut (.wait w) := fut _ fun y => (Id.ext_ne_wait y w).symm
  refine ⟨?_, fun x w => ?_, ?_, ?_⟩
  · rw [fib, phase]
    exact known.busy
  · rw [fib, phase, wait]
    exact known.cleanup x w
  · rw [State.Cleaning, fib, phase]
    exact known.armed
  · rw [fib, phase]
    exact known.bound

/-- Everybody gets to an end, and when the loop is finished everybody got there. -/
structure Orderly (cfg : Config F E W) (s : State F E W) : Prop where
  sane : Sane cfg s
  family : Family cfg s
  wakes : ∀ g, Wakes s g
  ends : s.finished = true → s.phase = none ∧ ∀ g, ¬ (s.fib g).state.Begun

theorem Orderly.init [DecidableEq F] (formed : cfg.WellFormed) : Orderly cfg (init cfg) where
  sane := .init cfg
  family := by
    refine ⟨fun g here => ?_, fun _ => 0, fun g h creator => ?_⟩
    · obtain ⟨top, _⟩ | ⟨_, fib, _⟩ := init_cases cfg g
      · exact formed.top g top
      · rw [fib] at here
        exact absurd rfl here
    · obtain ⟨_, fib, _⟩ | ⟨_, fib, _⟩ := init_cases cfg h <;> rw [fib] at creator <;> cases creator
  wakes g := by
    obtain ⟨_, fib, _⟩ | ⟨_, fib, _⟩ := init_cases cfg g
    · refine ⟨fun begun => ?_, fun x w cwu => ?_, fun _ _ => .inl ?_, nofun⟩
      · rw [fib] at begun
        exact absurd rfl begun.notInitial
      · rw [fib] at cwu
        cases cwu
      · rw [fib]
        rfl
    · refine ⟨fun begun => ?_, fun x w cwu => ?_, fun live => ?_, nofun⟩
      · rw [fib] at begun
        exact absurd rfl begun.alive.1
      · rw [fib] at cwu
        cases cwu
      · rw [fib] at live
        exact absurd (.inl rfl) live
  ends := nofun

end Wakes

variable {F E W : Type} [DecidableEq F] [DecidableEq E] [DecidableEq W] {cfg : Config F E W} {s t : State F E W} {f : F}

/-- The loop finishes when nobody has an exit source, and after that no fiber is touched. -/
theorem Turns.finished (step : Turns cfg s t) (fixed : cfg.Fixed) (formed : cfg.WellFormed) (core : Core cfg s)
    (finished : t.finished = true) : t.fib = s.fib ∧ t.phase = s.phase ∧
      (s.finished = true ∨ s.phase = none ∧ ∀ g ∈ cfg.fiberOrder, ¬ s.ExitArmed g) := by
  have goes (going : s.finished = false) (same : t.finished = s.finished) : False := by
    rw [finished, going] at same
    cases same
  cases step with
  | finishes idle unarmed => exact ⟨rfl, rfl, .inr ⟨idle, unarmed⟩⟩
  | @exitTurn k _ going =>
    refine (goes going ?_).elim
    rw [Fiber.exitTurn]
    dsimp only
    split_ifs
    · rfl
    · have same := congrArg State.finished ((core.exits k).cancels fixed formed k).rest
      exact same
    · rfl
  | deferTurn _ going =>
    refine (goes going ?_).elim
    rw [Fiber.deferTurn]
    split_ifs <;> rfl
  | @extTurn x _ going =>
    refine (goes going ?_).elim
    exact (core.waited.expires fixed formed x).finished
  | fires | mainExits | stays => exact ⟨rfl, rfl, .inl finished⟩
  | @mainCancels k _ _ going _ _ _ rest =>
    refine (goes going ?_).elim
    have same := congrArg State.finished (core.cancels fixed formed k).rest
    rw [rest]
    exact same

theorem Acts.fares {e : Event F} (step : Acts cfg s f e t) (sane : Sane cfg s) (fixed : cfg.Fixed) (formed : cfg.WellFormed)
    (x : F) : Fares cfg s t x := by
  have own := sane.plan f
  obtain rfl | differs := eq_or_ne x f
  · exact .inr ⟨step.running, step.actor fixed formed sane.core own⟩
  · refine .inl ⟨fun active => differs ?_, step.frame fixed formed sane.core own.doing own.orphan differs⟩
    exact Option.some.inj (active.symm.trans step.running)

theorem Orderly.acts {e : Event F} (orderly : Orderly cfg s) (fixed : cfg.Fixed) (formed : cfg.WellFormed)
    (strict : cfg.allowIgnoreErrors = false) (step : Acts cfg s f e t) : Orderly cfg t := by
  obtain ⟨sane, family, wakes, ends⟩ := orderly
  have running := step.running
  have fares := step.fares sane fixed formed
  have own := sane.plan f
  have actor := step.actor fixed formed sane.core own
  have after := sane.acts fixed formed step
  refine ⟨after, family.next sane.core fares, fun g => ?_, fun finished => ?_⟩
  · obtain rfl | differs := eq_or_ne g f
    · exact actor.wakes strict sane.core running own (wakes g)
    · have frame := step.frame fixed formed sane.core own.doing own.orphan differs
      refine frame.wakes sane.core after.core (sane.plan g) (wakes g) (fun x _ => fares x) (actor.stepped differs) fun active => ?_
      exact differs (Option.some.inj (active.symm.trans running))
  · rw [actor.loops.finished] at finished
    cases running.symm.trans (ends finished).1

theorem Orderly.turns (orderly : Orderly cfg s) (fixed : cfg.Fixed) (formed : cfg.WellFormed) (step : Turns cfg s t) :
    Orderly cfg t := by
  obtain ⟨sane, family, wakes, ends⟩ := orderly
  have after := sane.turns fixed formed step
  have gone (finished : t.finished = true) : t.phase = none ∧ ∀ g, ¬ (t.fib g).state.Begun := by
    obtain ⟨fib, phase, before | ⟨idle, unarmed⟩⟩ := step.finished fixed formed sane.core finished
    · rw [fib, phase]
      exact ends before
    · rw [fib, phase]
      exact ⟨idle, family.unwound sane wakes idle unarmed⟩
  obtain idle | ⟨fib, phase, fut⟩ := step.still
  · have away (g : F) : s.phase ≠ some g := by
      rw [idle]
      nofun
    have frame := step.frame fixed formed sane.core sane.ready
    have fares (x : F) : Fares cfg s t x := .inl ⟨away x, frame x⟩
    refine ⟨after, family.next sane.core fares, fun g => ?_, gone⟩
    exact (frame g).wakes sane.core after.core (sane.plan g) (wakes g) (fun x _ => fares x)
      (step.stepped fixed formed sane.core sane.ready g) (away g)
  · refine ⟨after, ⟨?_, ?_⟩, fun g => (wakes g).same fib phase fut, gone⟩
    · rw [fib]
      exact family.listed
    · rw [fib]
      exact family.rank

theorem orderly_invariant (fixed : cfg.Fixed) (formed : cfg.WellFormed) (strict : cfg.allowIgnoreErrors = false) :
    (spec cfg).Invariant (Orderly cfg) := by
  refine .of_step (fun s start => ?_) fun s t orderly step => ?_
  · rw [show s = Fiber.init cfg from start]
    exact .init formed
  · obtain ⟨e, step⟩ := step
    obtain ⟨f, step⟩ | ⟨_, step⟩ := step.cases fixed
    · exact orderly.acts fixed formed strict step
    · exact orderly.turns fixed formed step

/-- No assertion of fiber.c or sd-future.c fires and no freed future is touched, and when
the loop is finished no fiber is left half unwound. -/
theorem fibers_unwind (fixed : cfg.Fixed) (formed : cfg.WellFormed) :
    (spec cfg).Invariant NoCrash ∧ (cfg.allowIgnoreErrors = false → (spec cfg).Invariant (FinishedImpliesUnwound cfg)) := by
  refine ⟨(sane_invariant fixed formed).mono fun s sane => sane.core.noCrash, fun strict => ?_⟩
  refine (orderly_invariant fixed formed strict).mono fun s orderly finished g _ => ?_
  have ended := (orderly.ends finished).2 g
  cases state : (s.fib g).state with
  | none => exact .inl rfl
  | initial => exact .inr (.inl rfl)
  | completed => exact .inr (.inr (.inl rfl))
  | freed => exact .inr (.inr (.inr rfl))
  | ready => exact absurd (.inl state) ended
  | suspended => exact absurd (.inr (.inl state)) ended
  | cancelled => exact absurd (.inr (.inr state)) ended

/-- One fiber main starts and one that it may spawn. -/
def pair : Config (Fin 2) (Fin 2) (Fin 1) where
  fiberOrder := [0, 1]
  topLevel := {0}
  floatingTop := ∅
  extOrder := [0, 1]
  waitOrder := [0]
  waiterOrder ws := [0].filter (· ∈ ws)
  prio _ := 0
  budget := 2
  ops := {.spawn, .ext}
  mainMayExit := true
  mainMayCancel := false
  mainCancelMax := 0
  exitOnIdle := true
  allowIgnoreErrors := false
  childMayFail := true
  fixFreePending := true
  fixCwuLoop := true
  fixExitArmed := true
  fixRecancel := true
  fixStickyError := true
  fixNoChildTrampoline := true
  fixAwaitLoop := true

theorem pair_wellFormed : pair.WellFormed := ⟨by decide, by decide, fun ws w => by simp [pair, Subsingleton.elim w 0]⟩

/-- Main exits while both fibers wait on the loop: the one it started is cancelled and takes its
child with it. -/
def leaving : List (Move (Fin 2) (Fin 2) (Fin 1)) :=
  [.dispatch (some (.fiber 0)), .spawn 0 false false, .awaitExt 0 false, .dispatch (some (.fiber 1)), .awaitExt 1 false,
    .mainExit, .dispatch (some (.fiber 0)), .dispatch (some (.fiber 0)), .continueOp 0 false, .unwind 0,
    .dispatch (some (.fiber 1)), .continueOp 1 false, .unwind 1, .dispatch (some (.fiber 0)), .dispatch (some (.fiber 0)),
    .continueCwu 0, .unwind 0, .dispatch none]

theorem pair_unwinds : ∃ s : State (Fin 2) (Fin 2) (Fin 1), (spec pair).Reachable s ∧ NoCrash s ∧
    (s.fib 0).state = .completed ∧ (s.fib 1).state = .freed ∧ s.finished = true ∧ FinishedImpliesUnwound pair s := by
  have run : ((replay pair (init pair) leaving).map fun steps => decide (steps.length = 18 ∧
      ((stateAt (init pair) steps 18).fib 0).state = .completed ∧ ((stateAt (init pair) steps 18).fib 1).state = .freed ∧
      (stateAt (init pair) steps 18).finished = true)) = some true := by decide +kernel
  obtain ⟨steps, replayed, known⟩ := Option.map_eq_some_iff.mp run
  obtain ⟨length, completed, freed, finished⟩ := of_decide_eq_true known
  have trace : Trace pair 18 (stateAt (init pair) steps) (eventAt steps) :=
    ⟨rfl, fun i inside => replay_next replayed i (by omega)⟩
  have reached := trace.run.reachable 18 le_rfl
  have safe := fibers_unwind ⟨rfl, rfl, rfl, rfl, rfl, rfl, rfl⟩ pair_wellFormed
  exact ⟨_, reached, safe.1 _ reached, completed, freed, finished, safe.2 rfl _ reached⟩

end LinuxTla.Fiber
