import LinuxTla.Fiber.Births

/-! What a fiber is doing, as its stack shows it, and that every action of the running
fiber keeps the books. -/

namespace LinuxTla.Fiber

open Lib

section Doing

variable {F E W : Type}

/-- No wait future is on the stack. -/
def Fib.Calm (b : Fib F E W) : Prop := b.cwuWait = none ∧ ∀ w, .wait w ∉ b.cstack

/-- The stack of a fiber and what it waits for. -/
inductive Doing (fut : Id F E W → Fut F W) (b : Fib F E W) : Prop
  | code (cont : b.cont = .none) (calm : b.Calm)
  | pause (cont : b.cont = .op) (kind : b.opkind ≠ .ext ∧ b.opkind ≠ .awaitf) (calm : b.Calm)
  | onLoop {x rest} (cont : b.cont = .op) (kind : b.opkind = .ext) (own : b.opfut = some (.ext x))
      (top : b.cstack = .ext x :: rest) (calm : b.Calm)
  | onFiber {w g rest} (cont : b.cont = .op) (kind : b.opkind = .awaitf) (own : b.opfut = some (.wait w))
      (goal : b.optarget = some g) (top : b.cstack = .wait w :: rest) (none : b.cwuWait = none)
      (calm : ∀ v, .wait v ∉ rest) (target : (fut (.wait w)).target = some g)
  | cleanup {w g rest} (cont : b.cont = .cwu) (mode : b.mode = .unwind) (goal : b.optarget = some g)
      (wait : b.cwuWait = some w) (top : b.cstack = .fiber g :: rest) (calm : ∀ v, .wait v ∉ b.cstack)
      (target : (fut (.wait w)).target = some g)

variable {fut : Id F E W → Fut F W} {b : Fib F E W}

theorem Fib.Calm.owned (calm : b.Calm) : b.owned = b.cstack := by
  rw [Fib.owned, calm.1]
  rfl

theorem Doing.calm (doing : Doing fut b) (cont : b.cont = .none) : b.Calm := by
  cases doing with
  | code _ calm => exact calm
  | pause op | onLoop op | onFiber op | cleanup op =>
    rw [op] at cont
    cases cont

theorem Doing.awaits (doing : Doing fut b) (cont : b.cont = .op) (kind : b.opkind = .ext ∨ b.opkind = .awaitf) :
    (∃ x rest, b.opkind = .ext ∧ b.opfut = some (.ext x) ∧ b.cstack = .ext x :: rest ∧ b.Calm) ∨
      ∃ w g rest, b.opkind = .awaitf ∧ b.opfut = some (.wait w) ∧ b.optarget = some g ∧ b.cstack = .wait w :: rest ∧
        b.cwuWait = none ∧ (∀ v, .wait v ∉ rest) ∧ (fut (.wait w)).target = some g := by
  cases doing with
  | code none | cleanup none =>
    rw [none] at cont
    cases cont
  | pause _ other => exact absurd kind (not_or.mpr other)
  | onLoop _ ext own top calm => exact .inl ⟨_, _, ext, own, top, calm⟩
  | onFiber _ await own goal top none calm target => exact .inr ⟨_, _, _, await, own, goal, top, none, calm, target⟩

theorem Doing.cleans (doing : Doing fut b) (cont : b.cont = .cwu) :
    ∃ w g rest, b.mode = .unwind ∧ b.optarget = some g ∧ b.cwuWait = some w ∧ b.cstack = .fiber g :: rest ∧
      (∀ v, .wait v ∉ b.cstack) ∧ (fut (.wait w)).target = some g := by
  cases doing with
  | code op | pause op | onLoop op | onFiber op =>
    rw [op] at cont
    cases cont
  | cleanup _ mode goal wait top calm target => exact ⟨_, _, _, mode, goal, wait, top, calm, target⟩

/-- A yield or a bare suspension has nothing of its own on the stack. -/
theorem Doing.pauses (doing : Doing fut b) (cont : b.cont = .op) (kind : b.opkind ≠ .ext ∧ b.opkind ≠ .awaitf) :
    b.Calm := by
  cases doing with
  | code none | cleanup none =>
    rw [none] at cont
    cases cont
  | pause _ _ calm => exact calm
  | onLoop _ ext => exact absurd ext kind.1
  | onFiber _ await => exact absurd await kind.2

end Doing

section Values

variable {F E W : Type} {cfg : Config F E W} {s t : State F E W} {f g : F}

/-! ### Values -/

/-- Only the record of the fiber is written, and not its books. -/
theorem Decided.core [DecidableEq F] {v : Val} (decided : Decided cfg s f v t) (core : Core cfg s) : Core cfg t := by
  cases decided with
  | carry => exact core.act rfl rfl rfl
  | fail =>
    rw [unwindTo, clearOp, State.setFib_setFib]
    exact core.act rfl rfl rfl

theorem Decided.phase [DecidableEq F] {v : Val} (decided : Decided cfg s f v t) : t.phase = s.phase := by
  cases decided <;> rfl

theorem Flagged.core {r : State F E W} (flagged : Flagged s r) (core : Core cfg s) : Core cfg r := by
  have alike : Alike s r := by
    rw [flagged.rest]
    exact ⟨fun _ => rfl, fun _ => rfl, fun _ => .inl rfl, fun _ => .refl _, fun _ _ => rfl, rfl⟩
  refine alike.core core (fun g _ => ?_) fun g active => ?_
  · rw [flagged.rest]
    exact id
  · rw [flagged.rest] at active ⊢
    exact core.running g active

/-- A fiber one may wait for or cancel. -/
theorem Core.handle (core : Core cfg s) (calm : (s.fib f).Calm) (handle : s.Handle cfg f g) :
    s.Alive g ∧ Anchored cfg s f g := by
  obtain owned | ⟨top, _, held, kind⟩ := handle
  · rw [← calm.owned] at owned
    exact ⟨core.alive_of_held (core.child owned).1, .inl owned⟩
  · refine ⟨?_, .inr ⟨top, held⟩⟩
    by_contra dead
    rw [(core.dead g dead).kind] at kind
    cases kind

/-- A fiber that another one holds or waits for is not that one. -/
theorem Core.handle_ne (core : Core cfg s) (orphan : (s.fib f).creator ≠ .fiber f) (calm : (s.fib f).Calm)
    (handle : s.Handle cfg f g) : g ≠ f := by
  rintro rfl
  obtain owned | ⟨_, differs, _⟩ := handle
  · rw [← calm.owned] at owned
    exact orphan (core.child owned).2
  · exact differs rfl

/-- One more future on the stack of a fiber that has no cleanup wait. -/
theorem owned_push {b c : Fib F E W} {x : Id F E W} (none : b.cwuWait = none) (wait : c.cwuWait = b.cwuWait)
    (stack : c.cstack = x :: b.cstack) : c.owned = (b.push x).owned := by
  have owned : b.owned = b.cstack := by
    rw [Fib.owned, none]
    rfl
  rw [Fib.owned, wait, none, stack, ← owned]
  rfl

end Values

variable {F E W : Type} [DecidableEq F] [DecidableEq E] [DecidableEq W] {cfg : Config F E W} {s t : State F E W} {f g : F}

/-! ### Switching out -/

theorem switchOut_ready (fixed : cfg.Fixed) :
    switchOut cfg s f .ready =
      { s.setFib f fun b =>
          { b with state := .ready, wakeSrc := .none, deferOn := b.deferOn || !s.exiting, exitOn := true } with
        phase := none, exiting := false } := by
  rw [switchOut]
  dsimp only
  rw [arm_eq fixed, State.setFib_setFib]
  rfl

theorem switchOut_suspended :
    switchOut cfg s f .suspended =
      { s.setFib f fun b => { b with state := .suspended, wakeSrc := .none } with phase := none, exiting := false } := rfl

theorem Core.ready (core : Core cfg s) (fixed : cfg.Fixed) (running : s.phase = some f) :
    Core cfg (switchOut cfg s f .ready) := by
  rw [switchOut_ready fixed]
  exact core.leave running rfl rfl (.inl rfl)

theorem Core.suspend (core : Core cfg s) (running : s.phase = some f) : Core cfg (switchOut cfg s f .suspended) := by
  rw [switchOut_suspended]
  exact core.leave running rfl rfl (.inr (.inl rfl))

theorem Core.done (core : Core cfg s) (fixed : cfg.Fixed) (formed : cfg.WellFormed) (running : s.phase = some f)
    (empty : (s.fib f).owned = []) : Core cfg (switchOut cfg s f .completed) := by
  have live := (core.running f running).live
  have completed := core.complete (p := none) (v := (s.fib f).retval) fixed formed
    (h := fun b => { b with state := .completed, wakeSrc := .none }) live empty empty rfl (.inl rfl) nofun
    fun k differs active => absurd (Option.some.inj (active.symm.trans running)) differs
  have alike : Alike { completeFiber cfg (s.setFib f fun b => { b with state := .completed, wakeSrc := .none }) f
      (s.fib f).retval with phase := none } (switchOut cfg s f .completed) :=
    ⟨fun _ => rfl, fun _ => rfl, fun _ => .inl rfl, fun _ => .refl _, fun _ _ => rfl, rfl⟩
  exact alike.core completed (fun _ _ => id) nofun

/-! ### Releasing -/

theorem State.setFib_comm {F E W : Type} [DecidableEq F] {s : State F E W} {f g : F} (apart : f ≠ g) (h k : Fib F E W → Fib F E W) :
    (s.setFib f h).setFib g k = (s.setFib g k).setFib f h := by
  simp only [State.setFib, Function.update_of_ne apart, Function.update_of_ne apart.symm, Function.update_comm apart]

theorem State.setFib_setFut (x : Id F E W) (h : Fib F E W → Fib F E W) (k : Fut F W → Fut F W) :
    (s.setFib f h).setFut x k = (s.setFut x k).setFib f h := rfl

theorem freedFiber_setFib (apart : f ≠ g) (h : Fib F E W → Fib F E W) :
    freedFiber (s.setFib f h) g = (freedFiber s g).setFib f h := by
  rw [freedFiber, freedFiber, ← State.setFib_comm apart]
  rfl

/-- The completed child on top has been released; nothing else is written but the books of
its owner. -/
theorem Core.released (core : Core cfg s) (running : s.phase = some f) {rest : List (Id F E W)}
    (top : (s.fib f).owned = .fiber g :: rest) (calm : ∀ w, .wait w ∉ (s.fib f).owned)
    (completed : (s.fib g).state = .completed) {u : State F E W}
    (released : u = s.setFut (.fiber g) (fun v => { v with held := false }) ∨ u = freedFiber s g)
    {h : Fib F E W → Fib F E W} (owned : (h (s.fib f)).owned = rest) (creator : (h (s.fib f)).creator = (s.fib f).creator)
    (state : (h (s.fib f)).state = (s.fib f).state) : Core cfg (u.setFib f h) := by
  have apart : f ≠ g := by
    rintro rfl
    exact (core.running_alive running).2.1 completed
  have zombie : Core cfg ((s.setFut (.fiber g) fun v => { v with held := false }).setFib f h) :=
    (core.release running top calm).revise (owned.trans (pop_owned top).symm) creator state
  obtain rfl | rfl := released
  · exact zombie
  · have freed := zombie.free (g := g) (by rw [State.setFib_of_ne apart.symm]; exact completed)
      (by rw [State.setFib_fut, State.setFut_self])
    rw [freedFiber_setFib apart, freedFiber, State.setFut_setFut] at freed
    exact freed

/-- The end of an awaited operation frees its future. -/
theorem endWait_cases (core : Core cfg s) (fixed : cfg.Fixed) (formed : cfg.WellFormed) (running : s.phase = some f)
    (doing : Doing s.fut (s.fib f)) (cont : (s.fib f).cont = .op)
    (kind : (s.fib f).opkind = .ext ∨ (s.fib f).opkind = .awaitf) :
    (∃ x rest, (s.fib f).owned = .ext x :: rest ∧ (∀ w, .wait w ∉ rest) ∧ (s.fib f).cwuWait = none ∧
        endWait cfg s f = (s.setFut (.ext x) fun _ => freeFut).setFib f fun b => { b with cstack := b.cstack.tail }) ∨
      ∃ w g rest, (s.fib f).owned = .wait w :: rest ∧ (∀ v, .wait v ∉ rest) ∧ (s.fib f).cwuWait = none ∧
        (s.fut (.wait w)).target = some g ∧
        endWait cfg s f = ((s.setFut (.fiber g) (.leave w)).setFut (.wait w) fun _ => freeFut).setFib f fun b =>
          { b with cstack := b.cstack.tail } := by
  obtain ⟨x, rest, _, own, top, calm⟩ | ⟨w, g, rest, _, own, _, top, none, calm, target⟩ := doing.awaits cont kind
  · have owned : (s.fib f).owned = .ext x :: rest := calm.owned.trans top
    have owns := core.owns running (owned ▸ List.mem_cons_self) fun g => (Id.fiber_ne_ext g x).symm
    refine .inl ⟨x, rest, owned, fun w inside => calm.2 w (top ▸ List.mem_cons_of_mem _ inside), calm.1, ?_⟩
    rw [endWait, own]
    dsimp only
    rw [cwuSync_ext fixed formed owns]
    rfl
  · have owned : (s.fib f).owned = .wait w :: rest := by
      rw [Fib.owned, none, top]
      rfl
    have owns := core.owns running (owned ▸ List.mem_cons_self) fun g => (Id.fiber_ne_wait g w).symm
    refine .inr ⟨w, g, rest, owned, calm, none, target, ?_⟩
    rw [endWait, own]
    dsimp only
    rw [cwuSync_wait fixed formed owns target (core.held_of_target target).1]
    rfl

theorem Core.endWait (core : Core cfg s) (fixed : cfg.Fixed) (formed : cfg.WellFormed) (running : s.phase = some f)
    (doing : Doing s.fut (s.fib f)) (cont : (s.fib f).cont = .op)
    (kind : (s.fib f).opkind = .ext ∨ (s.fib f).opkind = .awaitf) : Core cfg (endWait cfg s f) := by
  have tail {x : Id F E W} {rest : List (Id F E W)} (none : (s.fib f).cwuWait = none) (top : (s.fib f).owned = x :: rest) :
      ({ s.fib f with cstack := (s.fib f).cstack.tail } : Fib F E W).owned = (s.fib f).pop.owned := by
    have calm : (s.fib f).owned = (s.fib f).cstack := by
      rw [Fib.owned, none]
      rfl
    rw [pop_owned top, ← @List.tail_cons _ x rest, ← top, calm, Fib.owned, none]
    rfl
  obtain ⟨x, rest, top, _, none, step⟩ | ⟨w, g, rest, top, _, none, target, step⟩ :=
    endWait_cases core fixed formed running doing cont kind
  · rw [step]
    exact (core.popExt running top).revise (tail none top) rfl rfl
  · rw [step]
    exact (core.popWait running top target).revise (tail none top) rfl rfl

/-- What the end of a cleanup wait for `g` frees: the wait future and the child. -/
theorem endCwu_cases (core : Core cfg s) (fixed : cfg.Fixed) (formed : cfg.WellFormed) (running : s.phase = some f)
    (doing : Doing s.fut (s.fib f)) (cont : (s.fib f).cont = .cwu) (goal : (s.fib f).optarget = some g)
    (resolved : (s.fut (.fiber g)).state = .resolved) :
    ∃ w rest r u, (s.fib f).mode = .unwind ∧ (s.fib f).cwuWait = some w ∧ (s.fib f).cstack = .fiber g :: rest ∧
      (∀ v, .wait v ∉ (s.fib f).cstack) ∧ (s.fut (.wait w)).target = some g ∧
      r = (s.setFut (.fiber g) (.leave w)).setFut (.wait w) (fun _ => freeFut) ∧
      (u = r.setFut (.fiber g) (fun v => { v with held := false }) ∨ u = freedFiber r g) ∧
      endCwu cfg s f g = u.setFib f fun c =>
        { c with
          cstack := c.cstack.tail
          cont := .none
          optarget := none
          cwuWait := none
          swallowedVal := .ok
          pendingVal := if swallowed s f ≠ .ok then swallowed s f else c.pendingVal } := by
  obtain ⟨w, g', rest, mode, goal', wait, top, calm, target⟩ := doing.cleans cont
  obtain rfl : g' = g := Option.some.inj (goal'.symm.trans goal)
  have owned : (s.fib f).owned = .wait w :: .fiber g' :: rest := by
    rw [Fib.owned, wait, top]
    rfl
  have child := core.child (f := f) (g := g') (owned ▸ List.mem_cons_of_mem _ List.mem_cons_self)
  have completed : (s.fib g').state = .completed := by
    by_contra going
    rw [(core.alive g' (core.alive_of_held child.1)).state.mpr going] at resolved
    cases resolved
  have owns : Owns (swallow s f) f (.wait w) := by
    have before := core.owns running (owned ▸ List.mem_cons_self) fun g => (Id.fiber_ne_wait g w).symm
    refine ⟨before.running, ?_, before.alive, before.cb, before.waiters⟩
    rw [swallow, State.setFib_self]
    exact before.awake
  set r := (s.setFut (.fiber g') (.leave w)).setFut (.wait w) fun _ => freeFut with freed
  have sync : cwuSync cfg (swallow s f) (.wait w) = r.setFib f fun b => { b with swallowedVal := swallowed s f } := by
    rw [cwuSync_wait fixed formed owns target child.1]
    rfl
  have apart : f ≠ g' := by
    rintro rfl
    exact (core.running_alive running).2.1 completed
  have done : ((r.setFib f fun b => { b with swallowedVal := swallowed s f }).fut (.fiber g')).state = .resolved := by
    rw [State.setFib_fut, freed, State.setFut_of_ne (Id.fiber_ne_wait g' w), State.setFut_self]
    exact resolved
  have state : ((r.setFib f fun b => { b with swallowedVal := swallowed s f }).fib g').state = .completed := by
    rw [State.setFib_of_ne apart.symm]
    exact completed
  have step : endCwu cfg s f g' =
      (unref cfg (r.setFib f fun b => { b with swallowedVal := swallowed s f }) (.fiber g')).setFib f fun c =>
        { c with
          cstack := c.cstack.tail
          cont := .none
          optarget := none
          cwuWait := none
          swallowedVal := .ok
          pendingVal := if swallowed s f ≠ .ok then swallowed s f else c.pendingVal } := by
    rw [endCwu, wait]
    dsimp only
    rw [sync, fixed.recancel, popTop, State.setFib_setFib]
    simp only [true_and, reduceCtorEq, and_false, decide_false, Bool.or_false]
    rfl
  obtain same | same := unref_fiber cfg done state
  · refine ⟨w, rest, r, _, mode, wait, top, calm, target, rfl, .inl rfl, ?_⟩
    rw [step, same, State.setFib_setFut, State.setFib_setFib]
    rfl
  · refine ⟨w, rest, r, _, mode, wait, top, calm, target, rfl, .inr rfl, ?_⟩
    rw [step, same, freedFiber_setFib apart, State.setFib_setFib]
    rfl

theorem Core.endCwu (core : Core cfg s) (fixed : cfg.Fixed) (formed : cfg.WellFormed) (running : s.phase = some f)
    (doing : Doing s.fut (s.fib f)) (cont : (s.fib f).cont = .cwu) (goal : (s.fib f).optarget = some g)
    (resolved : (s.fut (.fiber g)).state = .resolved) : Core cfg (endCwu cfg s f g) := by
  obtain ⟨w, rest, r, u, _, wait, top, calm, target, rfl, released, step⟩ :=
    endCwu_cases core fixed formed running doing cont goal resolved
  rw [step]
  have owned : (s.fib f).owned = .wait w :: .fiber g :: rest := by
    rw [Fib.owned, wait, top]
    rfl
  have popped := core.popWait running owned target
  set r := (s.setFut (.fiber g) (.leave w)).setFut (.wait w) fun _ => freeFut with freed
  have child := core.child (f := f) (g := g) (owned ▸ List.mem_cons_of_mem _ List.mem_cons_self)
  have completed : (s.fib g).state = .completed := by
    by_contra going
    rw [(core.alive g (core.alive_of_held child.1)).state.mpr going] at resolved
    cases resolved
  have apart : f ≠ g := by
    rintro rfl
    exact (core.running_alive running).2.1 completed
  have self : (r.setFib f Fib.pop).fib f = (s.fib f).pop := State.setFib_self ..
  have rest_owned : (s.fib f).pop.owned = .fiber g :: rest := pop_owned owned
  have calm' : ∀ v, .wait v ∉ ((r.setFib f Fib.pop).fib f).owned := by
    rw [self, rest_owned, ← top]
    exact calm
  have top' : ((r.setFib f Fib.pop).fib f).owned = .fiber g :: rest := by rw [self, rest_owned]
  have completed' : ((r.setFib f Fib.pop).fib g).state = .completed := by
    rw [State.setFib_of_ne apart.symm]
    exact completed
  have same : u.fib f = s.fib f := by
    obtain rfl | rfl := released
    · rfl
    · rw [freedFiber, State.setFib_of_ne apart]
      rfl
  have gone : Core cfg ((u.setFib f Fib.pop).setFib f Fib.pop) := by
    apply popped.released running top' calm' completed'
    · obtain rfl | rfl := released
      · exact .inl rfl
      · exact .inr (freedFiber_setFib apart _).symm
    · exact pop_owned top'
    · rfl
    · rfl
  rw [State.setFib_setFib] at gone
  apply gone.revise
  · rw [same, Function.comp_apply, pop_owned (rest_owned), Fib.owned, top]
    rfl
  · rfl
  · rfl

/-! ### Every action keeps the books -/

theorem Acts.running {e : Event F} (step : Acts cfg s f e t) : s.phase = some f := by
  cases step with
  | delivered can | refused can | awaitedDone can | yields can | bares can | waitsExt can | waitsFiber can
  | spawns can | cancels can | exits can | noTimeout can | timeout can | leavesBlock can | rets _ can => exact can.1
  | resumed running | awaited running | absorbed running | cwuWaits running | cwuEnds running | completes running
  | blockLeft running | frees running | freesDone running | freesFresh running | cwuFast running | cwuBegins running =>
    exact running

/-- The child on top of an unwinding stack has been released. -/
theorem Core.popChild (core : Core cfg s) (running : s.phase = some f) {rest : List (Id F E W)}
    (calm : (s.fib f).Calm) (top : (s.fib f).cstack = .fiber g :: rest)
    (resolved : (s.fut (.fiber g)).state = .resolved) : Core cfg (popTop (unref cfg s (.fiber g)) f) := by
  have owned : (s.fib f).owned = .fiber g :: rest := calm.owned.trans top
  have child := core.child (f := f) (g := g) (owned ▸ List.mem_cons_self)
  have completed : (s.fib g).state = .completed := by
    by_contra going
    rw [(core.alive g (core.alive_of_held child.1)).state.mpr going] at resolved
    cases resolved
  have waits : ∀ w, .wait w ∉ (s.fib f).owned := by
    rw [calm.owned]
    exact calm.2
  refine core.released running owned waits completed (unref_fiber cfg resolved completed) ?_ rfl rfl
  rw [Fib.owned, calm.1, top]
  rfl

/-- A fiber is spawned, and its creator keeps the handle unless it is floating. -/
theorem Core.spawn (core : Core cfg s) (running : s.phase = some f) (differs : f ≠ g)
    (unborn : (s.fib g).state = .none) (uncleaned : (s.fib f).cwuWait = none) {fl : Bool} {iter : ℕ} :
    Core cfg (((s.setFib g fun _ => newFib cfg (.fiber f) (cfg.prio g) fl true iter).setFut (.fiber g)
      fun _ => fiberFut none (!fl)).setFib f fun b => { b with cstack := if fl then b.cstack else .fiber g :: b.cstack }) := by
  have away : s.phase ≠ some g := fun active => differs (Option.some.inj (running.symm.trans active))
  have born := core.born (b := newFib cfg (.fiber f) (cfg.prio g) fl true iter) unborn rfl rfl away
  cases fl with
  | true => exact born.act rfl rfl rfl
  | false =>
    set r := (s.setFib g fun _ => newFib cfg (.fiber f) (cfg.prio g) false true iter).setFut (.fiber g)
      fun _ => fiberFut none false with newborn
    have here : r.fib g = newFib cfg (.fiber f) (cfg.prio g) false true iter := by
      rw [newborn, State.setFut_fib, State.setFib_self]
    have creator : (r.fib g).creator = .fiber f := by
      rw [here]
      rfl
    have alive : r.Alive g := by
      rw [State.Alive, here]
      change FibState.initial ≠ .none ∧ FibState.initial ≠ .freed
      decide
    have unheld : (r.fut (.fiber g)).held = false := by
      rw [newborn, State.setFut_self]
      rfl
    have free : (r.fib f).cwuWait = none := by
      rw [newborn, State.setFut_fib, State.setFib_of_ne differs]
      exact uncleaned
    have adopted := born.adopt running creator alive unheld
    rw [newborn, State.setFut_setFut] at adopted
    exact adopted.revise (owned_push free rfl rfl) rfl rfl

theorem Acts.core {e : Event F} (step : Acts cfg s f e t) (fixed : cfg.Fixed) (formed : cfg.WellFormed)
    (core : Core cfg s) (doing : Doing s.fut (s.fib f)) (orphan : (s.fib f).creator ≠ .fiber f)
    (bottom : (s.fib f).mode = .unwind → (s.fib f).after = .ret → (s.fib f).unwindTo = 0) : Core cfg t := by
  have spent : Core cfg (spend s f) := core.act rfl rfl rfl
  have calm (can : s.CanOp f) : (s.fib f).Calm := doing.calm can.2.2
  have uncleaned (can : s.CanOp f) : ((spend s f).fib f).cwuWait = none := by
    rw [spend, State.setFib_self]
    exact (calm can).1
  cases step with
  | delivered can _ _ decided => exact decided.core (spent.act rfl rfl rfl)
  | refused _ _ decided | awaitedDone _ _ _ decided => exact decided.core spent
  | yields can => exact (spent.act rfl rfl rfl).ready fixed can.1
  | bares can => exact (spent.act rfl rfl rfl).suspend can.1
  | waitsExt can _ free =>
    refine Core.suspend ?_ ?_
    · exact (spent.pushExt can.1 (.inl rfl) free).revise (owned_push (uncleaned can) rfl rfl) rfl rfl
    · exact can.1
  | @waitsFiber g w can handle _ pending free =>
    obtain ⟨alive, anchored⟩ := core.handle (calm can) handle
    have anchored' : Anchored cfg (spend s f) f g := by
      rw [Anchored, spend, State.setFib_self]
      exact anchored
    have alive' : (spend s f).Alive g := by
      rw [State.Alive, spend, State.setFib_of_ne (core.handle_ne orphan (calm can) handle)]
      exact alive
    refine Core.suspend ?_ ?_
    · exact (spent.pushWait can.1 free pending alive' anchored').revise (owned_push (uncleaned can) rfl rfl) rfl rfl
    · exact can.1
  | @spawns g fl can unborn _ =>
    have differs : f ≠ g := by
      rintro rfl
      exact (core.running_alive can.1).1.1 unborn
    have unborn' : ((spend s f).fib g).state = .none := by
      rw [spend, State.setFib_of_ne differs.symm]
      exact unborn
    exact spent.spawn can.1 differs unborn' (uncleaned can)
  | cancels can handle =>
    refine spent.cancel fixed formed fun active => ?_
    exact core.handle_ne orphan (calm can) handle (Option.some.inj (active.symm.trans can.1))
  | exits can =>
    have alike : Alike (spend s f) { spend s f with exitReq := true } :=
      ⟨fun _ => rfl, fun _ => rfl, fun _ => .inl rfl, fun _ => .refl _, fun _ _ => rfl, rfl⟩
    exact alike.core spent (fun _ _ => id) spent.running
  | noTimeout can => exact spent
  | timeout can free => exact (spent.pushExt can.1 (.inr rfl) free).revise (owned_push (uncleaned can) rfl rfl) rfl rfl
  | leavesBlock can =>
    rw [unwindTo, clearOp, State.setFib_setFib]
    exact spent.act rfl rfl rfl
  | rets rv can =>
    rw [unwindTo, clearOp, State.setFib_setFib]
    exact core.act rfl rfl rfl
  | resumed _ _ _ flagged decided => exact decided.core (flagged.core core)
  | awaited running op kind _ decided => exact decided.core (core.endWait fixed formed running doing op kind)
  | absorbed running => exact core.suspend running
  | cwuWaits running => exact Core.suspend (core.act rfl rfl rfl) running
  | cwuEnds running cwu target resolved => exact core.endCwu fixed formed running doing cwu target resolved
  | completes running unwinds none bottom' ret =>
    have normal : Core cfg (s.setFib f fun b => { b with mode := .normal }) := core.act rfl rfl rfl
    refine normal.done fixed formed running ?_
    rw [bottom unwinds ret, List.length_eq_zero_iff] at bottom'
    rw [State.setFib_self, Fib.owned, (doing.calm none).1, bottom']
    rfl
  | blockLeft => exact core.act rfl rfl rfl
  | @frees x rest running _ none top other =>
    have calm := doing.calm none
    cases x with
    | fiber g => exact absurd rfl (other g)
    | wait w => exact absurd (top ▸ List.mem_cons_self) (calm.2 w)
    | ext x =>
      have owned : (s.fib f).owned = .ext x :: rest := calm.owned.trans top
      rw [cwuSync_ext fixed formed (core.owns running (owned ▸ List.mem_cons_self) other), popTop]
      refine (core.popExt running owned).revise ?_ rfl rfl
      rw [State.setFut_fib, pop_owned owned, Fib.owned, calm.1, top]
      rfl
  | freesDone running _ none top resolved => exact core.popChild running (doing.calm none) top resolved
  | @freesFresh g rest running _ none top pending resolved =>
    have calm := doing.calm none
    have apart : f ≠ g := by
      rintro rfl
      exact orphan (core.child (calm.owned ▸ top ▸ List.mem_cons_self)).2
    obtain ⟨same, phase⟩ := (core.cancels fixed formed g).running core running apart
    have cancelled := core.cancel fixed formed (g := g) fun active => apart (Option.some.inj (running.symm.trans active))
    exact cancelled.popChild (phase.trans running) (same ▸ calm) (same ▸ top) resolved
  | @cwuFast g rest _ running _ none top callback =>
    have calm := doing.calm none
    have owned : .fiber g ∈ (s.fib f).owned := calm.owned ▸ top ▸ List.mem_cons_self
    have bare := (core.alive g (core.alive_of_held (core.child owned).1)).cb
    rw [(core.cancels fixed formed g).cb bare] at callback
    cases callback
  | @cwuBegins g w rest running _ none top pending still free =>
    have calm := doing.calm none
    have owned : .fiber g ∈ (s.fib f).owned := calm.owned ▸ top ▸ List.mem_cons_self
    have apart : f ≠ g := by
      rintro rfl
      exact orphan (core.child owned).2
    have cancels := core.cancels fixed formed g
    obtain ⟨same, phase⟩ := cancels.running core running apart
    have cancelled := core.cancel fixed formed (g := g) fun active => apart (Option.some.inj (running.symm.trans active))
    have running' := phase.trans running
    have free' : ((cancel cfg s g).fut (.wait w)).kind = .free := by
      obtain eq | eq := cancels.still still <;> rw [eq]
      · exact free
      · exact free
    have owned' : .fiber g ∈ ((cancel cfg s g).fib f).owned := same ▸ owned
    have alive := cancelled.alive_of_held (cancelled.child owned').1
    refine Core.suspend ?_ ?_
    · refine (cancelled.pushWait running' free' still alive (.inl owned')).revise ?_ rfl rfl
      rw [State.setFut_fib, State.setFut_fib, same, Fib.push, calm.owned]
      rfl
    · exact running'

end LinuxTla.Fiber
