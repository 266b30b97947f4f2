import LinuxTla.Fiber.Frames

/-! What every fiber is about, whoever acts: enough for the books to stay right in every
run, so that no assertion fires and no freed future is touched. -/

namespace LinuxTla.Fiber

open Lib

section Records

variable {F E W : Type}

structure Fib.Stays (b c : Fib F E W) : Prop where
  mode : c.mode = b.mode
  after : c.after = b.after
  unwindTo : c.unwindTo = b.unwindTo
  cont : c.cont = b.cont
  opkind : c.opkind = b.opkind
  opfut : c.opfut = b.opfut
  optarget : c.optarget = b.optarget
  cstack : c.cstack = b.cstack
  cwuWait : c.cwuWait = b.cwuWait
  creator : c.creator = b.creator

theorem Fib.Stays.refl (b : Fib F E W) : b.Stays b := ⟨rfl, rfl, rfl, rfl, rfl, rfl, rfl, rfl, rfl, rfl⟩

theorem Fib.Stays.calm {b c : Fib F E W} (stays : b.Stays c) (calm : b.Calm) : c.Calm := by
  rw [Fib.Calm, stays.cwuWait, stays.cstack]
  exact calm

theorem Doing.stays {fut fut' : Id F E W → Fut F W} {b c : Fib F E W} (doing : Doing fut b) (stays : b.Stays c)
    (targets : ∀ w, .wait w ∈ b.owned → (fut' (.wait w)).target = (fut (.wait w)).target) : Doing fut' c := by
  cases doing with
  | code cont calm => exact .code (stays.cont.trans cont) (stays.calm calm)
  | pause cont kind calm => exact .pause (stays.cont.trans cont) (stays.opkind ▸ kind) (stays.calm calm)
  | onLoop cont kind own top calm =>
    exact .onLoop (stays.cont.trans cont) (stays.opkind.trans kind) (stays.opfut.trans own) (stays.cstack.trans top)
      (stays.calm calm)
  | @onFiber w g rest cont kind own goal top none calm target =>
    have owned : .wait w ∈ b.owned := by
      rw [Fib.owned, none, top]
      exact List.mem_cons_self
    exact .onFiber (stays.cont.trans cont) (stays.opkind.trans kind) (stays.opfut.trans own) (stays.optarget.trans goal)
      (stays.cstack.trans top) (stays.cwuWait.trans none) calm ((targets w owned).trans target)
  | @cleanup w g rest cont mode goal wait top calm target =>
    have owned : .wait w ∈ b.owned := by
      rw [Fib.owned, wait]
      exact List.mem_cons_self
    exact .cleanup (stays.cont.trans cont) (stays.mode.trans mode) (stays.optarget.trans goal) (stays.cwuWait.trans wait)
      (stays.cstack.trans top) (stays.cstack ▸ calm) ((targets w owned).trans target)

variable {cfg : Config F E W} {s t : State F E W} {f g : F}

theorem Nudged.stays {v : Val} {src : Source F E W} {b : Fib F E W} (nudged : Nudged s g v src b) : (s.fib g).Stays b := by
  cases nudged with
  | same | woken | kept => exact ⟨rfl, rfl, rfl, rfl, rfl, rfl, rfl, rfl, rfl, rfl⟩

/-- The fiber was spawned by the one that runs. -/
def Born (cfg : Config F E W) (s t : State F E W) (g : F) : Prop :=
  (s.fib g).state = .none ∧ g ∈ cfg.fiberOrder ∧
    ∃ f p fl i, s.phase = some f ∧ f ≠ g ∧ t.fib g = newFib cfg (.fiber f) p fl true i

/-- Nobody moves the program of another fiber. -/
theorem Passive.stays (passive : Passive cfg s t g) : (s.fib g).Stays (t.fib g) ∨ Born cfg s t g := by
  cases passive with
  | same fib =>
    rw [fib]
    exact .inl ⟨rfl, rfl, rfl, rfl, rfl, rfl, rfl, rfl, rfl, rfl⟩
  | woken _ _ _ nudged fib =>
    have stays := nudged.stays
    rw [fib]
    exact .inl ⟨stays.mode, stays.after, stays.unwindTo, stays.cont, stays.opkind, stays.opfut, stays.optarget,
      stays.cstack, stays.cwuWait, stays.creator⟩
  | marked _ fib =>
    obtain ⟨_, _, fib⟩ := fib
    rw [fib]
    exact .inl ⟨rfl, rfl, rfl, rfl, rfl, rfl, rfl, rfl, rfl, rfl⟩
  | ended _ _ _ fib =>
    obtain ⟨_, _, _, _, fib⟩ := fib
    rw [fib]
    exact .inl ⟨rfl, rfl, rfl, rfl, rfl, rfl, rfl, rfl, rfl, rfl⟩
  | born unborn listed creator => exact .inr ⟨unborn, listed, creator⟩
  | entered enters =>
    obtain ⟨_, _, _, _, fib⟩ := enters.fib
    rw [fib]
    exact .inl ⟨rfl, rfl, rfl, rfl, rfl, rfl, rfl, rfl, rfl, rfl⟩

/-- An unwinding that ends the fiber goes to the bottom of the stack. -/
def Fib.Bottoms (b : Fib F E W) : Prop := b.mode = .unwind → b.after = .ret → b.unwindTo = 0

/-- What is known of a fiber between two steps. Only a fiber that is woken as cancelled
finds a value stashed in an operation. -/
structure Plan (s : State F E W) (g : F) : Prop where
  doing : Doing s.fut (s.fib g)
  orphan : (s.fib g).creator ≠ .fiber g
  bottom : (s.fib g).Bottoms
  plain : (s.fib g).cont = .op → (s.fib g).mode = .normal
  fresh : (s.fib g).cont = .op → (s.fib g).pendingVal = .ok ∨ s.phase = some g ∧ (s.fib g).wakeSrc = .cancel
  ready : s.exitReq = false → (s.fib g).deferOn = true → s.phase ≠ some g ∧ (s.fib g).state.Runs

/-- The defer source of another fiber is armed only while that fiber may run. -/
theorem Passive.ready (passive : Passive cfg s t g) (stepped : Stepped cfg s t g) (plan : Plan s g)
    (exit : t.exitReq = false → s.exitReq = false) (stay : t.exitReq = false) (on : (t.fib g).deferOn = true) :
    t.phase ≠ some g ∧ (t.fib g).state.Runs := by
  have known := plan.ready (exit stay)
  have away : t.phase ≠ some g := by
    intro active
    obtain ⟨running, same⟩ | enters := stepped active
    · exact (known (same ▸ on)).1 running
    · obtain ⟨d, e, i, source, fib⟩ := enters.fib
      rw [fib] at on
      obtain ⟨off, _⟩ | ⟨_, exits⟩ := source
      · rw [off] at on
        cases on
      · rw [stay] at exits
        cases exits
  refine ⟨away, ?_⟩
  cases passive with
  | same fib =>
    rw [fib] at on ⊢
    exact (known on).2
  | woken _ _ _ nudged fib =>
    rw [fib] at on ⊢
    cases nudged with
    | same => exact (known on).2
    | woken => exact .inr (.inl rfl)
    | kept queued => exact .inr (.inl queued)
  | marked _ fib =>
    obtain ⟨_, _, fib⟩ := fib
    rw [fib]
    exact .inr (.inr rfl)
  | ended _ _ online fib =>
    obtain ⟨_, _, _, _, fib⟩ := fib
    rw [fib] at on
    obtain ⟨completed, before⟩ := online on
    have runs := (known before).2
    rw [completed] at runs
    obtain none | none | none := runs <;> cases none
  | born _ _ creator =>
    obtain ⟨_, _, _, _, _, _, fib⟩ := creator
    rw [fib]
    exact .inl rfl
  | entered enters => exact absurd enters.active away

/-- A stashed value comes from the entry of a fiber that is cancelled. -/
theorem Passive.fresh (passive : Passive cfg s t g) (none : (s.fib g).pendingVal = .ok) :
    (t.fib g).pendingVal = .ok ∨ t.phase = some g ∧ (t.fib g).wakeSrc = .cancel := by
  cases passive with
  | same fib =>
    rw [fib]
    exact .inl none
  | woken _ _ _ nudged fib =>
    rw [fib]
    cases nudged with
    | same | woken | kept => exact .inl none
  | marked _ fib =>
    obtain ⟨_, _, fib⟩ := fib
    rw [fib]
    exact .inl none
  | ended _ _ _ fib =>
    obtain ⟨_, _, _, _, fib⟩ := fib
    rw [fib]
    exact .inl none
  | born _ _ creator =>
    obtain ⟨_, _, _, _, _, _, fib⟩ := creator
    rw [fib]
    exact .inl rfl
  | entered enters =>
    obtain ⟨_, _, _, _, fib⟩ := enters.fib
    rw [fib]
    by_cases cancelled : (s.fib g).state = .cancelled
    · exact .inr ⟨enters.active, if_pos cancelled⟩
    · exact .inl ((if_neg fun both => cancelled both.1).trans none)

theorem Frame.plan (frame : Frame cfg s t g) (core : Core cfg s) (plan : Plan s g) (stepped : Stepped cfg s t g)
    (away : s.phase ≠ some g) (exit : t.exitReq = false → s.exitReq = false) : Plan t g := by
  have ready := frame.fib.ready stepped plan exit
  obtain stays | ⟨_, _, f, p, fl, i, _, differs, fib⟩ := frame.fib.stays
  · refine ⟨plan.doing.stays stays fun w owned => ?_, ?_, ?_, fun op => ?_, fun op => ?_, ready⟩
    · exact (frame.fut _ ((core.scopes.mem g (.wait w)).mp owned)).same.target
    · rw [stays.creator]
      exact plan.orphan
    · rw [Fib.Bottoms, stays.mode, stays.after, stays.unwindTo]
      exact plan.bottom
    · rw [stays.cont] at op
      rw [stays.mode]
      exact plan.plain op
    · rw [stays.cont] at op
      exact frame.fib.fresh ((plan.fresh op).resolve_right fun running => away running.1)
  · refine ⟨?_, ?_, ?_, ?_, ?_, ready⟩ <;> rw [fib]
    · exact .code rfl ⟨rfl, nofun⟩
    · exact fun same => differs (Creator.fiber.inj same)
    · nofun
    · nofun
    · nofun

end Records

section Acting

variable {F E W : Type} {cfg : Config F E W} {s t : State F E W} {f : F}

/-- The fiber is on its way to its end, or to a wait that returns at once with an error. -/
def Fib.Bound (b : Fib F E W) : Prop :=
  b.mode = .unwind ∧ b.after = .ret ∨ b.pendingVal ≠ .ok ∨ b.cont ≠ .none ∧ b.wakeVal = .canceled ∧ b.wakeSrc = .cancel

/-- What becomes of the fiber that acts. -/
inductive Goes (cfg : Config F E W) (s t : State F E W) (f : F) : Prop
  | onward (active : t.phase = some f) (state : (t.fib f).state = (s.fib f).state)
      (sources : (t.fib f).deferOn = (s.fib f).deferOn ∧ (t.fib f).exitOn = (s.fib f).exitOn)
      (cont : (t.fib f).cont = .none) (calm : (t.fib f).Calm)
      (bound : cfg.allowIgnoreErrors = false → (s.fib f).Bound → (t.fib f).Bound)
  | sleeps (idle : t.phase = none) (state : (t.fib f).state = .suspended)
      (sources : (t.fib f).deferOn = (s.fib f).deferOn ∧ (t.fib f).exitOn = (s.fib f).exitOn)
      (doing : Doing t.fut (t.fib f)) (cont : (t.fib f).cont = .op) (mode : (t.fib f).mode = .normal)
      (none : (t.fib f).pendingVal = .ok) (free : ¬ (s.fib f).Bound)
  | cleans {x w} (idle : t.phase = none) (state : (t.fib f).state = .suspended)
      (sources : (t.fib f).deferOn = (s.fib f).deferOn ∧ (t.fib f).exitOn = (s.fib f).exitOn)
      (doing : Doing t.fut (t.fib f)) (cont : (t.fib f).cont = .cwu) (goal : (t.fib f).optarget = some x)
      (wait : (t.fib f).cwuWait = some w) (begun : (t.fib x).state.Begun) (pending : (t.fut (.wait w)).state = .pending)
  | lingers {x} (idle : t.phase = none) (state : (t.fib f).state = .suspended)
      (sources : (t.fib f).deferOn = (s.fib f).deferOn ∧ (t.fib f).exitOn = (s.fib f).exitOn)
      (doing : Doing t.fut (t.fib f)) (before : (s.fib f).cont = .cwu) (stays : (s.fib f).Stays (t.fib f))
      (goal : (s.fib f).optarget = some x) (live : ¬ (s.fib x).state.Over) (other : ∀ g, g ≠ f → t.fib g = s.fib g)
      (fut : t.fut = s.fut)
  | queued (idle : t.phase = none) (state : (t.fib f).state = .ready) (exitOn : (t.fib f).exitOn = true)
      (doing : Doing t.fut (t.fib f)) (cont : (t.fib f).cont = .op) (mode : (t.fib f).mode = .normal)
      (none : (t.fib f).pendingVal = .ok)
  | done (idle : t.phase = none) (gone : (t.fib f).state = .completed ∨ (t.fib f).state = .freed) (offline : (t.fib f).deferOn = false)
      (cont : (t.fib f).cont = .none) (calm : (t.fib f).Calm) (alone : (t.fut (.fiber f)).waiters = ∅)

/-- The loop is neither finished nor called back from its exit. -/
structure Loops (s t : State F E W) : Prop where
  exit : t.exitReq = false → s.exitReq = false
  finished : t.finished = s.finished

theorem Loops.of_rest (rest : t = { s with fib := t.fib, fut := t.fut }) : Loops s t := by
  rw [rest]
  exact ⟨id, rfl⟩

/-- The fiber that acts and what it may be relied on for. -/
structure Actor (cfg : Config F E W) (s t : State F E W) (f : F) : Prop where
  creator : (t.fib f).creator = (s.fib f).creator
  bottom : (t.fib f).Bottoms
  loops : Loops s t
  goes : Goes cfg s t f

theorem Actor.plan (actor : Actor cfg s t f) (running : s.phase = some f) (plan : Plan s f) : Plan t f := by
  have orphan : (t.fib f).creator ≠ .fiber f := by
    rw [actor.creator]
    exact plan.orphan
  have offline (stay : t.exitReq = false) (same : (t.fib f).deferOn = (s.fib f).deferOn) : (t.fib f).deferOn ≠ true :=
    fun on => (plan.ready (actor.loops.exit stay) (same ▸ on)).1 running
  cases actor.goes with
  | onward active state sources cont calm bound =>
    refine ⟨.code cont calm, orphan, actor.bottom, fun op => ?_, fun op => ?_, fun stay on => absurd on (offline stay sources.1)⟩
    · rw [cont] at op
      cases op
    · rw [cont] at op
      cases op
  | sleeps idle state sources doing cont mode none =>
    exact ⟨doing, orphan, actor.bottom, fun _ => mode, fun _ => .inl none, fun stay on => absurd on (offline stay sources.1)⟩
  | cleans idle state sources doing cont =>
    refine ⟨doing, orphan, actor.bottom, fun op => ?_, fun op => ?_, fun stay on => absurd on (offline stay sources.1)⟩
    · rw [cont] at op
      cases op
    · rw [cont] at op
      cases op
  | lingers idle state sources doing before stays =>
    have cont := stays.cont.trans before
    refine ⟨doing, orphan, actor.bottom, fun op => ?_, fun op => ?_, fun stay on => absurd on (offline stay sources.1)⟩
    · rw [cont] at op
      cases op
    · rw [cont] at op
      cases op
  | queued idle state exitOn doing cont mode none =>
    refine ⟨doing, orphan, actor.bottom, fun _ => mode, fun _ => .inl none, fun _ _ => ⟨?_, .inr (.inl state)⟩⟩
    rw [idle]
    nofun
  | done idle gone off cont calm =>
    refine ⟨.code cont calm, orphan, actor.bottom, fun op => ?_, fun op => ?_, fun _ on => ?_⟩
    · rw [cont] at op
      cases op
    · rw [cont] at op
      cases op
    · rw [off] at on
      cases on

variable {b : Fib F E W}

/-- In the code of the fiber only a stashed value tells where it goes. -/
theorem Fib.Bound.stashed (bound : b.Bound) (mode : b.mode = .normal) (cont : b.cont = .none) : b.pendingVal ≠ .ok := by
  obtain unwinds | stashed | woken := bound
  · rw [mode] at unwinds
    cases unwinds.1
  · exact stashed
  · exact absurd cont woken.1

/-- The fiber does something that returns at once. -/
theorem Actor.quiet (here : t.fib f = b) (active : t.phase = some f) (state : b.state = (s.fib f).state)
    (sources : b.deferOn = (s.fib f).deferOn ∧ b.exitOn = (s.fib f).exitOn) (creator : b.creator = (s.fib f).creator)
    (calm : b.Calm) (cont : b.cont = .none) (bottom : b.Bottoms) (loops : Loops s t)
    (bound : (s.fib f).Bound → b.Bound) : Actor cfg s t f := by
  refine ⟨?_, ?_, loops, .onward active ?_ ?_ ?_ ?_ fun _ before => ?_⟩ <;> rw [here]
  · exact creator
  · exact bottom
  · exact state
  · exact sources
  · exact cont
  · exact calm
  · exact bound before

/-- What a fiber that is not inside of a wait pushes onto its stack is no wait future. -/
theorem Fib.Calm.push {c : Fib F E W} {x : Id F E W} (calm : b.Calm) (wait : c.cwuWait = b.cwuWait)
    (stack : c.cstack = x :: b.cstack) (other : ∀ w, .wait w ≠ x) : c.Calm := by
  refine ⟨wait.trans calm.1, fun w inside => ?_⟩
  rw [stack, List.mem_cons] at inside
  exact inside.elim (other w) (calm.2 w)

theorem Fib.Calm.tail {c : Fib F E W} (calm : b.Calm) (wait : c.cwuWait = b.cwuWait) (stack : c.cstack = b.cstack.tail) :
    c.Calm := by
  refine ⟨wait.trans calm.1, fun w inside => calm.2 w (List.mem_of_mem_tail (stack ▸ inside))⟩

/-- The books are right and every fiber knows what it is about. -/
structure Sane (cfg : Config F E W) (s : State F E W) : Prop where
  core : Core cfg s
  plan : ∀ g, Plan s g

theorem Sane.ready (sane : Sane cfg s) (g : F) (stay : s.exitReq = false) (on : (s.fib g).deferOn = true) :
    (s.fib g).state.Runs := ((sane.plan g).ready stay on).2

/-- Who else runs after a fiber has acted. -/
theorem Actor.phase (actor : Actor cfg s t f) : t.phase = some f ∨ t.phase = none := by
  cases actor.goes with
  | onward active => exact .inl active
  | sleeps idle | cleans idle | lingers idle | queued idle | done idle => exact .inr idle

theorem Actor.stepped {g : F} (actor : Actor cfg s t f) (differs : g ≠ f) : Stepped cfg s t g := by
  intro active
  obtain here | idle := actor.phase
  · exact absurd (Option.some.inj (active.symm.trans here)) differs
  · rw [idle] at active
    cases active

theorem Core.child_ne {k : F} (core : Core cfg s) (plan : Plan s f) (owned : .fiber k ∈ (s.fib f).owned) : f ≠ k := by
  rintro rfl
  exact plan.orphan (core.child owned).2

end Acting

section Start

variable {F E W : Type} [DecidableEq F]

/-- Main has started the fibers of the top level, and nobody has done anything. -/
theorem init_cases (cfg : Config F E W) (g : F) :
    g ∈ cfg.topLevel ∧
        (init cfg).fib g = newFib cfg .main (cfg.prio g) (decide (g ∈ cfg.floatingTop)) true 0 ∧
        (init cfg).fut (.fiber g) = fiberFut Option.none (decide (g ∉ cfg.floatingTop)) ∨
      g ∉ cfg.topLevel ∧ (init cfg).fib g = noFib ∧ (init cfg).fut (.fiber g) = freeFut := by
  by_cases top : g ∈ cfg.topLevel
  · exact .inl ⟨top, if_pos top, if_pos top⟩
  · exact .inr ⟨top, if_neg top, if_neg top⟩

theorem init_owned (cfg : Config F E W) (g : F) : ((init cfg).fib g).owned = [] := by
  obtain ⟨_, fib, _⟩ | ⟨_, fib, _⟩ := init_cases cfg g <;> rw [fib] <;> rfl

theorem init_owner (cfg : Config F E W) (x : Id F E W) : (init cfg).owner x = none := by
  cases x with
  | fiber g =>
    obtain ⟨_, fib, _⟩ | ⟨_, _, fut⟩ := init_cases cfg g
    · rw [State.owner, fib]
      exact ite_self _
    · rw [State.owner, fut]
      rfl
  | ext | wait => rfl

theorem core_init (cfg : Config F E W) : Core cfg (init cfg) where
  scopes := by
    refine ⟨fun g x => ?_, fun g => ?_⟩ <;> rw [init_owned]
    · rw [init_owner]
      exact iff_of_false List.not_mem_nil nofun
    · exact List.nodup_nil
  ext _ := .inl freeFut_blank
  wait _ := .inl freeFut_blank
  alive g live := by
    obtain ⟨_, fib, fut⟩ | ⟨_, fib, _⟩ := init_cases cfg g
    · rw [fib, fut]
      exact ⟨rfl, rfl, iff_of_true rfl nofun⟩
    · rw [State.Alive, fib] at live
      exact absurd rfl live.1
  dead g dead := by
    obtain ⟨_, fib, _⟩ | ⟨_, _, fut⟩ := init_cases cfg g
    · rw [State.Alive, fib] at dead
      have live : FibState.initial ≠ .none ∧ FibState.initial ≠ .freed := by decide
      exact absurd live dead
    · rw [fut]
      exact freeFut_blank
  waiters g w := by
    refine iff_of_false (fun inside => ?_) fun both => (Option.some_ne_none g both.1.symm).elim
    obtain ⟨_, _, fut⟩ | ⟨_, _, fut⟩ := init_cases cfg g <;> rw [fut] at inside <;> exact Finset.notMem_empty w inside
  main g top held := by
    obtain ⟨_, fib, fut⟩ | ⟨other, _⟩ := init_cases cfg g
    · rw [fib, fut]
      exact ⟨decide_eq_true held, rfl⟩
    · exact absurd top other
  ended g _ := init_owned cfg g
  fresh g _ _ := init_owned cfg g
  running _ active := nomatch active
  noCrash := rfl

theorem Sane.init (cfg : Config F E W) : Sane cfg (init cfg) := by
  refine ⟨core_init cfg, fun g => ?_⟩
  obtain ⟨_, fib, _⟩ | ⟨_, fib, _⟩ := init_cases cfg g
  · refine ⟨?_, ?_, ?_, ?_, ?_, fun _ _ => ⟨nofun, ?_⟩⟩ <;> rw [fib]
    · exact .code rfl ⟨rfl, nofun⟩
    · nofun
    · nofun
    · nofun
    · nofun
    · exact .inl rfl
  · refine ⟨?_, ?_, ?_, ?_, ?_, fun _ on => ?_⟩
    · rw [fib]
      exact .code rfl ⟨rfl, nofun⟩
    · rw [fib]
      nofun
    · rw [fib]
      nofun
    · rw [fib]
      nofun
    · rw [fib]
      nofun
    · rw [fib] at on
      cases on

end Start

section Writing

variable {F E W : Type} [DecidableEq F] {cfg : Config F E W} {s t r : State F E W} {f : F} {b : Fib F E W}

theorem wrote (before : r.fib f = b) (h : Fib F E W → Fib F E W) : (r.setFib f h).fib f = h b := by
  rw [State.setFib_self, before]

/-- The fiber goes on after an operation that returned. -/
theorem Decided.actor {v : Val} (decided : Decided cfg r f v t) (active : r.phase = some f) (loops : Loops s r)
    (here : r.fib f = b)
    (state : b.state = (s.fib f).state) (sources : b.deferOn = (s.fib f).deferOn ∧ b.exitOn = (s.fib f).exitOn)
    (creator : b.creator = (s.fib f).creator) (calm : b.Calm) (bottom : b.Bottoms)
    (bound : cfg.allowIgnoreErrors = false → v = .ok → (s.fib f).Bound → b.pendingVal ≠ .ok) : Actor cfg s t f := by
  cases decided with
  | carry fine =>
    have there := wrote here fun b => { b with cont := .none, opkind := .none, opfut := none, optarget := none }
    rw [clearOp]
    refine ⟨?_, ?_, ⟨loops.exit, loops.finished⟩, .onward active ?_ ?_ ?_ ?_ fun strict before => ?_⟩ <;> rw [there]
    · exact creator
    · exact bottom
    · exact state
    · exact sources
    · exact calm
    · have ok : v = .ok := fine.resolve_right fun ignores => by
        rw [strict] at ignores
        cases ignores
      exact .inr (.inl (bound strict ok before))
  | fail =>
    have there := wrote (wrote here fun b => { b with cont := .none, opkind := .none, opfut := none, optarget := none })
      fun b => { b with mode := .unwind, unwindTo := 0, after := .ret, retval := v }
    rw [unwindTo, clearOp]
    refine ⟨?_, ?_, ⟨loops.exit, loops.finished⟩, .onward active ?_ ?_ ?_ ?_ fun _ _ => ?_⟩ <;> rw [there]
    · exact creator
    · exact fun _ _ => rfl
    · exact state
    · exact sources
    · exact calm
    · exact .inl ⟨rfl, rfl⟩

theorem Actor.resumed {s0 : State F E W} (plan : Plan s f) (running : s.Running f) (op : (s.fib f).cont = .op)
    (kind : (s.fib f).opkind ≠ .ext ∧ (s.fib f).opkind ≠ .awaitf) (flagged : Flagged s s0)
    (decided : Decided cfg s0 f (s.fib f).wakeVal t) : Actor cfg s t f := by
  have same : s0.fib = s.fib := by rw [flagged.rest]
  have phase : s0.phase = s.phase := by rw [flagged.rest]
  refine decided.actor (phase.trans running) (by rw [flagged.rest]; exact ⟨id, rfl⟩) (congrFun same f) rfl ⟨rfl, rfl⟩ rfl (plan.doing.pauses op kind) plan.bottom
    fun _ ok bound => ?_
  obtain unwinds | stashed | woken := bound
  · rw [plan.plain op] at unwinds
    cases unwinds.1
  · exact stashed
  · rw [ok] at woken
    cases woken.2.1

theorem Actor.blockLeft (plan : Plan s f) (running : s.Running f) (none : (s.fib f).cont = .none)
    (block : (s.fib f).after = .block) : Actor cfg s (s.setFib f fun b => { b with mode := .normal }) f := by
  refine .quiet (wrote rfl _) running rfl ⟨rfl, rfl⟩ rfl (plan.doing.calm none) none ?_ ⟨id, rfl⟩ fun bound => ?_
  · intro unwinding
    cases unwinding
  obtain unwinds | stashed | woken := bound
  · rw [block] at unwinds
    cases unwinds.2
  · exact .inr (.inl stashed)
  · exact absurd none woken.1

end Writing

variable {F E W : Type} [DecidableEq F] [DecidableEq E] [DecidableEq W] {cfg : Config F E W} {s t r : State F E W} {f : F}

theorem Actor.sleep {b : Fib F E W} (here : r.fib f = b) (loops : Loops s r) (sources : b.deferOn = (s.fib f).deferOn ∧ b.exitOn = (s.fib f).exitOn)
    (creator : b.creator = (s.fib f).creator) (bottom : b.Bottoms) (doing : Doing r.fut b) (op : b.cont = .op)
    (mode : b.mode = .normal) (none : b.pendingVal = .ok) (free : ¬ (s.fib f).Bound) :
    Actor cfg s (switchOut cfg r f .suspended) f := by
  have there := wrote here fun b => { b with state := .suspended, wakeSrc := .none }
  rw [switchOut_suspended]
  refine ⟨?_, ?_, ⟨loops.exit, loops.finished⟩, .sleeps rfl ?_ ?_ ?_ ?_ ?_ ?_ free⟩ <;> dsimp only <;> rw [there]
  · exact creator
  · exact bottom
  · exact sources
  · exact doing.stays ⟨rfl, rfl, rfl, rfl, rfl, rfl, rfl, rfl, rfl, rfl⟩ fun _ _ => rfl
  · exact op
  · exact mode
  · exact none

theorem Actor.queue {b : Fib F E W} (fixed : cfg.Fixed) (here : r.fib f = b) (loops : Loops s r) (creator : b.creator = (s.fib f).creator)
    (bottom : b.Bottoms) (doing : Doing r.fut b) (op : b.cont = .op) (mode : b.mode = .normal) (none : b.pendingVal = .ok) :
    Actor cfg s (switchOut cfg r f .ready) f := by
  have there := wrote here fun b =>
    { b with state := .ready, wakeSrc := .none, deferOn := b.deferOn || !r.exiting, exitOn := true }
  rw [switchOut_ready fixed]
  refine ⟨?_, ?_, ⟨loops.exit, loops.finished⟩, .queued rfl ?_ ?_ ?_ ?_ ?_ ?_⟩ <;> dsimp only <;> rw [there]
  · exact creator
  · exact bottom
  · exact doing.stays ⟨rfl, rfl, rfl, rfl, rfl, rfl, rfl, rfl, rfl, rfl⟩ fun _ _ => rfl
  · exact op
  · exact mode
  · exact none

/-- Releasing a fiber that is done leaves every other fiber alone. -/
theorem unref_other (cfg : Config F E W) {k : F} (resolved : (r.fut (.fiber k)).state = .resolved) (completed : (r.fib k).state = .completed)
    (apart : f ≠ k) : (unref cfg r (.fiber k)).fib f = r.fib f ∧ (unref cfg r (.fiber k)).phase = r.phase ∧
      Loops r (unref cfg r (.fiber k)) := by
  obtain released | released := unref_fiber cfg resolved completed
  · rw [released]
    exact ⟨rfl, rfl, id, rfl⟩
  · rw [released, freedFiber, State.setFib_of_ne apart]
    exact ⟨rfl, rfl, id, rfl⟩

theorem Cancels.begun {F E W : Type} [DecidableEq F] {cfg : Config F E W} {s r : State F E W} {k : F} (cancels : Cancels s k r) (core : Core cfg s) (alive : s.Alive k)
    (still : (r.fut (.fiber k)).state = .pending) : (r.fib k).state = .cancelled := by
  cases cancels with
  | idle ended =>
    obtain dead | completed | cancelled := ended
    · exact absurd alive dead
    · exact absurd completed ((core.alive k alive).state.mp still)
    · exact cancelled
  | fresh _ completion =>
    obtain ⟨_, fut⟩ | ⟨_, fut, _⟩ := completion.done <;>
      rw [fut] at still <;> cases still
  | marks =>
    rw [marked, State.setFib_self]

theorem Actor.awaited {v : Val} {o : Origin F} (fixed : cfg.Fixed) (formed : cfg.WellFormed) (core : Core cfg s) (plan : Plan s f)
    (running : s.Running f) (op : (s.fib f).cont = .op)
    (kind : (s.fib f).opkind = .ext ∨ (s.fib f).opkind = .awaitf) (ends : Ends s f v o)
    (decided : Decided cfg (endWait cfg s f) f v t) : Actor cfg s t f := by
  have later {b : Fib F E W} (here : (endWait cfg s f).fib f = b) (same : b = { s.fib f with cstack := (s.fib f).cstack.tail })
      (phase : (endWait cfg s f).phase = some f ∧ Loops s (endWait cfg s f)) (calm : b.Calm) : Actor cfg s t f := by
    subst same
    refine decided.actor phase.1 phase.2 here rfl ⟨rfl, rfl⟩ rfl calm plan.bottom fun _ ok bound => ?_
    obtain unwinds | stashed | woken := bound
    · rw [plan.plain op] at unwinds
      cases unwinds.1
    · exact stashed
    · cases ends with
      | cancelled => cases ok
      | done _ _ differs | expired _ differs => exact absurd woken.2.2 differs
  have shape {x : Id F E W} {rest : List (Id F E W)} (top : (s.fib f).owned = x :: rest) (none : (s.fib f).cwuWait = none)
      (calm : ∀ w, .wait w ∉ rest) : ({ s.fib f with cstack := (s.fib f).cstack.tail } : Fib F E W).Calm := by
    rw [Fib.owned, none] at top
    have stack : (s.fib f).cstack = x :: rest := top
    refine ⟨none, ?_⟩
    rw [stack]
    exact calm
  obtain ⟨x, rest, top, calm, none, step⟩ | ⟨w, k, rest, top, calm, none, _, step⟩ :=
    endWait_cases core fixed formed running plan.doing op kind
  · exact later (by rw [step, State.setFib_self]; rfl) rfl (by rw [step]; exact ⟨running, id, rfl⟩) (shape top none calm)
  · exact later (by rw [step, State.setFib_self]; rfl) rfl (by rw [step]; exact ⟨running, id, rfl⟩) (shape top none calm)

/-- A wakeup that ends nothing: the fiber waits on. -/
theorem Actor.absorbed (plan : Plan s f) (op : (s.fib f).cont = .op) (other : (s.fib f).wakeSrc ≠ .cancel) :
    Actor cfg s (switchOut cfg s f .suspended) f := by
  have none := (plan.fresh op).resolve_right fun cancelled => other cancelled.2
  refine .sleep rfl ⟨id, rfl⟩ ⟨rfl, rfl⟩ rfl plan.bottom plan.doing op (plan.plain op) none fun bound => ?_
  obtain unwinds | stashed | woken := bound
  · rw [plan.plain op] at unwinds
    cases unwinds.1
  · exact stashed none
  · exact other woken.2.2

theorem Actor.cwuWaits {k : F} (core : Core cfg s) (plan : Plan s f) (cwu : (s.fib f).cont = .cwu)
    (target : (s.fib f).optarget = some k) (pending : (s.fut (.fiber k)).state = .pending) :
    Actor cfg s (switchOut cfg (swallow s f) f .suspended) f := by
  have here := wrote (wrote (r := s) (f := f) rfl fun b => { b with swallowedVal := swallowed s f }) fun b =>
    { b with state := .suspended, wakeSrc := .none }
  have stays : (s.fib f).Stays ((switchOut cfg (swallow s f) f .suspended).fib f) := by
    rw [switchOut_suspended, swallow]
    dsimp only
    rw [here]
    exact ⟨rfl, rfl, rfl, rfl, rfl, rfl, rfl, rfl, rfl, rfl⟩
  obtain ⟨w, k', rest, _, goal, wait, top, _⟩ := plan.doing.cleans cwu
  obtain rfl : k' = k := Option.some.inj (goal.symm.trans target)
  have owned : .fiber k' ∈ (s.fib f).owned := by
    rw [Fib.owned, wait, top]
    exact List.mem_cons_of_mem _ List.mem_cons_self
  have live : ¬ (s.fib k').state.Over := by
    have there := core.alive_of_held (core.child owned).1
    have going := (core.alive k' there).state.mp pending
    rw [FibState.Over, not_or, not_or]
    exact ⟨there.1, going, there.2⟩
  refine ⟨stays.creator, ?_, ⟨id, rfl⟩, .lingers rfl ?_ ?_ (plan.doing.stays stays fun _ _ => rfl) cwu stays target live
    (fun g differs => ?_) rfl⟩
  · rw [Fib.Bottoms, stays.mode, stays.after, stays.unwindTo]
    exact plan.bottom
  · rw [switchOut_suspended, State.setFib_self]
  · rw [switchOut_suspended, swallow]
    dsimp only
    rw [here]
    exact ⟨rfl, rfl⟩
  · rw [switchOut_suspended, swallow]
    dsimp only
    rw [State.setFib_of_ne differs, State.setFib_of_ne differs]

theorem Actor.cwuEnds {k : F} (fixed : cfg.Fixed) (formed : cfg.WellFormed) (core : Core cfg s) (plan : Plan s f)
    (running : s.Running f) (cwu : (s.fib f).cont = .cwu) (target : (s.fib f).optarget = some k)
    (resolved : (s.fut (.fiber k)).state = .resolved) : Actor cfg s (endCwu cfg s f k) f := by
  obtain ⟨w, rest, r, u, mode, _, top, calm, _, rfl, released, step⟩ :=
    endCwu_cases core fixed formed running plan.doing cwu target resolved
  have apart : f ≠ k := by
    rintro rfl
    exact absurd resolved (Fut.pending_iff.mp ((core.alive f (core.running_alive running).1).state.mpr
      (core.running_alive running).2.1))
  have before : u.fib f = s.fib f ∧ u.phase = s.phase ∧ Loops s u := by
    obtain rfl | rfl := released
    · exact ⟨rfl, rfl, id, rfl⟩
    · rw [freedFiber, State.setFib_of_ne apart]
      exact ⟨rfl, rfl, id, rfl⟩
  have here := wrote before.1 fun c =>
    { c with
      cstack := c.cstack.tail
      cont := .none
      optarget := none
      cwuWait := none
      swallowedVal := .ok
      pendingVal := if swallowed s f ≠ .ok then swallowed s f else c.pendingVal }
  rw [step]
  refine .quiet here (before.2.1.trans running) rfl ⟨rfl, rfl⟩ rfl ⟨rfl, fun v inside => calm v (List.mem_of_mem_tail inside)⟩
    rfl plan.bottom ⟨before.2.2.exit, before.2.2.finished⟩ fun bound => ?_
  obtain unwinds | stashed | woken := bound
  · exact .inl unwinds
  · refine .inr (.inl ?_)
    dsimp only
    split_ifs with error
    · exact error
    · exact stashed
  · have error : swallowed s f = .canceled := if_pos (.inl woken.2.1)
    refine .inr (.inl ?_)
    dsimp only
    rw [error, if_pos (by decide)]
    decide

theorem Actor.frees {x : Id F E W} {rest : List (Id F E W)} (fixed : cfg.Fixed) (formed : cfg.WellFormed) (core : Core cfg s) (plan : Plan s f)
    (running : s.Running f) (none : (s.fib f).cont = .none) (top : (s.fib f).cstack = x :: rest)
    (notFiber : ∀ k, x ≠ .fiber k) : Actor cfg s (popTop (cwuSync cfg s x) f) f := by
  have calm := plan.doing.calm none
  cases x with
  | fiber k => exact absurd rfl (notFiber k)
  | wait w => exact absurd (top ▸ List.mem_cons_self) (calm.2 w)
  | ext x =>
    have owned : .ext x ∈ (s.fib f).owned := calm.owned ▸ top ▸ List.mem_cons_self
    rw [cwuSync_ext fixed formed (core.owns running owned notFiber)]
    exact .quiet (wrote rfl _) running rfl ⟨rfl, rfl⟩ rfl (calm.tail rfl rfl) none plan.bottom ⟨id, rfl⟩ id

theorem Actor.freesDone {k : F} {rest : List (Id F E W)} (core : Core cfg s) (plan : Plan s f) (running : s.Running f)
    (none : (s.fib f).cont = .none) (top : (s.fib f).cstack = .fiber k :: rest)
    (resolved : (s.fut (.fiber k)).state = .resolved) : Actor cfg s (popTop (unref cfg s (.fiber k)) f) f := by
  have calm := plan.doing.calm none
  have owned : .fiber k ∈ (s.fib f).owned := calm.owned ▸ top ▸ List.mem_cons_self
  obtain ⟨apart, completed⟩ := core.child_done running plan.orphan owned resolved
  have before := unref_other cfg resolved completed apart.symm
  exact .quiet (wrote before.1 _) (before.2.1.trans running) rfl ⟨rfl, rfl⟩ rfl (calm.tail rfl rfl) none plan.bottom
    ⟨before.2.2.exit, before.2.2.finished⟩ id

/-- A child that nobody had started is cancelled and released at once. -/
theorem Actor.freesFresh {k : F} {rest : List (Id F E W)} (fixed : cfg.Fixed) (formed : cfg.WellFormed) (core : Core cfg s) (plan : Plan s f)
    (running : s.Running f) (none : (s.fib f).cont = .none) (top : (s.fib f).cstack = .fiber k :: rest)
    (resolved : ((cancel cfg s k).fut (.fiber k)).state = .resolved) :
    Actor cfg s (popTop (unref cfg (cancel cfg s k) (.fiber k)) f) f := by
  have calm := plan.doing.calm none
  have owned : .fiber k ∈ (s.fib f).owned := calm.owned ▸ top ▸ List.mem_cons_self
  have apart := core.child_ne plan owned
  have cancelled := core.cancel fixed formed (g := k) fun active => apart (Option.some.inj (running.symm.trans active))
  obtain ⟨same, phase⟩ := (core.cancels fixed formed k).running core running apart
  obtain ⟨_, completed⟩ := cancelled.child_done (phase.trans running) (same ▸ plan.orphan) (same ▸ owned) resolved
  have before := unref_other cfg resolved completed apart
  have loops := Loops.of_rest (core.cancels fixed formed k).rest
  exact .quiet (wrote (before.1.trans same) _) ((before.2.1.trans phase).trans running) rfl ⟨rfl, rfl⟩ rfl
    (calm.tail rfl rfl) none plan.bottom ⟨fun stay => loops.exit (before.2.2.exit stay), before.2.2.finished.trans loops.finished⟩ id

theorem Actor.cwuBegins {k : F} {w : W} {rest : List (Id F E W)} (fixed : cfg.Fixed) (formed : cfg.WellFormed) (core : Core cfg s) (plan : Plan s f)
    (running : s.Running f) (unwinds : (s.fib f).mode = .unwind) (none : (s.fib f).cont = .none)
    (top : (s.fib f).cstack = .fiber k :: rest) (still : ((cancel cfg s k).fut (.fiber k)).state = .pending) :
    Actor cfg s
      (switchOut cfg
        ((((cancel cfg s k).setFut (.wait w) fun _ => waitFut f k).setFut (.fiber k) fun u =>
            { u with waiters := insert w u.waiters }).setFib f fun b =>
          { b with cont := .cwu, optarget := some k, cwuWait := some w })
        f .suspended) f := by
  have calm := plan.doing.calm none
  have owned : .fiber k ∈ (s.fib f).owned := calm.owned ▸ top ▸ List.mem_cons_self
  have apart := core.child_ne plan owned
  have cancels := core.cancels fixed formed k
  obtain ⟨same, phase⟩ := cancels.running core running apart
  have begun := cancels.begun core (core.alive_of_held (core.child owned).1) still
  set r := cancel cfg s k with asked
  set u := (r.setFut (.wait w) fun _ => waitFut f k).setFut (.fiber k) fun v => { v with waiters := insert w v.waiters } with waits
  have here := wrote (wrote (r := u) same fun b => { b with cont := .cwu, optarget := some k, cwuWait := some w }) fun b =>
    { b with state := .suspended, wakeSrc := .none }
  have wait : u.fut (.wait w) = waitFut f k := by
    rw [waits, State.setFut_of_ne (Id.fiber_ne_wait k w).symm, State.setFut_self]
  have there : ((switchOut cfg (u.setFib f fun b => { b with cont := .cwu, optarget := some k, cwuWait := some w }) f
      .suspended).fib k).state = .cancelled := by
    rw [switchOut_suspended]
    dsimp only
    rw [State.setFib_of_ne apart.symm, State.setFib_of_ne apart.symm]
    exact begun
  have loops := Loops.of_rest cancels.rest
  refine ⟨?_, ?_, ⟨loops.exit, loops.finished⟩, .cleans (x := k) (w := w) rfl ?_ ?_ ?_ ?_ ?_ ?_ (.inr (.inr there)) (congrArg Fut.state wait)⟩ <;>
    rw [switchOut_suspended] <;> dsimp only <;> rw [here]
  · exact plan.bottom
  · exact ⟨rfl, rfl⟩
  · exact .cleanup rfl unwinds rfl rfl top calm.2 (congrArg Fut.target wait)

theorem Actor.completes (fixed : cfg.Fixed) (formed : cfg.WellFormed) (core : Core cfg s) (plan : Plan s f)
    (running : s.Running f) (none : (s.fib f).cont = .none) :
    Actor cfg s (switchOut cfg (s.setFib f fun b => { b with mode := .normal }) f .completed) f := by
  have calm := plan.doing.calm none
  obtain ⟨u, completion, done⟩ := core.completes fixed formed running
  have self := completion.self
  rw [State.setFib_self] at self
  rw [done]
  have gone := completion.done.imp And.left And.left
  have alone : (u.fut (.fiber f)).waiters = ∅ := by
    obtain ⟨_, fut⟩ | ⟨_, fut, _⟩ := completion.done <;> rw [fut]
    rfl
  generalize (u.fib f).state = st at self gone
  have loops := Loops.of_rest completion.rest
  refine ⟨?_, ?_, ⟨loops.exit, loops.finished⟩, .done rfl ?_ ?_ ?_ ?_ alone⟩ <;> dsimp only <;> rw [self]
  · intro unwinding
    cases unwinding
  · exact gone
  · exact none
  · exact calm

theorem Acts.actor {e : Event F} (step : Acts cfg s f e t) (fixed : cfg.Fixed) (formed : cfg.WellFormed)
    (core : Core cfg s) (plan : Plan s f) : Actor cfg s t f := by
  have running := step.running
  have calm (can : s.CanOp f) : (s.fib f).Calm := plan.doing.calm can.2.2
  have stashed (can : s.CanOp f) (bound : (s.fib f).Bound) : (s.fib f).pendingVal ≠ .ok := bound.stashed can.2.1 can.2.2
  have free (can : s.CanOp f) (none : (s.fib f).pendingVal = .ok) (bound : (s.fib f).Bound) : False :=
    stashed can bound none
  have spent : (spend s f).fib f = { s.fib f with budget := (s.fib f).budget - 1 } := State.setFib_self ..
  cases step with
  | delivered can _ error decided =>
    exact decided.actor running ⟨id, rfl⟩ (wrote spent _) rfl ⟨rfl, rfl⟩ rfl (calm can) plan.bottom fun _ ok _ => absurd ok error
  | refused can _ decided =>
    exact decided.actor running ⟨id, rfl⟩ spent rfl ⟨rfl, rfl⟩ rfl (calm can) plan.bottom fun _ ok _ => nomatch ok
  | awaitedDone can _ _ decided =>
    exact decided.actor running ⟨id, rfl⟩ spent rfl ⟨rfl, rfl⟩ rfl (calm can) plan.bottom fun _ _ => stashed can
  | yields can none =>
    exact .queue fixed (wrote spent _) ⟨id, rfl⟩ rfl plan.bottom (.pause rfl ⟨nofun, nofun⟩ (calm can)) rfl can.2.1 none
  | bares can none =>
    exact .sleep (wrote spent _) ⟨id, rfl⟩ ⟨rfl, rfl⟩ rfl plan.bottom (.pause rfl ⟨nofun, nofun⟩ (calm can)) rfl can.2.1 none
      (free can none)
  | waitsExt can none =>
    refine .sleep (wrote (r := (spend s f).setFut _ _) spent _) ⟨id, rfl⟩ ⟨rfl, rfl⟩ rfl plan.bottom ?_ rfl can.2.1 none (free can none)
    exact .onLoop rfl rfl rfl rfl ((calm can).push rfl rfl nofun)
  | @waitsFiber k w can _ none =>
    have target : ((((spend s f).setFut (.wait w) fun _ => waitFut f k).setFut (.fiber k) fun u =>
        { u with waiters := insert w u.waiters }).fut (.wait w)).target = some k := by
      rw [State.setFut_of_ne (Id.fiber_ne_wait k w).symm, State.setFut_self]
      rfl
    refine .sleep (wrote (r := ((spend s f).setFut _ _).setFut _ _) spent _) ⟨id, rfl⟩ ⟨rfl, rfl⟩ rfl plan.bottom ?_ rfl can.2.1 none
      (free can none)
    exact .onFiber rfl rfl rfl rfl rfl (calm can).1 (calm can).2 target
  | @spawns k fl can unborn =>
    have apart : f ≠ k := by
      rintro rfl
      exact (core.running_alive running).1.1 unborn
    have before (h : Fib F E W → Fib F E W) : ((spend s f).setFib k h).fib f = { s.fib f with budget := (s.fib f).budget - 1 } :=
      (State.setFib_of_ne apart h).trans spent
    refine .quiet (wrote (r := ((spend s f).setFib k _).setFut _ _) (before _) _) running rfl ⟨rfl, rfl⟩ rfl ?_ can.2.2 plan.bottom ⟨id, rfl⟩ fun bound => .inr (.inl (stashed can bound))
    cases fl with
    | true => exact calm can
    | false => exact (calm can).push rfl rfl nofun
  | @cancels k can handle =>
    have apart := core.handle_ne plan.orphan (calm can) handle
    obtain ⟨same, phase⟩ := ((core.spend f).cancels fixed formed k).running (core.spend f) running apart.symm
    have loops := Loops.of_rest ((core.spend f).cancels fixed formed k).rest
    exact .quiet (same.trans spent) (phase.trans running) rfl ⟨rfl, rfl⟩ rfl (calm can) can.2.2 plan.bottom
      ⟨loops.exit, loops.finished⟩ fun bound => .inr (.inl (stashed can bound))
  | exits can =>
    exact .quiet spent running rfl ⟨rfl, rfl⟩ rfl (calm can) can.2.2 plan.bottom ⟨nofun, rfl⟩ fun bound =>
      .inr (.inl (stashed can bound))
  | noTimeout can =>
    exact .quiet spent running rfl ⟨rfl, rfl⟩ rfl (calm can) can.2.2 plan.bottom ⟨id, rfl⟩ fun bound => .inr (.inl (stashed can bound))
  | timeout can =>
    exact .quiet (wrote (r := (spend s f).setFut _ _) spent _) running rfl ⟨rfl, rfl⟩ rfl ((calm can).push rfl rfl nofun)
      can.2.2 plan.bottom ⟨id, rfl⟩ fun bound => .inr (.inl (stashed can bound))
  | leavesBlock can =>
    exact .quiet (wrote (wrote spent _) _) running rfl ⟨rfl, rfl⟩ rfl (calm can) rfl nofun ⟨id, rfl⟩ fun bound =>
      .inr (.inl (stashed can bound))
  | rets rv can =>
    exact .quiet (wrote (wrote rfl _) _) running rfl ⟨rfl, rfl⟩ rfl (calm can) rfl (fun _ _ => rfl) ⟨id, rfl⟩ fun _ => .inl ⟨rfl, rfl⟩
  | resumed _ op kind flagged decided => exact .resumed plan running op kind flagged decided
  | awaited _ op kind ends decided => exact .awaited fixed formed core plan running op kind ends decided
  | absorbed _ op _ other => exact .absorbed plan op other
  | cwuWaits _ cwu target pending => exact .cwuWaits core plan cwu target pending
  | cwuEnds _ cwu target resolved => exact .cwuEnds fixed formed core plan running cwu target resolved
  | blockLeft _ _ none _ block => exact .blockLeft plan running none block
  | frees _ _ none top notFiber => exact .frees fixed formed core plan running none top notFiber
  | freesDone _ _ none top resolved => exact .freesDone core plan running none top resolved
  | freesFresh _ _ none top _ resolved => exact .freesFresh fixed formed core plan running none top resolved
  | @cwuFast k _ _ _ _ none top callback =>
    have owned : .fiber k ∈ (s.fib f).owned := (plan.doing.calm none).owned ▸ top ▸ List.mem_cons_self
    have bare := (core.alive k (core.alive_of_held (core.child owned).1)).cb
    rw [(core.cancels fixed formed k).cb bare] at callback
    cases callback
  | cwuBegins _ unwinds none top _ still => exact .cwuBegins fixed formed core plan running unwinds none top still
  | completes _ _ none => exact .completes fixed formed core plan running none

/-! ### Every run -/

/-- The loop turns while nobody runs; otherwise a flag or a source of the loop is set. -/
theorem Turns.still (step : Turns cfg s t) : s.phase = none ∨
    t.fib = s.fib ∧ t.phase = s.phase ∧ ∀ x, (∀ y, x ≠ .ext y) → t.fut x = s.fut x := by
  cases step with
  | finishes idle | exitTurn idle | deferTurn idle | extTurn idle | mainCancels idle => exact .inl idle
  | fires => exact .inr ⟨rfl, rfl, fun x other => State.setFut_of_ne (other _) _⟩
  | mainExits | stays => exact .inr ⟨rfl, rfl, fun _ _ => rfl⟩

theorem Turns.exit (step : Turns cfg s t) (fixed : cfg.Fixed) (formed : cfg.WellFormed) (core : Core cfg s) :
    t.exitReq = false → s.exitReq = false := by
  intro stay
  cases step with
  | finishes | mainExits => cases stay
  | @exitTurn k =>
    rw [Fiber.exitTurn] at stay
    dsimp only at stay
    split_ifs at stay with completed going
    · cases stay
    · cases (congrArg State.exitReq ((core.exits k).cancels fixed formed k).rest).symm.trans stay
    · cases stay
  | deferTurn _ _ exit | extTurn _ _ exit => exact exit
  | fires | stays => exact stay
  | @mainCancels k _ _ _ _ _ _ rest =>
    rw [rest] at stay
    exact (congrArg State.exitReq (core.cancels fixed formed k).rest).symm.trans stay

theorem Sane.acts {e : Event F} (sane : Sane cfg s) (fixed : cfg.Fixed) (formed : cfg.WellFormed) (step : Acts cfg s f e t) :
    Sane cfg t := by
  have own := sane.plan f
  have actor := step.actor fixed formed sane.core own
  refine ⟨step.core fixed formed sane.core own.doing own.orphan own.bottom, fun g => ?_⟩
  obtain rfl | differs := eq_or_ne g f
  · exact actor.plan step.running own
  · have frame := step.frame fixed formed sane.core own.doing own.orphan differs
    refine frame.plan sane.core (sane.plan g) (actor.stepped differs) (fun active => differs ?_) actor.loops.exit
    exact Option.some.inj (active.symm.trans step.running)

theorem Sane.turns (sane : Sane cfg s) (fixed : cfg.Fixed) (formed : cfg.WellFormed) (step : Turns cfg s t) : Sane cfg t := by
  have exit := step.exit fixed formed sane.core
  refine ⟨step.core fixed formed sane.core sane.ready, fun g => ?_⟩
  have plan := sane.plan g
  obtain idle | ⟨fib, phase, fut⟩ := step.still
  · refine (step.frame fixed formed sane.core sane.ready g).plan sane.core plan
      (step.stepped fixed formed sane.core sane.ready g) ?_ exit
    rw [idle]
    nofun
  · refine ⟨?_, ?_, ?_, ?_, ?_, fun stay => ?_⟩ <;> rw [fib]
    · refine plan.doing.stays (.refl _) fun w _ => ?_
      rw [fut _ fun y => (Id.ext_ne_wait y w).symm]
    · exact plan.orphan
    · exact plan.bottom
    · exact plan.plain
    · rw [phase]
      exact plan.fresh
    · rw [phase]
      exact plan.ready (exit stay)

theorem Sane.next {e : Event F} (sane : Sane cfg s) (fixed : cfg.Fixed) (formed : cfg.WellFormed) (step : Next cfg s e t) :
    Sane cfg t := by
  obtain ⟨f, step⟩ | ⟨_, step⟩ := step.cases fixed
  · exact sane.acts fixed formed step
  · exact sane.turns fixed formed step

/-- In every run the books are right. -/
theorem sane_invariant (fixed : cfg.Fixed) (formed : cfg.WellFormed) : (spec cfg).Invariant (Sane cfg) := by
  refine .of_step (fun s start => ?_) fun s t sane step => ?_
  · rw [show s = Fiber.init cfg from start]
    exact .init cfg
  · obtain ⟨e, step⟩ := step
    exact sane.next fixed formed step

end LinuxTla.Fiber
