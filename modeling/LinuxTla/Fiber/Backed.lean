import LinuxTla.Fiber.Redelivery

/-! Nobody is cancelled without a cancel, unless a cleanup takes the -ECANCELED of a child
for one of the fiber itself. -/

namespace LinuxTla.Fiber

open Lib

/-! ### What is kept for a fiber -/

section Kept

variable {F E W : Type} {cfg : Config F E W} {s t : State F E W} {f g : F} {e : Event F}

/-- No io, timer or deadline future resolves with a cancellation. -/
def Prompt (s : State F E W) : Prop :=
  ∀ x, (s.fut (.ext x)).fireResult ≠ .canceled ∧ (s.fut (.ext x)).result ≠ .canceled

def Clean (s : State F E W) (f : F) : Prop := (s.fib f).cont ≠ .cwu → (s.fib f).swallowedVal = .ok

/-- A cancellation is on its way to the fiber, swallowed by its cleanup or stashed. -/
inductive Bears (s : State F E W) (f : F) : Prop
  | fresh (state : (s.fib f).state = .cancelled) (unseen : s.phase = some f → (s.fib f).cont ≠ .none)
  | inside (cwu : (s.fib f).cont = .cwu) (value : (s.fib f).swallowedVal = .canceled)
  | stashed (pending : (s.fib f).pendingVal = .canceled)

/-- Why an operation of `f` may return a cancellation. -/
inductive Told (s : State F E W) (f : F) : Origin F → Prop
  | stashed (none : (s.fib f).cont = .none) (pending : (s.fib f).pendingVal = .canceled) : Told s f .own
  | cancelled (op : (s.fib f).cont = .op) (state : (s.fib f).state = .cancelled) : Told s f .own
  | refused (exiting : s.exiting = true) : Told s f .refused
  | result {k} (resolved : (s.fut (.fiber k)).state = .resolved) (value : (s.fut (.fiber k)).result = .canceled) :
      Told s f (.result k)

/-- A cleanup takes the end of its child for a cancellation of the fiber itself. -/
structure Mistakes (s : State F E W) (f : F) : Prop where
  running : s.phase = some f
  cwu : (s.fib f).cont = .cwu
  woken : (s.fib f).wakeVal = .canceled
  other : (s.fib f).state ≠ .cancelled
  swallowed : (s.fib f).swallowedVal ≠ .canceled
  pending : (s.fib f).pendingVal ≠ .canceled

/-- The cancellation of a fiber ends its wait while it also has the -ECANCELED of the fiber
that it waited for. -/
structure Doubles (s : State F E W) (f : F) : Prop where
  running : s.phase = some f
  op : (s.fib f).cont = .op
  cancelled : (s.fib f).state = .cancelled
  pending : (s.fib f).pendingVal = .canceled

theorem Clean.not_canceled (clean : Clean s f) (other : (s.fib f).cont ≠ .cwu) : (s.fib f).swallowedVal ≠ .canceled := by
  rw [clean other]
  exact Val.ok_ne_canceled

/-- What a step of somebody else makes of the values kept for a fiber. -/
theorem Passive.keeps (passive : Passive cfg s t g) :
    ((t.fib g).swallowedVal = (s.fib g).swallowedVal ∨ (t.fib g).swallowedVal = .ok) ∧
      ((t.fib g).pendingVal = (s.fib g).pendingVal ∨ (t.fib g).pendingVal = .ok ∨ (s.fib g).state = .cancelled) := by
  cases passive with
  | same fib =>
    rw [fib]
    exact ⟨.inl rfl, .inl rfl⟩
  | woken _ _ _ nudged fib =>
    rw [fib]
    cases nudged with
    | same | woken | kept => exact ⟨.inl rfl, .inl rfl⟩
  | marked _ fib =>
    obtain ⟨_, _, fib⟩ := fib
    rw [fib]
    exact ⟨.inl rfl, .inl rfl⟩
  | ended _ _ _ fib =>
    obtain ⟨_, _, _, _, fib⟩ := fib
    rw [fib]
    exact ⟨.inl rfl, .inl rfl⟩
  | born _ _ fib =>
    obtain ⟨_, _, _, _, _, _, fib⟩ := fib
    rw [fib]
    exact ⟨.inr rfl, .inr (.inl rfl)⟩
  | entered enters =>
    obtain ⟨_, _, _, _, fib⟩ := enters.fib
    rw [fib]
    refine ⟨.inl rfl, ?_⟩
    by_cases cancelled : (s.fib g).state = .cancelled
    · exact .inr (.inr cancelled)
    · exact .inl (if_neg fun keep => cancelled keep.1)

theorem Passive.clean (passive : Passive cfg s t g) (clean : Clean s g) : Clean t g := by
  intro other
  obtain same | ok := passive.keeps.1
  · obtain stays | ⟨_, _, _, _, _, _, _, _, fib⟩ := passive.stays
    · exact same.trans (clean (stays.cont ▸ other))
    · rw [fib]
      rfl
  · exact ok

/-- A cancellation that a fiber has after a step of somebody else is from that step, or the
fiber had it before. -/
theorem Passive.bears (passive : Passive cfg s t g) (away : s.phase ≠ some g) (bears : Bears t g) :
    (s.fib g).state ≠ .cancelled ∧ (t.fib g).state = .cancelled ∨ Bears s g := by
  obtain ⟨swallowed, pending⟩ := passive.keeps
  by_cases before : (s.fib g).state = .cancelled
  · exact .inr (.fresh before fun active => absurd active away)
  · cases bears with
    | fresh state => exact .inl ⟨before, state⟩
    | inside cwu value =>
      obtain stays | ⟨_, _, _, _, _, _, _, _, fib⟩ := passive.stays
      · obtain same | ok := swallowed
        · exact .inr (.inside (stays.cont ▸ cwu) (same ▸ value))
        · cases ok.symm.trans value
      · rw [fib] at cwu
        cases cwu
    | stashed value =>
      obtain same | ok | cancelled := pending
      · exact .inr (.stashed (same ▸ value))
      · cases ok.symm.trans value
      · exact absurd cancelled before

/-- Every fiber runs for a reason, and nothing is kept for it without one. -/
structure Sober (cfg : Config F E W) (s : State F E W) : Prop where
  reasoned : Reasoned cfg s
  prompt : Prompt s
  clean : ∀ f, Clean s f

variable {v : Val} {o : Origin F}

theorem Sober.paused (sober : Sober cfg s) (running : s.phase = some f) (op : (s.fib f).cont = .op)
    (kind : (s.fib f).opkind ≠ .ext ∧ (s.fib f).opkind ≠ .awaitf) (value : (s.fib f).wakeVal = .canceled) :
    (s.fib f).state = .cancelled := by
  obtain ⟨_, state, _⟩ | ⟨_, ok, _⟩ | ⟨_, _, _, _, _, late⟩ := sober.reasoned.paused running op kind
  · exact state
  · cases ok.symm.trans value
  · cases late.symm.trans value

/-- An awaited operation returns a cancellation because the fiber was cancelled, or because
the fiber that it awaits was. -/
theorem Sober.ends (sober : Sober cfg s) (running : s.phase = some f) (op : (s.fib f).cont = .op)
    (kind : (s.fib f).opkind = .ext ∨ (s.fib f).opkind = .awaitf) (ends : Ends s f v o) (value : v = .canceled) :
    Told s f o := by
  have woken := (sober.reasoned.known f).woken op running
  cases ends with
  | cancelled cancel =>
    obtain ⟨_, state, _⟩ | ⟨none, _⟩ | ⟨src, _⟩ := woken
    · exact .cancelled op state
    · cases none.symm.trans cancel
    · cases src.symm.trans cancel
  | done own resolved =>
    obtain ⟨x, _, ext, opfut, _⟩ | ⟨_, g, _, await, _, goal, _⟩ := (sober.reasoned.sane.plan f).doing.awaits op kind
    · rw [Fib.own, if_pos ext, opfut] at own
      cases own
      exact absurd value (sober.prompt x).2
    · have other : (s.fib f).opkind ≠ .ext := by
        rw [await]
        decide
      have origin : (s.fib f).origin = .result g := by rw [Fib.origin, await, goal]
      rw [Fib.own, if_neg other, goal] at own
      cases own
      rw [origin]
      exact .result resolved value
  | expired late other =>
    obtain ⟨cancel, _⟩ | ⟨none, _⟩ | called := woken
    · exact absurd cancel other
    · rw [State.ByDeadline, none] at late
      exact late.elim
    · obtain ⟨_, _, _, _, expired⟩ := called.expired sober.reasoned.timed late
      cases expired.symm.trans value

theorem Told.bears (told : Told s f .own) : Bears s f := by
  cases told with
  | stashed _ pending => exact .stashed pending
  | cancelled op state =>
    refine .fresh state fun _ none => ?_
    cases none.symm.trans op

end Kept

section Steps

variable {F E W : Type} [DecidableEq F] [DecidableEq E] [DecidableEq W] {cfg : Config F E W} {s t : State F E W} {f g : F}
  {e : Event F}

instance (s : State F E W) (f : F) : Decidable (Mistakes s f) :=
  decidable_of_iff
    (s.phase = some f ∧ (s.fib f).cont = .cwu ∧ (s.fib f).wakeVal = .canceled ∧ (s.fib f).state ≠ .cancelled ∧
      (s.fib f).swallowedVal ≠ .canceled ∧ (s.fib f).pendingVal ≠ .canceled)
    ⟨fun all => ⟨all.1, all.2.1, all.2.2.1, all.2.2.2.1, all.2.2.2.2.1, all.2.2.2.2.2⟩,
      fun wrong => ⟨wrong.running, wrong.cwu, wrong.woken, wrong.other, wrong.swallowed, wrong.pending⟩⟩

instance (s : State F E W) (f : F) : Decidable (Doubles s f) :=
  decidable_of_iff
    (s.phase = some f ∧ (s.fib f).cont = .op ∧ (s.fib f).state = .cancelled ∧ (s.fib f).pendingVal = .canceled)
    ⟨fun all => ⟨all.1, all.2.1, all.2.2.1, all.2.2.2⟩, fun twice => ⟨twice.running, twice.op, twice.cancelled, twice.pending⟩⟩

theorem Prompt.acts (prompt : Prompt s) (step : Acts cfg s f e t) (fixed : cfg.Fixed) (formed : cfg.WellFormed)
    (core : Core cfg s) (plan : Plan s f) : Prompt t := by
  intro x
  obtain same | gone | made | event := step.timer fixed formed core plan x
  · rw [same]
    exact prompt x
  · rw [gone]
    exact ⟨Val.ok_ne_canceled, Val.ok_ne_canceled⟩
  · rw [made]
    refine ⟨?_, Val.ok_ne_canceled⟩
    intro late
    cases late
  · rw [event]
    exact ⟨Val.ok_ne_canceled, Val.ok_ne_canceled⟩

theorem Prompt.turns (prompt : Prompt s) (step : Turns cfg s t) (fixed : cfg.Fixed) (formed : cfg.WellFormed)
    (core : Core cfg s) : Prompt t := by
  intro x
  have ticks := step.ticks fixed formed core x
  rw [ticks.fireResult]
  refine ⟨(prompt x).1, ?_⟩
  obtain ⟨_, same⟩ | ⟨_, expired⟩ := ticks.value
  · rw [same]
    exact (prompt x).2
  · rw [expired]
    exact (prompt x).1

theorem Acts.clean (step : Acts cfg s f e t) (fixed : cfg.Fixed) (formed : cfg.WellFormed) (core : Core cfg s)
    (plan : Plan s f) (clean : Clean s f) : Clean t f := by
  intro other
  have empty {c : Cont} (before : (s.fib f).cont = c) (apart : c ≠ .cwu) : (s.fib f).swallowedVal = .ok := by
    refine clean ?_
    rw [before]
    exact apart
  cases step.retains fixed formed core plan with
  | performs before _ _ _ still | code before _ _ _ _ still => exact still.trans (empty before (by decide))
  | inside before _ still => exact still.trans (empty before (by decide))
  | waits _ _ after => exact absurd after other
  | ends _ _ _ _ _ _ clean => exact clean

theorem Sober.next (sober : Sober cfg s) (fixed : cfg.Fixed) (formed : cfg.WellFormed) (step : Next cfg s e t) :
    Sober cfg t := by
  have sane := sober.reasoned.sane
  have after := sober.reasoned.next fixed formed step
  obtain ⟨f, step⟩ | ⟨_, step⟩ := step.cases fixed
  · have own := sane.plan f
    refine ⟨after, sober.prompt.acts step fixed formed sane.core own, fun g => ?_⟩
    obtain rfl | differs := eq_or_ne g f
    · exact step.clean fixed formed sane.core own (sober.clean g)
    · exact (step.frame fixed formed sane.core own.doing own.orphan differs).fib.clean (sober.clean g)
  · refine ⟨after, sober.prompt.turns step fixed formed sane.core, fun g => ?_⟩
    exact (step.frame fixed formed sane.core sane.ready g).fib.clean (sober.clean g)

omit [DecidableEq E] [DecidableEq W] in
theorem Sober.init (cfg : Config F E W) : Sober cfg (init cfg) := by
  refine ⟨.init cfg, fun x => ⟨Val.ok_ne_canceled, Val.ok_ne_canceled⟩, fun f _ => ?_⟩
  obtain ⟨_, fib, _⟩ | ⟨_, fib, _⟩ := init_cases cfg f
  all_goals
    rw [fib]
    rfl

theorem sober_invariant (fixed : cfg.Fixed) (formed : cfg.WellFormed) : (spec cfg).Invariant (Sober cfg) := by
  refine .of_step (fun s start => ?_) fun s t sober step => ?_
  · rw [show s = Fiber.init cfg from start]
    exact .init cfg
  · obtain ⟨e, step⟩ := step
    exact sober.next fixed formed step

/-! ### What an operation tells a fiber -/

theorem Sober.tells {o : Origin F} (sober : Sober cfg s) (step : Acts cfg s f e t) (returns : e.Returns g .canceled o) :
    g = f ∧ Told s f o := by
  cases step with
  | delivered can =>
    obtain same | ⟨_, same⟩ := returns
    · cases same
    · obtain ⟨rfl, _, value, rfl⟩ := Event.answers.inj same
      exact ⟨rfl, .stashed can.2.2 value⟩
  | refused can exiting =>
    obtain same | ⟨_, same⟩ := returns
    · cases same
    · obtain ⟨rfl, _, _, rfl⟩ := Event.answers.inj same
      exact ⟨rfl, .refused exiting⟩
  | awaitedDone can _ resolved =>
    obtain same | ⟨_, same⟩ := returns
    · cases same
    · obtain ⟨rfl, _, value, rfl⟩ := Event.answers.inj same
      exact ⟨rfl, .result resolved value⟩
  | resumed running op kind =>
    obtain same | ⟨_, same⟩ := returns
    · obtain ⟨rfl, value, rfl⟩ := Event.returns.inj same
      exact ⟨rfl, .cancelled op (sober.paused running op kind value)⟩
    · cases same
  | awaited running op kind ends =>
    obtain same | ⟨_, same⟩ := returns
    · obtain ⟨rfl, value, rfl⟩ := Event.returns.inj same
      exact ⟨rfl, sober.ends running op kind ends value⟩
    · cases same
  | yields | bares | waitsExt | waitsFiber | spawns | cancels | exits | noTimeout | timeout | leavesBlock | rets | absorbed
    | cwuWaits | cwuEnds | completes | blockLeft | frees | freesDone | freesFresh | cwuFast | cwuBegins =>
    obtain same | ⟨_, same⟩ := returns <;> cases same

/-- What a cleanup swallows is a cancellation the fiber had, or a mistake. -/
theorem Bears.swallowed (clear : ¬ Mistakes s f) (running : s.phase = some f) (cwu : (s.fib f).cont = .cwu)
    (value : swallowed s f = .canceled) : Bears s f := by
  by_cases inside : (s.fib f).swallowedVal = .canceled
  · exact .inside cwu inside
  · by_cases pending : (s.fib f).pendingVal = .canceled
    · exact .stashed pending
    · rw [Fiber.swallowed] at value
      split_ifs at value with woken late
      · have woken := woken.resolve_right inside
        by_cases state : (s.fib f).state = .cancelled
        · refine .fresh state fun _ none => ?_
          cases none.symm.trans cwu
        · exact absurd ⟨running, cwu, woken, state, inside, pending⟩ clear
      · exact absurd value inside

/-- A fiber that acts gives itself no cancellation. -/
theorem Acts.bears (step : Acts cfg s f e t) (fixed : cfg.Fixed) (formed : cfg.WellFormed) (sober : Sober cfg s)
    (mistake : ¬ Mistakes s f) (double : ¬ Doubles s f) (bears : Bears t f) : Bears s f ∧ ¬ e.Delivers f := by
  have running := step.running
  have core := sober.reasoned.sane.core
  have plan := sober.reasoned.sane.plan f
  have silent : ¬ (Event.quiet : Event F).Delivers f := by
    intro delivers
    obtain same | ⟨_, same⟩ := delivers <;> cases same
  have clean {c : Cont} (before : (s.fib f).cont = c) (apart : c ≠ .cwu) (still : (t.fib f).swallowedVal = (s.fib f).swallowedVal)
      (value : (t.fib f).swallowedVal = .canceled) : False := by
    refine (sober.clean f).not_canceled ?_ (still.symm.trans value)
    rw [before]
    exact apart
  cases bears with
  | fresh state unseen =>
    cases (step.actor fixed formed core plan).goes with
    | onward active _ _ none => exact absurd none (unseen active)
    | sleeps _ other | cleans _ other | lingers _ other | queued _ other => cases other.symm.trans state
    | done _ gone => obtain other | other := gone <;> cases other.symm.trans state
  | inside cwu value =>
    cases step.retains fixed formed core plan with
    | performs before _ _ _ still | code before _ _ _ _ still => exact (clean before (by decide) still value).elim
    | inside before _ still => exact (clean before (by decide) still value).elim
    | waits before quiet _ same =>
      rw [quiet]
      exact ⟨.swallowed mistake running before (same.symm.trans value), silent⟩
    | ends _ _ _ _ _ _ empty => cases empty.symm.trans value
  | stashed value =>
    cases step.retains fixed formed core plan with
    | performs _ _ _ pending =>
      obtain ⟨ok, _⟩ | ⟨same, quiet⟩ := pending
      · cases ok.symm.trans value
      · exact ⟨.stashed (same.symm.trans value), quiet⟩
    | code _ _ _ quiet same => exact ⟨.stashed (same.symm.trans value), quiet⟩
    | inside before same =>
      have pending := same.symm.trans value
      refine ⟨.stashed pending, fun delivers => ?_⟩
      obtain ⟨_, told⟩ := sober.tells step delivers
      cases told with
      | stashed none => cases none.symm.trans before
      | cancelled op state => exact double ⟨running, op, state, pending⟩
    | waits _ quiet _ _ same =>
      rw [quiet]
      exact ⟨.stashed (same.symm.trans value), silent⟩
    | ends before quiet _ _ _ pending =>
      rw [quiet]
      refine ⟨?_, silent⟩
      rw [pending] at value
      split_ifs at value
      · exact .swallowed mistake running before value
      · exact .stashed value

/-- A cancellation that a fiber has after a step is from that step, or the fiber had it
before and was not told of it. -/
theorem Next.bears (step : Next cfg s e t) (fixed : cfg.Fixed) (formed : cfg.WellFormed) (sober : Sober cfg s)
    (mistake : ¬ Mistakes s f) (double : ¬ Doubles s f) (bears : Bears t f) :
    (s.fib f).state ≠ .cancelled ∧ (t.fib f).state = .cancelled ∨ Bears s f ∧ ¬ e.Delivers f := by
  have sane := sober.reasoned.sane
  obtain ⟨g, step⟩ | ⟨quiet, step⟩ := step.cases fixed
  · obtain rfl | differs := eq_or_ne f g
    · exact .inr (step.bears fixed formed sober mistake double bears)
    · have own := sane.plan g
      have frame := step.frame fixed formed sane.core own.doing own.orphan differs
      have away : s.phase ≠ some f := fun active => differs (Option.some.inj (active.symm.trans step.running))
      exact (frame.fib.bears away bears).imp_right fun before => ⟨before, fun delivers => differs (sober.tells step delivers).1⟩
  · have silent : ¬ e.Delivers f := by
      rw [quiet]
      intro delivers
      obtain same | ⟨_, same⟩ := delivers <;> cases same
    obtain idle | ⟨fib, phase, _⟩ := step.still
    · have away : s.phase ≠ some f := by
        rw [idle]
        exact (Option.some_ne_none f).symm
      exact ((step.frame fixed formed sane.core sane.ready f).fib.bears away bears).imp_right fun before => ⟨before, silent⟩
    · refine .inr ⟨?_, silent⟩
      cases bears with
      | fresh state unseen => exact .fresh (fib ▸ state) (fib ▸ phase ▸ unseen)
      | inside cwu value => exact .inside (fib ▸ cwu) (fib ▸ value)
      | stashed value => exact .stashed (fib ▸ value)

end Steps

/-! ### Along a run -/

section Runs

variable {F E W : Type} [DecidableEq F] [DecidableEq E] [DecidableEq W] {cfg : Config F E W} {length : ℕ}
  {states : ℕ → State F E W} {events : ℕ → Event F}

/-- Somebody cancelled `f` before step `j`, and `f` was not told of a cancellation since. -/
def Owed (states : ℕ → State F E W) (events : ℕ → Event F) (j : ℕ) (f : F) : Prop :=
  ∃ i < j, ((states i).fib f).state ≠ .cancelled ∧ ((states (i + 1)).fib f).state = .cancelled ∧
    ∀ k, i < k → k < j → ¬ (events k).Delivers f

/-- An operation returns a cancellation because the fiber was cancelled and was not told
since, because the loop is exiting and refuses it, or as the result of an awaited fiber. A
cancellation that is kept for the next wait is one of the fiber. -/
structure Backed (length : ℕ) (states : ℕ → State F E W) (events : ℕ → Event F) : Prop where
  told : ∀ j < length, ∀ f, (events j).Returns f .canceled .own → Owed states events j f
  refused : ∀ j < length, ∀ f, (events j).Returns f .canceled .refused → (states j).exiting = true
  awaited : ∀ j < length, ∀ f g, (events j).Returns f .canceled (.result g) →
    ((states j).fut (.fiber g)).state = .resolved ∧ ((states j).fut (.fiber g)).result = .canceled
  kept : ∀ j ≤ length, ∀ f, ((states j).fib f).pendingVal = .canceled → Owed states events j f

/-- Nobody is cancelled without a cancel, in every run in which no cancellation is made up. -/
theorem cancels_backed (fixed : cfg.Fixed) (formed : cfg.WellFormed) (trace : Trace cfg length states events)
    (clear : ∀ i < length, ∀ f, ¬ Mistakes (states i) f ∧ ¬ Doubles (states i) f) : Backed length states events := by
  have sober (j : ℕ) (inside : j ≤ length) : Sober cfg (states j) :=
    sober_invariant fixed formed _ (trace.run.reachable j inside)
  have owed (j : ℕ) (f : F) : j ≤ length → Bears (states j) f → Owed states events j f := by
    induction j with
    | zero =>
      intro _ bears
      rw [trace.start] at bears
      obtain ⟨_, fib, _⟩ | ⟨_, fib, _⟩ := init_cases cfg f
      all_goals
        cases bears with
        | fresh state | inside state | stashed state =>
          rw [fib] at state
          cases state
    | succ j ih =>
      intro inside bears
      have step := trace.next j (by omega)
      have clear := clear j (by omega) f
      obtain marked | ⟨before, silent⟩ := step.bears fixed formed (sober j (by omega)) clear.1 clear.2 bears
      · exact ⟨j, Nat.lt_succ_self j, marked.1, marked.2, fun k later earlier => by omega⟩
      · obtain ⟨i, earlier, before, after, since⟩ := ih (by omega) before
        refine ⟨i, by omega, before, after, fun k later inside => ?_⟩
        obtain rfl | within := Nat.eq_or_lt_of_le (Nat.le_of_lt_succ inside)
        · exact silent
        · exact since k later within
  have tells (j : ℕ) (inside : j < length) (f : F) (o : Origin F) (returns : (events j).Returns f .canceled o) :
      Told (states j) f o := by
    obtain ⟨g, step⟩ | ⟨quiet, _⟩ := (trace.next j inside).cases fixed
    · obtain ⟨rfl, told⟩ := (sober j (by omega)).tells step returns
      exact told
    · rw [quiet] at returns
      obtain same | ⟨_, same⟩ := returns <;> cases same
  refine ⟨fun j inside f returns => owed j f (by omega) (tells j inside f .own returns).bears, fun j inside f returns => ?_,
    fun j inside f g returns => ?_, fun j inside f pending => owed j f inside (.stashed pending)⟩
  · cases tells j inside f .refused returns with
    | refused exiting => exact exiting
  · cases tells j inside f (.result g) returns with
    | result resolved value => exact ⟨resolved, value⟩

end Runs

/-! ### A run that makes one up -/

section Trio

/-- The fiber cancels a child at the end of a block and waits for it. Nobody cancels the
fiber, and it yields. -/
def mistaken : List (Move (Fin 3) (Fin 2) (Fin 1)) :=
  [.dispatch (some (.fiber 0)), .timeoutBegin 0, .spawn 0 false false, .yield 0 false, .dispatch (some (.fiber 1)),
    .bare 1 false, .dispatch (some (.fiber 0)), .continueOp 0 false, .timeoutEnd 0, .unwind 0,
    .dispatch (some (.fiber 1)), .continueOp 1 false, .unwind 1, .dispatch (some (.fiber 0)), .continueCwu 0, .unwind 0,
    .unwind 0, .yield 0 false]

theorem mistaken_cancels : ∃ steps, replay trio (init trio) mistaken = some steps ∧
    Trace trio 18 (stateAt (init trio) steps) (eventAt steps) ∧ ¬ Backed 18 (stateAt (init trio) steps) (eventAt steps) := by
  have run : ((replay trio (init trio) mistaken).map fun steps => decide (steps.length = 18 ∧
      eventAt steps 17 = .answers 0 .yield .canceled .own ∧
      ∀ i < 18, ((stateAt (init trio) steps i).fib 0).state ≠ .cancelled)) = some true := by decide +kernel
  obtain ⟨steps, replayed, known⟩ := Option.map_eq_some_iff.mp run
  obtain ⟨length, last, never⟩ := of_decide_eq_true known
  refine ⟨steps, replayed, ⟨rfl, fun i inside => replay_next replayed i (by omega)⟩, fun backed => ?_⟩
  obtain ⟨i, earlier, _, cancelled, _⟩ := backed.told 17 (by decide) 0 (.inr ⟨_, last⟩)
  exact never (i + 1) (by omega) cancelled

theorem noExpiry_backed : ∃ steps, replay trio (init trio) noExpiry = some steps ∧
    eventAt steps 18 = .answers 0 .yield .canceled .own ∧ Owed (stateAt (init trio) steps) (eventAt steps) 18 0 := by
  have run : ((replay trio (init trio) noExpiry).map fun steps => decide (steps.length = 19 ∧
      eventAt steps 18 = .answers 0 .yield .canceled .own ∧
      ∀ i < 19, ∀ f, ¬ Mistakes (stateAt (init trio) steps i) f ∧ ¬ Doubles (stateAt (init trio) steps i) f)) = some true := by
    decide +kernel
  obtain ⟨steps, replayed, known⟩ := Option.map_eq_some_iff.mp run
  obtain ⟨length, last, clear⟩ := of_decide_eq_true known
  have formed : trio.WellFormed := ⟨by decide, by decide, fun ws w => by simp [trio, Subsingleton.elim w 0]⟩
  have trace : Trace trio 19 (stateAt (init trio) steps) (eventAt steps) :=
    ⟨rfl, fun i inside => replay_next replayed i (by omega)⟩
  have backed := cancels_backed ⟨rfl, rfl, rfl, rfl, rfl, rfl, rfl⟩ formed trace clear
  exact ⟨steps, replayed, last, backed.told 18 (by decide) 0 (.inr ⟨_, last⟩)⟩

end Trio

end LinuxTla.Fiber
