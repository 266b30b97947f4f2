import LinuxTla.Fiber.Redelivery

/-! A deadline that expires while its fiber is queued with an error leaves it to that error
to end the wait. -/

namespace LinuxTla.Fiber

open Lib

/-! ### Deadlines that woke nobody -/

section Guards

variable {F E W : Type} {cfg : Config F E W} {s t r : State F E W} {f g : F} {e : Event F} {x : E} {v : Val}

/-- The deadline of `f` expired without its result reaching the fiber. -/
structure Dropped (s : State F E W) (f : F) (x : E) : Prop where
  deadline : (s.fut (.ext x)).kind = .deadline
  dropped : (s.fut (.ext x)).dropped = true
  owner : (s.fut (.ext x)).cb = some f

/-- The fiber is unwinding past the future. -/
def Fib.Leaves (b : Fib F E W) (x : Id F E W) : Prop :=
  b.mode = .unwind ∧ x ∉ b.cstack.drop (b.cstack.length - b.unwindTo)

/-- Another error will end what the fiber is doing in the place of the deadline. -/
inductive Guarded (s : State F E W) (f : F) (x : Id F E W) : Prop
  | leaves (leaves : (s.fib f).Leaves x)
  | queued (away : s.phase ≠ some f) (busy : (s.fib f).cont ≠ .none)
      (value : (s.fib f).state = .ready ∧ (s.fib f).result ≠ .ok ∨ (s.fib f).state = .cancelled)
  | woken (running : s.phase = some f) (busy : (s.fib f).cont ≠ .none) (value : (s.fib f).wakeVal ≠ .ok)
  | swallowed (cwu : (s.fib f).cont = .cwu) (value : (s.fib f).swallowedVal ≠ .ok)
  | stashed (pending : (s.fib f).pendingVal ≠ .ok)

/-- Every deadline that woke nobody is in good hands. -/
def Guards (s : State F E W) : Prop := ∀ f x, Dropped s f x → Guarded s f (.ext x)

/-- A wait ends as if nothing had happened, or it goes on, while a deadline of the fiber has
been dropped. -/
structure Ignores (s : State F E W) (f : F) : Prop where
  running : s.phase = some f
  op : (s.fib f).cont = .op
  kind : (s.fib f).opkind = .ext ∨ (s.fib f).opkind = .awaitf
  other : (s.fib f).wakeSrc ≠ .cancel
  fine : (∃ y, (s.fib f).own = some y ∧ (s.fut y).state = .resolved ∧ (s.fut y).result = .ok) ∨
    (∀ y, (s.fib f).own = some y → (s.fut y).state = .pending) ∧ ¬ s.ByDeadline f
  late : ∃ x, Dropped s f x

/-- A cleanup wait keeps no error, while a deadline outside of the block has been dropped. -/
structure Forgets [DecidableEq F] [DecidableEq E] [DecidableEq W] (s : State F E W) (f : F) : Prop where
  running : s.phase = some f
  cwu : (s.fib f).cont = .cwu
  fine : swallowed s f = .ok
  none : (s.fib f).pendingVal = .ok
  late : ∃ x, Dropped s f x ∧ ¬ (s.fib f).Leaves (.ext x)

/-- A fiber that returns an error leaves everything. -/
theorem Fib.Leaves.all {b : Fib F E W} (mode : b.mode = .unwind) (bottom : b.unwindTo = 0) (x : Id F E W) : b.Leaves x := by
  refine ⟨mode, ?_⟩
  rw [bottom, Nat.sub_zero, List.drop_length]
  exact List.not_mem_nil

theorem Fib.Leaves.pop {b c : Fib F E W} {x y : Id F E W} (leaves : b.Leaves x) (mode : c.mode = b.mode)
    (bottom : c.unwindTo = b.unwindTo) (top : b.cstack = y :: c.cstack) : c.Leaves x := by
  obtain ⟨unwinds, beyond⟩ := leaves
  refine ⟨mode.trans unwinds, fun inside => beyond ?_⟩
  rw [top, List.length_cons]
  rw [bottom] at inside
  by_cases deep : b.unwindTo ≤ c.cstack.length
  · rw [Nat.sub_add_comm deep, List.drop_succ_cons]
    exact inside
  · rw [Nat.sub_eq_zero_of_le (by omega), List.drop_zero]
    exact List.mem_cons_of_mem y (List.mem_of_mem_drop inside)

theorem Fib.Leaves.same {b c : Fib F E W} {x : Id F E W} (leaves : b.Leaves x) (mode : c.mode = b.mode)
    (bottom : c.unwindTo = b.unwindTo) (stack : c.cstack = b.cstack) : c.Leaves x := by
  rw [Fib.Leaves, mode, bottom, stack]
  exact leaves

theorem Fib.mem_owned {b : Fib F E W} (owned : .ext x ∈ b.owned) : .ext x ∈ b.cstack := by
  obtain inside | inside := List.mem_append.mp owned
  · cases wait : b.cwuWait with
    | none =>
      rw [wait] at inside
      cases inside
    | some w =>
      rw [wait] at inside
      cases List.mem_singleton.mp inside
  · exact inside

theorem Passive.queued (passive : Passive cfg s t g) (elsewhere : t.phase ≠ some g) (ready : (s.fib g).state = .ready)
    (error : (s.fib g).result ≠ .ok) :
    (t.fib g).state = .ready ∧ (t.fib g).result ≠ .ok ∨ (t.fib g).state = .cancelled := by
  cases passive with
  | same fib =>
    rw [fib]
    exact .inl ⟨ready, error⟩
  | woken _ _ _ nudged fib =>
    rw [fib]
    cases nudged with
    | same => exact .inl ⟨ready, error⟩
    | woken _ waits => cases waits.symm.trans ready
    | kept _ _ none => exact absurd none error
  | marked _ fib =>
    obtain ⟨_, _, fib⟩ := fib
    rw [fib]
    exact .inr rfl
  | ended before =>
    obtain before | before := before <;> cases before.symm.trans ready
  | born unborn => cases unborn.symm.trans ready
  | entered enters => exact absurd enters.active elsewhere

/-- Somebody else acts: the error that a fiber has stays with it. -/
theorem Passive.guarded (passive : Passive cfg s t g) (stepped : Stepped cfg s t g) (there : (s.fib g).state ≠ .none)
    (away : s.phase ≠ some g) {x : Id F E W} (guarded : Guarded s g x) : Guarded t g x := by
  have stays := passive.stays.resolve_right fun born => there born.1
  by_cases active : t.phase = some g
  · have enters := (stepped active).resolve_left fun running => away running.1
    obtain ⟨_, _, _, _, fib⟩ := enters.fib
    cases guarded with
    | leaves leaves => exact .leaves (leaves.same stays.mode stays.unwindTo stays.cstack)
    | woken running => exact absurd running away
    | queued _ busy value =>
      refine .woken active (stays.cont ▸ busy) ?_
      rw [fib]
      change (if (s.fib g).state = .cancelled then Val.canceled else (s.fib g).result) ≠ .ok
      obtain ⟨ready, error⟩ | cancelled := value
      · rw [if_neg (by rw [ready]; decide)]
        exact error
      · rw [if_pos cancelled]
        exact Val.ok_ne_canceled.symm
    | swallowed cwu value =>
      refine .swallowed (stays.cont.trans cwu) ?_
      rw [fib]
      exact value
    | stashed pending =>
      refine .stashed ?_
      rw [fib]
      exact fun ok => pending ((if_neg fun keep => pending keep.2.2.2).symm.trans ok)
  · obtain ⟨_, cancelled, swallowed, pending⟩ := passive.values there active
    cases guarded with
    | leaves leaves => exact .leaves (leaves.same stays.mode stays.unwindTo stays.cstack)
    | woken running => exact absurd running away
    | queued _ busy value =>
      refine .queued active (stays.cont ▸ busy) ?_
      obtain ⟨ready, error⟩ | before := value
      · exact passive.queued active ready error
      · exact .inr (cancelled before)
    | swallowed cwu value => exact .swallowed (stays.cont.trans cwu) (swallowed ▸ value)
    | stashed value => exact .stashed (pending ▸ value)

end Guards

section Acts

variable {F E W : Type} [DecidableEq F] [DecidableEq E] [DecidableEq W] {cfg : Config F E W} {s t r : State F E W} {f g : F}
  {e : Event F} {v : Val}

/-- The fiber returns an error. -/
def Fails (t : State F E W) (f : F) : Prop := (t.fib f).mode = .unwind ∧ (t.fib f).unwindTo = 0

omit [DecidableEq E] [DecidableEq W] in
theorem Decided.fails (decided : Decided cfg r f v t) (strict : cfg.allowIgnoreErrors = false) (error : v ≠ .ok) : Fails t f := by
  cases decided with
  | carry fine =>
    obtain ok | ignores := fine
    · exact absurd ok error
    · cases ignores.symm.trans strict
  | fail =>
    rw [Fails, unwindTo, clearOp, State.setFib_setFib, State.setFib_self]
    exact ⟨rfl, rfl⟩

/-- An unwinding goes on to the next cleanup, or it is at its end. -/
inductive Rolls (s t : State F E W) (f : F) : Prop
  | done (gone : (t.fib f).state.Over)
  | left (mode : (t.fib f).mode = .normal) (bottom : (s.fib f).cstack.length = (s.fib f).unwindTo)
      (stack : (t.fib f).cstack = (s.fib f).cstack)
  | same (mode : (t.fib f).mode = (s.fib f).mode) (bottom : (t.fib f).unwindTo = (s.fib f).unwindTo)
      (stack : (t.fib f).cstack = (s.fib f).cstack)
  | pops {y} (mode : (t.fib f).mode = (s.fib f).mode) (bottom : (t.fib f).unwindTo = (s.fib f).unwindTo)
      (top : (s.fib f).cstack = y :: (t.fib f).cstack)

omit [DecidableEq E] [DecidableEq W] in
theorem popTop_rolls {y : Id F E W} {rest : List (Id F E W)} (top : (s.fib f).cstack = y :: rest) (same : r.fib f = s.fib f) :
    Rolls s (popTop r f) f := by
  refine .pops (y := y) ?_ ?_ ?_ <;> rw [popTop, State.setFib_self, same]
  rw [top]
  rfl

theorem Acts.rolls (step : Acts cfg s f e t) (fixed : cfg.Fixed) (formed : cfg.WellFormed) (core : Core cfg s)
    (plan : Plan s f) (unwinds : (s.fib f).mode = .unwind) : Rolls s t f := by
  have running := step.running
  have normal {P : Prop} (other : (s.fib f).mode = .normal) : P := by
    cases other.symm.trans unwinds
  have other {k : F} (owned : .fiber k ∈ (s.fib f).owned) : f ≠ k := by
    rintro rfl
    exact plan.orphan (core.child owned).2
  have top {k : F} {rest : List (Id F E W)} (none : (s.fib f).cont = .none) (top : (s.fib f).cstack = .fiber k :: rest) :
      .fiber k ∈ (s.fib f).owned := (plan.doing.calm none).owned ▸ top ▸ List.mem_cons_self
  have away {r : State F E W} {b : Fib F E W} (here : r.fib f = b) :
      (switchOut cfg r f .suspended).fib f = { b with state := .suspended, wakeSrc := .none } := by
    rw [switchOut_suspended]
    dsimp only
    rw [State.setFib_self, here]
  cases step with
  | delivered can | refused can | awaitedDone can | yields can | bares can | waitsExt can | waitsFiber can | spawns can
    | cancels can | exits can | noTimeout can | timeout can | leavesBlock can | rets _ can => exact normal can.2.1
  | resumed _ op | awaited _ op | absorbed _ op => exact normal (plan.plain op)
  | cwuWaits =>
    refine .same ?_ ?_ ?_ <;> rw [swallow, away (State.setFib_self ..)]
  | @cwuEnds k _ cwu target resolved =>
    obtain ⟨w, rest, r, u, mode, _, stack, calm, _, rfl, released, step⟩ :=
      endCwu_cases core fixed formed running plan.doing cwu target resolved
    have apart : f ≠ k := by
      rintro rfl
      exact absurd resolved (Fut.pending_iff.mp ((core.alive f (core.running_alive running).1).state.mpr
        (core.running_alive running).2.1))
    have before : u.fib f = s.fib f := by
      obtain rfl | rfl := released
      · rfl
      · rw [freedFiber, State.setFib_of_ne apart]
        rfl
    refine .pops (y := .fiber k) ?_ ?_ ?_ <;> rw [step, State.setFib_self, before]
    rw [stack]
    rfl
  | completes _ _ none =>
    obtain ⟨u, completion, done⟩ := core.completes fixed formed running
    rw [done]
    exact .done (completion.done.elim (fun zombie => .inr (.inl zombie.1)) fun freed => .inr (.inr freed.1))
  | blockLeft _ _ _ bottom =>
    refine .left ?_ bottom ?_ <;> rw [State.setFib_self]
  | @frees y rest _ _ none stack notFiber =>
    have calm := plan.doing.calm none
    cases y with
    | fiber k => exact absurd rfl (notFiber k)
    | wait w => exact absurd (stack ▸ List.mem_cons_self) (calm.2 w)
    | ext y =>
      have owned : .ext y ∈ (s.fib f).owned := calm.owned ▸ stack ▸ List.mem_cons_self
      rw [cwuSync_ext fixed formed (core.owns running owned notFiber)]
      exact popTop_rolls stack rfl
  | @freesDone k _ _ _ none stack resolved =>
    have owned := top none stack
    exact popTop_rolls stack (unref_other cfg resolved (core.child_done running plan.orphan owned resolved).2 (other owned)).1
  | @freesFresh k _ _ _ none stack pending resolved =>
    have owned := top none stack
    have apart := other owned
    have cancels := core.cancels fixed formed k
    have cancelled := core.cancel fixed formed (g := k) fun active => apart (Option.some.inj (running.symm.trans active))
    obtain ⟨same, phase⟩ := cancels.running core running apart
    have completed := (cancelled.child_done (phase.trans running) (same ▸ plan.orphan) (same ▸ owned) resolved).2
    exact popTop_rolls stack ((unref_other cfg resolved completed apart).1.trans same)
  | @cwuFast k _ _ _ _ none stack callback =>
    have bare := (core.alive k (core.alive_of_held (core.child (top none stack)).1)).cb
    rw [(core.cancels fixed formed k).cb bare] at callback
    cases callback
  | @cwuBegins k w _ _ _ none stack =>
    obtain ⟨same, _⟩ := (core.cancels fixed formed k).running core running (other (top none stack))
    refine .same ?_ ?_ ?_ <;> rw [away (State.setFib_self ..)] <;> dsimp only <;> rw [State.setFut_fib, State.setFut_fib, same]

theorem Acts.performs_fails (step : Acts cfg s f e t) (strict : cfg.allowIgnoreErrors = false) (performs : e.Performs f) :
    (s.fib f).mode = .normal ∧ ((s.fib f).pendingVal = .ok ∨ Fails t f) := by
  cases step with
  | delivered can _ stashed decided => exact ⟨can.2.1, .inr (decided.fails strict stashed)⟩
  | refused can _ decided => exact ⟨can.2.1, .inr (decided.fails strict Val.ok_ne_canceled.symm)⟩
  | yields can none | bares can none | waitsExt can none | waitsFiber can _ none => exact ⟨can.2.1, .inl none⟩
  | awaitedDone => exact performs.2.2.elim
  | spawns | cancels | exits | noTimeout | timeout | leavesBlock | rets | resumed | awaited | absorbed | cwuWaits | cwuEnds
    | completes | blockLeft | frees | freesDone | freesFresh | cwuFast | cwuBegins => exact performs.elim

theorem Acts.woken_fails (step : Acts cfg s f e t) (strict : cfg.allowIgnoreErrors = false) (op : (s.fib f).cont = .op)
    (ignores : ¬ Ignores s f) (late : ∃ x, Dropped s f x) (error : (s.fib f).wakeVal ≠ .ok) : Fails t f := by
  have idle {P : Prop} {c : Cont} (other : (s.fib f).cont = c) (apart : c ≠ .op) : P := absurd (other.symm.trans op) apart
  cases step with
  | delivered can | refused can | awaitedDone can | yields can | bares can | waitsExt can | waitsFiber can | spawns can
    | cancels can | exits can | noTimeout can | timeout can | leavesBlock can | rets _ can =>
    exact idle can.2.2 (by decide)
  | resumed _ _ _ _ decided => exact decided.fails strict error
  | awaited running _ kind ends decided =>
    cases ends with
    | cancelled => exact decided.fails strict Val.ok_ne_canceled.symm
    | expired => exact decided.fails strict error
    | @done y own resolved other =>
      exact decided.fails strict fun ok => ignores ⟨running, op, kind, other, .inl ⟨y, own, resolved, ok⟩, late⟩
  | absorbed running _ kind other pending missed => exact absurd ⟨running, op, kind, other, .inr ⟨pending, missed⟩, late⟩ ignores
  | cwuWaits _ cwu | cwuEnds _ cwu => exact idle cwu (by decide)
  | completes _ _ none | blockLeft _ _ none | frees _ _ none | freesDone _ _ none | freesFresh _ _ none | cwuFast _ _ none
    | cwuBegins _ _ none => exact idle none (by decide)

theorem Acts.guarded (step : Acts cfg s f e t) (fixed : cfg.Fixed) (formed : cfg.WellFormed)
    (strict : cfg.allowIgnoreErrors = false) (core : Core cfg s) (after : Core cfg t) (plan : Plan s f)
    (ignores : ¬ Ignores s f) (forgets : ¬ Forgets s f) {x : E} (dropped : Dropped s f x)
    (owned : .ext x ∈ (t.fib f).owned) (guarded : Guarded s f (.ext x)) : Guarded t f (.ext x) := by
  have running := step.running
  have fails (fails : Fails t f) : Guarded t f (.ext x) := .leaves (.all fails.1 fails.2 _)
  have rolls (leaves : (s.fib f).Leaves (.ext x)) : Guarded t f (.ext x) := by
    cases step.rolls fixed formed core plan leaves.1 with
    | done gone =>
      rw [after.ended f gone] at owned
      cases owned
    | left _ bottom stack =>
      refine absurd (Fib.mem_owned owned) ?_
      rw [stack]
      have beyond := leaves.2
      rw [bottom, Nat.sub_self, List.drop_zero] at beyond
      exact beyond
    | same mode bottom stack => exact .leaves (leaves.same mode bottom stack)
    | pops mode bottom top => exact .leaves (leaves.pop mode bottom top)
  have cleans (cwu : (s.fib f).cont = .cwu) : swallowed s f ≠ .ok ∨ (s.fib f).pendingVal ≠ .ok ∨ (s.fib f).Leaves (.ext x) := by
    by_contra none
    rw [not_or, not_or, not_not, not_not] at none
    exact forgets ⟨running, cwu, none.1, none.2.1, x, dropped, none.2.2⟩
  have stashes (same : (t.fib f).pendingVal = (s.fib f).pendingVal) (pending : (s.fib f).pendingVal ≠ .ok) :
      Guarded t f (.ext x) := .stashed (same ▸ pending)
  cases step.retains fixed formed core plan with
  | performs before event =>
    obtain ⟨normal, none | failed⟩ := step.performs_fails strict event
    · cases guarded with
      | leaves leaves => exact rolls leaves
      | queued away => exact absurd running away
      | woken _ busy => exact absurd before busy
      | swallowed cwu => cases before.symm.trans cwu
      | stashed pending => exact absurd none pending
    · exact fails failed
  | code before _ _ _ same =>
    cases guarded with
    | leaves leaves => exact rolls leaves
    | queued away => exact absurd running away
    | woken _ busy => exact absurd before busy
    | swallowed cwu => cases before.symm.trans cwu
    | stashed pending => exact stashes same pending
  | inside op same =>
    cases guarded with
    | leaves leaves => exact rolls leaves
    | queued away => exact absurd running away
    | woken _ _ error => exact fails (step.woken_fails strict op ignores ⟨x, dropped⟩ error)
    | swallowed cwu => cases op.symm.trans cwu
    | stashed pending => exact stashes same pending
  | waits cwu _ cleaning value same =>
    obtain error | pending | leaves := cleans cwu
    · exact .swallowed cleaning (value ▸ error)
    · exact stashes same pending
    · exact rolls leaves
  | ends cwu _ _ _ _ pending =>
    obtain error | stashed | leaves := cleans cwu
    · refine .stashed ?_
      rw [pending, if_pos error]
      exact error
    · refine .stashed ?_
      rw [pending]
      split_ifs with error
      · exact error
      · exact stashed
    · exact rolls leaves

end Acts

section Runs

variable {F E W : Type} {cfg : Config F E W} {s t : State F E W} {f g : F} {e : Event F} {x : E}

/-- A deadline was dropped before, or it expired while its fiber had an error. -/
theorem Frame.dropped (frame : Frame cfg s t g) (core : Core cfg s) (after : Core cfg t) (timed : Timed s)
    (dropped : Dropped t g x) : Dropped s g x ∨ (t.fib g).state = .ready ∧ (t.fib g).result ≠ .ok := by
  have owned := after.owned_of dropped.owner
  obtain stays | ⟨_, _, _, _, _, _, _, _, fib⟩ := frame.fib.stays
  · rw [Fib.owned, stays.cwuWait, stays.cstack] at owned
    have before : (s.fut (.ext x)).cb = some g := (core.scopes.mem g (.ext x)).mp owned
    have later := frame.fut _ before
    have deadline := later.same.kind.symm.trans dropped.deadline
    refine (later.dropped dropped.dropped).imp (fun was => ⟨deadline, was, before⟩) fun late => ⟨late.1, late.2 ?_⟩
    rw [(timed x deadline).1]
    decide
  · rw [fib] at owned
    cases owned

/-- Every deadline has expired for its fiber, or there is an error in its place. -/
structure Bounded (cfg : Config F E W) (s : State F E W) : Prop where
  reasoned : Reasoned cfg s
  orderly : Orderly cfg s
  guards : Guards s

theorem Frame.guards (frame : Frame cfg s t g) (before : Bounded cfg s) (reasoned : Reasoned cfg t) (orderly : Orderly cfg t)
    (passes : (s.fib g).state ≠ .none → ∀ x, Guarded s g x → Guarded t g x) (dropped : Dropped t g x) :
    Guarded t g (.ext x) := by
  have core := before.reasoned.sane.core
  obtain was | ⟨ready, error⟩ := frame.dropped core reasoned.sane.core before.reasoned.timed dropped
  · exact passes (core.alive_of_owned (core.owned_of was.owner)).1.1 _ (before.guards g x was)
  · have elsewhere : t.phase ≠ some g := fun active => error ((reasoned.known g).empty active)
    exact .queued elsewhere ((orderly.wakes g).busy (.inl ready) elsewhere) (.inl ⟨ready, error⟩)

theorem Guards.noVoid (guards : Guards s) (orderly : Orderly cfg s) : NoVoidDeadline cfg s := by
  rintro x _ deadline dropped g owner ⟨_, asleep, normal⟩
  have core := orderly.sane.core
  have plan := orderly.sane.plan g
  have away : s.phase ≠ some g := by
    intro running
    obtain runs | runs | runs := core.running g running <;> cases asleep.symm.trans runs
  have busy := (orderly.wakes g).busy (.inr (.inl asleep)) away
  have working : (s.fib g).cont ≠ .cwu := by
    intro cwu
    obtain ⟨_, _, _, unwinds, _⟩ := plan.doing.cleans cwu
    cases normal.symm.trans unwinds
  cases guards g x ⟨deadline, dropped, owner⟩ with
  | leaves leaves => cases normal.symm.trans leaves.1
  | queued _ _ value =>
    obtain ⟨ready, _⟩ | cancelled := value
    · cases ready.symm.trans asleep
    · cases cancelled.symm.trans asleep
  | woken running => exact away running
  | swallowed cwu => exact working cwu
  | stashed pending =>
    cases cont : (s.fib g).cont with
    | none => exact busy cont
    | cwu => exact working cont
    | op =>
      obtain none | ⟨running, _⟩ := plan.fresh cont
      · exact pending none
      · exact away running

variable [DecidableEq F] [DecidableEq E] [DecidableEq W]

/-- The deadlines that a fiber has after it acted were there before. -/
theorem Acts.dropped (step : Acts cfg s f e t) (fixed : cfg.Fixed) (formed : cfg.WellFormed) (core : Core cfg s)
    (plan : Plan s f) (dropped : Dropped t f x) : Dropped s f x := by
  obtain ⟨deadline, dropped, owner⟩ := dropped
  obtain same | gone | made | event := step.timer fixed formed core plan x
  · rw [same] at deadline dropped owner
    exact ⟨deadline, dropped, owner⟩
  · rw [gone] at deadline
    cases deadline
  · rw [made] at dropped
    cases dropped
  · rw [event] at deadline
    cases deadline

theorem Bounded.next (before : Bounded cfg s) (fixed : cfg.Fixed) (formed : cfg.WellFormed)
    (strict : cfg.allowIgnoreErrors = false) (clear : ∀ f, ¬ Ignores s f ∧ ¬ Forgets s f) (step : Next cfg s e t) :
    Bounded cfg t := by
  have sane := before.reasoned.sane
  have reasoned := before.reasoned.next fixed formed step
  obtain ⟨f, step⟩ | ⟨_, step⟩ := step.cases fixed
  · have own := sane.plan f
    have orderly := before.orderly.acts fixed formed strict step
    refine ⟨reasoned, orderly, fun g x dropped => ?_⟩
    obtain rfl | differs := eq_or_ne g f
    · have was := step.dropped fixed formed sane.core own dropped
      have owned := reasoned.sane.core.owned_of dropped.owner
      exact step.guarded fixed formed strict sane.core reasoned.sane.core own (clear g).1 (clear g).2 was owned
        (before.guards g x was)
    · have frame := step.frame fixed formed sane.core own.doing own.orphan differs
      have actor := step.actor fixed formed sane.core own
      refine frame.guards before reasoned orderly (fun there y guarded => ?_) dropped
      refine frame.fib.guarded (actor.stepped differs) there (fun active => differs ?_) guarded
      exact Option.some.inj (active.symm.trans step.running)
  · have orderly := before.orderly.turns fixed formed step
    refine ⟨reasoned, orderly, fun g x dropped => ?_⟩
    have frame := step.frame fixed formed sane.core sane.ready g
    refine frame.guards before reasoned orderly (fun there y guarded => ?_) dropped
    obtain idle | ⟨fib, phase, _⟩ := step.still
    · refine frame.fib.guarded (step.stepped fixed formed sane.core sane.ready g) there ?_ guarded
      rw [idle]
      exact (Option.some_ne_none g).symm
    · cases guarded with
      | leaves leaves => exact .leaves (fib ▸ leaves)
      | queued away busy value => exact .queued (phase ▸ away) (fib ▸ busy) (fib ▸ value)
      | woken running busy value => exact .woken (phase.trans running) (fib ▸ busy) (fib ▸ value)
      | swallowed cwu value => exact .swallowed (fib ▸ cwu) (fib ▸ value)
      | stashed pending => exact .stashed (fib ▸ pending)

omit [DecidableEq E] [DecidableEq W] in
theorem Bounded.init (formed : cfg.WellFormed) : Bounded cfg (init cfg) := by
  refine ⟨.init cfg, .init formed, fun f x dropped => ?_⟩
  cases dropped.deadline

/-- An expired deadline bounds every later wait in its scope, in every run in which no wait
ignores a deadline that was dropped and no cleanup forgets one. -/
theorem deadlines_bind (fixed : cfg.Fixed) (formed : cfg.WellFormed) (strict : cfg.allowIgnoreErrors = false)
    {length : ℕ} {states : ℕ → State F E W} (run : (spec cfg).Run length states)
    (clear : ∀ i < length, ∀ f, ¬ Ignores (states i) f ∧ ¬ Forgets (states i) f) :
    ∀ i ≤ length, NoVoidDeadline cfg (states i) := by
  have bounded (i : ℕ) : i ≤ length → Bounded cfg (states i) := by
    induction i with
    | zero =>
      intro _
      rw [show states 0 = init cfg from run.start]
      exact .init formed
    | succ i ih =>
      intro inside
      obtain ⟨e, step⟩ := run.next i inside
      exact (ih (by omega)).next fixed formed strict (clear i inside) step
  exact fun i inside => (bounded i inside).guards.noVoid (bounded i inside).orderly

end Runs

/-! ### A run that voids one -/

section Racing

/-- A fiber with two deadlines that awaits its child, while the child waits for the loop. -/
def racing : Config (Fin 2) (Fin 3) (Fin 1) where
  fiberOrder := [0, 1]
  topLevel := {0}
  floatingTop := ∅
  extOrder := [0, 1, 2]
  waitOrder := [0]
  waiterOrder ws := [0].filter (· ∈ ws)
  prio g := if g = 0 then 1 else 0
  budget := 7
  ops := {.yield, .ext, .spawn, .awaitf, .tobegin, .bare}
  mainMayExit := false
  mainMayCancel := false
  mainCancelMax := 0
  exitOnIdle := false
  allowIgnoreErrors := false
  childMayFail := true
  fixFreePending := true
  fixCwuLoop := true
  fixExitArmed := true
  fixRecancel := true
  fixStickyError := true
  fixNoChildTrampoline := true
  fixAwaitLoop := true

/-- The child ends without an error and wakes the fiber. Both deadlines expire before the
fiber runs: the inner one leaves its error and the outer one is dropped. -/
def expiries : List (Move (Fin 2) (Fin 3) (Fin 1)) :=
  [.dispatch (some (.fiber 0)), .timeoutBegin 0, .timeoutBegin 0, .spawn 0 false false, .yield 0 false, .fire 0, .fire 1,
    .dispatch (some (.fiber 1)), .awaitExt 1 false, .dispatch (some (.fiber 0)), .continueOp 0 false, .awaitFiber 0 1 false,
    .fire 2, .dispatch (some (.ext 2)), .dispatch (some (.fiber 1)), .continueOp 1 false, .ret 1 .ok, .unwind 1,
    .dispatch (some (.ext 1)), .dispatch (some (.ext 0)), .dispatch (some (.fiber 0))]

/-- The await returns the result of the child, and the fiber waits again. -/
def voided : List (Move (Fin 2) (Fin 3) (Fin 1)) := expiries ++ [.continueOp 0 false, .bare 0 false]

theorem voided_unbounded : ¬ (spec racing).Invariant (NoVoidDeadline racing) := by
  have run : ((replay racing (init racing) voided).map fun steps => decide (steps.length = 23 ∧
      ((stateAt (init racing) steps 23).fut (.ext 0)).kind = .deadline ∧
      ((stateAt (init racing) steps 23).fut (.ext 0)).dropped = true ∧
      ((stateAt (init racing) steps 23).fut (.ext 0)).cb = some 0 ∧
      .ext 0 ∈ ((stateAt (init racing) steps 23).fib 0).cstack ∧
      ((stateAt (init racing) steps 23).fib 0).state = .suspended ∧
      ((stateAt (init racing) steps 23).fib 0).mode = .normal)) = some true := by decide +kernel
  obtain ⟨steps, replayed, known⟩ := Option.map_eq_some_iff.mp run
  obtain ⟨length, deadline, dropped, owner, waits⟩ := of_decide_eq_true known
  have trace : Trace racing 23 (stateAt (init racing) steps) (eventAt steps) :=
    ⟨rfl, fun i inside => replay_next replayed i (by omega)⟩
  intro invariant
  exact invariant _ (trace.run.reachable 23 le_rfl) 0 (by decide) deadline dropped 0 owner waits

theorem expiries_bound : ∃ steps, replay racing (init racing) expiries = some steps ∧
    ((stateAt (init racing) steps 21).fut (.ext 0)).dropped = true ∧
    ∀ i ≤ 21, NoVoidDeadline racing (stateAt (init racing) steps i) := by
  have run : ((replay racing (init racing) expiries).map fun steps => decide (steps.length = 21 ∧
      ((stateAt (init racing) steps 21).fut (.ext 0)).dropped = true ∧
      ∀ i < 21, ∀ f x, ((stateAt (init racing) steps i).fut (.ext x)).dropped = true →
        (stateAt (init racing) steps i).phase ≠ some f)) = some true := by decide +kernel
  obtain ⟨steps, replayed, known⟩ := Option.map_eq_some_iff.mp run
  obtain ⟨length, dropped, idle⟩ := of_decide_eq_true known
  have formed : racing.WellFormed := ⟨by decide, by decide, fun ws w => by simp [racing, Subsingleton.elim w 0]⟩
  have trace : Trace racing 21 (stateAt (init racing) steps) (eventAt steps) :=
    ⟨rfl, fun i inside => replay_next replayed i (by omega)⟩
  refine ⟨steps, replayed, dropped, deadlines_bind ⟨rfl, rfl, rfl, rfl, rfl, rfl, rfl⟩ formed rfl trace.run fun i inside f => ?_⟩
  refine ⟨fun ignores => ?_, fun forgets => ?_⟩
  · obtain ⟨x, late⟩ := ignores.late
    exact idle i inside f x late.dropped ignores.running
  · obtain ⟨x, late, _⟩ := forgets.late
    exact idle i inside f x late.dropped forgets.running

end Racing

end LinuxTla.Fiber
