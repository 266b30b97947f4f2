import LinuxTla.Fiber.Unwound
import LinuxTla.Lib.Folds

/-! A wait only ends for its own reasons: a fiber is woken by the future it waits for, by its
cancellation, or by one of its deadlines. -/

namespace LinuxTla.Fiber

open Lib

/-! ### Who sets the flags -/

section Flags

def State.flags {F E W : Type} (s : State F E W) : Bool × Bool := (s.spurious, s.badYield)

variable {F E W : Type} [DecidableEq F] [DecidableEq E] [DecidableEq W] (cfg : Config F E W) (s : State F E W)

theorem resume_flags (g : F) (v : Val) (src : Id F E W) : (resume cfg s g v src).flags = s.flags := by
  rw [resume]
  split_ifs <;> rfl

theorem callback_flags (cb : Option F) (v : Val) (src : Id F E W) : (callback cfg s cb v src).flags = s.flags := by
  cases cb with
  | none => rfl
  | some g => exact resume_flags cfg s g v src

theorem resolveWaiters_flags (ws : Finset W) (v : Val) : (resolveWaiters cfg s ws v).flags = s.flags := by
  refine Lib.foldl_keeps (P := fun t : State F E W => t.flags = s.flags) (fun t w _ same => ?_) rfl
  exact (callback_flags cfg _ _ v _).trans same

theorem resolveFut_flags (x : Id F E W) (v : Val) : (resolveFut cfg s x v).flags = s.flags := by
  rw [resolveFut]
  split_ifs
  · rfl
  · exact (resolveWaiters_flags cfg _ _ v).trans (callback_flags cfg _ _ v x)

theorem freeOther_flags (x : Id F E W) : (freeOther cfg s x).flags = s.flags := by
  have same := resolveFut_flags cfg s x .canceled
  unfold freeOther
  dsimp only
  split_ifs
  · rfl
  · cases x with
    | fiber g =>
      dsimp only
      split_ifs <;> exact same
    | ext | wait => exact same

theorem maybeFreeOther_flags (x : Id F E W) : (maybeFreeOther cfg s x).flags = s.flags := by
  rw [maybeFreeOther]
  split_ifs
  · exact freeOther_flags cfg s x
  · rfl

theorem unref_flags (x : Id F E W) : (unref cfg s x).flags = s.flags := by
  unfold unref
  dsimp only
  split_ifs
  · rfl
  · cases x with
    | fiber | ext => exact freeOther_flags ..
    | wait w =>
      dsimp only
      rw [freeWait]
      split
      · rfl
      · exact maybeFreeOther_flags ..

theorem completeFiber_flags (g : F) (v : Val) : (completeFiber cfg s g v).flags = s.flags := by
  rw [completeFiber]
  exact (maybeFreeOther_flags ..).trans (resolveFut_flags ..)

theorem cancel_flags (g : F) : (cancel cfg s g).flags = s.flags := by
  rw [cancel]
  split_ifs
  · rfl
  · exact completeFiber_flags ..
  · rfl

theorem cwuSync_flags (x : Id F E W) : (cwuSync cfg s x).flags = s.flags := by
  have detached : (detach s x).flags = s.flags := by
    cases x with
    | fiber | ext => rfl
    | wait w =>
      rw [detach]
      split <;> rfl
  refine (unref_flags ..).trans ?_
  rw [cancelNonFiber]
  split_ifs
  · rfl
  · exact (resolveFut_flags ..).trans detached

theorem switchOut_flags (f : F) (st : FibState) : (switchOut cfg s f st).flags = s.flags := by
  cases st with
  | completed => exact completeFiber_flags cfg (s.setFib f fun b => { b with state := .completed, wakeSrc := .none }) f _
  | none | initial | ready | suspended | cancelled | freed => rfl

theorem endWait_flags (f : F) : (endWait cfg s f).flags = s.flags := by
  rw [endWait]
  split
  · rfl
  · exact cwuSync_flags ..

variable {cfg s} {t : State F E W} {f : F} {e : Event F}

omit [DecidableEq E] [DecidableEq W] in
theorem Decided.flags {v : Val} (decided : Decided cfg s f v t) : t.flags = s.flags := by
  cases decided with
  | carry | fail => rfl

/-- A fiber that was resumed inside of an operation: which wakeups its code sees. -/
def Sees (s t : State F E W) (f : F) : Prop :=
  s.Running f ∧ (s.fib f).cont = .op ∧
    ((s.fib f).opkind = .yield ∧ t.flags = (yielded s f).flags ∨
      (s.fib f).opkind ≠ .yield ∧ (s.fib f).opkind ≠ .ext ∧ (s.fib f).opkind ≠ .awaitf ∧ t.flags = (noticed s f).flags)

theorem continueAwait_flags (fixed : cfg.Fixed) {ignore : Bool} (step : continueAwait cfg s f ignore = some (e, t)) :
    t.flags = s.flags := by
  rw [continueAwait, fixed.awaitLoop, if_neg Bool.true_eq_false_eq_False] at step
  split_ifs at step with cancel done late
  · exact (returned_decided step).2.flags.trans (endWait_flags ..)
  · exact (returned_decided step).2.flags.trans (endWait_flags ..)
  · exact (returned_decided step).2.flags.trans (endWait_flags ..)
  · cases step
    exact switchOut_flags ..

theorem continueOp_flags (fixed : cfg.Fixed) {ignore : Bool} (step : continueOp cfg s f ignore = some (e, t)) :
    t.flags = s.flags ∨ Sees s t f := by
  rw [continueOp] at step
  split_ifs at step with may
  cases kind : (s.fib f).opkind with
  | yield =>
    rw [kind] at step
    exact .inr ⟨may.1, may.2, .inl ⟨kind, (returned_decided step).2.flags⟩⟩
  | ext | awaitf =>
    rw [kind] at step
    exact .inl (continueAwait_flags fixed step)
  | none | bare =>
    rw [kind] at step
    refine .inr ⟨may.1, may.2, .inr ⟨?_, ?_, ?_, (returned_decided step).2.flags⟩⟩ <;> rw [kind] <;> decide

theorem unwind_flags (step : unwind cfg s f = some (e, t)) : t.flags = s.flags := by
  rw [unwind] at step
  dsimp only at step
  split_ifs at step with idle bottom ret
  · cases step
    exact switchOut_flags ..
  · cases step
    rfl
  · split at step
    next => cases step
    next x rest _ =>
      split_ifs at step with done fresh
      · cases step
        exact cwuSync_flags ..
      · cases step
        exact (unref_flags ..).trans (cancel_flags ..)
      · obtain ⟨u, waits, eq⟩ := Option.map_eq_some_iff.mp step
        cases eq
        rw [awaitTop] at waits
        split_ifs at waits with fast
        · cases waits
          exact (switchOut_flags ..).trans (cancel_flags ..)
        · obtain ⟨w, found, eq⟩ := Option.map_eq_some_iff.mp waits
          cases eq
          exact (switchOut_flags ..).trans (cancel_flags ..)
    next =>
      cases step
      exact cwuSync_flags ..

theorem endCwu_flags (x : F) : (endCwu cfg s f x).flags = s.flags := by
  cases wait : (s.fib f).cwuWait with
  | none =>
    unfold endCwu
    rw [wait]
    exact unref_flags cfg (swallow s f) (.fiber x)
  | some w =>
    unfold endCwu
    rw [wait]
    exact (unref_flags ..).trans (cwuSync_flags cfg (swallow s f) (.wait w))

theorem Turns.flags (step : Turns cfg s t) : t.flags = s.flags := by
  cases step with
  | finishes | fires | mainExits | stays => rfl
  | @exitTurn g =>
    change (Fiber.exitTurn cfg s.exits g).flags = s.flags
    rw [Fiber.exitTurn]
    dsimp only
    split_ifs
    · rfl
    · exact cancel_flags cfg { s.exits.setFib g fun b => { b with exitOn := false } with exiting := true } g
    · rfl
  | @deferTurn g =>
    change (Fiber.deferTurn cfg (s.waited cfg) g).flags = s.flags
    rw [Fiber.deferTurn]
    split_ifs <;> rfl
  | extTurn => exact resolveFut_flags ..
  | @mainCancels g _ _ _ _ _ _ rest =>
    rw [rest]
    exact cancel_flags cfg s g

/-- Only a fiber that was resumed inside of an operation may set a flag. -/
theorem Next.flags (fixed : cfg.Fixed) (step : Next cfg s e t) : t.flags = s.flags ∨ ∃ f, Sees s t f := by
  have answered {f : F} {op : Op} {ignore : Bool} {v : Val} {o : Origin F} {r : State F E W}
      (step : answer cfg r f op ignore v o = some (e, t)) (same : r.flags = s.flags) : t.flags = s.flags :=
    (answer_decided step).2.flags.trans same
  obtain ⟨move, step⟩ := step
  cases move with
  | continueOp f ignore => exact (continueOp_flags fixed step).imp_right fun sees => ⟨f, sees⟩
  | dispatch c =>
    obtain ⟨u, found, eq⟩ := Option.map_eq_some_iff.mp step
    cases eq
    exact .inl (dispatch_turns found).flags
  | fire x =>
    obtain ⟨u, found, eq⟩ := Option.map_eq_some_iff.mp step
    cases eq
    exact .inl (fire_turns found).flags
  | mainExit =>
    obtain ⟨u, found, eq⟩ := Option.map_eq_some_iff.mp step
    cases eq
    exact .inl (mainExit_turns found).flags
  | mainCancel g =>
    obtain ⟨u, found, eq⟩ := Option.map_eq_some_iff.mp step
    cases eq
    exact .inl (mainCancel_turns found).flags
  | done =>
    rw [perform] at step
    split_ifs at step
    cases step
    exact .inl rfl
  | unwind f => exact .inl (unwind_flags step)
  | continueCwu f =>
    change continueCwu cfg s f = some (e, t) at step
    rw [continueCwu] at step
    split_ifs at step
    obtain ⟨x, _, eq⟩ := Option.map_eq_some_iff.mp step
    cases eq
    refine .inl ?_
    split_ifs
    · exact switchOut_flags ..
    · exact endCwu_flags x
  | yield f ignore =>
    change opYield cfg s f ignore = some (e, t) at step
    rw [opYield] at step
    split_ifs at step
    · exact .inl (answered step rfl)
    · cases step
      exact .inl (switchOut_flags ..)
  | bare f ignore =>
    change opBare cfg s f ignore = some (e, t) at step
    rw [opBare] at step
    split_ifs at step
    · exact .inl (answered step rfl)
    · cases step
      exact .inl (switchOut_flags ..)
  | awaitExt f ignore =>
    change opAwaitExt cfg s f ignore = some (e, t) at step
    rw [opAwaitExt] at step
    split_ifs at step
    · exact .inl (answered step rfl)
    · exact .inl (answered step rfl)
    · obtain ⟨x, _, eq⟩ := Option.map_eq_some_iff.mp step
      cases eq
      exact .inl (switchOut_flags ..)
  | awaitFiber f g ignore =>
    change opAwaitFiber cfg s f g ignore = some (e, t) at step
    rw [opAwaitFiber] at step
    split_ifs at step
    · exact .inl (answered step rfl)
    · exact .inl (answered step rfl)
    · obtain ⟨w, _, eq⟩ := Option.map_eq_some_iff.mp step
      cases eq
      exact .inl (switchOut_flags ..)
  | spawn f fl ignore =>
    change opSpawn cfg s f fl ignore = some (e, t) at step
    rw [opSpawn] at step
    by_cases may : s.May cfg f (if fl then .spawnfl else .spawn)
    · rw [if_neg (not_not_intro may)] at step
      by_cases exiting : s.exiting = true
      · rw [if_pos exiting] at step
        exact .inl (answered step rfl)
      · rw [if_neg exiting] at step
        obtain ⟨g, _, eq⟩ := Option.map_eq_some_iff.mp step
        cases eq
        exact .inl rfl
    · rw [if_pos may] at step
      cases step
  | cancel f g =>
    change opCancel cfg s f g = some (e, t) at step
    rw [opCancel] at step
    split_ifs at step
    cases step
    exact .inl (cancel_flags ..)
  | exit f =>
    change opExit cfg s f = some (e, t) at step
    rw [opExit] at step
    split_ifs at step
    cases step
    exact .inl rfl
  | timeoutBegin f =>
    change opTimeoutBegin cfg s f = some (e, t) at step
    rw [opTimeoutBegin] at step
    split_ifs at step
    · cases step
      exact .inl rfl
    · obtain ⟨x, _, eq⟩ := Option.map_eq_some_iff.mp step
      cases eq
      exact .inl rfl
  | timeoutEnd f =>
    change opTimeoutEnd cfg s f = some (e, t) at step
    rw [opTimeoutEnd] at step
    split_ifs at step
    cases step
    exact .inl rfl
  | ret f rv =>
    change opReturn cfg s f rv = some (e, t) at step
    rw [opReturn] at step
    split_ifs at step
    cases step
    exact .inl rfl

end Flags

/-! ### The futures of the loop -/

section Timers

variable {F E W : Type}

/-- A deadline is resolved when it expired, and with no other value. -/
def Timed (s : State F E W) : Prop :=
  ∀ x, (s.fut (.ext x)).kind = .deadline →
    (s.fut (.ext x)).fireResult = .etime ∧ ((s.fut (.ext x)).state = .resolved → (s.fut (.ext x)).result = .etime)

/-- An io, timer or deadline future at the end of a turn of the loop. -/
structure Fut.Ticks (u v : Fut F W) : Prop where
  kind : v.kind = u.kind
  fireResult : v.fireResult = u.fireResult
  value : v.state = u.state ∧ v.result = u.result ∨ v.state = .resolved ∧ v.result = u.fireResult

/-- The fiber waits for an event of the loop. -/
def Fib.Awaits (b : Fib F E W) (x : E) : Prop := b.cont = .op ∧ b.opkind = .ext ∧ b.opfut = some (.ext x)

/-- What an action of `f` does to a future of the loop. -/
inductive Timer (s t : State F E W) (f : F) (x : E) : Prop
  | same (fut : t.fut (.ext x) = s.fut (.ext x)) (keeps : (s.fib f).Awaits x → (t.fib f).Awaits x)
  | gone (fut : t.fut (.ext x) = freeFut)
  | deadline {p} (fut : t.fut (.ext x) = extFut .deadline f p .etime)
  | event {p} (fut : t.fut (.ext x) = extFut .ext f p .ok) (waits : (t.fib f).Awaits x)

variable [DecidableEq F] {cfg : Config F E W} {s t r : State F E W} {f g : F} {x : E}

theorem Decided.fut {v : Val} (decided : Decided cfg r f v t) : t.fut = r.fut := by
  cases decided with
  | carry | fail => rfl

omit [DecidableEq F] in
theorem Completion.ext {v : Val} (completion : Completion s g v t) : t.fut (.ext x) = s.fut (.ext x) :=
  completion.still _ (Id.fiber_ne_ext g x).symm fun w _ => Id.ext_ne_wait x w

theorem Cancels.ext (cancels : Cancels s g t) : t.fut (.ext x) = s.fut (.ext x) := by
  cases cancels with
  | idle | marks => rfl
  | fresh _ completion => exact completion.ext

omit [DecidableEq F] in
/-- The future on top of an awaited operation is the one the fiber awaits. -/
theorem Doing.top {fut : Id F E W → Fut F W} {b : Fib F E W} (doing : Doing fut b) (waits : b.Awaits x) :
    ∃ rest, b.owned = .ext x :: rest := by
  obtain ⟨y, rest, _, own, top, calm⟩ | ⟨w, _, _, kind, _⟩ := doing.awaits waits.1 (.inl waits.2.1)
  · obtain rfl : x = y := Id.ext.inj (Option.some.inj (waits.2.2.symm.trans own))
    exact ⟨rest, calm.owned.trans top⟩
  · cases waits.2.1.symm.trans kind

end Timers

section Acts

variable {F E W : Type} [DecidableEq F] [DecidableEq E] [DecidableEq W] {cfg : Config F E W} {s t r : State F E W} {f g : F}
  {e : Event F}

theorem unref_ext_other {k : F} {x : E} (resolved : (s.fut (.fiber k)).state = .resolved) (completed : (s.fib k).state = .completed) :
    (unref cfg s (.fiber k)).fut (.ext x) = s.fut (.ext x) := by
  obtain released | released := unref_fiber cfg resolved completed
  · rw [released]
    exact State.setFut_of_ne (Id.fiber_ne_ext k x).symm _
  · rw [released]
    exact (State.setFut_of_ne (Id.fiber_ne_ext k x).symm fun _ => freeFut)

theorem Acts.timer (step : Acts cfg s f e t) (fixed : cfg.Fixed) (formed : cfg.WellFormed) (core : Core cfg s)
    (plan : Plan s f) (x : E) : Timer s t f x := by
  have running := step.running
  have idle (other : (s.fib f).cont ≠ .op) (fut : t.fut (.ext x) = s.fut (.ext x)) : Timer s t f x :=
    .same fut fun waits => absurd waits.1 other
  have code (can : s.CanOp f) : (s.fib f).cont ≠ .op := by
    rw [can.2.2]
    decide
  have unwinds (none : (s.fib f).cont = .none) : (s.fib f).cont ≠ .op := by
    rw [none]
    decide
  have cleans (cwu : (s.fib f).cont = .cwu) : (s.fib f).cont ≠ .op := by
    rw [cwu]
    decide
  have fiber (k : F) : (.ext x : Id F E W) ≠ .fiber k := (Id.fiber_ne_ext k x).symm
  have wait (w : W) : (.ext x : Id F E W) ≠ .wait w := Id.ext_ne_wait x w
  have written (r : State F E W) (k : F) (w : W) (h h' : Fut F W → Fut F W) :
      ((r.setFut (.wait w) h).setFut (.fiber k) h').fut (.ext x) = r.fut (.ext x) := by
    rw [State.setFut_of_ne (fiber k), State.setFut_of_ne (wait w)]
  have left (r : State F E W) (k : F) (w : W) (h h' : Fut F W → Fut F W) :
      ((r.setFut (.fiber k) h).setFut (.wait w) h').fut (.ext x) = r.fut (.ext x) := by
    rw [State.setFut_of_ne (wait w), State.setFut_of_ne (fiber k)]
  cases step with
  | delivered can _ _ decided | refused can _ decided | awaitedDone can _ _ decided =>
    exact idle (code can) (congrFun decided.fut _)
  | yields can =>
    refine idle (code can) ?_
    rw [switchOut_ready fixed]
    rfl
  | bares can | exits can | noTimeout can | leavesBlock can | rets _ can => exact idle (code can) rfl
  | @waitsExt y can =>
    obtain rfl | differs := eq_or_ne x y
    · refine .event (Function.update_self ..) ?_
      rw [Fib.Awaits, switchOut_suspended]
      dsimp only
      rw [State.setFib_self, State.setFib_self]
      exact ⟨rfl, rfl, rfl⟩
    · exact idle (code can) (Function.update_of_ne (fun same => differs (Id.ext.inj same)) ..)
  | @timeout y can =>
    obtain rfl | differs := eq_or_ne x y
    · exact .deadline (Function.update_self ..)
    · exact idle (code can) (Function.update_of_ne (fun same => differs (Id.ext.inj same)) ..)
  | @waitsFiber k w can =>
    exact idle (code can) (written (spend s f) k w (fun _ => waitFut f k) fun u => { u with waiters := insert w u.waiters })
  | @spawns k fl can => exact idle (code can) (State.setFut_of_ne (fiber k) fun _ => fiberFut none (!fl))
  | @cancels k can => exact idle (code can) ((core.spend f).cancels fixed formed k).ext
  | resumed _ _ kind flagged decided =>
    refine .same ?_ fun waits => absurd waits.2.1 kind.1
    rw [decided.fut, flagged.rest]
  | awaited _ op kind _ decided =>
    obtain ⟨y, rest, top, _, _, step⟩ | ⟨w, k, rest, top, _, _, _, step⟩ :=
      endWait_cases core fixed formed running plan.doing op kind
    · obtain rfl | differs := eq_or_ne x y
      · refine .gone ?_
        rw [decided.fut, step]
        exact Function.update_self ..
      · refine .same ?_ fun waits => ?_
        · rw [decided.fut, step]
          exact Function.update_of_ne (fun same => differs (Id.ext.inj same)) ..
        · obtain ⟨_, own⟩ := plan.doing.top waits
          exact absurd (Id.ext.inj (List.head_eq_of_cons_eq (own.symm.trans top))) differs
    · refine .same ?_ fun waits => ?_
      · rw [decided.fut, step]
        exact left s k w (.leave w) fun _ => freeFut
      · obtain ⟨_, own⟩ := plan.doing.top waits
        exact absurd (List.head_eq_of_cons_eq (own.symm.trans top)) (wait w)
  | absorbed =>
    refine .same rfl fun waits => ?_
    rw [Fib.Awaits, switchOut_suspended]
    dsimp only
    rw [State.setFib_self]
    exact waits
  | cwuWaits _ cwu => exact idle (cleans cwu) rfl
  | @cwuEnds k _ cwu target resolved =>
    obtain ⟨w, _, r, u, _, _, _, _, _, rfl, released, step⟩ :=
      endCwu_cases core fixed formed running plan.doing cwu target resolved
    refine idle (cleans cwu) ?_
    rw [step]
    obtain rfl | rfl := released
    · exact (State.setFut_of_ne (fiber k) fun v => { v with held := false }).trans (left s k w (.leave w) fun _ => freeFut)
    · exact (State.setFut_of_ne (fiber k) fun _ => freeFut).trans (left s k w (.leave w) fun _ => freeFut)
  | completes _ _ none =>
    obtain ⟨u, completion, done⟩ := core.completes fixed formed running
    refine idle (unwinds none) ?_
    rw [done]
    exact completion.ext
  | blockLeft _ _ none => exact idle (unwinds none) rfl
  | @frees y rest _ _ none top notFiber =>
    have calm := plan.doing.calm none
    cases y with
    | fiber k => exact absurd rfl (notFiber k)
    | wait w => exact absurd (top ▸ List.mem_cons_self) (calm.2 w)
    | ext y =>
      have owned : .ext y ∈ (s.fib f).owned := calm.owned ▸ top ▸ List.mem_cons_self
      have step := cwuSync_ext fixed formed (core.owns running owned notFiber)
      obtain rfl | differs := eq_or_ne x y
      · refine .gone ?_
        rw [step]
        exact Function.update_self ..
      · refine idle (unwinds none) ?_
        rw [step]
        exact Function.update_of_ne (fun same => differs (Id.ext.inj same)) ..
  | @freesDone k _ _ _ none top resolved =>
    have owned : .fiber k ∈ (s.fib f).owned := (plan.doing.calm none).owned ▸ top ▸ List.mem_cons_self
    exact idle (unwinds none) (unref_ext_other resolved (core.child_done running plan.orphan owned resolved).2)
  | @freesFresh k _ _ _ none top pending resolved =>
    have calm := plan.doing.calm none
    have owned : .fiber k ∈ (s.fib f).owned := calm.owned ▸ top ▸ List.mem_cons_self
    have apart : f ≠ k := by
      rintro rfl
      exact plan.orphan (core.child owned).2
    have cancels := core.cancels fixed formed k
    have cancelled := core.cancel fixed formed (g := k) fun active => apart (Option.some.inj (running.symm.trans active))
    obtain ⟨same, phase⟩ := cancels.running core running apart
    have completed := (cancelled.child_done (phase.trans running) (same ▸ plan.orphan) (same ▸ owned) resolved).2
    exact idle (unwinds none) ((unref_ext_other resolved completed).trans cancels.ext)
  | @cwuFast k _ _ _ _ none top callback =>
    have owned : .fiber k ∈ (s.fib f).owned := (plan.doing.calm none).owned ▸ top ▸ List.mem_cons_self
    have bare := (core.alive k (core.alive_of_held (core.child owned).1)).cb
    rw [(core.cancels fixed formed k).cb bare] at callback
    cases callback
  | @cwuBegins k w _ _ _ none =>
    refine idle (unwinds none) ?_
    exact (written (cancel cfg s k) k w (fun _ => waitFut f k) fun u => { u with waiters := insert w u.waiters }).trans
      (core.cancels fixed formed k).ext

/-- How the fiber that acts leaves its own record. -/
inductive Puts (s t : State F E W) (f : F) : Prop
  | onward (active : t.phase = some f) (result : (t.fib f).result = (s.fib f).result)
  | sleeps (state : (t.fib f).state = .suspended) (result : (t.fib f).result = (s.fib f).result)
      (src : (t.fib f).wakeSrc = .none)
  | queued (state : (t.fib f).state = .ready) (kind : (t.fib f).opkind = .yield)
      (result : (t.fib f).result = (s.fib f).result) (src : (t.fib f).wakeSrc = .none)
  | done (idle : t.phase = none) (cont : (t.fib f).cont = .none)

omit [DecidableEq E] [DecidableEq W] in
theorem Puts.write (active : r.phase = some f) (h : Fib F E W → Fib F E W) (result : (r.fib f).result = (s.fib f).result)
    (keeps : ∀ b, (h b).result = b.result := by exact fun _ => rfl) : Puts s (r.setFib f h) f := by
  refine .onward active ?_
  rw [State.setFib_self, keeps]
  exact result

theorem Puts.suspend (result : (r.fib f).result = (s.fib f).result) : Puts s (switchOut cfg r f .suspended) f := by
  rw [switchOut_suspended]
  refine .sleeps ?_ ?_ ?_ <;> dsimp only <;> rw [State.setFib_self]
  exact result

omit [DecidableEq E] [DecidableEq W] in
theorem Decided.puts {v : Val} (decided : Decided cfg r f v t) (active : r.phase = some f)
    (result : (r.fib f).result = (s.fib f).result) : Puts s t f := by
  cases decided with
  | carry => exact .write active _ result
  | fail =>
    rw [unwindTo, clearOp, State.setFib_setFib]
    exact .write active _ result

theorem Acts.puts (step : Acts cfg s f e t) (fixed : cfg.Fixed) (formed : cfg.WellFormed) (core : Core cfg s)
    (plan : Plan s f) : Puts s t f := by
  have running := step.running
  have spent : ((spend s f).fib f).result = (s.fib f).result := by
    rw [spend, State.setFib_self]
  have written {r : State F E W} (h : Fib F E W → Fib F E W) (same : r.fib f = s.fib f)
      (keeps : ∀ b, (h b).result = b.result := by exact fun _ => rfl) : ((r.setFib f h).fib f).result = (s.fib f).result := by
    rw [State.setFib_self, keeps, same]
  have again {r : State F E W} (h : Fib F E W → Fib F E W) (same : (r.fib f).result = (s.fib f).result)
      (keeps : ∀ b, (h b).result = b.result := by exact fun _ => rfl) : ((r.setFib f h).fib f).result = (s.fib f).result := by
    rw [State.setFib_self, keeps, same]
  have other {k : F} (owned : .fiber k ∈ (s.fib f).owned) : f ≠ k := by
    rintro rfl
    exact plan.orphan (core.child owned).2
  have top {k : F} {rest : List (Id F E W)} (none : (s.fib f).cont = .none) (top : (s.fib f).cstack = .fiber k :: rest) :
      .fiber k ∈ (s.fib f).owned := (plan.doing.calm none).owned ▸ top ▸ List.mem_cons_self
  cases step with
  | delivered _ _ _ decided => exact decided.puts running (again _ spent)
  | refused _ _ decided | awaitedDone _ _ _ decided => exact decided.puts running spent
  | yields =>
    rw [switchOut_ready fixed]
    refine .queued ?_ ?_ ?_ ?_ <;> dsimp only <;> rw [State.setFib_self, State.setFib_self]
    exact spent
  | bares => exact .suspend (again _ spent)
  | waitsExt => exact .suspend (again (r := (spend s f).setFut _ _) _ spent)
  | waitsFiber => exact .suspend (again (r := ((spend s f).setFut _ _).setFut _ _) _ spent)
  | @spawns k _ _ unborn =>
    have apart : f ≠ k := by
      rintro rfl
      exact (core.running_alive running).1.1 unborn
    refine .write (r := ((spend s f).setFib k _).setFut _ _) running _ ?_
    rw [State.setFut_fib, State.setFib_of_ne apart]
    exact spent
  | @cancels k can handle =>
    have apart := core.handle_ne plan.orphan (plan.doing.calm can.2.2) handle
    obtain ⟨same, phase⟩ := ((core.spend f).cancels fixed formed k).running (core.spend f) running apart.symm
    exact .onward (phase.trans running) ((congrArg Fib.result same).trans spent)
  | exits | noTimeout => exact .onward running spent
  | timeout => exact .write (r := (spend s f).setFut _ _) running _ spent
  | leavesBlock =>
    rw [unwindTo, clearOp, State.setFib_setFib]
    exact .write (r := spend s f) running _ spent
  | rets =>
    rw [unwindTo, clearOp, State.setFib_setFib]
    exact .write running _ rfl
  | resumed _ _ _ flagged decided =>
    rw [flagged.rest] at decided
    exact decided.puts running rfl
  | awaited _ op kind _ decided =>
    obtain ⟨y, _, _, _, _, step⟩ | ⟨w, k, _, _, _, _, _, step⟩ :=
      endWait_cases core fixed formed running plan.doing op kind
    · rw [step] at decided
      exact decided.puts running (written _ rfl)
    · rw [step] at decided
      exact decided.puts running (written _ rfl)
  | absorbed => exact .suspend rfl
  | cwuWaits => exact .suspend (written _ rfl)
  | @cwuEnds k _ cwu target resolved =>
    obtain ⟨w, rest, r, u, _, _, _, _, _, rfl, released, step⟩ :=
      endCwu_cases core fixed formed running plan.doing cwu target resolved
    have apart : f ≠ k := by
      rintro rfl
      exact absurd resolved (Fut.pending_iff.mp ((core.alive f (core.running_alive running).1).state.mpr
        (core.running_alive running).2.1))
    rw [step]
    obtain rfl | rfl := released
    · refine Puts.write ?_ _ ?_
      · exact running
      · rfl
    · refine Puts.write ?_ _ ?_
      · exact running
      · rw [freedFiber, State.setFib_of_ne apart]
        rfl
  | completes _ _ none =>
    obtain ⟨u, completion, done⟩ := core.completes fixed formed running
    have self := completion.self
    rw [State.setFib_self] at self
    rw [done]
    refine .done rfl ?_
    dsimp only
    rw [self]
    exact none
  | blockLeft => exact .write running _ rfl
  | @frees y rest _ _ none top notFiber =>
    have calm := plan.doing.calm none
    cases y with
    | fiber k => exact absurd rfl (notFiber k)
    | wait w => exact absurd (top ▸ List.mem_cons_self) (calm.2 w)
    | ext y =>
      have owned : .ext y ∈ (s.fib f).owned := calm.owned ▸ top ▸ List.mem_cons_self
      rw [cwuSync_ext fixed formed (core.owns running owned notFiber)]
      exact .write (r := s.setFut _ _) running _ rfl
  | @freesDone k _ _ _ none stack resolved =>
    have owned := top none stack
    have before := unref_other cfg resolved (core.child_done running plan.orphan owned resolved).2 (other owned)
    exact .write (before.2.1.trans running) _ (congrArg Fib.result before.1)
  | @freesFresh k _ _ _ none stack pending resolved =>
    have owned := top none stack
    have cancels := core.cancels fixed formed k
    have apart := other owned
    have cancelled := core.cancel fixed formed (g := k) fun active => apart (Option.some.inj (running.symm.trans active))
    obtain ⟨same, phase⟩ := cancels.running core running apart
    have completed := (cancelled.child_done (phase.trans running) (same ▸ plan.orphan) (same ▸ owned) resolved).2
    have before := unref_other cfg resolved completed apart
    exact .write ((before.2.1.trans phase).trans running) _ (congrArg Fib.result (before.1.trans same))
  | @cwuFast k _ _ _ _ none stack callback =>
    have bare := (core.alive k (core.alive_of_held (core.child (top none stack)).1)).cb
    rw [(core.cancels fixed formed k).cb bare] at callback
    cases callback
  | @cwuBegins k w _ _ _ none stack =>
    obtain ⟨same, _⟩ := (core.cancels fixed formed k).running core running (other (top none stack))
    exact .suspend (written (r := ((cancel cfg s k).setFut _ _).setFut _ _) _ same)

end Acts

section Turns

variable {F E W : Type} {cfg : Config F E W} {s t r : State F E W} {x : E}

theorem Fut.Ticks.refl (u : Fut F W) : u.Ticks u := ⟨rfl, rfl, .inl ⟨rfl, rfl⟩⟩

theorem Fut.Beside.ticks {u v : Fut F W} (beside : u.Beside v) : u.Ticks v := ⟨beside.same.kind, beside.fireResult, .inl beside.value⟩

/-- Futures are observed before the turn and renumbered after it. -/
theorem Fut.Ticks.beside {u v u' v' : Fut F W} (ticks : u.Ticks v) (before : u'.Beside u) (after : v.Beside v') : u'.Ticks v' where
  kind := (after.same.kind.trans ticks.kind).trans before.same.kind
  fireResult := (after.fireResult.trans ticks.fireResult).trans before.fireResult
  value := by
    rw [after.value.1, after.value.2, ← before.value.1, ← before.value.2, ← before.fireResult]
    exact ticks.value

theorem Fut.Ticks.timed {u v : Fut F W} (ticks : u.Ticks v)
    (timed : u.kind = .deadline → u.fireResult = .etime ∧ (u.state = .resolved → u.result = .etime))
    (deadline : v.kind = .deadline) : v.fireResult = .etime ∧ (v.state = .resolved → v.result = .etime) := by
  obtain ⟨late, result⟩ := timed (ticks.kind ▸ deadline)
  refine ⟨ticks.fireResult.trans late, fun resolved => ?_⟩
  obtain ⟨state, same⟩ | ⟨_, expired⟩ := ticks.value
  · exact same.trans (result (state ▸ resolved))
  · exact expired.trans late

variable [DecidableEq F] [DecidableEq E] [DecidableEq W]

theorem Expires.ticks {y : E} (expires : Expires s y t) : (s.fut (.ext x)).Ticks (t.fut (.ext x)) := by
  obtain rfl | differs := eq_or_ne x y
  · have self : (s.setFut (.ext x) Fut.expired).fut (.ext x) = (s.fut (.ext x)).expired := State.setFut_self ..
    cases expires with
    | late =>
      rw [State.setFut_self]
      exact ⟨rfl, rfl, .inl ⟨rfl, rfl⟩⟩
    | alone =>
      rw [self]
      exact ⟨rfl, rfl, .inr ⟨rfl, rfl⟩⟩
    | wakes _ _ _ drops =>
      cases drops with
      | none =>
        dsimp only
        rw [self]
        exact ⟨rfl, rfl, .inr ⟨rfl, rfl⟩⟩
      | drop =>
        dsimp only
        rw [Function.update_self, self]
        exact ⟨rfl, rfl, .inr ⟨rfl, rfl⟩⟩
  · rw [expires.fut fun same => differs (Id.ext.inj same)]
    exact .refl _

theorem Turns.ticks (step : Turns cfg s t) (fixed : cfg.Fixed) (formed : cfg.WellFormed) (core : Core cfg s) (x : E) :
    (s.fut (.ext x)).Ticks (t.fut (.ext x)) := by
  have observed : (s.fut (.ext x)).Beside ((s.waited cfg).fut (.ext x)) :=
    observe_beside cfg { s with iter := s.iter + 1, exitReq := false } (s.iter + 1) (.ext x)
  cases step with
  | finishes | mainExits | stays => exact .refl _
  | @exitTurn k =>
    have same : (Fiber.exitTurn cfg s.exits k).fut (.ext x) = s.fut (.ext x) := by
      rw [Fiber.exitTurn]
      dsimp only
      split_ifs
      · rfl
      · exact ((core.exits k).cancels fixed formed k).ext
      · rfl
    rw [← same]
    exact (norm_beside cfg _ _).ticks
  | @deferTurn k =>
    have same : (Fiber.deferTurn cfg (s.waited cfg) k).fut (.ext x) = (s.waited cfg).fut (.ext x) := by
      rw [Fiber.deferTurn]
      split_ifs <;> rfl
    have turn : ((s.waited cfg).fut (.ext x)).Ticks ((Fiber.deferTurn cfg (s.waited cfg) k).fut (.ext x)) := by
      rw [same]
      exact .refl _
    exact turn.beside (observed) (norm_beside cfg _ _)
  | @extTurn y => exact (core.waited.expires fixed formed y).ticks.beside (observed) (norm_beside cfg _ _)
  | @fires y =>
    obtain same | differs := eq_or_ne (.ext x : Id F E W) (.ext y)
    · rw [same, State.setFut_self]
      exact ⟨rfl, rfl, .inl ⟨rfl, rfl⟩⟩
    · rw [State.setFut_of_ne differs]
      exact .refl _
  | @mainCancels g _ _ _ _ _ _ rest =>
    have same : t.fut (.ext x) = s.fut (.ext x) := by
      rw [rest]
      exact (core.cancels fixed formed g).ext
    rw [same]
    exact .refl _

theorem Timed.turns (timed : Timed s) (step : Turns cfg s t) (fixed : cfg.Fixed) (formed : cfg.WellFormed)
    (core : Core cfg s) : Timed t := fun x => (step.ticks fixed formed core x).timed (timed x)

theorem Timed.acts {f : F} {e : Event F} (timed : Timed s) (step : Acts cfg s f e t) (fixed : cfg.Fixed)
    (formed : cfg.WellFormed) (core : Core cfg s) (plan : Plan s f) : Timed t := by
  intro x deadline
  obtain same | gone | made | event := step.timer fixed formed core plan x
  · rw [same] at deadline ⊢
    exact timed x deadline
  · rw [gone] at deadline
    cases deadline
  · rw [made]
    exact ⟨rfl, fun resolved => by cases resolved⟩
  · rw [event] at deadline
    cases deadline

end Turns

/-! ### What a fiber that waits is run for -/

section Sources

variable {F E W : Type} {cfg : Config F E W} {s t : State F E W} {f g : F} {v : Val}

/-- A future of the fiber woke it with its result. -/
inductive Called (s : State F E W) (g : F) (v : Val) : Prop
  | future {y} (src : (s.fib g).wakeSrc = .future y) (cb : (s.fut y).cb = some g) (resolved : (s.fut y).state = .resolved)
      (result : (s.fut y).result = v)

/-- What a fiber will be run for once it waits inside of an operation, and what it was run
for. A fiber that nothing woke yields, or it does not run before it is woken. -/
structure Sourced (s : State F E W) (g : F) : Prop where
  scopes : ∀ x, (s.fut (.ext x)).cb = some g → (s.fut (.ext x)).kind = .deadline ∨ (s.fib g).Awaits x
  empty : s.phase = some g → (s.fib g).result = .ok
  begun : (s.fib g).cont = .op → (s.fib g).state.Begun
  waits : (s.fib g).cont = .op → s.phase ≠ some g →
    (s.fib g).wakeSrc = .none ∧ (s.fib g).result = .ok ∧
        ((s.fib g).opkind = .yield ∨ (s.fib g).state = .suspended ∨ (s.fib g).state = .cancelled) ∨
      Called s g (s.fib g).result
  woken : (s.fib g).cont = .op → s.phase = some g →
    (s.fib g).wakeSrc = .cancel ∧ (s.fib g).state = .cancelled ∧ (s.fib g).wakeVal = .canceled ∨
      ((s.fib g).wakeSrc = .none ∧ (s.fib g).wakeVal = .ok ∧ (s.fib g).opkind = .yield) ∨
      Called s g (s.fib g).wakeVal

theorem Called.later (called : Called s g v) (fut : ∀ y, (s.fut y).cb = some g → (s.fut y).Later (t.fib g) (t.fut y))
    (src : (t.fib g).wakeSrc = (s.fib g).wakeSrc) : Called t g v := by
  obtain ⟨source, cb, resolved, result⟩ := called
  have later := fut _ cb
  obtain ⟨state, same⟩ | ⟨pending, _⟩ := later.value
  · exact ⟨src.trans source, later.same.cb.trans cb, state.trans resolved, same.trans result⟩
  · cases pending.symm.trans resolved

theorem Fib.Stays.awaits {b c : Fib F E W} (stays : b.Stays c) {x : E} (waits : b.Awaits x) : c.Awaits x :=
  ⟨stays.cont.trans waits.1, stays.opkind.trans waits.2.1, stays.opfut.trans waits.2.2⟩

/-- What a step of somebody else does to a fiber that has begun. -/
theorem Frame.keeps (frame : Frame cfg s t g) (begun : (s.fib g).state.Begun) (elsewhere : t.phase ≠ some g) :
    (t.fib g).wakeSrc = (s.fib g).wakeSrc ∧ (t.fib g).result = (s.fib g).result ∧
        ((t.fib g).state = (s.fib g).state ∨ (t.fib g).state = .cancelled) ∨
      (t.fib g).state = .ready ∧ Called t g (t.fib g).result := by
  cases frame.fib with
  | same fib =>
    rw [fib]
    exact .inl ⟨rfl, rfl, .inl rfl⟩
  | @woken y v c i own resolved result nudged fib =>
    have called (src : c.wakeSrc = .future y) (value : c.result = v) : Called t g (t.fib g).result := by
      rw [fib]
      refine ⟨(congrArg Fib.wakeSrc fib).trans src, (frame.fut y own).same.cb.trans own, resolved, result.trans value.symm⟩
    cases nudged with
    | same =>
      rw [fib]
      exact .inl ⟨rfl, rfl, .inl rfl⟩
    | woken =>
      refine .inr ⟨?_, called rfl rfl⟩
      rw [fib]
    | kept queued =>
      refine .inr ⟨?_, called rfl rfl⟩
      rw [fib]
      exact queued
  | marked _ fib =>
    obtain ⟨_, _, fib⟩ := fib
    rw [fib]
    exact .inl ⟨rfl, rfl, .inr rfl⟩
  | ended ends =>
    obtain initial | completed := ends
    · exact absurd initial begun.notInitial
    · exact absurd completed begun.going
  | born unborn => exact absurd unborn begun.alive.1
  | entered enters => exact absurd enters.active elsewhere

variable (frame : Frame cfg s t g) (core : Core cfg s) (after : Core cfg t) (known : Sourced s g)

include frame core after known

/-- The deadlines and the events of a fiber are its own to begin and to end. -/
theorem Frame.scopes (x : E) (cb : (t.fut (.ext x)).cb = some g) :
    (t.fut (.ext x)).kind = .deadline ∨ (t.fib g).Awaits x := by
  have owned := after.owned_of cb
  obtain stays | ⟨_, _, _, _, _, _, _, _, fib⟩ := frame.fib.stays
  · rw [Fib.owned, stays.cwuWait, stays.cstack] at owned
    have before : (s.fut (.ext x)).cb = some g := (core.scopes.mem g (.ext x)).mp owned
    exact (known.scopes x before).imp (frame.fut _ before).same.kind.trans stays.awaits
  · rw [fib] at owned
    cases owned

/-- Somebody else acts, or the loop turns: a fiber that waits is woken by a future of its
own, it is cancelled, or the loop enters it. -/
theorem Frame.sourced (fixed : cfg.Fixed) (stepped : Stepped cfg s t g) (away : s.phase ≠ some g) : Sourced t g := by
  have scopes := frame.scopes core after known
  have cont (op : (t.fib g).cont = .op) : (s.fib g).cont = .op ∧ (t.fib g).opkind = (s.fib g).opkind := by
    obtain stays | ⟨_, _, _, _, _, _, _, _, fib⟩ := frame.fib.stays
    · exact ⟨stays.cont ▸ op, stays.opkind⟩
    · rw [fib] at op
      cases op
  by_cases active : t.phase = some g
  · have enters := (stepped active).resolve_left fun running => away running.1
    obtain ⟨d, e, i, _, fib⟩ := enters.fib
    have shown : (t.fib g).state = (s.fib g).state ∧
        (t.fib g).wakeVal = (if (s.fib g).state = .cancelled then .canceled else (s.fib g).result) ∧
        (t.fib g).wakeSrc = (if (s.fib g).state = .cancelled then .cancel else (s.fib g).wakeSrc) := by
      rw [fib]
      exact ⟨rfl, rfl, rfl⟩
    obtain ⟨state, value, src⟩ := shown
    refine ⟨scopes, fun _ => ?_, fun op => ?_, fun _ elsewhere => absurd active elsewhere, fun op _ => ?_⟩
    · rw [fib]
      exact if_neg fun both => Bool.false_ne_true (both.2.symm.trans fixed.recancel)
    · rw [state]
      exact known.begun (cont op).1
    · obtain ⟨before, kind⟩ := cont op
      by_cases cancelled : (s.fib g).state = .cancelled
      · rw [if_pos cancelled] at value src
        exact .inl ⟨src, state.trans cancelled, value⟩
      · rw [if_neg cancelled] at value src
        rw [value, kind, src]
        obtain ⟨none, fine, waits⟩ | called := known.waits before away
        · refine .inr (.inl ⟨none, fine, waits.resolve_right fun asleep => ?_⟩)
          have asleep := asleep.resolve_right cancelled
          obtain runs | runs | runs := enters.runs <;> cases asleep.symm.trans runs
        · exact .inr (.inr (called.later frame.fut src))
  · refine ⟨scopes, fun running => absurd running active, fun op => ?_, fun op _ => ?_, fun _ running => absurd running active⟩
    · have begun := known.begun (cont op).1
      obtain ⟨_, _, state | state⟩ | ⟨ready, _⟩ := frame.keeps begun active
      · rw [state]
        exact begun
      · exact .inr (.inr state)
      · exact .inl ready
    · obtain ⟨before, kind⟩ := cont op
      obtain ⟨src, result, state⟩ | ⟨_, called⟩ := frame.keeps (known.begun before) active
      · rw [kind, result]
        obtain ⟨none, fine, waits⟩ | called := known.waits before away
        · refine .inl ⟨src.trans none, fine, waits.imp_right fun asleep => ?_⟩
          obtain same | cancelled := state
          · rw [same]
            exact asleep
          · exact .inr cancelled
        · exact .inr (called.later frame.fut src)
      · exact .inr called

end Sources

section Runs

variable {F E W : Type} {cfg : Config F E W} {s t : State F E W} {f g : F} {e : Event F} {v : Val}

/-- A fiber that acted and is inside of an operation has switched out. -/
theorem Actor.inside (actor : Actor cfg s t f) (op : (t.fib f).cont = .op) :
    t.phase = none ∧ (t.fib f).state.Begun := by
  cases actor.goes with
  | onward _ _ _ none | done _ _ _ none => cases none.symm.trans op
  | sleeps idle state => exact ⟨idle, .inr (.inl state)⟩
  | cleans _ _ _ _ cwu => cases cwu.symm.trans op
  | lingers _ _ _ _ cwu stays => cases (stays.cont.trans cwu).symm.trans op
  | queued idle state => exact ⟨idle, .inl state⟩

variable [DecidableEq F] [DecidableEq E] [DecidableEq W]

theorem Acts.sourced (step : Acts cfg s f e t) (fixed : cfg.Fixed) (formed : cfg.WellFormed) (sane : Sane cfg s)
    (known : Sourced s f) : Sourced t f := by
  have core := sane.core
  have plan := sane.plan f
  have actor := step.actor fixed formed core plan
  have puts := step.puts fixed formed core plan
  have empty := known.empty step.running
  have after := (sane.acts fixed formed step).core
  have elsewhere (op : (t.fib f).cont = .op) : t.phase ≠ some f := by
    rw [(actor.inside op).1]
    exact (Option.some_ne_none f).symm
  refine ⟨fun x cb => ?_, fun active => ?_, fun op => (actor.inside op).2, fun op _ => .inl ?_, fun op active =>
    absurd active (elsewhere op)⟩
  · obtain ⟨same, keeps⟩ | gone | made | ⟨_, waits⟩ := step.timer fixed formed core plan x
    · rw [same] at cb ⊢
      exact (known.scopes x cb).imp_right keeps
    · rw [gone] at cb
      cases cb
    · rw [made]
      exact .inl rfl
    · exact .inr waits
  · obtain ⟨_, result⟩ | ⟨_, result⟩ | ⟨_, _, result⟩ | ⟨idle⟩ := puts
    · exact result.trans empty
    · exact result.trans empty
    · exact result.trans empty
    · cases idle.symm.trans active
  · obtain ⟨active⟩ | ⟨state, result, src⟩ | ⟨_, kind, result, src⟩ | ⟨_, none⟩ := puts
    · exact absurd active (elsewhere op)
    · exact ⟨src, result.trans empty, .inr (.inl state)⟩
    · exact ⟨src, result.trans empty, .inl kind⟩
    · cases none.symm.trans op

/-- The books are right, and every fiber is run for a reason. -/
structure Reasoned (cfg : Config F E W) (s : State F E W) : Prop where
  sane : Sane cfg s
  timed : Timed s
  known : ∀ g, Sourced s g

theorem Reasoned.acts (reasoned : Reasoned cfg s) (fixed : cfg.Fixed) (formed : cfg.WellFormed) (step : Acts cfg s f e t) :
    Reasoned cfg t := by
  have sane := reasoned.sane
  have own := sane.plan f
  have after := sane.acts fixed formed step
  refine ⟨after, reasoned.timed.acts step fixed formed sane.core own, fun g => ?_⟩
  obtain rfl | differs := eq_or_ne g f
  · exact step.sourced fixed formed sane (reasoned.known g)
  · have frame := step.frame fixed formed sane.core own.doing own.orphan differs
    have actor := step.actor fixed formed sane.core own
    refine frame.sourced sane.core after.core (reasoned.known g) fixed (actor.stepped differs) fun active => differs ?_
    exact Option.some.inj (active.symm.trans step.running)

theorem Reasoned.turns (reasoned : Reasoned cfg s) (fixed : cfg.Fixed) (formed : cfg.WellFormed) (step : Turns cfg s t) :
    Reasoned cfg t := by
  have sane := reasoned.sane
  have after := sane.turns fixed formed step
  refine ⟨after, reasoned.timed.turns step fixed formed sane.core, fun g => ?_⟩
  have known := reasoned.known g
  have frame := step.frame fixed formed sane.core sane.ready g
  obtain idle | ⟨fib, phase, _⟩ := step.still
  · refine frame.sourced sane.core after.core known fixed (step.stepped fixed formed sane.core sane.ready g) ?_
    rw [idle]
    exact (Option.some_ne_none g).symm
  · have src : (t.fib g).wakeSrc = (s.fib g).wakeSrc := by rw [fib]
    refine ⟨frame.scopes sane.core after.core known, ?_, ?_, ?_, ?_⟩ <;> rw [fib]
    · rw [phase]
      exact known.empty
    · exact known.begun
    · rw [phase]
      exact fun op away => (known.waits op away).imp_right fun called => called.later frame.fut src
    · rw [phase]
      exact fun op active => (known.woken op active).imp_right fun rest => rest.imp_right fun called => called.later frame.fut src

theorem Reasoned.next (reasoned : Reasoned cfg s) (fixed : cfg.Fixed) (formed : cfg.WellFormed) (step : Next cfg s e t) :
    Reasoned cfg t := by
  obtain ⟨f, step⟩ | ⟨_, step⟩ := step.cases fixed
  · exact reasoned.acts fixed formed step
  · exact reasoned.turns fixed formed step

omit [DecidableEq E] [DecidableEq W] in
theorem Reasoned.init (cfg : Config F E W) : Reasoned cfg (init cfg) := by
  have free (x : E) : (Fiber.init cfg).fut (.ext x) = freeFut := rfl
  refine ⟨.init cfg, fun x deadline => ?_, fun g => ?_⟩
  · rw [free] at deadline
    cases deadline
  · have idle : (Fiber.init cfg).phase ≠ some g := (Option.some_ne_none g).symm
    have cont : ((Fiber.init cfg).fib g).cont ≠ .op := by
      intro op
      obtain ⟨_, fib, _⟩ | ⟨_, fib, _⟩ := init_cases cfg g
      all_goals
        rw [fib] at op
        cases op
    refine ⟨fun x cb => ?_, fun active => absurd active idle, fun op => absurd op cont, fun op => absurd op cont,
      fun op => absurd op cont⟩
    rw [free] at cb
    cases cb

theorem reasoned_invariant (fixed : cfg.Fixed) (formed : cfg.WellFormed) : (spec cfg).Invariant (Reasoned cfg) := by
  refine .of_step (fun s start => ?_) fun s t reasoned step => ?_
  · rw [show s = Fiber.init cfg from start]
    exact .init cfg
  · obtain ⟨e, step⟩ := step
    exact reasoned.next fixed formed step

end Runs

/-! ### What a wait returns -/

section Returns

variable {F E W : Type}

/-- What an operation of `f` may return after it waited: what its own future resolved with,
its cancellation, the expiry of a scope it is inside of, or nothing from a yield. -/
inductive Rightly (s : State F E W) (f : F) (v : Val) : Prop
  | own {x} (own : (s.fib f).own = some x) (kind : (s.fib f).opkind = .ext ∨ (s.fib f).opkind = .awaitf)
      (there : (s.fut x).kind ≠ .free) (resolved : (s.fut x).state = .resolved) (result : v = (s.fut x).result)
  | cancelled (state : (s.fib f).state = .cancelled) (value : v = .canceled)
  | expired {x} (scope : .ext x ∈ (s.fib f).cstack) (deadline : (s.fut (.ext x)).kind = .deadline)
      (resolved : (s.fut (.ext x)).state = .resolved) (value : v = .etime)
  | yielded (kind : (s.fib f).opkind = .yield) (value : v = .ok)

variable {cfg : Config F E W} {s t : State F E W} {f g : F} {e : Event F} {v : Val}

theorem Called.expired (called : Called s g v) (timed : Timed s) (late : s.ByDeadline g) :
    ∃ x, .ext x ∈ (s.fib g).cstack ∧ (s.fut (.ext x)).kind = .deadline ∧ (s.fut (.ext x)).state = .resolved ∧ v = .etime := by
  cases called with
  | @future y src _ resolved result
  rw [State.ByDeadline, src] at late
  obtain ⟨scope, deadline⟩ := late
  cases y with
  | fiber | wait => exact deadline.elim
  | ext x => exact ⟨x, scope, deadline, resolved, result.symm.trans ((timed x deadline).2 resolved)⟩

/-- A fiber that yields or is bare of a future is woken by its deadlines only. -/
theorem Called.byDeadline (called : Called s g v) (core : Core cfg s) (calm : (s.fib g).Calm) (known : Sourced s g)
    (kind : (s.fib g).opkind ≠ .ext) : s.ByDeadline g := by
  cases called with
  | @future y src cb
  have owned : y ∈ (s.fib g).cstack := calm.owned ▸ core.owned_of cb
  rw [State.ByDeadline, src]
  cases y with
  | fiber k => exact absurd rfl (core.not_fiber (g := k) cb)
  | wait w => exact absurd owned (calm.2 w)
  | ext x => exact ⟨owned, (known.scopes x cb).resolve_right fun waits => kind waits.2.1⟩

/-- Why a fiber runs on in a wait for nothing of its own. -/
theorem Reasoned.paused (reasoned : Reasoned cfg s) (running : s.phase = some f) (op : (s.fib f).cont = .op)
    (kind : (s.fib f).opkind ≠ .ext ∧ (s.fib f).opkind ≠ .awaitf) :
    (s.fib f).wakeSrc = .cancel ∧ (s.fib f).state = .cancelled ∧ (s.fib f).wakeVal = .canceled ∨
      ((s.fib f).wakeSrc = .none ∧ (s.fib f).wakeVal = .ok ∧ (s.fib f).opkind = .yield) ∨
      s.ByDeadline f ∧ ∃ x, .ext x ∈ (s.fib f).cstack ∧ (s.fut (.ext x)).kind = .deadline ∧
        (s.fut (.ext x)).state = .resolved ∧ (s.fib f).wakeVal = .etime := by
  have known := reasoned.known f
  refine (known.woken op running).imp_right fun rest => rest.imp_right fun called => ?_
  have late := called.byDeadline reasoned.sane.core ((reasoned.sane.plan f).doing.pauses op kind) known kind.1
  exact ⟨late, called.expired reasoned.timed late⟩

/-- A fiber that was resumed sees no wakeup that is none of its business. -/
theorem Reasoned.sees [DecidableEq F] [DecidableEq E] [DecidableEq W] (reasoned : Reasoned cfg s) (sees : Sees s t f) : t.flags = s.flags := by
  obtain ⟨running, op, rest⟩ := sees
  obtain ⟨kind, flags⟩ | ⟨kind, ext, awaitf, flags⟩ := rest
  · have paused := reasoned.paused running op (by rw [kind]; decide)
    have legit : s.Legit f := by
      obtain ⟨cancel, _⟩ | ⟨none, _, yields⟩ | ⟨late, _⟩ := paused
      · exact .inl cancel
      · exact .inr (.inr (.inl ⟨yields, none⟩))
      · exact .inr (.inl late)
    have value : (s.fib f).wakeVal = .ok ∨ (s.fib f).wakeVal = .canceled ∨ (s.fib f).wakeVal = .etime ∧ s.ByDeadline f := by
      obtain ⟨_, _, canceled⟩ | ⟨_, ok, _⟩ | ⟨late, _, _, _, _, etime⟩ := paused
      · exact .inr (.inl canceled)
      · exact .inl ok
      · exact .inr (.inr ⟨etime, late⟩)
    rw [flags, yielded, if_pos value, noticed, if_pos legit]
  · have legit : s.Legit f := by
      obtain ⟨cancel, _⟩ | ⟨_, _, yields⟩ | ⟨late, _⟩ := reasoned.paused running op ⟨ext, awaitf⟩
      · exact .inl cancel
      · exact absurd yields kind
      · exact .inr (.inl late)
    rw [flags, noticed, if_pos legit]

/-- The future that an operation waits for is there. -/
theorem Doing.there {x : Id F E W} (doing : Doing s.fut (s.fib f)) (core : Core cfg s) (op : (s.fib f).cont = .op)
    (kind : (s.fib f).opkind = .ext ∨ (s.fib f).opkind = .awaitf) (own : (s.fib f).own = some x) : (s.fut x).kind ≠ .free := by
  obtain ⟨y, rest, ext, opfut, top, calm⟩ | ⟨w, k, rest, await, opfut, goal, top, none, calm, target⟩ := doing.awaits op kind
  · rw [Fib.own, if_pos ext] at own
    obtain rfl : .ext y = x := Option.some.inj (opfut.symm.trans own)
    have owned : .ext y ∈ (s.fib f).owned := calm.owned ▸ top ▸ List.mem_cons_self
    have cb : (s.fut (.ext y)).cb = some f := (core.scopes.mem f (.ext y)).mp owned
    intro free
    exact core.not_free_ext free cb rfl
  · rw [Fib.own, if_neg (by rw [await]; decide), goal] at own
    obtain rfl : .fiber k = x := Option.some.inj own
    have held := (core.held_of_target target).1
    intro free
    have there := (core.alive k (core.alive_of_held held)).kind
    cases there.symm.trans free

variable [DecidableEq F] [DecidableEq E] [DecidableEq W]

theorem Reasoned.returns (reasoned : Reasoned cfg s) {o : Origin F} (step : Acts cfg s f (.returns g v o) t) :
    g = f ∧ Rightly s f v := by
  have known := reasoned.known f
  cases step with
  | resumed running op kind flagged decided =>
    refine ⟨rfl, ?_⟩
    obtain ⟨_, cancelled, canceled⟩ | ⟨_, ok, yields⟩ | ⟨_, x, scope, deadline, resolved, etime⟩ := reasoned.paused running op kind
    · exact .cancelled cancelled canceled
    · exact .yielded yields ok
    · exact .expired scope deadline resolved etime
  | awaited running op kind ends decided =>
    refine ⟨rfl, ?_⟩
    have woken := known.woken op running
    cases ends with
    | cancelled cancel =>
      obtain ⟨_, cancelled, _⟩ | ⟨none, _⟩ | ⟨src, _⟩ := woken
      · exact .cancelled cancelled rfl
      · cases none.symm.trans cancel
      · cases src.symm.trans cancel
    | done own resolved other =>
      exact .own own kind ((reasoned.sane.plan f).doing.there reasoned.sane.core op kind own) resolved rfl
    | expired late other =>
      obtain ⟨cancel, _⟩ | ⟨none, _⟩ | called := woken
      · exact absurd cancel other
      · rw [State.ByDeadline, none] at late
        exact late.elim
      · obtain ⟨x, scope, deadline, resolved, etime⟩ := called.expired reasoned.timed late
        exact .expired scope deadline resolved etime

/-- A wait only ends for its own reasons. -/
theorem waits_end_rightly (fixed : cfg.Fixed) (formed : cfg.WellFormed) :
    (spec cfg).Invariant fun s => NoSpuriousWakeup s ∧ YieldReturnsZeroOrCanceled s ∧
      ∀ f v o t, Next cfg s (.returns f v o) t → Rightly s f v := by
  have reasoned := reasoned_invariant fixed formed
  have clear : (spec cfg).Invariant fun s => s.flags = (false, false) := by
    refine reasoned.relative (fun s start => ?_) fun s t before _ none step => ?_
    · rw [show s = Fiber.init cfg from start]
      rfl
    · obtain ⟨e, step⟩ := step
      obtain same | ⟨f, sees⟩ := step.flags fixed
      · exact same.trans none
      · exact (before.sees sees).trans none
  intro s reached
  have none := clear s reached
  refine ⟨congrArg Prod.fst none, congrArg Prod.snd none, fun f v o t step => ?_⟩
  obtain ⟨g, acts⟩ | ⟨quiet, _⟩ := step.cases fixed
  · obtain ⟨rfl, rightly⟩ := (reasoned s reached).returns acts
    exact rightly
  · cases quiet

/-- The fiber waits on the loop beside its child and is woken by what it waited for. -/
def answering : List (Move (Fin 2) (Fin 2) (Fin 1)) :=
  [.dispatch (some (.fiber 0)), .spawn 0 false false, .awaitExt 0 false, .fire 0, .dispatch (some (.fiber 1)),
    .awaitExt 1 false, .dispatch (some (.ext 0)), .dispatch (some (.fiber 0)), .continueOp 0 false]

theorem pair_ends : ∃ s t : State (Fin 2) (Fin 2) (Fin 1), (spec pair).Reachable s ∧ NoSpuriousWakeup s ∧
    YieldReturnsZeroOrCanceled s ∧ Next pair s (.returns 0 .ok .own) t ∧ Rightly s 0 .ok := by
  have run : ((replay pair (init pair) answering).map fun steps => decide (steps.length = 9 ∧
      eventAt steps 8 = .returns 0 .ok .own)) = some true := by decide +kernel
  obtain ⟨steps, replayed, known⟩ := Option.map_eq_some_iff.mp run
  obtain ⟨length, returns⟩ := of_decide_eq_true known
  have trace : Trace pair 9 (stateAt (init pair) steps) (eventAt steps) :=
    ⟨rfl, fun i inside => replay_next replayed i (by omega)⟩
  have reached := trace.run.reachable 8 (by decide)
  have step := trace.next 8 (by decide)
  rw [returns] at step
  obtain ⟨spurious, yields, rightly⟩ := waits_end_rightly ⟨rfl, rfl, rfl, rfl, rfl, rfl, rfl⟩ pair_wellFormed _ reached
  exact ⟨_, _, reached, spurious, yields, step, rightly _ _ _ _ step⟩

end Returns

end LinuxTla.Fiber
