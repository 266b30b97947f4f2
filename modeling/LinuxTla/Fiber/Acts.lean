import LinuxTla.Fiber.Effects
import LinuxTla.Fiber.Loop

/-! What one step can do when every fix is in place, one constructor for each outcome. -/

namespace LinuxTla.Fiber

section Choices

variable {F E W : Type} {cfg : Config F E W} {s : State F E W}

theorem minExt_free {x : E} (found : s.minExt cfg = some x) : (s.fut (.ext x)).kind = .free := by
  have := List.find?_some found
  simpa using this

theorem minWait_free {w : W} (found : s.minWait cfg = some w) : (s.fut (.wait w)).kind = .free := by
  have := List.find?_some found
  simpa using this

theorem minFib_free {g : F} (found : s.minFib cfg = some g) : (s.fib g).state = .none ∧ g ∈ cfg.fiberOrder := by
  have := List.find?_some found
  exact ⟨by simpa using this, List.mem_of_find?_eq_some found⟩

theorem State.stashed_iff {f : F} (fixed : cfg.Fixed) : s.Stashed cfg f ↔ (s.fib f).pendingVal ≠ .ok :=
  and_iff_right fixed.recancel

theorem Fut.pending_iff {u : Fut F W} : u.state = .pending ↔ u.state ≠ .resolved := by
  cases u.state <;> decide

theorem State.First.deferred {g : F} (first : s.First cfg (.fiber g)) : s.Deferred g := by
  obtain ⟨_, k, found, _⟩ := first
  by_contra offline
  simp only [State.key, if_neg offline, Option.mem_def, reduceCtorEq] at found

theorem State.First.online {x : E} (first : s.First cfg (.ext x)) : s.Online x := by
  obtain ⟨_, k, found, _⟩ := first
  by_contra offline
  simp only [State.key, if_neg offline, Option.mem_def, reduceCtorEq] at found

end Choices

variable {F E W : Type} [DecidableEq F] [DecidableEq E] [DecidableEq W] (cfg : Config F E W)

/-- What a fiber does with the return value of an operation. -/
inductive Decided (s : State F E W) (f : F) (v : Val) : State F E W → Prop
  | carry (fine : v = .ok ∨ cfg.allowIgnoreErrors = true) : Decided s f v (clearOp s f)
  | fail (error : v ≠ .ok) : Decided s f v (unwindTo s f 0 .ret v)

def Op.Waits (op : Op) : Prop := op = .yield ∨ op = .ext ∨ op = .awaitf ∨ op = .bare

/-- Why an awaited operation returns `v`. -/
inductive Ends (s : State F E W) (f : F) : Val → Origin F → Prop
  | cancelled (cancel : (s.fib f).wakeSrc = .cancel) : Ends s f .canceled .own
  | done {x} (own : (s.fib f).own = some x) (resolved : (s.fut x).state = .resolved)
      (other : (s.fib f).wakeSrc ≠ .cancel) : Ends s f (s.fut x).result (s.fib f).origin
  | expired (deadline : s.ByDeadline f) (other : (s.fib f).wakeSrc ≠ .cancel) : Ends s f (s.fib f).wakeVal .own

/-- The loop, its environment and main touch nothing but the flags. -/
structure Flagged (s t : State F E W) : Prop where
  rest : t = { s with spurious := t.spurious, badYield := t.badYield }

section Acts

variable (s : State F E W) (f : F)

/-- What the running fiber `f` can do. -/
inductive Acts : Event F → State F E W → Prop
  | delivered {op t} (can : s.CanOp f) (waits : op.Waits) (stashed : (s.fib f).pendingVal ≠ .ok)
      (decided : Decided cfg (deliver (spend s f) f) f (s.fib f).pendingVal t) :
      Acts (.answers f op (s.fib f).pendingVal .own) t
  | refused {op t} (can : s.CanOp f) (exiting : s.exiting = true) (decided : Decided cfg (spend s f) f .canceled t) :
      Acts (.answers f op .canceled .refused) t
  | awaitedDone {g t} (can : s.CanOp f) (handle : s.Handle cfg f g) (resolved : (s.fut (.fiber g)).state = .resolved)
      (decided : Decided cfg (spend s f) f (s.fut (.fiber g)).result t) :
      Acts (.answers f .awaitf (s.fut (.fiber g)).result (.result g)) t
  | yields (can : s.CanOp f) (none : (s.fib f).pendingVal = .ok) :
      Acts (.waits f .yield)
        (switchOut cfg ((spend s f).setFib f fun b => { b with cont := .op, opkind := .yield }) f .ready)
  | bares (can : s.CanOp f) (none : (s.fib f).pendingVal = .ok) :
      Acts (.waits f .bare)
        (switchOut cfg ((spend s f).setFib f fun b => { b with cont := .op, opkind := .bare }) f .suspended)
  | waitsExt {x} (can : s.CanOp f) (none : (s.fib f).pendingVal = .ok) (free : (s.fut (.ext x)).kind = .free) :
      Acts (.waits f .ext)
        (switchOut cfg
          (((spend s f).setFut (.ext x) fun _ => extFut .ext f (s.fib f).prio .ok).setFib f fun b =>
            { b with cstack := .ext x :: b.cstack, cont := .op, opkind := .ext, opfut := some (.ext x) })
          f .suspended)
  | waitsFiber {g w} (can : s.CanOp f) (handle : s.Handle cfg f g) (none : (s.fib f).pendingVal = .ok)
      (pending : (s.fut (.fiber g)).state = .pending) (free : (s.fut (.wait w)).kind = .free) :
      Acts (.waits f .awaitf)
        (switchOut cfg
          ((((spend s f).setFut (.wait w) fun _ => waitFut f g).setFut (.fiber g) fun u =>
              { u with waiters := insert w u.waiters }).setFib f fun b =>
            { b with
              cstack := .wait w :: b.cstack, cont := .op, opkind := .awaitf, opfut := some (.wait w), optarget := some g })
          f .suspended)
  | spawns {g fl} (can : s.CanOp f) (unborn : (s.fib g).state = .none) (listed : g ∈ cfg.fiberOrder) :
      Acts .quiet
        ((((spend s f).setFib g fun _ => newFib cfg (.fiber f) (cfg.prio g) fl true s.iter).setFut (.fiber g)
            fun _ => fiberFut none (!fl)).setFib f fun b => { b with cstack := if fl then b.cstack else .fiber g :: b.cstack })
  | cancels {g} (can : s.CanOp f) (handle : s.Handle cfg f g) : Acts .quiet (cancel cfg (spend s f) g)
  | exits (can : s.CanOp f) : Acts .quiet { spend s f with exitReq := true }
  | noTimeout (can : s.CanOp f) : Acts .quiet (spend s f)
  | timeout {x} (can : s.CanOp f) (free : (s.fut (.ext x)).kind = .free) :
      Acts .quiet
        (((spend s f).setFut (.ext x) fun _ => extFut .deadline f (s.fib f).prio .etime).setFib f fun b =>
          { b with cstack := .ext x :: b.cstack })
  | leavesBlock (can : s.CanOp f) :
      Acts .quiet
        (unwindTo (spend s f) f (((s.fib f).cstack.dropWhile fun x => ¬ s.IsDeadline x).length - 1) .block .ok)
  | rets (rv : Val) (can : s.CanOp f) : Acts .quiet (unwindTo s f 0 .ret rv)
  | resumed {s0 t} (running : s.Running f) (op : (s.fib f).cont = .op)
      (kind : (s.fib f).opkind ≠ .ext ∧ (s.fib f).opkind ≠ .awaitf) (flagged : Flagged s s0)
      (decided : Decided cfg s0 f (s.fib f).wakeVal t) : Acts (.returns f (s.fib f).wakeVal .own) t
  | awaited {v o t} (running : s.Running f) (op : (s.fib f).cont = .op)
      (kind : (s.fib f).opkind = .ext ∨ (s.fib f).opkind = .awaitf) (ends : Ends s f v o)
      (decided : Decided cfg (endWait cfg s f) f v t) : Acts (.returns f v o) t
  | absorbed (running : s.Running f) (op : (s.fib f).cont = .op)
      (kind : (s.fib f).opkind = .ext ∨ (s.fib f).opkind = .awaitf) (other : (s.fib f).wakeSrc ≠ .cancel)
      (pending : ∀ x, (s.fib f).own = some x → (s.fut x).state = .pending) (late : ¬ s.ByDeadline f) :
      Acts .quiet (switchOut cfg s f .suspended)
  | cwuWaits {x} (running : s.Running f) (cwu : (s.fib f).cont = .cwu) (target : (s.fib f).optarget = some x)
      (pending : (s.fut (.fiber x)).state = .pending) :
      Acts .quiet (switchOut cfg (swallow s f) f .suspended)
  | cwuEnds {x} (running : s.Running f) (cwu : (s.fib f).cont = .cwu) (target : (s.fib f).optarget = some x)
      (resolved : (s.fut (.fiber x)).state = .resolved) : Acts .quiet (endCwu cfg s f x)
  | completes (running : s.Running f) (unwinds : (s.fib f).mode = .unwind) (none : (s.fib f).cont = .none)
      (bottom : (s.fib f).cstack.length = (s.fib f).unwindTo) (ret : (s.fib f).after = .ret) :
      Acts .quiet (switchOut cfg (s.setFib f fun b => { b with mode := .normal }) f .completed)
  | blockLeft (running : s.Running f) (unwinds : (s.fib f).mode = .unwind) (none : (s.fib f).cont = .none)
      (bottom : (s.fib f).cstack.length = (s.fib f).unwindTo) (block : (s.fib f).after = .block) :
      Acts .quiet (s.setFib f fun b => { b with mode := .normal })
  | frees {x rest} (running : s.Running f) (unwinds : (s.fib f).mode = .unwind) (none : (s.fib f).cont = .none)
      (top : (s.fib f).cstack = x :: rest) (other : ∀ g, x ≠ .fiber g) : Acts .quiet (popTop (cwuSync cfg s x) f)
  | freesDone {g rest} (running : s.Running f) (unwinds : (s.fib f).mode = .unwind) (none : (s.fib f).cont = .none)
      (top : (s.fib f).cstack = .fiber g :: rest) (resolved : (s.fut (.fiber g)).state = .resolved) :
      Acts .quiet (popTop (unref cfg s (.fiber g)) f)
  | freesFresh {g rest} (running : s.Running f) (unwinds : (s.fib f).mode = .unwind) (none : (s.fib f).cont = .none)
      (top : (s.fib f).cstack = .fiber g :: rest) (pending : (s.fut (.fiber g)).state = .pending)
      (resolved : ((cancel cfg s g).fut (.fiber g)).state = .resolved) :
      Acts .quiet (popTop (unref cfg (cancel cfg s g) (.fiber g)) f)
  | cwuFast {g rest t} (running : s.Running f) (unwinds : (s.fib f).mode = .unwind) (none : (s.fib f).cont = .none)
      (top : (s.fib f).cstack = .fiber g :: rest) (callback : ((cancel cfg s g).fut (.fiber g)).cb = some f) :
      Acts .quiet t
  | cwuBegins {g w rest} (running : s.Running f) (unwinds : (s.fib f).mode = .unwind) (none : (s.fib f).cont = .none)
      (top : (s.fib f).cstack = .fiber g :: rest) (pending : (s.fut (.fiber g)).state = .pending)
      (still : ((cancel cfg s g).fut (.fiber g)).state = .pending) (free : (s.fut (.wait w)).kind = .free) :
      Acts .quiet
        (switchOut cfg
          ((((cancel cfg s g).setFut (.wait w) fun _ => waitFut f g).setFut (.fiber g) fun u =>
              { u with waiters := insert w u.waiters }).setFib f fun b =>
            { b with cont := .cwu, optarget := some g, cwuWait := some w })
          f .suspended)

def State.exits : State F E W := { s with iter := s.iter + 1, exitReq := true }

def State.waited : State F E W := { s with iter := s.iter + 1, exitReq := false }.observe cfg (s.iter + 1)

/-- What the loop, the kernel and main can do. -/
inductive Turns : State F E W → Prop
  | finishes (idle : s.phase = none) (unarmed : ∀ g ∈ cfg.fiberOrder, ¬ s.ExitArmed g) :
      Turns { s with finished := true, exitReq := true }
  | exitTurn {g} (idle : s.phase = none) (going : s.finished = false) (armed : s.ExitArmed g) :
      Turns ((exitTurn cfg s.exits g).norm cfg)
  | deferTurn {g} (idle : s.phase = none) (going : s.finished = false) (exit : s.exitReq = false) (online : s.Deferred g) :
      Turns ((deferTurn cfg (s.waited cfg) g).norm cfg)
  | extTurn {x} (idle : s.phase = none) (going : s.finished = false) (exit : s.exitReq = false) (online : s.Online x) :
      Turns ((extTurn cfg (s.waited cfg) x).norm cfg)
  | fires {x} (online : s.Online x) : Turns (s.setFut (.ext x) fun u => { u with fired := true })
  | mainExits : Turns { s with exitReq := true }
  | mainCancels {g t} (idle : s.phase = none) (going : s.finished = false) (top : g ∈ cfg.topLevel) (held : g ∉ cfg.floatingTop)
      (pending : (s.fut (.fiber g)).state = .pending) (rest : t = { cancel cfg s g with mainCancels := t.mainCancels }) :
      Turns t
  | stays : Turns s

end Acts

/-! ### Every step is one of these -/

variable {cfg} {s t : State F E W} {f : F} {e : Event F}

theorem decideOp_decided {F E W : Type} [DecidableEq F] {cfg : Config F E W} {s t : State F E W} {f : F} {ignore : Bool} {v : Val} (step : decideOp cfg s f ignore v = some t) : Decided cfg s f v t := by
  rw [decideOp] at step
  split_ifs at step with fine ignored allowed
  · cases step
    exact .carry (.inl fine)
  · cases step
    exact .fail fine
  · cases step
    exact .carry (.inr allowed)

theorem answer_decided {F E W : Type} [DecidableEq F] {cfg : Config F E W} {s t : State F E W} {f : F} {e : Event F} {op : Op} {ignore : Bool} {v : Val} {o : Origin F}
    (step : answer cfg s f op ignore v o = some (e, t)) : e = .answers f op v o ∧ Decided cfg s f v t := by
  obtain ⟨u, decided, eq⟩ := Option.map_eq_some_iff.mp step
  cases eq
  exact ⟨rfl, decideOp_decided decided⟩

theorem returned_decided {F E W : Type} [DecidableEq F] {cfg : Config F E W} {s t : State F E W} {f : F} {e : Event F}
    {ignore : Bool} {v : Val} {o : Origin F}
    (step : returned cfg s f ignore v o = some (e, t)) : e = .returns f v o ∧ Decided cfg s f v t := by
  obtain ⟨u, decided, eq⟩ := Option.map_eq_some_iff.mp step
  cases eq
  exact ⟨rfl, decideOp_decided decided⟩

theorem opYield_acts (fixed : cfg.Fixed) {ignore : Bool} (step : opYield cfg s f ignore = some (e, t)) :
    Acts cfg s f e t := by
  rw [opYield] at step
  split_ifs at step with may stashed
  · obtain ⟨rfl, decided⟩ := answer_decided step
    exact .delivered may.1 (.inl rfl) ((State.stashed_iff fixed).mp stashed) decided
  · cases step
    exact .yields may.1 (not_not.mp (mt (State.stashed_iff fixed).mpr stashed))

theorem opBare_acts (fixed : cfg.Fixed) {ignore : Bool} (step : opBare cfg s f ignore = some (e, t)) :
    Acts cfg s f e t := by
  rw [opBare] at step
  split_ifs at step with may stashed
  · obtain ⟨rfl, decided⟩ := answer_decided step
    exact .delivered may.1 (.inr (.inr (.inr rfl))) ((State.stashed_iff fixed).mp stashed) decided
  · cases step
    exact .bares may.1 (not_not.mp (mt (State.stashed_iff fixed).mpr stashed))

theorem opAwaitExt_acts (fixed : cfg.Fixed) {ignore : Bool} (step : opAwaitExt cfg s f ignore = some (e, t)) :
    Acts cfg s f e t := by
  rw [opAwaitExt] at step
  split_ifs at step with may exiting stashed
  · obtain ⟨rfl, decided⟩ := answer_decided step
    exact .refused may.1 exiting decided
  · obtain ⟨rfl, decided⟩ := answer_decided step
    exact .delivered may.1 (.inr (.inl rfl)) ((State.stashed_iff fixed).mp stashed) decided
  · obtain ⟨x, found, eq⟩ := Option.map_eq_some_iff.mp step
    cases eq
    exact .waitsExt may.1 (not_not.mp (mt (State.stashed_iff fixed).mpr stashed)) (minExt_free found)

theorem opAwaitFiber_acts (fixed : cfg.Fixed) {g : F} {ignore : Bool}
    (step : opAwaitFiber cfg s f g ignore = some (e, t)) : Acts cfg s f e t := by
  rw [opAwaitFiber] at step
  split_ifs at step with may resolved stashed
  · obtain ⟨rfl, decided⟩ := answer_decided step
    exact .awaitedDone may.1.1 may.2 resolved decided
  · obtain ⟨rfl, decided⟩ := answer_decided step
    exact .delivered may.1.1 (.inr (.inr (.inl rfl))) ((State.stashed_iff fixed).mp stashed) decided
  · obtain ⟨w, found, eq⟩ := Option.map_eq_some_iff.mp step
    cases eq
    exact .waitsFiber may.1.1 may.2 (not_not.mp (mt (State.stashed_iff fixed).mpr stashed))
      (Fut.pending_iff.mpr resolved) (minWait_free found)

theorem opSpawn_acts (fixed : cfg.Fixed) {fl ignore : Bool} (step : opSpawn cfg s f fl ignore = some (e, t)) :
    Acts cfg s f e t := by
  rw [opSpawn, fixed.exitArmed, fixed.noChildTrampoline, if_pos rfl] at step
  by_cases may : s.May cfg f (if fl then .spawnfl else .spawn)
  · rw [if_neg (not_not_intro may)] at step
    by_cases exiting : s.exiting = true
    · rw [if_pos exiting] at step
      obtain ⟨rfl, decided⟩ := answer_decided step
      exact .refused may.1 exiting decided
    · rw [if_neg exiting] at step
      obtain ⟨g, found, eq⟩ := Option.map_eq_some_iff.mp step
      cases eq
      exact .spawns may.1 (minFib_free found).1 (minFib_free found).2
  · rw [if_pos may] at step
    cases step

theorem opCancel_acts {g : F} (step : opCancel cfg s f g = some (e, t)) : Acts cfg s f e t := by
  rw [opCancel] at step
  split_ifs at step with may
  cases step
  exact .cancels may.1.1 may.2.1

theorem opExit_acts (step : opExit cfg s f = some (e, t)) : Acts cfg s f e t := by
  rw [opExit] at step
  split_ifs at step with may
  cases step
  exact .exits may.1.1

theorem opTimeoutBegin_acts (step : opTimeoutBegin cfg s f = some (e, t)) : Acts cfg s f e t := by
  rw [opTimeoutBegin] at step
  split_ifs at step with may exiting
  · cases step
    exact .noTimeout may.1
  · obtain ⟨x, found, eq⟩ := Option.map_eq_some_iff.mp step
    cases eq
    exact .timeout may.1 (minExt_free found)

theorem opTimeoutEnd_acts (step : opTimeoutEnd cfg s f = some (e, t)) : Acts cfg s f e t := by
  rw [opTimeoutEnd] at step
  split_ifs at step with may
  cases step
  exact .leavesBlock may.1.1

theorem opReturn_acts {rv : Val} (step : opReturn cfg s f rv = some (e, t)) : Acts cfg s f e t := by
  rw [opReturn] at step
  split_ifs at step with may
  cases step
  exact .rets rv may.1

theorem continueAwait_acts (fixed : cfg.Fixed) {ignore : Bool} (running : s.Running f) (op : (s.fib f).cont = .op)
    (kind : (s.fib f).opkind = .ext ∨ (s.fib f).opkind = .awaitf)
    (step : continueAwait cfg s f ignore = some (e, t)) : Acts cfg s f e t := by
  rw [continueAwait, if_neg (by rw [fixed.awaitLoop]; nofun)] at step
  split_ifs at step with cancel done late
  · obtain ⟨rfl, decided⟩ := returned_decided step
    exact .awaited running op kind (.cancelled cancel) decided
  · obtain ⟨rfl, decided⟩ := returned_decided step
    obtain ⟨x, own, resolved⟩ := done
    rw [Option.mem_def.mp own] at decided ⊢
    exact .awaited running op kind (.done own resolved cancel) decided
  · obtain ⟨rfl, decided⟩ := returned_decided step
    exact .awaited running op kind (.expired late cancel) decided
  · cases step
    exact .absorbed running op kind cancel (fun x own => Fut.pending_iff.mpr fun resolved => done ⟨x, own, resolved⟩) late

theorem noticed_flagged (s : State F E W) (f : F) : Flagged s (noticed s f) := by
  rw [noticed]
  split <;> exact ⟨rfl⟩

theorem yielded_flagged (s : State F E W) (f : F) : Flagged s (yielded s f) := by
  have := (noticed_flagged s f).rest
  rw [yielded]
  split
  · exact ⟨this⟩
  · refine ⟨?_⟩
    rw [this]

theorem continueOp_acts (fixed : cfg.Fixed) {ignore : Bool} (step : continueOp cfg s f ignore = some (e, t)) :
    Acts cfg s f e t := by
  rw [continueOp] at step
  split_ifs at step with resumed
  cases kind : (s.fib f).opkind with
  | ext =>
    rw [kind] at step
    exact continueAwait_acts fixed resumed.1 resumed.2 (.inl kind) step
  | awaitf =>
    rw [kind] at step
    exact continueAwait_acts fixed resumed.1 resumed.2 (.inr kind) step
  | yield =>
    rw [kind] at step
    obtain ⟨rfl, decided⟩ := returned_decided step
    exact .resumed resumed.1 resumed.2 (by rw [kind]; decide) (yielded_flagged s f) decided
  | none =>
    rw [kind] at step
    obtain ⟨rfl, decided⟩ := returned_decided step
    exact .resumed resumed.1 resumed.2 (by rw [kind]; decide) (noticed_flagged s f) decided
  | bare =>
    rw [kind] at step
    obtain ⟨rfl, decided⟩ := returned_decided step
    exact .resumed resumed.1 resumed.2 (by rw [kind]; decide) (noticed_flagged s f) decided

theorem continueCwu_acts (fixed : cfg.Fixed) (step : continueCwu cfg s f = some (e, t)) : Acts cfg s f e t := by
  rw [continueCwu] at step
  split_ifs at step with resumed
  obtain ⟨x, target, eq⟩ := Option.map_eq_some_iff.mp step
  by_cases pending : (s.fut (.fiber x)).state = .pending
  · rw [if_pos ⟨fixed.cwuLoop, pending⟩] at eq
    cases eq
    exact .cwuWaits resumed.1 resumed.2 target pending
  · rw [if_neg fun both => pending both.2] at eq
    cases eq
    exact .cwuEnds resumed.1 resumed.2 target (not_not.mp (mt Fut.pending_iff.mpr pending))

theorem unwind_acts (step : unwind cfg s f = some (e, t)) : Acts cfg s f e t := by
  rw [unwind] at step
  dsimp only at step
  split_ifs at step with unwinds bottom ret
  · cases step
    exact .completes unwinds.1 unwinds.2.1 unwinds.2.2 bottom ret
  · cases step
    refine .blockLeft unwinds.1 unwinds.2.1 unwinds.2.2 bottom ?_
    cases after : (s.fib f).after with
    | ret => exact absurd after ret
    | block => rfl
  · cases stack : (s.fib f).cstack with
    | nil =>
      rw [stack] at step
      cases step
    | cons x rest =>
      rw [stack] at step
      cases x with
      | fiber g =>
        dsimp only at step
        split_ifs at step with done fresh
        · cases step
          have sync : cwuSync cfg s (.fiber g) = unref cfg s (.fiber g) := by
            rw [cwuSync, cancelNonFiber, if_pos (by rw [done]; decide)]
          rw [sync]
          exact .freesDone unwinds.1 unwinds.2.1 unwinds.2.2 stack done
        · cases step
          exact .freesFresh unwinds.1 unwinds.2.1 unwinds.2.2 stack (Fut.pending_iff.mpr done) fresh
        · obtain ⟨u, waits, eq⟩ := Option.map_eq_some_iff.mp step
          cases eq
          rw [awaitTop] at waits
          split_ifs at waits with fast
          · cases waits
            exact .cwuFast unwinds.1 unwinds.2.1 unwinds.2.2 stack fast
          · obtain ⟨w, found, eq⟩ := Option.map_eq_some_iff.mp waits
            cases eq
            exact .cwuBegins unwinds.1 unwinds.2.1 unwinds.2.2 stack (Fut.pending_iff.mpr done)
              (Fut.pending_iff.mpr fresh) (minWait_free found)
      | ext x =>
        cases step
        exact .frees unwinds.1 unwinds.2.1 unwinds.2.2 stack fun g => (Id.fiber_ne_ext g x).symm
      | wait w =>
        cases step
        exact .frees unwinds.1 unwinds.2.1 unwinds.2.2 stack fun g => (Id.fiber_ne_wait g w).symm

theorem State.observe_online {F E W : Type} [DecidableEq E] {cfg : Config F E W} {x : E} (s : State F E W) (i : ℕ) : (s.observe cfg i).Online x ↔ s.Online x := by
  rw [Online, Online, observe]
  dsimp only
  split_ifs
  · rfl
  · rfl

theorem dispatch_turns {c : Option (Id F E W)} (step : dispatch cfg s c = some t) : Turns cfg s t := by
  unfold dispatch at step
  dsimp only at step
  split at step
  next => cases step
  next going =>
    rw [not_or, Option.not_isSome_iff_eq_none, Bool.not_eq_true] at going
    split at step
    next exit =>
      rw [exit] at step
      split at step
      next =>
        split at step
        next unarmed =>
          cases step
          exact .finishes going.1 unarmed
        next => cases step
      next =>
        split at step
        next armed =>
          cases step
          exact .exitTurn going.1 going.2 armed.2.1
        next => cases step
      next => cases step
    next stay =>
      have exit : s.exitReq = false := by
        rw [Bool.or_eq_true, not_or, Bool.not_eq_true] at stay
        exact stay.1
      rw [Bool.not_eq_true] at stay
      rw [stay] at step
      split at step
      next =>
        split at step
        next first =>
          cases step
          exact .deferTurn going.1 going.2 exit first.deferred
        next => cases step
      next =>
        split at step
        next first =>
          cases step
          exact .extTurn going.1 going.2 exit ((State.observe_online _ _).mp first.online)
        next => cases step
      next => cases step

theorem fire_turns {x : E} (step : fire cfg s x = some t) : Turns cfg s t := by
  rw [fire] at step
  split_ifs at step with may
  cases step
  exact .fires may.2.1

theorem mainExit_turns (step : mainExit cfg s = some t) : Turns cfg s t := by
  rw [mainExit] at step
  split_ifs at step
  cases step
  exact .mainExits

theorem mainCancel_turns {g : F} (step : mainCancel cfg s g = some t) : Turns cfg s t := by
  unfold mainCancel at step
  split at step
  next may =>
    obtain ⟨_, idle, going, _, ⟨top, held⟩, _, pending⟩ := may
    cases step
    exact .mainCancels idle going top held pending rfl
  next => cases step

/-- Every step is an action of the running fiber or a turn of the loop. -/
theorem Next.cases (fixed : cfg.Fixed) (step : Next cfg s e t) : (∃ f, Acts cfg s f e t) ∨ e = .quiet ∧ Turns cfg s t := by
  have turn {o : Option (State F E W)} (turns : ∀ u, o = some u → Turns cfg s u)
      (step : (o.map fun u => (Event.quiet, u)) = some (e, t)) : e = .quiet ∧ Turns cfg s t := by
    obtain ⟨u, found, eq⟩ := Option.map_eq_some_iff.mp step
    cases eq
    exact ⟨rfl, turns _ found⟩
  obtain ⟨move, step⟩ := step
  cases move with
  | yield f ignore => exact .inl ⟨f, opYield_acts fixed step⟩
  | awaitExt f ignore => exact .inl ⟨f, opAwaitExt_acts fixed step⟩
  | spawn f fl ignore => exact .inl ⟨f, opSpawn_acts fixed step⟩
  | awaitFiber f g ignore => exact .inl ⟨f, opAwaitFiber_acts fixed step⟩
  | cancel f g => exact .inl ⟨f, opCancel_acts step⟩
  | exit f => exact .inl ⟨f, opExit_acts step⟩
  | timeoutBegin f => exact .inl ⟨f, opTimeoutBegin_acts step⟩
  | timeoutEnd f => exact .inl ⟨f, opTimeoutEnd_acts step⟩
  | bare f ignore => exact .inl ⟨f, opBare_acts fixed step⟩
  | ret f rv => exact .inl ⟨f, opReturn_acts step⟩
  | continueOp f ignore => exact .inl ⟨f, continueOp_acts fixed step⟩
  | continueCwu f => exact .inl ⟨f, continueCwu_acts fixed step⟩
  | unwind f => exact .inl ⟨f, unwind_acts step⟩
  | dispatch c => exact .inr (turn (fun _ => dispatch_turns) step)
  | fire x => exact .inr (turn (fun _ => fire_turns) step)
  | mainExit => exact .inr (turn (fun _ => mainExit_turns) step)
  | mainCancel g => exact .inr (turn (fun _ => mainCancel_turns) step)
  | done =>
    rw [perform] at step
    split_ifs at step
    cases step
    exact .inr ⟨rfl, .stays⟩

end LinuxTla.Fiber
