import LinuxTla.Fiber.Basic

/-! The programs of the fibers, one function for each action. `none` says that the action
is not enabled. -/

namespace LinuxTla.Fiber

/-- Where the value of an operation comes from: the fiber was woken or had a value
stashed, the loop is exiting and refuses, a fiber it awaits is done. -/
inductive Origin (F : Type)
  | own
  | refused
  | result (g : F)
deriving DecidableEq, Repr

/-- What a step shows of an operation: it makes the fiber wait, it returns at once, or it
returns after the wait. -/
inductive Event (F : Type)
  | quiet
  | waits (f : F) (op : Op)
  | answers (f : F) (op : Op) (v : Val) (o : Origin F)
  | returns (f : F) (v : Val) (o : Origin F)
deriving DecidableEq, Repr

variable {F E W : Type} [DecidableEq F] [DecidableEq E] [DecidableEq W] (cfg : Config F E W)

namespace State

variable (s : State F E W) (f : F)

/-- `FreeExt`, `FreeWaitIds` and `FreeFibs`: the first free id. -/
def minExt : Option E := cfg.extOrder.find? fun x => (s.fut (.ext x)).kind = .free
def minWait : Option W := cfg.waitOrder.find? fun w => (s.fut (.wait w)).kind = .free
def minFib : Option F := cfg.fiberOrder.find? fun g => (s.fib g).state = .none

def Running : Prop := s.phase = some f

instance : Decidable (s.Running f) := inferInstanceAs (Decidable (_ = _))

def CanOp : Prop := s.Running f ∧ (s.fib f).mode = .normal ∧ (s.fib f).cont = .none

instance : Decidable (s.CanOp f) := inferInstanceAs (Decidable (_ ∧ _))

/-- `CanOp`, the operation is one of `Ops` and there is budget for it. -/
def May (op : Op) : Prop := s.CanOp f ∧ op ∈ cfg.ops ∧ 0 < (s.fib f).budget

instance (op : Op) : Decidable (s.May cfg f op) := inferInstanceAs (Decidable (_ ∧ _))

/-- `Handles`: the children it owns and the top-level fibers main handed it. -/
def Handle (g : F) : Prop :=
  .fiber g ∈ (s.fib f).cstack ∨ g ∈ cfg.topLevel ∧ g ≠ f ∧ g ∉ cfg.floatingTop ∧ (s.fut (.fiber g)).kind = .fiber

instance (g : F) : Decidable (s.Handle cfg f g) := inferInstanceAs (Decidable (_ ∨ _))

/-- `Deadlines`: the scopes it is inside of. -/
def Deadline (x : Id F E W) : Prop := x ∈ (s.fib f).cstack ∧ s.IsDeadline x

instance (x : Id F E W) : Decidable (s.Deadline f x) := inferInstanceAs (Decidable (_ ∧ _))

def ByDeadline : Prop :=
  match (s.fib f).wakeSrc with
  | .future x => s.Deadline f x
  | _ => False

instance : Decidable (s.ByDeadline f) := by
  unfold ByDeadline
  split <;> infer_instance

/-- `Pending`: a cancellation or deadline swallowed inside cancel_wait_unref(), waiting to
be delivered by the next wait. -/
def Stashed : Prop := cfg.fixRecancel = true ∧ (s.fib f).pendingVal ≠ .ok

instance : Decidable (s.Stashed cfg f) := inferInstanceAs (Decidable (_ ∧ _))

end State

section Programs

variable (s : State F E W) (f : F)

def spend : State F E W := s.setFib f fun b => { b with budget := b.budget - 1 }

def deliver : State F E W := s.setFib f fun b => { b with pendingVal := .ok }

def popTop : State F E W := s.setFib f fun b => { b with cstack := b.cstack.tail }

def clearOp : State F E W :=
  s.setFib f fun b => { b with cont := .none, opkind := .none, opfut := none, optarget := none }

def unwindTo (d : ℕ) (after : After) (rv : Val) : State F E W :=
  (clearOp s f).setFib f fun b => { b with mode := .unwind, unwindTo := d, after := after, retval := rv }

/-- `Decide`: propagate an error by unwinding and returning it or, if allowed, ignore it. -/
def decideOp (ignore : Bool) (v : Val) : Option (State F E W) :=
  if v = .ok then some (clearOp s f)
  else if ignore = false then some (unwindTo s f 0 .ret v)
  else if cfg.allowIgnoreErrors then some (clearOp s f)
  else none

/-- The operation returns `v` without waiting. -/
def answer (op : Op) (ignore : Bool) (v : Val) (o : Origin F) : Option (Event F × State F E W) :=
  (decideOp cfg s f ignore v).map fun t => (.answers f op v o, t)

def returned (ignore : Bool) (v : Val) (o : Origin F) : Option (Event F × State F E W) :=
  (decideOp cfg s f ignore v).map fun t => (.returns f v o, t)

/-- sd_fiber_yield() -/
def opYield (ignore : Bool) : Option (Event F × State F E W) :=
  if ¬ s.May cfg f .yield then none
  else if s.Stashed cfg f then answer cfg (deliver (spend s f) f) f .yield ignore (s.fib f).pendingVal .own
  else
    some (.waits f .yield,
      switchOut cfg ((spend s f).setFib f fun b => { b with cont := .op, opkind := .yield }) f .ready)

/-- sd_fiber_sleep(), sd_fiber_read(), bus_call_suspend(): a future on the loop. An exiting
loop refuses a new one. -/
def opAwaitExt (ignore : Bool) : Option (Event F × State F E W) :=
  if ¬ s.May cfg f .ext then none
  else if s.exiting then answer cfg (spend s f) f .ext ignore .canceled .refused
  else if s.Stashed cfg f then answer cfg (deliver (spend s f) f) f .ext ignore (s.fib f).pendingVal .own
  else (s.minExt cfg).map fun x =>
    (.waits f .ext,
      switchOut cfg
        (((spend s f).setFut (.ext x) fun _ => extFut .ext f (s.fib f).prio .ok).setFib f fun b =>
          { b with cstack := .ext x :: b.cstack, cont := .op, opkind := .ext, opfut := some (.ext x) })
        f .suspended)

/-- sd_fiber_new() on a fiber: owned, or floating. -/
def opSpawn (fl ignore : Bool) : Option (Event F × State F E W) :=
  if ¬ s.May cfg f (if fl then .spawnfl else .spawn) then none
  else if s.exiting then answer cfg (spend s f) f (if fl then .spawnfl else .spawn) ignore .canceled .refused
  else (s.minFib cfg).map fun g =>
    (.quiet,
      (((spend s f).setFib g fun _ => newFib cfg (.fiber f) (cfg.prio g) fl cfg.fixExitArmed s.iter).setFut (.fiber g)
          fun _ => fiberFut (if cfg.fixNoChildTrampoline then none else some f) (!fl)).setFib f fun b =>
        { b with cstack := if fl then b.cstack else .fiber g :: b.cstack })

/-- sd_fiber_await(g) -/
def opAwaitFiber (g : F) (ignore : Bool) : Option (Event F × State F E W) :=
  if ¬ (s.May cfg f .awaitf ∧ s.Handle cfg f g) then none
  else if (s.fut (.fiber g)).state = .resolved then
    answer cfg (spend s f) f .awaitf ignore (s.fut (.fiber g)).result (.result g)
  else if s.Stashed cfg f then answer cfg (deliver (spend s f) f) f .awaitf ignore (s.fib f).pendingVal .own
  else (s.minWait cfg).map fun w =>
    (.waits f .awaitf,
      switchOut cfg
        ((((spend s f).setFut (.wait w) fun _ => waitFut f g).setFut (.fiber g) fun u =>
            { u with waiters := insert w u.waiters }).setFib f fun b =>
          { b with
            cstack := .wait w :: b.cstack, cont := .op, opkind := .awaitf, opfut := some (.wait w), optarget := some g })
        f .suspended)

/-- sd_future_cancel(g) from a fiber. -/
def opCancel (g : F) : Option (Event F × State F E W) :=
  if s.May cfg f .cancel ∧ s.Handle cfg f g ∧ (s.fut (.fiber g)).state = .pending then
    some (.quiet, cancel cfg (spend s f) g)
  else none

/-- sd_event_exit() -/
def opExit : Option (Event F × State F E W) :=
  if s.May cfg f .exit ∧ s.exitReq = false then some (.quiet, { spend s f with exitReq := true }) else none

/-- SD_FIBER_TIMEOUT(): on an exiting loop there is no timer and the scope is a no-op. -/
def opTimeoutBegin : Option (Event F × State F E W) :=
  if ¬ s.May cfg f .tobegin then none
  else if s.exiting then some (.quiet, spend s f)
  else (s.minExt cfg).map fun x =>
    (.quiet,
      ((spend s f).setFut (.ext x) fun _ => extFut .deadline f (s.fib f).prio .etime).setFib f fun b =>
        { b with cstack := .ext x :: b.cstack })

/-- The end of an SD_FIBER_WITH_TIMEOUT() block: cleanups down to and including the
innermost timer. -/
def opTimeoutEnd : Option (Event F × State F E W) :=
  if s.May cfg f .toend ∧ ∃ x ∈ (s.fib f).cstack, s.IsDeadline x then
    some (.quiet,
      unwindTo (spend s f) f (((s.fib f).cstack.dropWhile fun x => ¬ s.IsDeadline x).length - 1) .block .ok)
  else none

/-- sd_fiber_suspend() with nothing but a cancellation or a deadline to wake it. -/
def opBare (ignore : Bool) : Option (Event F × State F E W) :=
  if ¬ s.May cfg f .bare then none
  else if s.Stashed cfg f then answer cfg (deliver (spend s f) f) f .bare ignore (s.fib f).pendingVal .own
  else
    some (.waits f .bare,
      switchOut cfg ((spend s f).setFib f fun b => { b with cont := .op, opkind := .bare }) f .suspended)

/-- The fiber function returns `rv`: the cleanups first. -/
def opReturn (rv : Val) : Option (Event F × State F E W) :=
  if s.CanOp f ∧ (rv = .ok ∨ rv = .efail ∧ cfg.childMayFail = true ∧ (s.fib f).creator ≠ .main) then
    some (.quiet, unwindTo s f 0 .ret rv)
  else none

/-- The future an operation waits for. -/
def Fib.own (b : Fib F E W) : Option (Id F E W) :=
  if b.opkind = .ext then b.opfut else b.optarget.map .fiber

def Source.ofOption : Option (Id F E W) → Source F E W
  | .none => .none
  | .some x => .future x

def State.Legit : Prop :=
  (s.fib f).wakeSrc = .cancel ∨ s.ByDeadline f ∨ ((s.fib f).opkind = .yield ∧ (s.fib f).wakeSrc = .none) ∨
    ((s.fib f).opkind ≠ .yield ∧
      ((s.fib f).wakeSrc = .ofOption (s.fib f).opfut ∨ (s.fib f).wakeSrc = .ofOption ((s.fib f).optarget.map .fiber)))

instance : Decidable (s.Legit f) := inferInstanceAs (Decidable (_ ∨ _))

def endWait : State F E W :=
  match (s.fib f).opfut with
  | none => popTop s f
  | some x => popTop (cwuSync cfg s x) f

/-- Where the result of an awaited future comes from. -/
def Fib.origin (b : Fib F E W) : Origin F :=
  match b.opkind, b.optarget with
  | .awaitf, some g => .result g
  | _, _ => .own

/-- The flag records a wakeup that the code of the fiber sees. -/
def noticed : State F E W := if s.Legit f then s else { s with spurious := true }

/-- sleep, io and await: a cancellation ends the wait loop, the resolution of its own future
ends it with that result, an expired deadline scope ends it with -ETIME, any other wakeup is
absorbed by suspending again. -/
def continueAwait (ignore : Bool) : Option (Event F × State F E W) :=
  let b := s.fib f
  if cfg.fixAwaitLoop = false then returned cfg (endWait cfg (noticed s f) f) f ignore b.wakeVal .own
  else if b.wakeSrc = .cancel then returned cfg (endWait cfg s f) f ignore .canceled .own
  else if ∃ x ∈ b.own, (s.fut x).state = .resolved then
    returned cfg (endWait cfg s f) f ignore (b.own.elim .ok fun x => (s.fut x).result) b.origin
  else if s.ByDeadline f then returned cfg (endWait cfg s f) f ignore b.wakeVal .own
  else some (.quiet, switchOut cfg s f .suspended)

/-- A yield returns 0, -ECANCELED, or the -ETIME of one of the expired deadlines of the
fiber. -/
def yielded : State F E W :=
  if (s.fib f).wakeVal = .ok ∨ (s.fib f).wakeVal = .canceled ∨ ((s.fib f).wakeVal = .etime ∧ s.ByDeadline f) then
    noticed s f
  else { noticed s f with badYield := true }

/-- The fiber was resumed inside an operation: consume the value it was resumed with. -/
def continueOp (ignore : Bool) : Option (Event F × State F E W) :=
  if ¬ (s.Running f ∧ (s.fib f).cont = .op) then none
  else
    match (s.fib f).opkind with
    | .yield => returned cfg (yielded s f) f ignore (s.fib f).wakeVal .own
    | .ext | .awaitf => continueAwait cfg s f ignore
    | _ => returned cfg (noticed s f) f ignore (s.fib f).wakeVal .own

/-- What the wait consumed that the code of the fiber should still see: its cancellation,
or the expiry of a deadline scope it is inside of (cancellation wins). -/
def swallowed : Val :=
  if (s.fib f).wakeVal = .canceled ∨ (s.fib f).swallowedVal = .canceled then .canceled
  else if (s.fib f).wakeVal = .etime ∧ s.ByDeadline f then .etime
  else (s.fib f).swallowedVal

def swallow : State F E W := s.setFib f fun b => { b with swallowedVal := swallowed s f }

/-- The cleanup wait for fiber `x` is over. -/
def endCwu (x : F) : State F E W :=
  let s1 := match (s.fib f).cwuWait with
    | none => swallow s f
    | some w => cwuSync cfg (swallow s f) (.wait w)
  let s2 := popTop (unref cfg s1 (.fiber x)) f
  { s2.setFib f fun c =>
      { c with
        cont := .none
        optarget := none
        cwuWait := none
        swallowedVal := .ok
        pendingVal := if cfg.fixRecancel = true ∧ swallowed s f ≠ .ok then swallowed s f else c.pendingVal } with
    lostCancel := s2.lostCancel || (swallowed s f = .canceled ∧ (s.fib f).after = .block ∧ cfg.fixRecancel = false) }

/-- The fiber was resumed inside sd_future_cancel_wait_unref() of a fiber it cancelled. -/
def continueCwu : Option (Event F × State F E W) :=
  if ¬ (s.Running f ∧ (s.fib f).cont = .cwu) then none
  else (s.fib f).optarget.map fun x =>
    (.quiet,
      if cfg.fixCwuLoop = true ∧ (s.fut (.fiber x)).state = .pending then switchOut cfg (swallow s f) f .suspended
      else endCwu cfg s f x)

/-- The wait for the fiber at the top of the stack: its trampoline wakes us, or the free
wait future does. -/
def awaitTop (x : F) (free : Option W) : Option (State F E W) :=
  if (s.fut (.fiber x)).cb = some f then
    some (switchOut cfg (s.setFib f fun b => { b with cont := .cwu, optarget := some x, cwuWait := none }) f .suspended)
  else free.map fun w =>
    switchOut cfg
      (((s.setFut (.wait w) fun _ => waitFut f x).setFut (.fiber x) fun u =>
          { u with waiters := insert w u.waiters }).setFib f fun b =>
        { b with cont := .cwu, optarget := some x, cwuWait := some w })
      f .suspended

/-- One cleanup of an unwinding: sd_future_cancel_wait_unref() of the top of the stack. -/
def unwind : Option (Event F × State F E W) :=
  let b := s.fib f
  if ¬ (s.Running f ∧ b.mode = .unwind ∧ b.cont = .none) then none
  else if b.cstack.length = b.unwindTo then
    let s0 := s.setFib f fun b => { b with mode := .normal }
    some (.quiet, if b.after = .ret then switchOut cfg s0 f .completed else s0)
  else
    match b.cstack with
    | [] => none
    | .fiber x :: _ =>
      if (s.fut (.fiber x)).state = .resolved then some (.quiet, popTop (cwuSync cfg s (.fiber x)) f)
      else
        let s1 := cancel cfg s x
        if (s1.fut (.fiber x)).state = .resolved then some (.quiet, popTop (unref cfg s1 (.fiber x)) f)
        else (awaitTop cfg s1 f x (s.minWait cfg)).map fun t => (.quiet, t)
    | x :: _ => some (.quiet, popTop (cwuSync cfg s x) f)

end Programs

end LinuxTla.Fiber
