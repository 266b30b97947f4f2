import Mathlib.Data.Finset.Card
import Mathlib.Data.Int.Order.Basic
import Mathlib.Tactic.DeriveFintype

/-! `Fiber.tla`: fibers, the futures they create, and the primitives of fiber.c and
sd-future.c as state transformers. -/

namespace LinuxTla.Fiber

/-- The operations fibers may use. -/
inductive Op
  | yield | ext | spawn | spawnfl | awaitf | cancel | exit | tobegin | toend | bare
deriving DecidableEq, Repr

/-- `FiberOrder`, `ExtOrder` and `WaitOrder` list the ids in allocation order.
`waiterOrder` is the order a set of waiters is resolved in, which the source leaves open. -/
structure Config (F E W : Type) where
  fiberOrder : List F
  topLevel : Finset F
  floatingTop : Finset F
  extOrder : List E
  waitOrder : List W
  waiterOrder : Finset W → List W
  prio : F → ℤ
  budget : ℕ
  ops : Finset Op
  mainMayExit : Bool
  mainMayCancel : Bool
  mainCancelMax : ℕ
  exitOnIdle : Bool
  allowIgnoreErrors : Bool
  childMayFail : Bool
  fixFreePending : Bool
  fixCwuLoop : Bool
  fixExitArmed : Bool
  fixRecancel : Bool
  fixStickyError : Bool
  fixNoChildTrampoline : Bool
  fixAwaitLoop : Bool

structure Config.Fixed {F E W : Type} (cfg : Config F E W) : Prop where
  freePending : cfg.fixFreePending = true
  cwuLoop : cfg.fixCwuLoop = true
  exitArmed : cfg.fixExitArmed = true
  recancel : cfg.fixRecancel = true
  stickyError : cfg.fixStickyError = true
  noChildTrampoline : cfg.fixNoChildTrampoline = true
  awaitLoop : cfg.fixAwaitLoop = true

/-- What the source assumes of its constants. -/
structure Config.WellFormed {F E W : Type} (cfg : Config F E W) : Prop where
  top : ∀ g ∈ cfg.topLevel, g ∈ cfg.fiberOrder
  floating : cfg.floatingTop ⊆ cfg.topLevel
  waiters : ∀ ws w, w ∈ cfg.waiterOrder ws ↔ w ∈ ws

/-- A return value: 0, -ECANCELED, -ETIME or another error. -/
inductive Val
  | ok | canceled | etime | efail
deriving DecidableEq, Repr

inductive Id (F E W : Type)
  | fiber (g : F)
  | ext (x : E)
  | wait (w : W)
deriving DecidableEq, Repr

inductive Source (F E W : Type)
  | none
  | cancel
  | future (x : Id F E W)
deriving DecidableEq, Repr

inductive Kind
  | free | fiber | ext | deadline | wait
deriving DecidableEq, Repr

inductive FutState
  | pending | resolved
deriving DecidableEq, Repr

/-- A future. `cb` is the fiber resumed on resolution, `held` whether the handle
reference is still held. -/
structure Fut (F W : Type) where
  kind : Kind
  state : FutState
  result : Val
  cb : Option F
  waiters : Finset W
  target : Option F
  srcOn : Bool
  fired : Bool
  obsIter : Option ℕ
  prio : ℤ
  held : Bool
  fireResult : Val
  dropped : Bool
deriving DecidableEq

section Futures

variable {F W : Type}

def freeFut : Fut F W where
  kind := .free
  state := .resolved
  result := .ok
  cb := none
  waiters := ∅
  target := none
  srcOn := false
  fired := false
  obsIter := none
  prio := 0
  held := false
  fireResult := .ok
  dropped := false

def fiberFut (cb : Option F) (held : Bool) : Fut F W :=
  { (freeFut : Fut F W) with kind := .fiber, state := .pending, cb := cb, held := held }

def extFut (kind : Kind) (cb : F) (prio : ℤ) (fr : Val) : Fut F W :=
  { (freeFut : Fut F W) with
    kind := kind, state := .pending, cb := some cb, srcOn := true, prio := prio, held := true, fireResult := fr }

def waitFut (cb target : F) : Fut F W :=
  { (freeFut : Fut F W) with kind := .wait, state := .pending, cb := some cb, target := some target, held := true }

end Futures

/-- FiberState of fiber.c, an unused slot and a freed fiber. -/
inductive FibState
  | none | initial | ready | suspended | cancelled | completed | freed
deriving DecidableEq, Repr

inductive Creator (F : Type)
  | none
  | main
  | fiber (g : F)
deriving DecidableEq, Repr

inductive Mode
  | normal | unwind
deriving DecidableEq, Repr

inductive After
  | ret | block
deriving DecidableEq, Repr

inductive Cont
  | none | op | cwu
deriving DecidableEq, Repr

inductive OpKind
  | none | yield | ext | awaitf | bare
deriving DecidableEq, Repr

/-- A fiber. `cstack` holds the futures its scopes own, the top first. -/
structure Fib (F E W : Type) where
  state : FibState
  result : Val
  deferOn : Bool
  deferIter : ℕ
  exitOn : Bool
  floating : Bool
  creator : Creator F
  prio : ℤ
  budget : ℕ
  cstack : List (Id F E W)
  mode : Mode
  unwindTo : ℕ
  after : After
  retval : Val
  cont : Cont
  opkind : OpKind
  opfut : Option (Id F E W)
  optarget : Option F
  cwuWait : Option W
  wakeVal : Val
  wakeSrc : Source F E W
  pendingVal : Val
  swallowedVal : Val
deriving DecidableEq

def noFib {F E W : Type} : Fib F E W where
  state := .none
  result := .ok
  deferOn := false
  deferIter := 0
  exitOn := false
  floating := false
  creator := .none
  prio := 0
  budget := 0
  cstack := []
  mode := .normal
  unwindTo := 0
  after := .ret
  retval := .ok
  cont := .none
  opkind := .none
  opfut := none
  optarget := none
  cwuWait := none
  wakeVal := .ok
  wakeSrc := .none
  pendingVal := .ok
  swallowedVal := .ok

/-- The assertions of fiber.c and sd-future.c, and a freed future that is touched. -/
inductive Crash
  | resumeOfFreedFiber | freeOfPendingFuture | fiberFreeWithLiveStack | fiberRunBadState
deriving DecidableEq, Repr

/-- `phase` is the running fiber, `exiting` that it is driven by its exit source. -/
structure State (F E W : Type) where
  fib : F → Fib F E W
  fut : Id F E W → Fut F W
  phase : Option F
  exiting : Bool
  exitReq : Bool
  finished : Bool
  iter : ℕ
  mainCancels : ℕ
  crash : Option Crash
  spurious : Bool
  badYield : Bool
  lostCancel : Bool

variable {F E W : Type} [DecidableEq F] [DecidableEq E] [DecidableEq W] (cfg : Config F E W)

def newFib (creator : Creator F) (prio : ℤ) (fl exitOn : Bool) (iter : ℕ) : Fib F E W :=
  { noFib with
    state := .initial, deferOn := true, deferIter := iter, exitOn := exitOn, floating := fl, creator := creator,
    prio := prio, budget := cfg.budget }

namespace State

variable (s : State F E W)

@[simps] def setFib (g : F) (h : Fib F E W → Fib F E W) : State F E W :=
  { s with fib := Function.update s.fib g (h (s.fib g)) }

@[simps] def setFut (x : Id F E W) (h : Fut F W → Fut F W) : State F E W :=
  { s with fut := Function.update s.fut x (h (s.fut x)) }

def Alive (g : F) : Prop := (s.fib g).state ≠ .none ∧ (s.fib g).state ≠ .freed

instance (g : F) : Decidable (s.Alive g) := inferInstanceAs (Decidable (_ ∧ _))

def crashed (why : Crash) : State F E W := { s with crash := s.crash.or (some why) }

/-- n_ref: the handle, the floating self-reference, and one for each wait future. -/
def refs (x : Id F E W) : ℕ :=
  (if (s.fut x).held then 1 else 0) +
    (match x with
      | .fiber g => (if (s.fib g).floating then 1 else 0) +
          (cfg.waitOrder.toFinset.filter fun w =>
            (s.fut (.wait w)).kind = .wait ∧ (s.fut (.wait w)).target = some g).card
      | _ => 0)

end State

/-! ### Resuming and resolving -/

/-- sd_event_source_set_enabled(fiber_current_event_source(g), SD_EVENT_ONESHOT) -/
def arm (s : State F E W) (g : F) : State F E W :=
  s.setFib g fun b =>
    { b with deferOn := b.deferOn || !s.exiting, exitOn := b.exitOn || s.exiting || cfg.fixExitArmed }

/-- An io, timer or deadline id whose future is a deadline. -/
def State.IsDeadline (s : State F E W) : Id F E W → Prop
  | .ext x => (s.fut (.ext x)).kind = .deadline
  | _ => False

instance (s : State F E W) (x : Id F E W) : Decidable (s.IsDeadline x) :=
  match x with
  | .ext x => inferInstanceAs (Decidable ((s.fut (.ext x)).kind = .deadline))
  | .fiber _ => isFalse id
  | .wait _ => isFalse id

/-- sd_fiber_resume(g, v), reached from future `src`: only a suspended fiber is resumed,
everything else drops the result. -/
def resume (s : State F E W) (g : F) (v : Val) (src : Id F E W) : State F E W :=
  if (s.fut (.fiber g)).kind ≠ .fiber then s.crashed .resumeOfFreedFiber
  else if (s.fib g).state = .suspended then
    arm cfg (s.setFib g fun b => { b with state := .ready, result := v, wakeSrc := .future src }) g
  else if cfg.fixStickyError = true ∧ (s.fib g).state = .ready ∧ s.phase ≠ some g ∧ (s.fib g).result = .ok ∧ v ≠ .ok then
    s.setFib g fun b => { b with result := v, wakeSrc := .future src }
  else if s.IsDeadline src ∧ (s.fib g).state = .ready then s.setFut src fun u => { u with dropped := true }
  else s

def callback (s : State F E W) (cb : Option F) (v : Val) (src : Id F E W) : State F E W :=
  match cb with
  | none => s
  | some g => resume cfg s g v src

def resolveWaiter (v : Val) (s : State F E W) (w : W) : State F E W :=
  callback cfg (s.setFut (.wait w) fun u => { u with state := .resolved, result := v }) (s.fut (.wait w)).cb v (.wait w)

def resolveWaiters (s : State F E W) (ws : Finset W) (v : Val) : State F E W :=
  (cfg.waiterOrder ws).foldl (resolveWaiter cfg v) s

/-- sd_future_resolve(x, v): the callback first, then every wait future on `x`. -/
def resolveFut (s : State F E W) (x : Id F E W) (v : Val) : State F E W :=
  if (s.fut x).state ≠ .pending then s
  else
    let s1 := s.setFut x fun u => { u with state := .resolved, result := v, waiters := ∅ }
    resolveWaiters cfg (callback cfg s1 (s.fut x).cb v x) (s.fut x).waiters v

/-! ### References -/

/-- sd_future_free() of a future that is not a wait future and whose last reference went
away; fiber_free() insists that the stack is unwound. -/
def freeOther (s : State F E W) (x : Id F E W) : State F E W :=
  if (s.fut x).state = .pending ∧ cfg.fixFreePending = false then s.crashed .freeOfPendingFuture
  else
    let s1 := resolveFut cfg s x .canceled
    match x with
    | .fiber g =>
      let s2 := if (s1.fib g).state = .initial ∨ (s1.fib g).state = .completed then s1
        else s1.crashed .fiberFreeWithLiveStack
      (s2.setFut (.fiber g) fun _ => freeFut).setFib g fun b =>
        { b with state := .freed, deferOn := false, exitOn := false, floating := false }
    | _ => s1.setFut x fun _ => freeFut

def maybeFreeOther (s : State F E W) (x : Id F E W) : State F E W :=
  if s.refs cfg x = 0 then freeOther cfg s x else s

/-- A waiter leaves the set of its target. -/
def Fut.leave (w : W) (u : Fut F W) : Fut F W := { u with waiters := u.waiters.erase w }

/-- wait_future_free(): leave the target's waiter set, drop the reference on it. -/
def freeWait (s : State F E W) (w : W) : State F E W :=
  match (s.fut (.wait w)).target with
  | none => s.setFut (.wait w) fun _ => freeFut
  | some t =>
    let s1 := s.setFut (.fiber t) (Fut.leave w)
    maybeFreeOther cfg (s1.setFut (.wait w) fun _ => freeFut) (.fiber t)

/-- sd_future_unref() of the handle. -/
def unref (s : State F E W) (x : Id F E W) : State F E W :=
  let s1 := s.setFut x fun u => { u with held := false }
  if 0 < s1.refs cfg x then s1
  else
    match x with
    | .wait w => freeWait cfg s1 w
    | _ => freeOther cfg s1 x

/-- fiber_resolve(): the floating self-reference is dropped after the resolution. -/
def completeFiber (s : State F E W) (g : F) (v : Val) : State F E W :=
  let s1 := s.setFib g fun b => { b with state := .completed, result := v, deferOn := false, exitOn := false }
  let s2 := resolveFut cfg s1 (.fiber g) v
  maybeFreeOther cfg (s2.setFib g fun b => { b with floating := false }) (.fiber g)

/-! ### Cancelling -/

def cancel (s : State F E W) (g : F) : State F E W :=
  if (s.fut (.fiber g)).kind ≠ .fiber ∨ (s.fut (.fiber g)).state = .resolved ∨ (s.fib g).state = .completed ∨
      (s.fib g).state = .cancelled then s
  else if (s.fib g).state = .initial then completeFiber cfg s g .canceled
  else
    s.setFib g fun b =>
      { b with
        state := .cancelled
        deferOn := b.deferOn || !s.exiting
        exitOn := b.exitOn || s.exiting || cfg.fixExitArmed }

/-- The event source is gone, or the waiter leaves its target. -/
def detach (s : State F E W) (x : Id F E W) : State F E W :=
  match x with
  | .wait w =>
    match (s.fut (.wait w)).target with
    | none => s
    | some t => s.setFut (.fiber t) (Fut.leave w)
  | _ => s.setFut x fun u => { u with srcOn := false, fired := false, obsIter := none }

/-- io_future_cancel(), time_future_cancel() and wait_future_cancel(). -/
def cancelNonFiber (s : State F E W) (x : Id F E W) : State F E W :=
  if (s.fut x).state ≠ .pending then s else resolveFut cfg (detach s x) x .canceled

/-- sd_future_cancel_wait_unref() when nothing has to be waited for. -/
def cwuSync (s : State F E W) (x : Id F E W) : State F E W := unref cfg (cancelNonFiber cfg s x) x

/-! ### Running -/

/-- The tail of fiber_run() after the fiber switched out with state `ns`. -/
def switchOut (s : State F E W) (f : F) (ns : FibState) : State F E W :=
  let s1 := s.setFib f fun b => { b with state := ns, wakeSrc := .none }
  let s2 := match ns with
    | .completed => completeFiber cfg s1 f (s.fib f).retval
    | .ready | .cancelled => arm cfg s1 f
    | _ => s1
  { s2 with phase := none, exiting := false }

/-- What the pending fiber_swap() returns. The -ECANCELED return consumes a stashed value
and keeps an error for the next wait. -/
def Fib.entered (b : Fib F E W) : Fib F E W :=
  let canc := b.state = .cancelled
  let keep := canc ∧ cfg.fixRecancel = true ∧ b.result ≠ .ok ∧ b.pendingVal = .ok
  { b with
    wakeVal := if canc then .canceled else b.result
    wakeSrc := if canc then .cancel else b.wakeSrc
    result := if canc ∧ cfg.fixRecancel = false then b.result else .ok
    pendingVal := if keep then b.result else b.pendingVal }

def enter (s : State F E W) (f : F) (viaExit : Bool) : State F E W :=
  { s.setFib f (Fib.entered cfg) with phase := some f, exiting := viaExit }

end LinuxTla.Fiber
