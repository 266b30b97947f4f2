import LinuxTla.Fiber.Steps
import LinuxTla.Lib.Transition
import Mathlib.Data.Finset.Image

/-! The event loop, main and the kernel around the fibers, and what is checked of them. -/

namespace LinuxTla.Fiber

open Lib

variable {F E W : Type} [DecidableEq F] [DecidableEq E] [DecidableEq W] (cfg : Config F E W)

/-! ### The loop -/

/-- An io, timer or deadline future is behind the id. -/
def Fut.OnLoop {F W : Type} (u : Fut F W) : Prop := u.kind = .ext ∨ u.kind = .deadline

instance {F W : Type} (u : Fut F W) : Decidable u.OnLoop := inferInstanceAs (Decidable (_ ∨ _))

namespace State

variable (s : State F E W)

/-- `OnlineDefer` -/
def Deferred (g : F) : Prop := s.Alive g ∧ (s.fib g).deferOn = true

instance (g : F) : Decidable (s.Deferred g) := inferInstanceAs (Decidable (_ ∧ _))

def Online (x : E) : Prop := (s.fut (.ext x)).OnLoop ∧ (s.fut (.ext x)).srcOn = true

instance (x : E) : Decidable (s.Online x) := inferInstanceAs (Decidable (_ ∧ _))

/-- event_loop_idle(): no enabled source other than exit sources. -/
def Idle : Prop := (∀ g ∈ cfg.fiberOrder, ¬ s.Deferred g) ∧ ∀ x ∈ cfg.extOrder, ¬ s.Online x

instance : Decidable (s.Idle cfg) := inferInstanceAs (Decidable (_ ∧ _))

/-- The iteration a source became pending in is known. -/
def Observed (x : E) : Prop := (s.fut (.ext x)).OnLoop ∧ (s.fut (.ext x)).obsIter ≠ none

instance (x : E) : Decidable (s.Observed x) := inferInstanceAs (Decidable (_ ∧ _))

def iters : Finset ℕ :=
  insert s.iter (((cfg.fiberOrder.filter s.Alive).map fun g => (s.fib g).deferIter).toFinset ∪
    ((cfg.extOrder.filter s.Observed).filterMap fun x => (s.fut (.ext x)).obsIter).toFinset)

/-- `Norm`: the iteration numbers are renumbered densely. -/
def norm : State F E W :=
  let r v := ((s.iters cfg).filter fun u => u < v).card
  { s with
    iter := r s.iter
    fib := fun g => if g ∈ cfg.fiberOrder ∧ s.Alive g then { s.fib g with deferIter := r (s.fib g).deferIter } else s.fib g
    fut := fun x => match x with
      | .ext y => if y ∈ cfg.extOrder ∧ s.Observed y then { s.fut x with obsIter := (s.fut x).obsIter.map r } else s.fut x
      | _ => s.fut x }

def ExitArmed (g : F) : Prop := s.Alive g ∧ (s.fib g).exitOn = true

instance (g : F) : Decidable (s.ExitArmed g) := inferInstanceAs (Decidable (_ ∧ _))

/-- What fired is observed in iteration `iter`. -/
def observe (iter : ℕ) : State F E W :=
  { s with
    fut := fun x => match x with
      | .ext y => if y ∈ cfg.extOrder ∧ s.Online y ∧ (s.fut x).fired = true ∧ (s.fut x).obsIter = none
          then { s.fut x with obsIter := some iter } else s.fut x
      | _ => s.fut x }

/-- `Key` of a pending source: its priority and the iteration it became pending in. -/
def key (x : Id F E W) : Option (ℤ × ℕ) :=
  match x with
  | .fiber g => if s.Deferred g then some ((s.fib g).prio, (s.fib g).deferIter) else none
  | .ext y => if s.Online y then (s.fut x).obsIter.map fun i => ((s.fut x).prio, i) else none
  | .wait _ => none

def sources : List (Id F E W) := cfg.fiberOrder.map .fiber ++ cfg.extOrder.map .ext

/-- `x` is a pending source and none comes before it. -/
def First (x : Id F E W) : Prop :=
  x ∈ sources cfg ∧ ∃ k ∈ s.key x, ∀ y ∈ sources cfg, ∀ k' ∈ s.key y, k.1 < k'.1 ∨ (k.1 = k'.1 ∧ k.2 ≤ k'.2)

instance (x : Id F E W) : Decidable (s.First cfg x) := inferInstanceAs (Decidable (_ ∧ _))

end State

section Loop

variable (s : State F E W)

/-- fiber_on_exit(): cancel first; an already cancelled fiber is run. -/
def exitTurn (g : F) : State F E W :=
  let s1 := { s.setFib g fun b => { b with exitOn := false } with exiting := true }
  if (s.fib g).state = .completed then { s1 with exiting := false }
  else if (s.fib g).state ≠ .cancelled then { cancel cfg s1 g with exiting := false }
  else enter cfg s1 g true

/-- The defer source of a fiber; fiber_run() asserts its state. -/
def deferTurn (g : F) : State F E W :=
  let s1 := s.setFib g fun b => { b with deferOn := false, deferIter := s.iter }
  if (s.fib g).state = .completed then s1
  else if ¬ ((s.fib g).state = .initial ∨ (s.fib g).state = .ready ∨ (s.fib g).state = .cancelled) then
    s1.crashed .fiberRunBadState
  else enter cfg s1 g false

def extTurn (x : E) : State F E W :=
  resolveFut cfg (s.setFut (.ext x) fun u => { u with srcOn := false, fired := false, obsIter := none }) (.ext x)
    (s.fut (.ext x)).fireResult

/-- sd_event_run(): prepare, wait, and dispatch one source: an exit source once exit was
requested, else the first pending source. -/
def dispatch (c : Option (Id F E W)) : Option (State F E W) :=
  let exitNow := s.exitReq || (cfg.exitOnIdle && s.Idle cfg)
  let s0 := { s with iter := s.iter + 1, exitReq := exitNow }
  let s1 := s0.observe cfg s0.iter
  if s.phase.isSome ∨ s.finished = true then none
  else if exitNow then
    match c with
    | none =>
      if ∀ g ∈ cfg.fiberOrder, ¬ s.ExitArmed g then some { s with finished := true, exitReq := true } else none
    | some (.fiber g) =>
      if g ∈ cfg.fiberOrder ∧ s.ExitArmed g ∧ ∀ h ∈ cfg.fiberOrder, s.ExitArmed h → (s.fib g).prio ≤ (s.fib h).prio
      then some ((exitTurn cfg s0 g).norm cfg) else none
    | some _ => none
  else
    match c with
    | some (.fiber g) => if s1.First cfg (.fiber g) then some ((deferTurn cfg s1 g).norm cfg) else none
    | some (.ext x) => if s1.First cfg (.ext x) then some ((extTurn cfg s1 x).norm cfg) else none
    | _ => none

/-- The kernel: an io, timer or bus event, or a deadline expires. -/
def fire (x : E) : Option (State F E W) :=
  if x ∈ cfg.extOrder ∧ s.Online x ∧ (s.fut (.ext x)).fired = false ∧ (s.fut (.ext x)).state = .pending then
    some (s.setFut (.ext x) fun u => { u with fired := true })
  else none

/-- main between two sd_event_run() calls, or a signal handler. -/
def mainExit : Option (State F E W) :=
  if cfg.mainMayExit = true ∧ s.phase = none ∧ s.finished = false ∧ s.exitReq = false then
    some { s with exitReq := true }
  else none

def mainCancel (g : F) : Option (State F E W) :=
  if cfg.mainMayCancel = true ∧ s.phase = none ∧ s.finished = false ∧
      (cfg.mainCancelMax = 0 ∨ s.mainCancels < cfg.mainCancelMax) ∧
      (g ∈ cfg.topLevel ∧ g ∉ cfg.floatingTop) ∧ (s.fut (.fiber g)).kind = .fiber ∧ (s.fut (.fiber g)).state = .pending
  then
    let s1 := cancel cfg s g
    some { s1 with mainCancels := if cfg.mainCancelMax = 0 then 0 else s1.mainCancels + 1 }
  else none

end Loop

/-! ### The system -/

/-- The actions, with what the source leaves open. -/
inductive Move (F E W : Type)
  | yield (f : F) (ignore : Bool)
  | awaitExt (f : F) (ignore : Bool)
  | spawn (f : F) (fl ignore : Bool)
  | awaitFiber (f g : F) (ignore : Bool)
  | cancel (f g : F)
  | exit (f : F)
  | timeoutBegin (f : F)
  | timeoutEnd (f : F)
  | bare (f : F) (ignore : Bool)
  | ret (f : F) (rv : Val)
  | continueOp (f : F) (ignore : Bool)
  | continueCwu (f : F)
  | unwind (f : F)
  | dispatch (c : Option (Id F E W))
  | fire (x : E)
  | mainExit
  | mainCancel (g : F)
  | done

def perform (s : State F E W) : Move F E W → Option (Event F × State F E W)
  | .yield f ignore => opYield cfg s f ignore
  | .awaitExt f ignore => opAwaitExt cfg s f ignore
  | .spawn f fl ignore => opSpawn cfg s f fl ignore
  | .awaitFiber f g ignore => opAwaitFiber cfg s f g ignore
  | .cancel f g => opCancel cfg s f g
  | .exit f => opExit cfg s f
  | .timeoutBegin f => opTimeoutBegin cfg s f
  | .timeoutEnd f => opTimeoutEnd cfg s f
  | .bare f ignore => opBare cfg s f ignore
  | .ret f rv => opReturn cfg s f rv
  | .continueOp f ignore => continueOp cfg s f ignore
  | .continueCwu f => continueCwu cfg s f
  | .unwind f => unwind cfg s f
  | .dispatch c => (dispatch cfg s c).map fun t => (.quiet, t)
  | .fire x => (fire cfg s x).map fun t => (.quiet, t)
  | .mainExit => (mainExit cfg s).map fun t => (.quiet, t)
  | .mainCancel g => (mainCancel cfg s g).map fun t => (.quiet, t)
  | .done => if s.finished then some (.quiet, s) else none

def init : State F E W where
  fib g := if g ∈ cfg.topLevel then newFib cfg .main (cfg.prio g) (decide (g ∈ cfg.floatingTop)) true 0 else noFib
  fut
    | .fiber g => if g ∈ cfg.topLevel then fiberFut none (decide (g ∉ cfg.floatingTop)) else freeFut
    | _ => freeFut
  phase := none
  exiting := false
  exitReq := false
  finished := false
  iter := 0
  mainCancels := 0
  crash := none
  spurious := false
  badYield := false
  lostCancel := false

def Next (s : State F E W) (e : Event F) (s' : State F E W) : Prop := ∃ move, perform cfg s move = some (e, s')

def spec : System (State F E W) := ⟨fun s => s = init cfg, fun s s' => ∃ e, Next cfg s e s'⟩

/-! ### What a run shows -/

section Shown

/-- A run of `length` steps with what its steps show. -/
structure Trace (cfg : Config F E W) (length : ℕ) (states : ℕ → State F E W) (events : ℕ → Event F) : Prop where
  start : states 0 = init cfg
  next : ∀ i < length, Next cfg (states i) (events i) (states (i + 1))

/-- What the moves show and where they lead, one after the other. -/
def replay (s : State F E W) : List (Move F E W) → Option (List (Event F × State F E W))
  | [] => some []
  | move :: moves => (perform cfg s move).bind fun p => (replay p.2 moves).map fun steps => p :: steps

def stateAt (s : State F E W) (steps : List (Event F × State F E W)) (i : ℕ) : State F E W :=
  match i with
  | 0 => s
  | i + 1 => (steps[i]?.map Prod.snd).getD s

def eventAt (steps : List (Event F × State F E W)) (i : ℕ) : Event F := (steps[i]?.map Prod.fst).getD .quiet

variable {cfg}

theorem Trace.run {length : ℕ} {states : ℕ → State F E W} {events : ℕ → Event F} (trace : Trace cfg length states events) :
    (spec cfg).Run length states :=
  ⟨trace.start, fun i inside => ⟨events i, trace.next i inside⟩⟩

theorem replay_next {moves : List (Move F E W)} {s : State F E W} {steps : List (Event F × State F E W)}
    (done : replay cfg s moves = some steps) (i : ℕ) (inside : i < steps.length) :
    Next cfg (stateAt s steps i) (eventAt steps i) (stateAt s steps (i + 1)) := by
  induction moves generalizing s steps i with
  | nil =>
    cases done
    cases inside
  | cons move moves ih =>
    obtain ⟨p, performs, later⟩ := Option.bind_eq_some_iff.mp done
    obtain ⟨rest, replayed, eq⟩ := Option.map_eq_some_iff.mp later
    subst eq
    cases i with
    | zero => exact ⟨move, performs⟩
    | succ i =>
      have step := ih replayed i (Nat.lt_of_succ_lt_succ inside)
      have here (j : ℕ) (within : j ≤ rest.length) : stateAt s (p :: rest) (j + 1) = stateAt p.2 rest j := by
        cases j with
        | zero => rfl
        | succ j =>
          rw [stateAt, stateAt, List.getElem?_cons_succ, List.getElem?_eq_getElem (by omega)]
          rfl
      rw [here i (by simp only [List.length_cons] at inside; omega), here (i + 1) (by simp only [List.length_cons] at inside; omega)]
      exact step

end Shown

/-! ### What is checked -/

/-- No assertion fires and no freed future is touched. -/
def NoCrash (s : State F E W) : Prop := s.crash = none

/-- An operation sees no wakeup that is none of its business. -/
def NoSpuriousWakeup (s : State F E W) : Prop := s.spurious = false

/-- sd_fiber_yield() returns 0, -ECANCELED or the -ETIME of an own deadline. -/
def YieldReturnsZeroOrCanceled (s : State F E W) : Prop := s.badYield = false

/-- When the loop is finished every stack has been unwound or was never entered. -/
def FinishedImpliesUnwound (s : State F E W) : Prop :=
  s.finished = true → ∀ g ∈ cfg.fiberOrder,
    (s.fib g).state = .none ∨ (s.fib g).state = .initial ∨ (s.fib g).state = .completed ∨ (s.fib g).state = .freed

/-- An expired deadline still bounds every later wait in its scope. -/
def NoVoidDeadline (s : State F E W) : Prop :=
  ∀ x ∈ cfg.extOrder, (s.fut (.ext x)).kind = .deadline → (s.fut (.ext x)).dropped = true →
    ∀ g ∈ (s.fut (.ext x)).cb,
      ¬ (.ext x ∈ (s.fib g).cstack ∧ (s.fib g).state = .suspended ∧ (s.fib g).mode = .normal)

end LinuxTla.Fiber
