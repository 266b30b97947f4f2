import LinuxTla.Fiber.Acts
import LinuxTla.Lib.Stacks

/-! Who owns what: the futures on the stacks of the fibers, the waiters of a fiber, and
what a future on a live stack is. -/

namespace LinuxTla.Fiber

open Lib

variable {F E W : Type}

/-! ### Owners -/

def Creator.owner : Creator F → Option F
  | .fiber g => some g
  | _ => Option.none

/-- What the scopes of a fiber own, with the wait future of a cleanup on top. -/
def Fib.owned (b : Fib F E W) : List (Id F E W) := (b.cwuWait.map Id.wait).toList ++ b.cstack

def State.owner (s : State F E W) : Id F E W → Option F
  | .fiber g => if (s.fut (.fiber g)).held then (s.fib g).creator.owner else none
  | .ext x => (s.fut (.ext x)).cb
  | .wait w => (s.fut (.wait w)).cb

def FibState.Begun (st : FibState) : Prop := st = .ready ∨ st = .suspended ∨ st = .cancelled

def FibState.Runs (st : FibState) : Prop := st = .initial ∨ st = .ready ∨ st = .cancelled

def FibState.Over (st : FibState) : Prop := st = .none ∨ st = .completed ∨ st = .freed

theorem FibState.live {st : FibState} (live : ¬ st.Over) : (st ≠ .none ∧ st ≠ .freed) ∧ st ≠ .completed := by
  rw [FibState.Over, not_or, not_or] at live
  exact ⟨⟨live.1, live.2.2⟩, live.2.1⟩

theorem FibState.Runs.live {st : FibState} (runs : st.Runs) : ¬ st.Over := by
  obtain rfl | rfl | rfl := runs <;> simp [FibState.Over]

namespace FibState.Begun

variable {st : FibState} (begun : st.Begun)

include begun

theorem alive : st ≠ .none ∧ st ≠ .freed := by
  obtain rfl | rfl | rfl := begun <;> exact ⟨nofun, nofun⟩

theorem going : st ≠ .completed := by
  obtain rfl | rfl | rfl := begun <;> nofun

theorem notOver : ¬ st.Over := by
  rw [FibState.Over, not_or, not_or]
  exact ⟨begun.alive.1, begun.going, begun.alive.2⟩

theorem notInitial : st ≠ .initial := by
  obtain rfl | rfl | rfl := begun <;> nofun

end FibState.Begun

structure Fut.Blank (u : Fut F W) : Prop where
  kind : u.kind = .free
  cb : u.cb = none
  waiters : u.waiters = ∅
  target : u.target = none
  held : u.held = false

theorem freeFut_blank : (freeFut : Fut F W).Blank := ⟨rfl, rfl, rfl, rfl, rfl⟩

variable (cfg : Config F E W) (s : State F E W)

/-- Somebody holds fiber `t` as long as `g` may wait for it. -/
def Anchored (g t : F) : Prop := .fiber t ∈ (s.fib g).owned ∨ t ∈ cfg.topLevel ∧ t ∉ cfg.floatingTop

structure Waiting (u : Fut F W) : Prop where
  kind : u.kind = .wait
  waiters : u.waiters = ∅
  link : ∃ g t, u.cb = some g ∧ u.target = some t ∧ Anchored cfg s g t

structure Represents (st : FibState) (u : Fut F W) : Prop where
  kind : u.kind = .fiber
  cb : u.cb = none
  state : u.state = .pending ↔ st ≠ .completed

structure Core : Prop where
  scopes : Stacks (fun g => (s.fib g).owned) s.owner
  ext : ∀ x, (s.fut (.ext x)).Blank ∨ (s.fut (.ext x)).OnLoop ∧ (s.fut (.ext x)).waiters = ∅
  wait : ∀ w, (s.fut (.wait w)).Blank ∨ Waiting cfg s (s.fut (.wait w))
  alive : ∀ g, s.Alive g → Represents (s.fib g).state (s.fut (.fiber g))
  dead : ∀ g, ¬ s.Alive g → (s.fut (.fiber g)).Blank
  waiters : ∀ t w, w ∈ (s.fut (.fiber t)).waiters ↔
    (s.fut (.wait w)).target = some t ∧ (s.fut (.wait w)).state = .pending
  main : ∀ g ∈ cfg.topLevel, g ∉ cfg.floatingTop → (s.fut (.fiber g)).held = true ∧ (s.fib g).creator = .main
  ended : ∀ g, (s.fib g).state.Over → (s.fib g).owned = []
  fresh : ∀ g, (s.fib g).state = .initial → s.phase ≠ some g → (s.fib g).owned = []
  running : ∀ f, s.phase = some f → (s.fib f).state.Runs
  noCrash : s.crash = none

namespace Core

variable {cfg s} (core : Core cfg s)

include core

theorem alive_of_owned {g : F} {x : Id F E W} (owned : x ∈ (s.fib g).owned) : s.Alive g ∧ (s.fib g).state ≠ .completed := by
  apply FibState.live
  intro ended
  rw [core.ended g ended] at owned
  cases owned

/-- A future with a callback is on the stack of that fiber. -/
theorem owned_of_cb {w : W} {g : F} (cb : (s.fut (.wait w)).cb = some g) : .wait w ∈ (s.fib g).owned :=
  (core.scopes.mem g (.wait w)).mpr cb

theorem answerable (ws : Finset W) : Answerable s ws := by
  intro w _ g cb
  exact (core.alive g (core.alive_of_owned (core.owned_of_cb cb)).1).kind

theorem held_of_target {w : W} {t : F} (target : (s.fut (.wait w)).target = some t) :
    (s.fut (.fiber t)).held = true ∧ ∃ g, (s.fut (.wait w)).cb = some g ∧ Anchored cfg s g t := by
  obtain blank | waiting := core.wait w
  · rw [blank.target] at target
    cases target
  · obtain ⟨g, t', cb, target', anchored⟩ := waiting.link
    rw [target'] at target
    cases target
    refine ⟨?_, g, cb, anchored⟩
    obtain owned | ⟨top, held⟩ := anchored
    · have owner := (core.scopes.mem g (.fiber t)).mp owned
      rw [State.owner] at owner
      split_ifs at owner with held
      exact held
    · exact (core.main t top held).1

theorem alive_of_held {g : F} (held : (s.fut (.fiber g)).held = true) : s.Alive g := by
  by_contra dead
  rw [(core.dead g dead).held] at held
  cases held

theorem child {f g : F} (owned : .fiber g ∈ (s.fib f).owned) :
    (s.fut (.fiber g)).held = true ∧ (s.fib g).creator = .fiber f := by
  have owner := (core.scopes.mem f (.fiber g)).mp owned
  rw [State.owner] at owner
  split_ifs at owner with held
  refine ⟨held, ?_⟩
  cases creator : (s.fib g).creator with
  | none | main =>
    rw [creator] at owner
    cases owner
  | fiber h =>
    rw [creator] at owner
    cases owner
    rfl

theorem running_alive {f : F} (running : s.phase = some f) : s.Alive f ∧ (s.fib f).state ≠ .completed ∧
    (s.fib f).state ≠ .suspended := by
  obtain st | st | st := core.running f running <;>
    exact ⟨⟨by rw [st]; nofun, by rw [st]; nofun⟩, by rw [st]; nofun, by rw [st]; nofun⟩

/-- What the running fiber can release at once. -/
theorem owns {f : F} {x : Id F E W} (running : s.phase = some f) (owned : x ∈ (s.fib f).owned)
    (other : ∀ g, x ≠ .fiber g) : Owns s f x where
  running := running
  awake := (core.running_alive running).2.2
  alive := (core.alive f (core.running_alive running).1).kind
  cb := by
    cases x with
    | fiber g => exact absurd rfl (other g)
    | ext x => exact (core.scopes.mem f (.ext x)).mp owned
    | wait w => exact (core.scopes.mem f (.wait w)).mp owned
  waiters := by
    cases x with
    | fiber g => exact absurd rfl (other g)
    | ext x =>
      obtain blank | used := core.ext x
      · exact blank.waiters
      · exact used.2
    | wait w =>
      obtain blank | used := core.wait w
      · exact blank.waiters
      · exact used.waiters

end Core

/-! ### What does not matter -/

/-- Two futures that the books cannot tell apart. -/
structure Fut.Same (u v : Fut F W) : Prop where
  kind : v.kind = u.kind
  cb : v.cb = u.cb
  waiters : v.waiters = u.waiters
  target : v.target = u.target
  held : v.held = u.held

theorem Fut.Same.refl (u : Fut F W) : u.Same u := ⟨rfl, rfl, rfl, rfl, rfl⟩

theorem Fut.Same.blank {u v : Fut F W} (same : u.Same v) (blank : u.Blank) : v.Blank :=
  ⟨same.kind.trans blank.kind, same.cb.trans blank.cb, same.waiters.trans blank.waiters,
    same.target.trans blank.target, same.held.trans blank.held⟩

/-- Nothing but what the loop and the values of the fibers need has changed. -/
structure Alike (s t : State F E W) : Prop where
  owned : ∀ g, (t.fib g).owned = (s.fib g).owned
  creator : ∀ g, (t.fib g).creator = (s.fib g).creator
  state : ∀ g, (t.fib g).state = (s.fib g).state ∨ ¬ (s.fib g).state.Over ∧ (t.fib g).state.Begun
  fut : ∀ x, (s.fut x).Same (t.fut x)
  done : ∀ x, (∀ y, x ≠ .ext y) → (t.fut x).state = (s.fut x).state
  crash : t.crash = s.crash

variable {cfg s} {t : State F E W}

namespace Alike

variable (alike : Alike s t)

include alike

theorem owner : t.owner = s.owner := by
  funext x
  cases x with
  | fiber g => rw [State.owner, State.owner, (alike.fut _).held, alike.creator]
  | ext x => exact (alike.fut _).cb
  | wait w => exact (alike.fut _).cb

theorem ended (g : F) : (t.fib g).state.Over ↔ (s.fib g).state.Over := by
  obtain same | ⟨before, after⟩ := alike.state g
  · rw [same]
  · exact iff_of_false after.notOver before

theorem alive (g : F) : t.Alive g ↔ s.Alive g := by
  obtain same | ⟨before, after⟩ := alike.state g
  · rw [State.Alive, State.Alive, same]
  · exact iff_of_true after.alive (FibState.live before).1

theorem completed (g : F) : (t.fib g).state = .completed ↔ (s.fib g).state = .completed := by
  obtain same | ⟨before, after⟩ := alike.state g
  · rw [same]
  · exact iff_of_false after.going (FibState.live before).2

theorem anchored {g h : F} (anchored : Anchored cfg s g h) : Anchored cfg t g h := by
  rw [Anchored, alike.owned]
  exact anchored

/-- The books stay right, if the fiber that runs may run and no fiber that has not begun is
left with futures. -/
theorem core (core : Core cfg s) (fresh : ∀ g, (t.fib g).state = .initial → t.phase ≠ some g → s.phase ≠ some g)
    (running : ∀ f, t.phase = some f → (t.fib f).state.Runs) : Core cfg t where
  scopes := by
    rw [alike.owner, show (fun g => (t.fib g).owned) = fun g => (s.fib g).owned from funext alike.owned]
    exact core.scopes
  ext x := by
    have same := alike.fut (.ext x)
    obtain blank | ⟨onLoop, waiters⟩ := core.ext x
    · exact .inl (same.blank blank)
    · refine .inr ⟨?_, same.waiters.trans waiters⟩
      rw [Fut.OnLoop, same.kind]
      exact onLoop
  wait w := by
    have same := alike.fut (.wait w)
    obtain blank | waiting := core.wait w
    · exact .inl (same.blank blank)
    · obtain ⟨g, h, cb, target, held⟩ := waiting.link
      exact .inr ⟨same.kind.trans waiting.kind, same.waiters.trans waiting.waiters,
        g, h, same.cb.trans cb, same.target.trans target, alike.anchored held⟩
  alive g live := by
    have same := alike.fut (.fiber g)
    have before := core.alive g ((alike.alive g).mp live)
    refine ⟨same.kind.trans before.kind, same.cb.trans before.cb, ?_⟩
    rw [alike.done _ (Id.fiber_ne_ext g), before.state]
    exact not_congr (alike.completed g).symm
  dead g dead := (alike.fut _).blank (core.dead g (mt (alike.alive g).mpr dead))
  waiters h w := by
    rw [(alike.fut _).waiters, (alike.fut _).target, alike.done _ fun y => (Id.ext_ne_wait y w).symm]
    exact core.waiters h w
  main g top held := by
    rw [(alike.fut _).held, alike.creator]
    exact core.main g top held
  ended g ended := (alike.owned g).trans (core.ended g ((alike.ended g).mp ended))
  fresh g initial away := by
    refine (alike.owned g).trans (core.fresh g ?_ (fresh g initial away))
    obtain same | ⟨_, after⟩ := alike.state g
    · rw [← same]
      exact initial
    · exact absurd initial after.notInitial
  running := running
  noCrash := alike.crash.trans core.noCrash

end Alike

/-- What waking a fiber leaves alone. -/
theorem Nudged.keeps {v : Val} {src : Source F E W} {g : F} {b : Fib F E W} (nudged : Nudged s g v src b) :
    b.owned = (s.fib g).owned ∧ b.creator = (s.fib g).creator ∧
      (b.state = (s.fib g).state ∨ (s.fib g).state = .suspended ∧ b.state = .ready) := by
  cases nudged with
  | same => exact ⟨rfl, rfl, .inl rfl⟩
  | woken _ waits => exact ⟨rfl, rfl, .inr ⟨waits, rfl⟩⟩
  | kept => exact ⟨rfl, rfl, .inl rfl⟩

theorem Resolved.keeps {ws : Finset W} {v : Val} (resolved : Resolved s ws v t) (g : F) :
    (t.fib g).owned = (s.fib g).owned ∧ (t.fib g).creator = (s.fib g).creator ∧
      ((t.fib g).state = (s.fib g).state ∨ (s.fib g).state = .suspended ∧ (t.fib g).state = .ready) := by
  obtain same | ⟨_, _, _, nudged⟩ := resolved.fib g
  · rw [same]
    exact ⟨rfl, rfl, .inl rfl⟩
  · exact nudged.keeps

theorem Resolved.same {ws : Finset W} {v : Val} (resolved : Resolved s ws v t) (x : Id F E W) :
    (s.fut x).Same (t.fut x) := by
  obtain same | settled := resolved.fut x
  · rw [same]
    exact .refl _
  · rw [settled]
    exact ⟨rfl, rfl, rfl, rfl, rfl⟩

/-- What was done to fiber `f` in two ways does not differ in its books. -/
theorem alike_setFib [DecidableEq F] {f : F} {h h' : Fib F E W → Fib F E W}
    (owned : (h' (s.fib f)).owned = (h (s.fib f)).owned) (creator : (h' (s.fib f)).creator = (h (s.fib f)).creator)
    (state : (h' (s.fib f)).state = (h (s.fib f)).state ∨ ¬ (h (s.fib f)).state.Over ∧ (h' (s.fib f)).state.Begun) :
    Alike (s.setFib f h) (s.setFib f h') where
  owned g := by
    obtain rfl | other := eq_or_ne g f
    · rw [State.setFib_self, State.setFib_self, owned]
    · rw [State.setFib_of_ne other, State.setFib_of_ne other]
  creator g := by
    obtain rfl | other := eq_or_ne g f
    · rw [State.setFib_self, State.setFib_self, creator]
    · rw [State.setFib_of_ne other, State.setFib_of_ne other]
  state g := by
    obtain rfl | other := eq_or_ne g f
    · rw [State.setFib_self, State.setFib_self]
      exact state
    · rw [State.setFib_of_ne other, State.setFib_of_ne other]
      exact .inl rfl
  fut x := .refl _
  done _ _ := rfl
  crash := rfl

/-- The record of `f` is written in another way with the same books. -/
theorem Core.revise [DecidableEq F] {f : F} {h h' : Fib F E W → Fib F E W} (core : Core cfg (s.setFib f h))
    (owned : (h' (s.fib f)).owned = (h (s.fib f)).owned) (creator : (h' (s.fib f)).creator = (h (s.fib f)).creator)
    (state : (h' (s.fib f)).state = (h (s.fib f)).state) : Core cfg (s.setFib f h') := by
  have alike := alike_setFib owned creator (.inl state)
  have same (g : F) : ((s.setFib f h').fib g).state = ((s.setFib f h).fib g).state := by
    obtain rfl | other := eq_or_ne g f
    · rw [State.setFib_self, State.setFib_self, state]
    · rw [State.setFib_of_ne other, State.setFib_of_ne other]
  refine alike.core core (fun g _ away => away) fun g active => ?_
  rw [same]
  exact core.running g active

theorem setFib_id [DecidableEq F] (s : State F E W) (f : F) : s.setFib f id = s := by
  simp only [State.setFib, id_eq, Function.update_eq_self]

/-- What a fiber does that leaves its books alone. -/
theorem Core.act [DecidableEq F] {f : F} {h : Fib F E W → Fib F E W} (core : Core cfg s)
    (owned : (h (s.fib f)).owned = (s.fib f).owned) (creator : (h (s.fib f)).creator = (s.fib f).creator)
    (state : (h (s.fib f)).state = (s.fib f).state) : Core cfg (s.setFib f h) :=
  Core.revise (h := id) ((setFib_id s f).symm ▸ core) owned creator state

/-- The running fiber switches out and is not done. -/
theorem Core.leave [DecidableEq F] {f : F} {h : Fib F E W → Fib F E W} (core : Core cfg s) (running : s.phase = some f)
    (owned : (h (s.fib f)).owned = (s.fib f).owned) (creator : (h (s.fib f)).creator = (s.fib f).creator)
    (begun : (h (s.fib f)).state.Begun) : Core cfg { s.setFib f h with phase := none, exiting := false } := by
  have live := (core.running f running).live
  have alike : Alike (s.setFib f id) (s.setFib f h) := alike_setFib owned creator (.inr ⟨live, begun⟩)
  rw [setFib_id] at alike
  refine Alike.core (t := { s.setFib f h with phase := none, exiting := false }) ⟨alike.owned, alike.creator, alike.state,
    alike.fut, alike.done, alike.crash⟩ core (fun g initial _ active => ?_) nofun
  obtain rfl : f = g := Option.some.inj (running.symm.trans active)
  have initial' : (h (s.fib f)).state = .initial := by
    have self := State.setFib_self (s := s) f h
    rw [← self]
    exact initial
  exact begun.notInitial initial'

theorem Completion.running {f g : F} {v : Val} {u : State F E W} (completion : Completion s g v u) (core : Core cfg s)
    (running : s.phase = some f) (apart : f ≠ g) : u.fib f = s.fib f := by
  obtain same | ⟨w, _, _, nudged⟩ := completion.others f apart
  · exact same
  · generalize u.fib f = b at nudged
    cases nudged with
    | same => rfl
    | woken _ waits => exact absurd waits (core.running_alive running).2.2
    | kept _ away => exact absurd running away

section Cancelling

variable [DecidableEq F] {g : F}

/-- What sd_future_cancel() of fiber `g` does. -/
inductive Cancels (s : State F E W) (g : F) : State F E W → Prop
  | idle (ended : ¬ s.Alive g ∨ (s.fib g).state = .completed ∨ (s.fib g).state = .cancelled) : Cancels s g s
  | fresh {u : State F E W} (initial : (s.fib g).state = .initial) (completion : Completion s g .canceled u) : Cancels s g u
  | marks (began : (s.fib g).state = .ready ∨ (s.fib g).state = .suspended) : Cancels s g (marked s g)

/-- A fiber whose future is still pending was marked or had been cancelled before. -/
theorem Cancels.still {r : State F E W} (cancels : Cancels s g r) (pending : (r.fut (.fiber g)).state = .pending) :
    r = s ∨ r = marked s g := by
  cases cancels with
  | idle => exact .inl rfl
  | fresh _ completion =>
    obtain ⟨_, fut⟩ | ⟨_, fut, _⟩ := completion.done <;>
      rw [fut] at pending <;> cases pending
  | marks => exact .inr rfl

theorem Cancels.cb {r : State F E W} (cancels : Cancels s g r) (bare : (s.fut (.fiber g)).cb = none) :
    (r.fut (.fiber g)).cb = none := by
  cases cancels with
  | idle => exact bare
  | fresh _ completion =>
    obtain ⟨_, fut⟩ | ⟨_, fut, _⟩ := completion.done <;> rw [fut]
    · exact bare
    · rfl
  | marks => exact bare

theorem Cancels.running {f : F} {u : State F E W} (cancels : Cancels s g u) (core : Core cfg s) (running : s.phase = some f)
    (apart : f ≠ g) : u.fib f = s.fib f ∧ u.phase = s.phase := by
  cases cancels with
  | idle => exact ⟨rfl, rfl⟩
  | fresh _ completion =>
    refine ⟨completion.running core running apart, ?_⟩
    rw [completion.rest]
  | marks => exact ⟨State.setFib_of_ne apart _, rfl⟩

end Cancelling

end LinuxTla.Fiber
