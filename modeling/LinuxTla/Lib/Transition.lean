import Mathlib.Algebra.GroupWithZero.Nat
import Mathlib.Data.Nat.Count
import Mathlib.Data.Nat.Init
import Mathlib.Order.Basic
import Mathlib.Order.OrderIsoNat

/-! Runs of a state machine and the induction rules for what holds along them.
Nothing here knows about a particular machine: a model supplies its initial
states and its step relation. -/

namespace LinuxTla.Lib

/-- Where runs start and what one step may do. -/
structure System (σ : Type u) where
  init : σ → Prop
  next : σ → σ → Prop

namespace System

variable {σ : Type u} (system : System σ)

inductive Reachable : σ → Prop
  | init {state} (start : system.init state) : Reachable state
  | next {state after} (reached : Reachable state) (step : system.next state after) : Reachable after

/-- The property holds in every state of every run. -/
def Invariant (property : σ → Prop) : Prop :=
  ∀ state, system.Reachable state → property state

variable {system} {property known : σ → Prop}

theorem Invariant.of_step (start : ∀ state, system.init state → property state)
    (step : ∀ state after, property state → system.next state after → property after) :
    system.Invariant property := by
  intro state reached
  induction reached with
  | init start' => exact start _ start'
  | next _ move ih => exact step _ _ ih move

/-- Induction that may use an invariant established before, at both ends of the
step. -/
theorem Invariant.relative (established : system.Invariant known)
    (start : ∀ state, system.init state → property state)
    (step : ∀ state after, known state → known after → property state →
      system.next state after → property after) :
    system.Invariant property := by
  intro state reached
  induction reached with
  | init start' => exact start _ start'
  | next reached' move ih =>
    exact step _ _ (established _ reached') (established _ (reached'.next move)) ih move

theorem Invariant.and {other : σ → Prop} (first : system.Invariant property)
    (second : system.Invariant other) : system.Invariant fun state => property state ∧ other state :=
  fun state reached => ⟨first state reached, second state reached⟩

theorem Invariant.mono {other : σ → Prop} (holds : system.Invariant property)
    (implies : ∀ state, property state → other state) : system.Invariant other :=
  fun state reached => implies state (holds state reached)

/-! ### Events along a run -/

/-- A run of `length` steps through `states`. -/
structure Run (system : System σ) (length : ℕ) (states : ℕ → σ) : Prop where
  start : system.init (states 0)
  next : ∀ i < length, system.next (states i) (states (i + 1))

theorem Run.reachable {length : ℕ} {states : ℕ → σ} (run : system.Run length states) :
    ∀ i ≤ length, system.Reachable (states i) := by
  intro i
  induction i with
  | zero => exact fun _ => .init run.start
  | succ i ih => exact fun inside => (ih (by omega)).next (run.next i inside)

/-- The runs on which `known` holds before every step. -/
def whilst (system : System σ) (known : σ → Prop) : System σ where
  init := system.init
  next state after := known state ∧ system.next state after

theorem Run.whilst {length : ℕ} {states : ℕ → σ} (run : system.Run length states)
    (holds : ∀ i < length, known (states i)) : (system.whilst known).Run length states :=
  ⟨run.start, fun i inside => ⟨holds i inside, run.next i inside⟩⟩

theorem Reachable.whilst {state : σ} (reached : system.Reachable state) (holds : ∀ state, known state) :
    (system.whilst known).Reachable state := by
  induction reached with
  | init start => exact .init start
  | next _ step ih => exact ih.next ⟨holds _, step⟩

theorem Reachable.run {state : σ} (reached : system.Reachable state) :
    ∃ length states, system.Run length states ∧ states length = state := by
  induction reached with
  | @init state start => exact ⟨0, fun _ => state, ⟨start, fun i inside => absurd inside (Nat.not_lt_zero i)⟩, rfl⟩
  | @next state after _ step ih =>
    obtain ⟨length, states, run, last⟩ := ih
    refine ⟨length + 1, fun i => if i ≤ length then states i else after, ⟨?_, ?_⟩, if_neg (Nat.not_succ_le_self length)⟩
    · rw [if_pos (Nat.zero_le length)]
      exact run.start
    · intro i inside
      rw [if_pos (Nat.lt_succ_iff.mp inside)]
      obtain before | rfl := (Nat.lt_succ_iff.mp inside).lt_or_eq
      · rw [if_pos (Nat.succ_le_of_lt before)]
        exact run.next i before
      · rw [if_neg (Nat.not_succ_le_self i), last]
        exact step

theorem Run.of_whilst {length : ℕ} {states : ℕ → σ} (run : (system.whilst known).Run length states) :
    system.Run length states ∧ ∀ i < length, known (states i) :=
  ⟨⟨run.start, fun i inside => (run.next i inside).2⟩, fun i inside => (run.next i inside).1⟩

theorem Run.stays {length : ℕ} {states : ℕ → σ} (run : system.Run length states) {spent : σ → Prop}
    (stays : ∀ state after, spent state → system.next state after → spent after) {i j : ℕ}
    (order : i ≤ j) (inside : j ≤ length) (happened : spent (states i)) : spent (states j) := by
  induction j, order using Nat.le_induction with
  | base => exact happened
  | succ j _ ih => exact stays _ _ (ih (by omega)) (run.next j inside)

/-- An event that can only happen while a mark is clear, and sets it for good,
happens at most once on a run. -/
theorem Run.once {length : ℕ} {states : ℕ → σ} (run : system.Run length states) (spent : σ → Prop)
    {event : σ → σ → Prop} (clear : ∀ state after, system.Reachable state → event state after → ¬ spent state)
    (sets : ∀ state after, event state after → spent after)
    (stays : ∀ state after, spent state → system.next state after → spent after) {i j : ℕ}
    (first : i < length) (second : j < length) (once : event (states i) (states (i + 1)))
    (again : event (states j) (states (j + 1))) : i = j := by
  have before : ∀ {i j : ℕ}, j < length → event (states i) (states (i + 1)) → event (states j) (states (j + 1)) →
      j ≤ i := by
    intro i j inside once again
    by_contra later
    exact clear _ _ (run.reachable j (by omega)) again
      (run.stays stays (by omega) (by omega) (sets _ _ once))
  exact Nat.le_antisymm (before first again once) (before second once again)

open Classical in
/-- How many of the first `length` steps are the event. -/
noncomputable def occurrences (event : σ → σ → Prop) (states : ℕ → σ) (length : ℕ) : ℕ :=
  Nat.count (fun i => event (states i) (states (i + 1))) length

/-- A measure that no step lowers and every event raises bounds how often the
event has happened. -/
theorem Run.occurrences_le {length : ℕ} {states : ℕ → σ} (run : system.Run length states)
    {event : σ → σ → Prop} (measure : σ → ℕ)
    (grows : ∀ state after, system.Reachable state → system.next state after → measure state ≤ measure after)
    (raises : ∀ state after, system.Reachable state → event state after → measure state < measure after) :
    ∀ i ≤ length, occurrences event states i ≤ measure (states i) := by
  classical
  intro i
  induction i with
  | zero => exact fun _ => Nat.zero_le _
  | succ i ih =>
    intro inside
    have reached := run.reachable i (by omega)
    have before : occurrences event states i ≤ measure (states i) := ih (by omega)
    have count : occurrences event states (i + 1) =
        occurrences event states i + if event (states i) (states (i + 1)) then 1 else 0 :=
      Nat.count_succ ..
    rw [count]
    split
    next happened =>
      have := raises _ _ reached happened
      omega
    next => exact before.trans (grows _ _ reached (run.next i inside))

end System

/-! ### Runs that end -/

/-- From `start` the steps can go on for ever. -/
def Endless (step : σ → σ → Prop) (start : σ) : Prop :=
  ∃ states : ℕ → σ, states 0 = start ∧ ∀ i, step (states i) (states (i + 1))

/-- Steps that keep a property and, while it holds, lower a measure come to an
end. -/
theorem not_endless {measured : Type v} [Preorder measured] [WellFoundedLT measured] (measure : σ → measured)
    (known : σ → Prop) {step : σ → σ → Prop} {start : σ} (begins : known start)
    (keeps : ∀ state after, known state → step state after → known after)
    (lowers : ∀ state after, known state → step state after → measure after < measure state) :
    ¬ Endless step start := by
  rintro ⟨states, first, steps⟩
  have holds (i : ℕ) : known (states i) := by
    induction i with
    | zero =>
      rw [first]
      exact begins
    | succ i ih => exact keeps _ _ ih (steps i)
  have falls : StrictAnti (measure ∘ states) :=
    strictAnti_nat_of_succ_lt fun i => lowers _ _ (holds i) (steps i)
  exact not_strictAnti_of_wellFoundedLT _ falls

/-! ### Literals of a small `Fin`

The instance for successors is a proof that every module would keep a copy of. -/

instance neZero_one : NeZero 1 := ⟨Nat.succ_ne_zero 0⟩

instance neZero_two : NeZero 2 := ⟨Nat.succ_ne_zero 1⟩

instance neZero_three : NeZero 3 := ⟨Nat.succ_ne_zero 2⟩

instance neZero_four : NeZero 4 := ⟨Nat.succ_ne_zero 3⟩

instance neZero_eight : NeZero 8 := ⟨Nat.succ_ne_zero 7⟩

end LinuxTla.Lib
