import LinuxTla.Lib.Transition

/-! Infinite behaviours that may stutter, weak fairness of an action, the rule that a fair
action which stays enabled is taken, and what is left when every step costs something. -/

namespace LinuxTla.Lib.System

variable {σ : Type u} {system : System σ}

/-- A behaviour takes a step or stutters, for ever. -/
structure Behaviour (system : System σ) (states : ℕ → σ) : Prop where
  start : system.init (states 0)
  next : ∀ i, system.next (states i) (states (i + 1)) ∨ states (i + 1) = states i

/-- `WF_vars(action)`, for an action that always changes the state. -/
def WeaklyFair (action : σ → σ → Prop) (states : ℕ → σ) : Prop :=
  ∀ n, (∀ m, n ≤ m → ∃ after, action (states m) after) →
    ∃ m, n ≤ m ∧ action (states m) (states (m + 1))

variable {states : ℕ → σ}

theorem Behaviour.reachable (behaviour : system.Behaviour states) (n : ℕ) :
    system.Reachable (states n) := by
  induction n with
  | zero => exact .init behaviour.start
  | succ n ih =>
    obtain step | same := behaviour.next n
    · exact ih.next step
    · exact same ▸ ih

theorem Behaviour.stays (behaviour : system.Behaviour states) {reached : σ → Prop}
    (stays : ∀ state after, reached state → system.next state after → reached after) {n m : ℕ}
    (later : n ≤ m) (held : reached (states n)) : reached (states m) := by
  induction m, later using Nat.le_induction with
  | base => exact held
  | succ m _ ih =>
    obtain step | same := behaviour.next m
    · exact stays _ _ ih step
    · exact same ▸ ih

/-- What a fair action is enabled by holds until the action is taken. -/
theorem Behaviour.taken (behaviour : system.Behaviour states) {action : σ → σ → Prop}
    (fair : WeaklyFair action states) (waiting : σ → Prop)
    (enabled : ∀ state, waiting state → ∃ after, action state after)
    (waits : ∀ state after, waiting state → system.next state after →
      action state after ∨ waiting after) {n : ℕ} (held : waiting (states n)) :
    ∃ m, n ≤ m ∧ waiting (states m) ∧ action (states m) (states (m + 1)) := by
  by_contra never
  have stays (m : ℕ) (later : n ≤ m) : waiting (states m) := by
    induction m, later using Nat.le_induction with
    | base => exact held
    | succ m later ih =>
      obtain step | same := behaviour.next m
      · obtain acted | still := waits _ _ ih step
        · exact absurd ⟨m, later, ih, acted⟩ never
        · exact still
      · exact same ▸ ih
  obtain ⟨m, later, acted⟩ := fair n fun m later => enabled _ (stays m later)
  exact never ⟨m, later, stays m later, acted⟩

theorem Behaviour.rests (behaviour : system.Behaviour states) {measured : Type v} [Preorder measured]
    [WellFoundedLT measured] (measure : σ → measured)
    (lowers : ∀ state after, system.Reachable state → system.next state after → after = state ∨ measure after < measure state) :
    ∃ n, ∀ m, n ≤ m → states m = states n := by
  obtain ⟨n, least⟩ : ∃ n, ∀ m, ¬ measure (states m) < measure (states n) := by
    obtain ⟨_, ⟨n, rfl⟩, least⟩ := wellFounded_lt.has_min (Set.range (measure ∘ states)) ⟨_, ⟨0, rfl⟩⟩
    exact ⟨n, fun m => least _ ⟨m, rfl⟩⟩
  refine ⟨n, fun m later => ?_⟩
  induction m, later using Nat.le_induction with
  | base => rfl
  | succ m _ ih =>
    obtain step | same := behaviour.next m
    · obtain same | less := lowers _ _ (behaviour.reachable m) step
      · exact same.trans ih
      · exact absurd (ih ▸ less) (least (m + 1))
    · exact same.trans ih

/-- No fair action is possible where a behaviour rests. -/
theorem WeaklyFair.disabled {action : σ → σ → Prop} (fair : WeaklyFair action states) {n : ℕ}
    (moves : ∀ after, action (states n) after → after ≠ states n) (rests : ∀ m, n ≤ m → states m = states n) :
    ¬ ∃ after, action (states n) after := by
  rintro ⟨after, enabled⟩
  obtain ⟨m, later, taken⟩ := fair n fun m later => ⟨after, (rests m later).symm ▸ enabled⟩
  rw [rests m later] at taken
  exact moves _ taken (rests (m + 1) (later.trans (Nat.le_succ m)))

/-! ### A run and nothing after it -/

/-- A finite run that stutters from its end on. -/
def halted (length : ℕ) (states : ℕ → σ) (n : ℕ) : σ := states (min n length)

theorem Run.behaviour {length : ℕ} (run : system.Run length states) : system.Behaviour (halted length states) where
  start := run.start
  next i := by
    rw [halted, halted]
    obtain inside | outside := Nat.lt_or_ge i length
    · rw [Nat.min_eq_left inside.le, Nat.min_eq_left inside]
      exact .inl (run.next i inside)
    · rw [Nat.min_eq_right outside, Nat.min_eq_right (outside.trans (Nat.le_succ i))]
      exact .inr rfl

theorem halted_rest {length n : ℕ} (rests : ∀ m, n ≤ m → halted length states m = halted length states n) :
    halted length states n = states length := by
  rw [← rests _ (Nat.le_max_left n length), halted, Nat.min_eq_right (Nat.le_max_right ..)]

theorem fair_halted {length : ℕ} {action : σ → σ → Prop} (disabled : ¬ ∃ after, action (states length) after) :
    WeaklyFair action (halted length states) := by
  intro n enabled
  obtain ⟨after, taken⟩ := enabled (max n length) (Nat.le_max_left ..)
  rw [halted, Nat.min_eq_right (Nat.le_max_right ..)] at taken
  exact absurd ⟨after, taken⟩ disabled

/-! ### Whether every behaviour gets there -/

/-- Where every step costs something, a behaviour comes to rest where none of its fair actions
is possible. -/
theorem Behaviour.idles (behaviour : system.Behaviour states) {measured : Type v} [Preorder measured] [WellFoundedLT measured]
    (measure : σ → measured)
    (lowers : ∀ state after, system.Reachable state → system.next state after → measure after < measure state) :
    ∃ n, (∀ m, n ≤ m → states m = states n) ∧ ∀ action : σ → σ → Prop, WeaklyFair action states →
      (∀ after, action (states n) after → system.next (states n) after) → ¬ ∃ after, action (states n) after := by
  obtain ⟨n, rests⟩ := behaviour.rests measure fun state after reached step => .inr (lowers state after reached step)
  refine ⟨n, rests, fun action fair acts => fair.disabled (fun after taken same => ?_) rests⟩
  have less := lowers _ _ (behaviour.reachable n) (acts after taken)
  rw [same] at less
  exact lt_irrefl _ less

/-- Where every step costs something, all fair behaviours reach a lasting goal exactly if it is
reached wherever none of the fair actions is possible. -/
theorem completes_iff {ι : Type w} {actions : ι → σ → σ → Prop} (acts : ∀ i state after, actions i state after → system.next state after)
    {measured : Type v} [Preorder measured] [WellFoundedLT measured] (measure : σ → measured)
    (lowers : ∀ state after, system.Reachable state → system.next state after → measure after < measure state) (goal : σ → Prop)
    (stays : ∀ state after, goal state → system.next state after → goal after) :
    (∀ states, system.Behaviour states → (∀ i, WeaklyFair (actions i) states) → ∃ n, goal (states n)) ↔
      ∀ state, system.Reachable state → (∀ i, ¬ ∃ after, actions i state after) → goal state := by
  constructor
  · intro completes state reached idle
    obtain ⟨length, states, run, rfl⟩ := reached.run
    obtain ⟨n, done⟩ := completes _ run.behaviour fun i => fair_halted (idle i)
    exact run.stays stays (Nat.min_le_right n length) le_rfl done
  · intro idle states behaviour fair
    obtain ⟨n, _, idles⟩ := behaviour.idles measure lowers
    exact ⟨n, idle _ (behaviour.reachable n) fun i => idles _ (fair i) (acts i _)⟩

end LinuxTla.Lib.System
