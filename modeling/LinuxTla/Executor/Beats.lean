import LinuxTla.Executor.Processes

/-! What a step of a process does to what the manager keeps books of, for every kind of
unit: whatever the process is, it leaves the manager's record alone. -/

namespace LinuxTla.Executor

variable {cfg : Config} {s t : State} {p q : Proc}

/-- A process leaves the manager's record alone, and a signal pending for an executor stays so. -/
structure Kept (s t : State) : Prop where
  mgr : t.mgr = s.mgr
  cgEmptyQ : t.cgEmptyQ = s.cgEmptyQ
  lost : t.lost = s.lost
  uidLate : t.uidLate = s.uidLate
  sigkill : t.sigkill = s.sigkill
  sigterm : ∀ q, q ≠ .sdPam → s.sigterm q = true → t.sigterm q = true

def Pc.onward (pc : Pc) : Bool := decide (pc ≠ .none ∧ pc ≠ .nsexit ∧ pc ≠ .dead)

inductive Beat (cfg : Config) (s t : State) : Prop
  | advance {p : Proc} {at_pc n : Pc} (kept : Kept s t) (free : s.NoFatal p) (here : s.pc p = at_pc)
      (onward : at_pc.onward = true ∧ n.onward = true) (early : n.early = true → at_pc.early = true)
      (fresh : n.fresh = true → at_pc.fresh = true) (pc : ∀ q, t.pc q = Function.update s.pc p n q)
      (unreaped : t.unreaped = s.unreaped) (parent : ∀ q, t.parent q = s.parent q) (prQ : t.prQ = s.prQ)
      (ulQ : t.ulQ = s.ulQ ∨ p ≠ .sdPam ∧ at_pc = .creds)
      (session : t.session = s.session ∨ p = .sdPam ∧ s.parent .sdPam = none ∧ t.session = .closed)
  | pam {p : Proc} (kept : Kept s t) (free : s.NoFatal p) (other : p ≠ .sdPam) (here : s.pc p = .pam)
      (on : cfg.pam = true) (pc : ∀ q, t.pc q = Function.update (Function.update s.pc p .pamsync) .sdPam .closefd q)
      (unreaped : t.unreaped = s.unreaped) (parent : ∀ q, t.parent q = Function.update s.parent .sdPam (some p) q)
      (prQ : t.prQ = s.prQ) (ulQ : t.ulQ = s.ulQ) (session : t.session = .opened)
  | nsFork (kept : Kept s t) (free : s.NoFatal .executor) (here : s.pc .executor = .ns) (on : cfg.pidns = true)
      (pc : ∀ q, t.pc q = Function.update (Function.update s.pc .executor .nsexit) .child .sandbox q)
      (unreaped : t.unreaped = s.unreaped) (parent : t.parent .sdPam = s.parent .sdPam)
      (ulQ : t.ulQ = s.ulQ) (session : t.session = s.session)
  | die {p : Proc} (kept : Kept s t) (alive : s.Alive p) (pc : ∀ q, t.pc q = Function.update s.pc p .dead q)
      (unreaped : t.unreaped = insert p s.unreaped)
      (parent : ∀ q, t.parent q = if s.parent q = some p then none else s.parent q)
      (prQ : t.prQ = s.prQ) (ulQ : t.ulQ = s.ulQ) (session : t.session = s.session)

/-! ### Every action of a process is a beat -/

theorem die_beat {st : Status} (alive : s.Alive p) : Beat cfg s (die s p st) :=
  .die ⟨rfl, rfl, rfl, rfl, rfl, fun q _ pending => by simp [die, pending]⟩ alive (fun _ => rfl) rfl (fun _ => rfl) rfl rfl rfl

theorem alive_of_pc {pc : Pc} (here : s.pc p = pc) (started : pc ≠ .none ∧ pc ≠ .dead) : s.Alive p := by
  rw [State.Alive, here]
  exact started

/-- A step on to the next phase, the rest of the books as they are. -/
theorem advance_beat {at_pc n : Pc} (step : s.NoFatal p ∧ s.pc p = at_pc) (onward : at_pc.onward = true ∧ n.onward = true)
    (early : n.early = true → at_pc.early = true) (fresh : n.fresh = true → at_pc.fresh = true) :
    Beat cfg s (advance s p n) :=
  .advance ⟨rfl, rfl, rfl, rfl, rfl, fun _ _ => id⟩ step.1 step.2 onward early fresh (fun _ => rfl) rfl
    (fun _ => rfl) rfl (.inl rfl) (.inl rfl)

/-- A step that sends bytes or a handoff and changes what the process keeps for itself. -/
theorem moved_beat {at_pc n : Pc} {uid : Proc → Uid} {pipeB : List Bool} {hoQ : List Proc} {pipeW : Finset Proc} {execd dropFailed placed : Bool}
    {pdeath : Proc → Bool} (step : s.NoFatal p ∧ s.pc p = at_pc) (onward : at_pc.onward = true ∧ n.onward = true)
    (early : n.early = true → at_pc.early = true) (fresh : n.fresh = true → at_pc.fresh = true) :
    Beat cfg s { advance s p n with
      uid := uid, pipeB := pipeB, hoQ := hoQ, pipeW := pipeW, execd := execd, dropFailed := dropFailed, placed := placed, pdeath := pdeath } :=
  .advance ⟨rfl, rfl, rfl, rfl, rfl, fun _ _ => id⟩ step.1 step.2 onward early fresh (fun _ => rfl) rfl
    (fun _ => rfl) rfl (.inl rfl) (.inl rfl)

section Moves

variable {fails : Bool}

theorem initPhase_beat (done : initPhase s p fails = some t) : Beat cfg s t := by
  obtain ⟨step, rfl⟩ := step_eq done
  cases fails with
  | true => exact die_beat (alive_of_pc step.2 (by decide))
  | false => exact advance_beat step (by decide) (by decide) (by decide)

theorem creds_beat (other : p ≠ .sdPam) (done : creds cfg s p fails = some t) : Beat cfg s t := by
  obtain ⟨step, rfl⟩ := step_eq done
  cases fails with
  | true => exact die_beat (alive_of_pc step.2 (by decide))
  | false =>
    exact .advance ⟨rfl, rfl, rfl, rfl, rfl, fun _ _ => id⟩ step.1 step.2 (by decide) (by decide) (by decide)
      (n := .setup) (fun _ => rfl) rfl (fun _ => rfl) rfl (.inr ⟨other, rfl⟩) (.inl rfl)

theorem setup_beat (done : setup s p fails = some t) : Beat cfg s t := by
  obtain ⟨step, rfl⟩ := step_eq done
  cases fails with
  | true => exact die_beat (alive_of_pc step.2 (by decide))
  | false => exact advance_beat step (by decide) (by decide) (by decide)

theorem pam_beat (other : p ≠ .sdPam) (done : pam cfg s p fails = some t) : Beat cfg s t := by
  obtain ⟨step, rfl⟩ := step_eq done
  split
  next => exact advance_beat step (by decide) (by decide) (by decide)
  next on =>
    cases fails with
    | true => exact die_beat (alive_of_pc step.2 (by decide))
    | false =>
      exact .pam ⟨rfl, rfl, rfl, rfl, rfl, fun _ _ => id⟩ step.1 other step.2 (Bool.eq_true_of_not_eq_false on)
        (fun _ => rfl) rfl (fun _ => rfl) rfl rfl rfl

theorem pamSync_beat (done : pamSync cfg s p = some t) : Beat cfg s t := by
  rw [pamSync] at done
  split at done
  next =>
    obtain ⟨step, rfl⟩ := step_eq done
    exact advance_beat step (by decide) (by decide) (by decide)
  next => cases done

theorem ns_beat (done : ns cfg s p fails = some t) : Beat cfg s t := by
  rw [ns] at done
  split at done
  next =>
    obtain ⟨step, rfl⟩ := step_eq done
    exact advance_beat step (by decide) (by decide) (by decide)
  next on =>
    split at done
    next =>
      obtain ⟨step, rfl⟩ := step_eq done
      exact die_beat (alive_of_pc step.2 (by decide))
    next =>
      split at done
      next executor =>
        obtain ⟨step, rfl⟩ := step_eq done
        rw [executor] at step
        have parent : Function.update s.parent .child none .sdPam = s.parent .sdPam := Function.update_of_ne (by decide) _ _
        exact .nsFork ⟨rfl, rfl, rfl, rfl, rfl, fun _ _ => id⟩ step.1 step.2 (Bool.eq_true_of_not_eq_false on)
          (fun _ => rfl) rfl parent rfl rfl
      next => cases done

theorem nsExit_beat (done : nsExit s p = some t) : Beat cfg s t := by
  obtain ⟨step, rfl⟩ := step_eq done
  exact die_beat (alive_of_pc step.2 (by decide))

theorem sandbox_beat (done : sandbox cfg s p fails = some t) : Beat cfg s t := by
  obtain ⟨step, rfl⟩ := step_eq done
  cases fails with
  | true => exact die_beat (alive_of_pc step.2 (by decide))
  | false =>
    exact moved_beat (n := .hot) step (by decide) (by decide) (by decide)

theorem hot_beat (done : hot cfg s p = some t) : Beat cfg s t := by
  obtain ⟨step, rfl⟩ := step_eq done
  exact moved_beat (n := .handoff) step (by decide) (by decide) (by decide)

theorem handoff_beat (done : handoff s p = some t) : Beat cfg s t := by
  obtain ⟨step, rfl⟩ := step_eq done
  exact moved_beat (n := .execve) step (by decide) (by decide) (by decide)

theorem execve_beat (done : execve cfg s p fails = some t) : Beat cfg s t := by
  obtain ⟨step, rfl⟩ := step_eq done
  cases fails with
  | true =>
    exact .die (p := p) ⟨rfl, rfl, rfl, rfl, rfl, fun q _ pending => by simp [execFail, die, pending]⟩
      (alive_of_pc step.2 (by decide)) (fun _ => rfl) rfl (fun _ => rfl) rfl rfl rfl
  | false =>
    exact moved_beat (n := .payload) step (by decide) (by decide) (by decide)

theorem payloadExit_beat {st : ℕ} (done : payloadExit cfg s p st = some t) : Beat cfg s t := by
  rw [payloadExit] at done
  split at done
  next step =>
    obtain rfl := Option.some.inj done
    exact die_beat (alive_of_pc step.1 (by decide))
  next => cases done

theorem killed_beat (done : killed s p = some t) : Beat cfg s t := by
  rw [killed] at done
  split at done
  next step =>
    obtain rfl := Option.some.inj done
    exact die_beat step.1
  next => cases done

theorem sdPam_beat {at_pc n : Pc} (kept : Kept s t) (step : s.NoFatal .sdPam ∧ s.pc .sdPam = at_pc)
    (onward : at_pc.onward = true ∧ n.onward = true) (late : n.early = false)
    (pc : ∀ q, t.pc q = Function.update s.pc .sdPam n q) (unreaped : t.unreaped = s.unreaped) (parent : ∀ q, t.parent q = s.parent q)
    (prQ : t.prQ = s.prQ) (ulQ : t.ulQ = s.ulQ)
    (session : t.session = s.session ∨ s.parent .sdPam = none ∧ t.session = .closed) : Beat cfg s t := by
  refine .advance kept step.1 step.2 onward ?_ ?_ pc unreaped parent prQ (.inl ulQ) (session.imp_right fun closed => ⟨rfl, closed⟩)
  · intro early
    cases early.symm.trans late
  · intro fresh
    cases (Pc.fresh_apart fresh).1.symm.trans late

theorem pCloseFd_beat (done : pCloseFd cfg s = some t) : Beat cfg s t := by
  obtain ⟨step, rfl⟩ := step_eq done
  exact moved_beat (n := .drop) step (by decide) (by decide) (by decide)

theorem pDrop_beat (done : pDrop cfg s fails = some t) : Beat cfg s t := by
  rw [pDrop] at done
  split at done
  next =>
    split at done
    next =>
      obtain ⟨step, rfl⟩ := step_eq done
      exact moved_beat (n := .prctl) step (by decide) (by decide) (by decide)
    next => cases done
  next =>
    obtain ⟨step, rfl⟩ := step_eq done
    exact moved_beat (n := .prctl) step (by decide) (by decide) (by decide)

theorem pPrctl_beat (done : pPrctl s = some t) : Beat cfg s t := by
  obtain ⟨step, rfl⟩ := step_eq done
  exact moved_beat (n := .place) step (by decide) (by decide) (by decide)

theorem pPlace_beat (done : pPlace s = some t) : Beat cfg s t := by
  obtain ⟨step, rfl⟩ := step_eq done
  exact moved_beat (n := .check) step (by decide) (by decide) (by decide)

theorem pCheck_beat (done : pCheck cfg s = some t) : Beat cfg s t := by
  obtain ⟨step, rfl⟩ := step_eq done
  split
  next => exact moved_beat (n := .wait) step (by decide) (by decide) (by decide)
  next => exact moved_beat (n := .close) step (by decide) (by decide) (by decide)

theorem pWait_beat (done : pWait cfg s = some t) : Beat cfg s t := by
  rw [pWait] at done
  split at done
  next =>
    obtain ⟨step, rfl⟩ := step_eq done
    have signals (q : Proc) (other : q ≠ .sdPam) (pending : s.sigterm q = true) :
        Function.update s.sigterm .sdPam false q = true := by
      rw [Function.update_of_ne other]
      exact pending
    split
    next => exact sdPam_beat ⟨rfl, rfl, rfl, rfl, rfl, signals⟩ step (n := .wait) (by decide) rfl (fun _ => rfl) rfl (fun _ => rfl) rfl rfl (.inl rfl)
    next => exact sdPam_beat ⟨rfl, rfl, rfl, rfl, rfl, signals⟩ step (n := .close) (by decide) rfl (fun _ => rfl) rfl (fun _ => rfl) rfl rfl (.inl rfl)
  next => cases done

theorem pClose_beat (done : pClose s = some t) : Beat cfg s t := by
  obtain ⟨step, rfl⟩ := step_eq done
  refine sdPam_beat ⟨rfl, rfl, rfl, rfl, rfl, fun _ _ => id⟩ step (n := .exit) (by decide) rfl (fun _ => rfl) rfl (fun _ => rfl) rfl rfl ?_
  by_cases orphan : s.parent .sdPam = none
  · exact .inr ⟨orphan, if_pos orphan⟩
  · exact .inl (if_neg orphan)

theorem pExit_beat (done : pExit s = some t) : Beat cfg s t := by
  obtain ⟨step, rfl⟩ := step_eq done
  exact die_beat (alive_of_pc step.2 (by decide))

end Moves

/-! ### The processes -/

/-- Which phases the processes can be in together, whoever forks. -/
structure Family (cfg : Config) (s : State) : Prop where
  unreaped : ∀ p ∈ s.unreaped, s.pc p = .dead
  started : s.pc .executor ≠ .none
  child : (s.pc .child).early = false ∧ s.pc .child ≠ .nsexit
  sdPam : (s.pc .sdPam).early = false ∧ s.pc .sdPam ≠ .nsexit
  single : s.pc .child ≠ .none → s.pc .executor = .nsexit ∨ s.pc .executor = .dead
  forks : s.pc .sdPam ≠ .none → (s.pc .executor).fresh = false
  plain : cfg.pidns = false → s.pc .child = .none ∧ s.pc .executor ≠ .nsexit
  announced : s.prQ ≠ [] → s.There .child
  pamless : cfg.pam = false → s.pc .sdPam = .none ∧ s.session = .none
  orphan : s.pc .sdPam ≠ .none → s.parent .sdPam = some .executor ∨ s.pc .executor = .dead
  closed : s.session = .closed → s.pc .executor = .dead

theorem Family.beat (family : Family cfg s) (beat : Beat cfg s t) : Family cfg t := by
  obtain ⟨unreaped, started, child, sdPam, single, forks, plain, announced, pamless, orphan, closed⟩ := family
  cases beat with
  | @advance p at_pc n kept free here onward early fresh pc reaped parent prQ ulQ session =>
    simp only [Pc.onward, decide_eq_true_eq] at onward
    refine ⟨?_, ?_, ?_, ?_, ?_, ?_, ?_, ?_, ?_, ?_, ?_⟩
    all_goals cases p
    all_goals grind -ring -linarith [Function.update_apply, State.There, State.Alive]
  | @pam p kept free other here on pc reaped parent prQ ulQ session =>
    have executor : p = .executor := by
      rcases Proc.invoker other with rfl | rfl
      · rfl
      · rw [here] at child
        cases child.1
    subst executor
    refine ⟨?_, ?_, ?_, ?_, ?_, ?_, ?_, ?_, ?_, ?_, ?_⟩
    all_goals grind -ring -linarith [Function.update_apply, State.There, State.Alive, Pc.fresh, Pc.early]
  | nsFork kept free here on pc reaped parent ulQ session =>
    refine ⟨?_, ?_, ?_, ?_, ?_, ?_, ?_, ?_, ?_, ?_, ?_⟩
    all_goals grind -ring -linarith [Function.update_apply, State.There, State.Alive, Pc.fresh, Pc.early]
  | @die p kept alive pc reaped parent prQ ulQ session =>
    refine ⟨?_, ?_, ?_, ?_, ?_, ?_, ?_, ?_, ?_, ?_, ?_⟩
    all_goals cases p
    all_goals grind -ring -linarith [Function.update_apply, State.There, State.Alive, Pc.fresh, Pc.early]

theorem Beat.alive (beat : Beat cfg s t) : ∃ p, s.Alive p := by
  cases beat with
  | advance _ _ here onward =>
    simp only [Pc.onward, decide_eq_true_eq] at onward
    exact ⟨_, alive_of_pc here ⟨onward.1.1, onward.1.2.2⟩⟩
  | pam _ _ _ here => exact ⟨_, alive_of_pc here (by decide)⟩
  | nsFork _ _ here => exact ⟨_, alive_of_pc here (by decide)⟩
  | die _ alive => exact ⟨_, alive⟩

theorem Beat.kept (beat : Beat cfg s t) : Kept s t := by
  cases beat with
  | advance kept | pam kept | nsFork kept | die kept => exact kept

/-- Who is there stays until it is reaped. -/
theorem Beat.there (beat : Beat cfg s t) (there : s.There p) : t.There p := by
  cases beat with
  | advance kept free here onward early fresh pc unreaped =>
    simp only [Pc.onward, decide_eq_true_eq] at onward
    grind -ring -linarith [Function.update_apply, State.There, State.Alive]
  | pam kept free other here on pc unreaped | nsFork kept free here on pc unreaped | die kept alive pc unreaped =>
    grind -ring -linarith [Function.update_apply, State.There, State.Alive]

/-- An executor or payload that lives after the step lived before, or was forked by one with
no signal pending. -/
theorem Beat.born (beat : Beat cfg s t) (other : p ≠ .sdPam) (alive : t.Alive p) :
    s.Alive p ∨ s.Alive .executor ∧ s.NoFatal .executor := by
  cases beat with
  | advance kept free here onward early fresh pc unreaped =>
    simp only [Pc.onward, decide_eq_true_eq] at onward
    grind -ring -linarith [Function.update_apply, State.Alive]
  | pam kept free other here on pc unreaped | nsFork kept free here on pc unreaped | die kept alive pc unreaped =>
    grind -ring -linarith [Function.update_apply, State.Alive]

/-- The executor that left for its child does not come back. -/
theorem Beat.left (beat : Beat cfg s t) (family : Family cfg s) (left : s.pc .executor = .nsexit ∨ s.pc .executor = .dead) :
    t.pc .executor = .nsexit ∨ t.pc .executor = .dead := by
  have child := family.child
  cases beat with
  | advance kept free here onward early fresh pc unreaped =>
    simp only [Pc.onward, decide_eq_true_eq] at onward
    grind -ring -linarith [Function.update_apply]
  | pam kept free other here on pc unreaped =>
    rcases Proc.invoker other with rfl | rfl
    · grind -ring -linarith [Function.update_apply]
    · rw [here] at child
      cases child.1
  | nsFork kept free here on pc unreaped | die kept alive pc unreaped => grind -ring -linarith [Function.update_apply]

/-- Only an executor at its credentials sends a user lookup. -/
theorem Beat.lookup (beat : Beat cfg s t) (family : Family cfg s) (sent : t.ulQ ≠ []) :
    s.ulQ ≠ [] ∨ s.pc .executor = .creds := by
  cases beat with
  | advance kept free here onward early fresh pc unreaped parent prQ ulQ =>
    rcases ulQ with same | ⟨other, rfl⟩
    · exact .inl (same ▸ sent)
    · rcases Proc.invoker other with rfl | rfl
      · exact .inr here
      · have child := family.child.1
        rw [here] at child
        cases child
  | pam _ _ _ _ _ _ _ _ _ ulQ | nsFork _ _ _ _ _ _ _ ulQ | die _ _ _ _ _ _ ulQ => exact .inl (ulQ ▸ sent)

end LinuxTla.Executor
