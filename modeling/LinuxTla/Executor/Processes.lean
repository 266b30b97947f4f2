import LinuxTla.Executor.Machine

/-! Every action of a process is one of the turns. -/

namespace LinuxTla.Executor

variable {cfg : Config} {s t u : State} {p : Proc}

theorem step_eq {pc : Pc} (done : s.step p pc t = some u) : (s.NoFatal p ∧ s.pc p = pc) ∧ t = u := by
  rw [State.step] at done
  split at done
  next enabled => exact ⟨enabled, Option.some.inj done⟩
  next => exact absurd done nofun

theorem invoke_eq {next : Option State} (done : invoke p next = some u) : p ≠ .sdPam ∧ next = some u := by
  rw [invoke] at done
  split at done
  next => exact absurd done nofun
  next other => exact ⟨other, done⟩

/-- Only (sd-pam) asked to be told of the death of its parent. -/
theorem die_signals (machine : Machine cfg s.view) (st : Status) (q : Proc) (invoker : q ≠ .sdPam) :
    (die s p st).sigterm q = s.sigterm q := by
  have safe : s.pdeath q = false := machine.pdeath q invoker
  change (s.sigterm q || decide _) = s.sigterm q
  rw [safe]
  simp

theorem die_turn (machine : Machine cfg s.view) {st : Status} (alive : s.Alive p) (ends : s.view.Ends p st)
    (other : ¬ (p ≠ .sdPam ∧ s.pc p = .execve ∧ st = .exited exitExec)) : Turn cfg s.view (die s p st).view :=
  Turn.die (v := s.view) alive ends (die_signals machine st) (if_neg other).symm

theorem execFail_turn (machine : Machine cfg s.view) {code : ℕ} {pc : Pc} (at_pc : s.pc p = pc)
    (started : pc ≠ .none ∧ pc ≠ .dead) (other : pc ≠ .handoff ∧ pc ≠ .execve) (bad : code ≠ 0) :
    Turn cfg s.view (execFail s p code).view := by
  subst at_pc
  exact die_turn machine started (.inl ⟨code, rfl, bad, other.1, fun same => (other.2 same).elim⟩) fun failed =>
    other.2 failed.2.1

theorem advance_turn {pc nx : Pc} (other : p ≠ .sdPam) (at_pc : s.pc p = pc) (within : pc.early = true ∧ nx.early = true)
    (fresh : nx.fresh = true → pc.fresh = true) (sync : pc ≠ .pamsync) : Turn cfg s.view (advance s p nx).view := by
  subst at_pc
  exact Turn.advance (v := s.view) other (.inl within) fresh fun same => (sync same).elim

section Invoke

variable {fails : Bool} (sound : cfg.Sound) (machine : Machine cfg s.view) (other : p ≠ .sdPam)

include machine other in
theorem initPhase_turn (done : initPhase s p fails = some t) : Turn cfg s.view t.view := by
  obtain ⟨⟨_, at_pc⟩, rfl⟩ := step_eq done
  cases fails with
  | true => exact execFail_turn machine at_pc (by decide) (by decide) (by decide)
  | false => exact advance_turn other at_pc (by decide) (by decide) nofun

include machine other in
theorem creds_turn (done : creds cfg s p fails = some t) : Turn cfg s.view t.view := by
  obtain ⟨⟨_, at_pc⟩, rfl⟩ := step_eq done
  cases fails with
  | true => exact execFail_turn machine at_pc (by decide) (by decide) (by decide)
  | false => exact advance_turn other at_pc (by decide) (by decide) nofun

include machine other in
theorem setup_turn (done : setup s p fails = some t) : Turn cfg s.view t.view := by
  obtain ⟨⟨_, at_pc⟩, rfl⟩ := step_eq done
  cases fails with
  | true => exact execFail_turn machine at_pc (by decide) (by decide) (by decide)
  | false => exact advance_turn other at_pc (by decide) (by decide) nofun

include sound machine other in
theorem pam_turn (done : pam cfg s p fails = some t) : Turn cfg s.view t.view := by
  obtain ⟨⟨_, at_pc⟩, rfl⟩ := step_eq done
  split
  next => exact advance_turn other at_pc (by decide) (by decide) nofun
  next uses =>
    have pidns : cfg.pidns = false := sound.single.resolve_left uses
    cases fails with
    | true => exact execFail_turn machine at_pc (by decide) (by decide) (by decide)
    | false =>
      have fork := Turn.pam (v := s.view) other pidns at_pc
      change Turn cfg s.view (State.view { s with
        session := _
        pc := _
        parent := _
        pipeW := if cfg.type = .exec then insert .sdPam s.pipeW else s.pipeW
        uid := _ })
      rw [if_pos sound.type]
      exact fork

include sound machine other in
theorem pamSync_turn (done : pamSync cfg s p = some t) : Turn cfg s.view t.view := by
  rw [pamSync] at done
  split at done
  next synced =>
    obtain ⟨⟨_, at_pc⟩, rfl⟩ := step_eq done
    -- The barrier holds until (sd-pam) has placed itself or is gone.
    have open_before : s.pc .sdPam ≠ .closefd := by
      intro closing
      rcases synced with off | placed | gone
      · exact absurd (off.symm.trans sound.barrier) nofun
      · exact absurd (placed.symm.trans (machine.closes closing).2.1) nofun
      · exact gone (by rw [State.Alive, closing]; decide)
    have within : (s.pc p).early = true := by rw [at_pc]; rfl
    exact Turn.advance (v := s.view) other (.inl ⟨within, rfl⟩) nofun fun _ => open_before
  next => exact absurd done nofun

include sound machine other in
theorem ns_turn (done : ns cfg s p fails = some t) : Turn cfg s.view t.view := by
  rw [ns] at done
  split at done
  next pidns =>
    obtain ⟨⟨_, at_pc⟩, rfl⟩ := step_eq done
    exact Turn.advance (v := s.view) other (.inr (.inl ⟨pidns, at_pc, rfl⟩)) nofun fun same =>
      absurd (at_pc.symm.trans same) nofun
  next pidns =>
    split at done
    next =>
      obtain ⟨⟨_, at_pc⟩, rfl⟩ := step_eq done
      exact execFail_turn machine at_pc (by decide) (by decide) (by decide)
    next =>
      split at done
      next executor =>
        obtain ⟨⟨_, at_pc⟩, rfl⟩ := step_eq done
        rw [executor] at at_pc
        have fork := Turn.nsFork (v := s.view) (Bool.eq_true_of_not_eq_false pidns) at_pc
        have writers : (nsFork cfg s).pipeW = insert .child (s.pipeW.erase .executor) := by
          change (if _ then _ else if _ then _ else _) = _
          rw [if_neg fun exec => exec sound.type, if_pos sound.pidnsCloses]
        have view : (nsFork cfg s).view = { s.view with
            pc := Function.update (Function.update s.pc .executor .nsexit) .child .sandbox
            pipeW := insert .child (s.pipeW.erase .executor)
            prQ := s.prQ ++ [.executor] } := by
          rw [← writers]
          rfl
        rw [view]
        exact fork
      next => exact absurd done nofun

include machine in
theorem nsExit_turn (done : nsExit s p = some t) : Turn cfg s.view t.view := by
  obtain ⟨⟨_, at_pc⟩, rfl⟩ := step_eq done
  apply die_turn machine (by rw [State.Alive, at_pc]; decide) (.inr (.inr (.inl at_pc)))
  exact fun failed => absurd (at_pc.symm.trans failed.2.1) nofun

include machine other in
theorem sandbox_turn (done : sandbox cfg s p fails = some t) : Turn cfg s.view t.view := by
  obtain ⟨⟨_, at_pc⟩, rfl⟩ := step_eq done
  cases fails with
  | true => exact execFail_turn machine at_pc (by decide) (by decide) (by decide)
  | false =>
    exact Turn.advance (v := s.view) other (.inr (.inr ⟨at_pc, rfl⟩)) nofun fun same =>
      absurd (at_pc.symm.trans same) nofun

include sound other in
theorem hot_turn (done : hot cfg s p = some t) : Turn cfg s.view t.view := by
  obtain ⟨⟨_, at_pc⟩, rfl⟩ := step_eq done
  rw [if_pos sound.type]
  exact Turn.hot (v := s.view) other at_pc

include other in
theorem handoff_turn (done : handoff s p = some t) : Turn cfg s.view t.view := by
  obtain ⟨⟨_, at_pc⟩, rfl⟩ := step_eq done
  exact Turn.handoff (v := s.view) other at_pc

include sound machine other in
theorem execve_turn (done : execve cfg s p fails = some t) : Turn cfg s.view t.view := by
  obtain ⟨⟨_, at_pc⟩, rfl⟩ := step_eq done
  cases fails with
  | true =>
    rw [if_pos rfl, if_pos ⟨sound.coldMark, sound.type⟩]
    exact Turn.die (v := s.view) (by rw [show s.view.pc p = .execve from at_pc]; decide)
      (.inl ⟨exitExec, rfl, by decide, fun same => absurd (at_pc.symm.trans same) nofun, fun _ => rfl⟩)
      (die_signals machine (.exited exitExec)) (if_pos ⟨other, at_pc, rfl⟩).symm
  | false => exact Turn.execve (v := s.view) other at_pc

include machine in
theorem payloadExit_turn {st : ℕ} (done : payloadExit cfg s p st = some t) : Turn cfg s.view t.view := by
  rw [payloadExit] at done
  split at done
  next enabled =>
    obtain rfl := Option.some.inj done
    apply die_turn machine (by rw [State.Alive, enabled.1]; decide) (.inr (.inl enabled.1))
    exact fun failed => absurd (enabled.1.symm.trans failed.2.1) nofun
  next => exact absurd done nofun

include machine in
theorem killed_turn (done : killed s p = some t) : Turn cfg s.view t.view := by
  rw [killed] at done
  split at done
  next enabled =>
    obtain rfl := Option.some.inj done
    have pending : s.sigterm p = true ∨ s.sigkill p = true := enabled.2.symm.imp_left And.left
    exact die_turn machine enabled.1 (.inr (.inr (.inr (.inr pending)))) fun failed => absurd failed.2.2 nofun
  next => exact absurd done nofun

end Invoke

/-! ### (sd-pam) -/

section SdPam

variable (sound : cfg.Sound) (machine : Machine cfg s.view)

theorem sdPam_turn {pc nx : Pc} {placed : Bool} {pdeath term : Proc → Bool} (at_pc : s.pc .sdPam = pc)
    (alive : pc ≠ .none ∧ pc ≠ .dead) (later : pc ≠ .closefd) (next : nx ≠ .none ∧ nx ≠ .closefd ∧ nx ≠ .dead)
    (own : ∀ q, q ≠ .sdPam → pdeath q = s.pdeath q) (signals : ∀ q, q ≠ .sdPam → term q = s.sigterm q) :
    Turn cfg s.view
      { s.view with
        pc := Function.update s.pc .sdPam nx
        placed := placed
        pdeath := pdeath
        sigterm := term } := by
  subst at_pc
  exact Turn.sdPam (v := s.view) alive next own signals (.inr ⟨later, rfl⟩)

include sound in
theorem pCloseFd_turn (done : pCloseFd cfg s = some t) : Turn cfg s.view t.view := by
  obtain ⟨⟨_, at_pc⟩, rfl⟩ := step_eq done
  rw [if_pos sound.pamCloses]
  exact Turn.sdPam (v := s.view) (by rw [show s.view.pc .sdPam = .closefd from at_pc]; decide) (by decide)
    (fun _ _ => rfl) (fun _ _ => rfl) (.inl rfl)

theorem pDrop_turn {fails : Bool} (done : pDrop cfg s fails = some t) : Turn cfg s.view t.view := by
  rw [pDrop] at done
  split at done
  next =>
    split at done
    next =>
      obtain ⟨⟨_, at_pc⟩, rfl⟩ := step_eq done
      exact sdPam_turn at_pc (by decide) nofun (by decide) (fun _ _ => rfl) fun _ _ => rfl
    next => exact absurd done nofun
  next =>
    obtain ⟨⟨_, at_pc⟩, rfl⟩ := step_eq done
    exact sdPam_turn at_pc (by decide) nofun (by decide) (fun _ _ => rfl) fun _ _ => rfl

theorem pPrctl_turn (done : pPrctl s = some t) : Turn cfg s.view t.view := by
  obtain ⟨⟨_, at_pc⟩, rfl⟩ := step_eq done
  exact sdPam_turn at_pc (by decide) nofun (by decide) (fun q other => Function.update_of_ne other _ _) fun _ _ => rfl

theorem pPlace_turn (done : pPlace s = some t) : Turn cfg s.view t.view := by
  obtain ⟨⟨_, at_pc⟩, rfl⟩ := step_eq done
  exact sdPam_turn at_pc (by decide) nofun (by decide) (fun _ _ => rfl) fun _ _ => rfl

theorem pCheck_turn (done : pCheck cfg s = some t) : Turn cfg s.view t.view := by
  obtain ⟨⟨_, at_pc⟩, rfl⟩ := step_eq done
  split
  next => exact sdPam_turn at_pc (by decide) nofun (by decide) (fun _ _ => rfl) fun _ _ => rfl
  next => exact sdPam_turn at_pc (by decide) nofun (by decide) (fun _ _ => rfl) fun _ _ => rfl

theorem pWait_turn (done : pWait cfg s = some t) : Turn cfg s.view t.view := by
  rw [pWait] at done
  split at done
  next =>
    obtain ⟨⟨_, at_pc⟩, rfl⟩ := step_eq done
    split
    next =>
      exact sdPam_turn at_pc (by decide) nofun (by decide) (fun _ _ => rfl) fun q other => Function.update_of_ne other _ _
    next =>
      exact sdPam_turn at_pc (by decide) nofun (by decide) (fun _ _ => rfl) fun q other => Function.update_of_ne other _ _
  next => exact absurd done nofun

theorem pClose_turn (done : pClose s = some t) : Turn cfg s.view t.view := by
  obtain ⟨⟨_, at_pc⟩, rfl⟩ := step_eq done
  exact sdPam_turn at_pc (by decide) nofun (by decide) (fun _ _ => rfl) fun _ _ => rfl

include machine in
theorem pExit_turn (done : pExit s = some t) : Turn cfg s.view t.view := by
  obtain ⟨⟨_, at_pc⟩, rfl⟩ := step_eq done
  apply die_turn machine (by rw [State.Alive, at_pc]; decide) (.inr (.inr (.inr (.inl rfl))))
  exact fun failed => failed.1 rfl

end SdPam

end LinuxTla.Executor
