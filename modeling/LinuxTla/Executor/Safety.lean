import LinuxTla.Executor.Processes
import LinuxTla.Executor.Dispatch

/-! Type=exec means that the payload was executed. -/

namespace LinuxTla.Executor

open Lib

variable {cfg : Config} {s t : State}

theorem Inv.turn {v w : View} (inv : Inv cfg v) (turn : Turn cfg v w) : Inv cfg w :=
  ⟨inv.machine.turn turn, inv.starting.turn inv.machine turn, inv.tracking.turn inv.machine turn,
    inv.verdict.turn inv.machine turn⟩

theorem Inv.dispatch_event (sound : cfg.Sound) (inv : Inv cfg s.view) {ev : Event} {z : Proc}
    (done : dispatch cfg s ev z = some t) : Inv cfg t.view := by
  unfold dispatch at done
  split at done
  next top =>
    cases ev with
    | userLookup | signals | cgInotify =>
      obtain rfl := Option.some.inj done
      exact inv
    | pidref =>
      obtain rfl := Option.some.inj done
      exact inv.dispatch_pidref top
    | handoff =>
      obtain rfl := Option.some.inj done
      exact inv.dispatch_handoff sound top
    | execFd =>
      obtain rfl := Option.some.inj done
      exact inv.dispatch_execFd sound top
    | sigchld =>
      dsimp only at done
      split at done
      next =>
        obtain rfl := Option.some.inj done
        exact inv
      next =>
        split at done
        next zombie =>
          obtain rfl := Option.some.inj done
          exact inv.dispatch_reap sound top (Finset.mem_filter.mp zombie).1
        next => exact absurd done nofun
    | cgEmpty =>
      obtain rfl := Option.some.inj done
      exact inv.dispatch_cgEmpty
    | timer =>
      obtain rfl := Option.some.inj done
      exact inv.dispatch_timer top
  next => exact absurd done nofun

theorem Inv.performed (sound : cfg.Sound) (inv : Inv cfg s.view) {move : Move} (done : perform cfg s move = some t) :
    Inv cfg t.view := by
  have machine := inv.machine
  cases move with
  | initPhase p fails => exact inv.turn (initPhase_turn machine (invoke_eq done).1 (invoke_eq done).2)
  | creds p fails => exact inv.turn (creds_turn machine (invoke_eq done).1 (invoke_eq done).2)
  | setup p fails => exact inv.turn (setup_turn machine (invoke_eq done).1 (invoke_eq done).2)
  | pam p fails => exact inv.turn (pam_turn sound machine (invoke_eq done).1 (invoke_eq done).2)
  | pamSync p => exact inv.turn (pamSync_turn sound machine (invoke_eq done).1 (invoke_eq done).2)
  | ns p fails => exact inv.turn (ns_turn sound machine (invoke_eq done).1 (invoke_eq done).2)
  | nsExit p => exact inv.turn (nsExit_turn machine (invoke_eq done).2)
  | sandbox p fails => exact inv.turn (sandbox_turn machine (invoke_eq done).1 (invoke_eq done).2)
  | hot p => exact inv.turn (hot_turn sound (invoke_eq done).1 (invoke_eq done).2)
  | handoff p => exact inv.turn (handoff_turn (invoke_eq done).1 (invoke_eq done).2)
  | execve p fails => exact inv.turn (execve_turn sound machine (invoke_eq done).1 (invoke_eq done).2)
  | payloadExit p st => exact inv.turn (payloadExit_turn machine (invoke_eq done).2)
  | killed p => exact inv.turn (killed_turn machine done)
  | pCloseFd => exact inv.turn (pCloseFd_turn sound done)
  | pDrop fails => exact inv.turn (pDrop_turn done)
  | pPrctl => exact inv.turn (pPrctl_turn done)
  | pPlace => exact inv.turn (pPlace_turn done)
  | pCheck => exact inv.turn (pCheck_turn done)
  | pWait => exact inv.turn (pWait_turn done)
  | pClose => exact inv.turn (pClose_turn done)
  | pExit => exact inv.turn (pExit_turn machine done)
  | dispatch ev z => exact inv.dispatch_event sound done
  | stopRequest => exact inv.stop_request done
  | timeoutFire => exact inv.timeout_fire done

theorem init_inv (sound : cfg.Sound) : Inv cfg (init cfg).view := by
  have pc (p : Proc) : (init cfg).view.pc p = if p = .executor then .init else .none := rfl
  have pipeW : (init cfg).view.pipeW = {.executor} := if_pos sound.type
  have state : (init cfg).view.state = .start := if_neg (by rw [sound.type]; exact nofun)
  have job : (init cfg).view.job = .running := if_neg (by rw [sound.type]; exact nofun)
  have source : (init cfg).view.execFd = true := decide_eq_true sound.type
  have payload : (init cfg).view.pc cfg.payload ≠ .handoff ∧ (init cfg).view.pc cfg.payload ≠ .execve := by
    rw [pc]
    split
    next => exact ⟨nofun, nofun⟩
    next => exact ⟨nofun, nofun⟩
  refine ⟨?_, ⟨?_, ?_, ?_, ?_, ?_⟩, ⟨?_, ?_, ?_, ?_, ?_, nofun, ?_, rfl⟩, ⟨⟨le_rfl, le_rfl⟩, nofun, ?_, ?_, ?_, ?_, ?_, ?_⟩⟩
  · refine ⟨⟨?_, ?_⟩, ⟨?_, ?_, ?_, nofun, ?_⟩, ?_, nofun, nofun, fun _ _ => rfl⟩
    · exact fun _ => ⟨rfl, .inl rfl⟩
    · exact fun _ => ⟨rfl, .inl ⟨rfl, .inl rfl⟩⟩
    · intro p other
      rw [pipeW, pc]
      rcases Proc.invoker other with rfl | rfl
      · exact ⟨fun _ => .inl rfl, fun _ => Finset.mem_singleton_self _⟩
      · exact ⟨fun mem => absurd (Finset.mem_singleton.mp mem) nofun, nofun⟩
    · rw [pipeW]
      exact fun mem => absurd (Finset.mem_singleton.mp mem) nofun
    · exact nofun
    · exact fun started => (started rfl).elim
    · intro p other
      rw [pc]
      split
      next => exact nofun
      next => exact nofun
  · intro _ _
    refine ⟨nofun, ?_⟩
    rintro (at_handoff | at_execve | execd)
    · exact (payload.1 at_handoff).elim
    · exact (payload.2 at_execve).elim
    · exact absurd execd nofun
  · exact fun _ closed => absurd (source.symm.trans closed) nofun
  · exact fun _ => ⟨rfl, job⟩
  · exact fun _ _ _ => ⟨rfl, rfl⟩
  · intro _ p _ dead
    rw [pc] at dead
    split at dead
    next => exact absurd dead nofun
    next => exact absurd dead nofun
  · intro p main
    obtain rfl : Proc.executor = p := Option.some.inj main
    exact ⟨.inl ⟨nofun, nofun⟩, nofun, nofun⟩
  · exact fun _ _ started => (started rfl).elim
  · exact fun _ => rfl
  · exact fun full => (full rfl).elim
  · exact nofun
  · exact fun full => (full rfl).elim
  · exact fun _ _ _ _ _ => ⟨rfl, rfl⟩
  · exact fun _ later => (later state).elim
  · rw [state]
    exact fun active => absurd active (by decide)
  · exact fun done => absurd (job.symm.trans done) nofun
  · exact fun _ later => (later state).elim
  · exact fun running => absurd (state.symm.trans running) nofun

theorem inv_invariant (sound : cfg.Sound) : (spec cfg).Invariant fun s => Inv cfg s.view := by
  apply System.Invariant.of_step
  · rintro s rfl
    exact init_inv sound
  · rintro s t inv ⟨move, done⟩
    exact inv.performed sound done

/-- Every reachable state keeps the promises of Type=exec, whatever dies or is stopped when. -/
theorem exec_means_executed (sound : cfg.Sound) :
    (spec cfg).Invariant fun s =>
      ActiveImpliesExeced cfg s ∧ JobDoneImpliesExeced cfg s ∧ JobFailedImpliesNotExeced cfg s ∧ HandoffRecorded s ∧
        ExecutorSignaledOnlyOnRequest cfg s := by
  refine (inv_invariant sound).mono fun s inv => ⟨?_, ?_, ?_, inv.tracking.handoff, ?_⟩
  · exact fun active => (inv.verdict.active active.2).1
  · exact fun done => inv.verdict.done done.2
  · rintro ⟨_, failed, stops, timeouts⟩
    have unspent : ¬ s.view.Spent cfg := by
      rintro (fewer | fewer)
      · exact absurd stops (Nat.ne_of_lt fewer)
      · exact absurd timeouts (Nat.ne_of_lt fewer)
    have later : s.state ≠ .start := fun start => absurd ((inv.starting.fresh start).2.symm.trans failed) nofun
    exact (inv.verdict.failed unspent later (.inr failed)).1
  · rintro ⟨p, other, alive, leaves, signalled⟩
    by_contra unspent
    have quiet := inv.verdict.quiet unspent p other alive.2 leaves
    rcases signalled with term | kill
    · exact absurd (term.symm.trans quiet.1) nofun
    · exact absurd (kill.symm.trans quiet.2) nofun

section Small

/-- PAMName= with KillMode=control-group and the default priorities. -/
def execPam : Config where
  type := .exec
  pam := true
  pidns := false
  user := true
  remainAfterExit := false
  killMode := .controlGroup
  prio := prioDefault
  stopBudget := 1
  timeoutBudget := 1
  payloadStatuses code := decide (code ≤ 1)
  pamDropMayFail := false
  fixColdMark := true
  fixPamClosesExecFd := true
  fixPpidCheck := true
  barrier := true
  pamWaitsForParent := false
  fixPidnsParentClosesExecFd := true

/-- The state after a list of moves. -/
def runs (cfg : Config) (s : State) : List Move → Option State
  | [] => some s
  | move :: moves => (perform cfg s move).bind fun t => runs cfg t moves

theorem runs_reachable {moves : List Move} (reached : (spec cfg).Reachable s) (done : runs cfg s moves = some t) :
    (spec cfg).Reachable t := by
  induction moves generalizing s with
  | nil =>
    obtain rfl := Option.some.inj done
    exact reached
  | cons move moves ih =>
    obtain ⟨u, step, rest⟩ := Option.bind_eq_some_iff.mp done
    exact ih (reached.next ⟨move, step⟩) rest

/-- (sd-pam) is placed, the payload is executed, and the manager reads what it sent. -/
def started : List Move :=
  [.initPhase .executor false, .creds .executor false, .setup .executor false, .pam .executor false, .pCloseFd,
    .pDrop false, .pPrctl, .pPlace, .pamSync .executor, .ns .executor false, .sandbox .executor false, .hot .executor,
    .handoff .executor, .execve .executor false, .dispatch .userLookup .executor, .dispatch .cgInotify .executor,
    .dispatch .handoff .executor, .dispatch .execFd .executor]

theorem execPam_started : ∃ s, (spec execPam).Reachable s ∧ s.state = .running := by
  have ran : (runs execPam (init execPam) started).map (fun s => s.state) = some .running := by decide +kernel
  obtain ⟨s, done, state⟩ := Option.map_eq_some_iff.mp ran
  exact ⟨s, runs_reachable (.init rfl) done, state⟩

theorem execPam_sound : execPam.Sound where
  type := rfl
  userLookup := by decide
  pidref := by decide
  handoff := by decide
  execFd := by decide
  attributed := by decide
  single := .inr rfl
  coldMark := rfl
  pamCloses := rfl
  ppidCheck := rfl
  barrier := rfl
  waits := rfl
  pidnsCloses := rfl

theorem execPam_executed : ∃ s, s.state = .running ∧ ActiveImpliesExeced execPam s ∧ JobDoneImpliesExeced execPam s ∧
    JobFailedImpliesNotExeced execPam s ∧ HandoffRecorded s ∧ ExecutorSignaledOnlyOnRequest execPam s := by
  obtain ⟨s, reached, state⟩ := execPam_started
  exact ⟨s, state, exec_means_executed execPam_sound s reached⟩

end Small

end LinuxTla.Executor
