import LinuxTla.Executor.Manager

/-! The sources of the loop, one by one. -/

namespace LinuxTla.Executor

variable {cfg : Config} {s t : State} {v w : View} {r q : Mgr} {p z : Proc}

/-- A source that comes before the dispatched one has nothing to read. -/
theorem top_before {ev first : Event} (top : s.Top cfg ev) (before : cfg.prio first < cfg.prio ev) : ¬ s.Ready first :=
  fun ready => absurd (top.2 first ready) (not_le.mpr before)

theorem mgr_silent (s : State) : s.mgr.Silent := ⟨rfl, rfl⟩

theorem writes_apply (s : State) (q : Mgr) (bytes : List Bool) (job : Job) {stops : ℕ} {unreaped : Finset Proc}
    (fewer : stops ≤ s.stops) (left : unreaped ⊆ s.unreaped) :
    Writes s.view q
      { (apply s q).view with
        pipeB := bytes
        job := job
        stops := stops
        unreaped := unreaped } := by
  have delivered (pending : Bool) (p : Proc) (sent : Finset Proc) (on : (pending || decide (p ∈ sent)) = true) :
      pending = true ∨ p ∈ sent := (Bool.or_eq_true_iff.mp on).imp_right of_decide_eq_true
  refine ⟨⟨rfl, rfl, left, rfl, rfl, rfl, rfl⟩, rfl, rfl, rfl, ?_, rfl, rfl, rfl, fun p => delivered _ p _,
    fun p => delivered _ p _, fewer, rfl⟩
  intro fired
  change (if q.timer then s.timerFired else false) = true at fired
  split at fired
  next => exact fired
  next => exact absurd fired nofun

/-- The record is written back as it is for the start job, and nobody is signalled. -/
theorem same_apply (s : State) (q : Mgr) (bytes : List Bool) {unreaped : Finset Proc} (silent : q.Silent) (state : q.state = s.state)
    (result : q.result = s.result ∨ q.result ≠ .success ∧ s.state ≠ .start ∧ s.state ≠ .running) (job : q.job = s.job)
    (left : unreaped ⊆ s.unreaped) :
    Same s.view { (apply s q).view with pipeB := bytes, unreaped := unreaped } := by
  have writes := writes_apply s q bytes q.job le_rfl left
  refine ⟨writes.toBeside, state, result, job, writes.fired, ?_, ?_, rfl, rfl⟩
  · intro p on
    exact (writes.term p on).resolve_right (by rw [silent.1]; exact Finset.notMem_empty p)
  · intro p on
    exact (writes.kill p on).resolve_right (by rw [silent.2]; exact Finset.notMem_empty p)

section Sources

variable (sound : cfg.Sound) (inv : Inv cfg s.view)

/-! ### The queues -/

include sound inv in
theorem handoff_main (top : s.Top cfg .handoff) : ∃ rest, s.hoQ = cfg.payload :: rest ∧ s.mainPid = some cfg.payload := by
  have prQ : s.prQ = [] := not_not.mp (top_before top sound.attributed)
  have full : s.hoQ ≠ [] := top.1
  obtain ⟨known, attributed, _, _, ended, senders, sent, _⟩ := inv.tracking
  cases queue : s.hoQ with
  | nil => exact (full queue).elim
  | cons sender rest =>
    have payload : sender = cfg.payload := senders sender (by rw [show s.view.hoQ = _ from queue]; exact List.mem_cons_self)
    refine ⟨rest, by rw [payload], ?_⟩
    cases main : s.mainPid with
    | none => exact (full (ended main).2.1).elim
    | some p =>
      congr 1
      have started : s.pc cfg.payload ≠ .none := sent full
      by_cases pidns : cfg.pidns = true
      · rw [Config.payload, if_pos pidns] at started ⊢
        cases p with
        | executor => cases prQ.symm.trans (attributed main pidns started)
        | child => rfl
        | sdPam => exact ((known .sdPam main).2.1 rfl).elim
      · rw [Config.payload, if_neg pidns]
        cases p with
        | executor => rfl
        | child => exact (pidns ((known .child main).2.2 rfl)).elim
        | sdPam => exact ((known .sdPam main).2.1 rfl).elim

include sound inv in
theorem Inv.dispatch_handoff (top : s.Top cfg .handoff) : Inv cfg (dispatchHandoff s).view := by
  obtain ⟨rest, queue, main⟩ := handoff_main sound inv top
  have view : (dispatchHandoff s).view = { s.view with hoQ := rest } := by
    rw [dispatchHandoff, queue]
    dsimp only
    rw [if_pos main.symm]
    rfl
  have same : Same s.view { s.view with hoQ := rest } :=
    ⟨⟨rfl, rfl, subset_rfl, rfl, rfl, rfl, rfl⟩, rfl, .inl rfl, rfl, id, fun _ => id, fun _ => id, rfl, rfl⟩
  rw [view]
  refine ⟨inv.machine.beside same.toBeside, inv.starting.same same (fun _ => rfl) fun _ => rfl, ?_, inv.verdict.same same⟩
  obtain ⟨known, attributed, received, announced, ended, senders, sent, handoff⟩ := inv.tracking
  refine ⟨known, attributed, received, announced, ?_, ?_, ?_, handoff⟩
  · exact fun none => absurd (main.symm.trans none) nofun
  · exact fun p mem => senders p (by rw [show s.view.hoQ = _ from queue]; exact List.mem_cons_of_mem _ mem)
  · exact fun _ => sent (by rw [show s.view.hoQ = _ from queue]; exact List.cons_ne_nil _ _)

include inv in
theorem Inv.dispatch_pidref (top : s.Top cfg .pidref) : Inv cfg (dispatchPidref s).view := by
  have full : s.prQ ≠ [] := top.1
  obtain ⟨queue, main, child⟩ := inv.tracking.announced full
  have there : s.There .executor := (inv.tracking.there .executor main).1
  have view : (dispatchPidref s).view = { s.view with prQ := [], main := some .child } := by
    rw [dispatchPidref, show s.prQ = [.executor] from queue]
    dsimp only
    rw [if_pos ⟨there, main⟩]
    rfl
  have same : Same s.view { s.view with prQ := [], main := some .child } :=
    ⟨⟨rfl, rfl, subset_rfl, rfl, rfl, rfl, rfl⟩, rfl, .inl rfl, rfl, id, fun _ => id, fun _ => id, rfl, rfl⟩
  rw [view]
  refine ⟨inv.machine.beside same.toBeside, inv.starting.same same (fun _ => rfl) fun _ => rfl, ?_, inv.verdict.same same⟩
  have pidns : cfg.pidns = true := by
    by_contra off
    exact child.started inv.machine (inv.machine.plain (Bool.eq_false_of_not_eq_true off)).1
  refine ⟨?_, nofun, fun _ => rfl, nofun, nofun, inv.tracking.senders, inv.tracking.sent, inv.tracking.handoff⟩
  intro p known
  obtain rfl : Proc.child = p := Option.some.inj known
  exact ⟨child, nofun, fun _ => pidns⟩

/-! ### exec_fd -/

include sound inv in
theorem Inv.dispatch_execFd (top : s.Top cfg .execFd) : Inv cfg (dispatchExecFd cfg s).view := by
  have source : s.execFdSrc = true := top.1.1
  have kept (q : Mgr) (main : q.main = s.mainPid) (same : Same s.view { (apply s q).view with pipeB := [] })
      (starting : Starting cfg { (apply s q).view with pipeB := [] }) : Inv cfg { (apply s q).view with pipeB := [] } := by
    refine ⟨inv.machine.beside same.toBeside, starting, ?_, inv.verdict.same same⟩
    apply inv.tracking.kept same.toBeside main (fun _ _ => id) rfl rfl rfl
    intro none
    rw [same.state]
    exact (inv.tracking.ended (main.symm.trans none)).2.2.2
  by_cases pipe : s.pipeW = ∅
  · obtain ⟨noHandoff, noExecve, gone⟩ := inv.machine.eof pipe
    have bytes (start : s.state = .start) : s.lastHot = true ↔ s.execd = true :=
      (inv.starting.bytes start source).trans
        ⟨fun any => (any.resolve_left noHandoff).resolve_left noExecve, fun execd => .inr (.inr execd)⟩
    let r : Mgr := { s.mgr with execFd := false, hot := false }
    by_cases executed : s.lastHot = true ∧ cfg.type = .exec ∧ s.state = .start
    · have start : s.state = .start := executed.2.2
      have execd : s.execd = true := (bytes start).mp executed.1
      have main : r.main ≠ none := fun none => (inv.tracking.ended none).2.2.2.1 start
      have fine : sticky r .success = .success := (sticky_success r).trans (inv.starting.fresh start).1
      have view : (dispatchExecFd cfg s).view =
          { (apply s (setState { r with result := sticky r .success } .running)).view with pipeB := [] } := by
        rw [dispatchExecFd]
        dsimp only
        rw [if_pos pipe, if_pos executed, enterStartPost, enterRunning_main fine main]
        rfl
      have writes := writes_apply s (setState { r with result := sticky r .success } .running) []
        (setState { r with result := sticky r .success } .running).job le_rfl subset_rfl
      rw [view]
      refine ⟨inv.machine.beside writes.toBeside, .past nofun, ?_, ?_⟩
      · exact inv.tracking.kept writes.toBeside rfl (fun _ _ => id) rfl rfl rfl fun none => (main none).elim
      · apply inv.verdict.activated inv.starting writes.toBeside execd fine (setState_job_active (.inl rfl)) writes.fired ?_ ?_ rfl rfl
        · exact fun p on => (writes.term p on).resolve_right (Finset.notMem_empty p)
        · exact fun p on => (writes.kill p on).resolve_right (Finset.notMem_empty p)
    · have view : (dispatchExecFd cfg s).view = { (apply s r).view with pipeB := [] } := by
        rw [dispatchExecFd]
        dsimp only
        rw [if_pos pipe, if_neg executed]
        rfl
      have same := same_apply s r [] (mgr_silent s) rfl (.inl rfl) rfl subset_rfl
      rw [view]
      apply kept r rfl same
      by_cases start : s.state = .start
      · have bare : s.execd = false := by
          apply Bool.eq_false_of_not_eq_true
          exact fun execd => executed ⟨(bytes start).mpr execd, sound.type, start⟩
        refine ⟨fun _ => nofun, fun _ _ => ⟨bare, same.gone (gone bare)⟩, inv.starting.fresh, ?_, inv.starting.exits⟩
        exact fun _ p other => same.unsignalled (inv.starting.calm start p other)
      · exact .past start
  · have view : (dispatchExecFd cfg s).view = { (apply s { s.mgr with hot := s.lastHot }).view with pipeB := [] } := by
      rw [dispatchExecFd]
      dsimp only
      rw [if_neg pipe]
      rfl
    have same := same_apply s { s.mgr with hot := s.lastHot } [] (mgr_silent s) rfl (.inl rfl) rfl subset_rfl
    rw [view]
    exact kept _ rfl same (inv.starting.same same (fun _ => rfl) fun _ => rfl)

/-! ### The end of a process -/

include inv in
/-- A record that keeps the main process and the start job changes nothing. -/
theorem Inv.dispatch_same (q : Mgr) {unreaped : Finset Proc} (silent : q.Silent) (state : q.state = s.state)
    (result : q.result = s.result) (job : q.job = s.job) (execFd : q.execFd = s.execFdSrc) (hot : q.hot = s.hot)
    (main : q.main = s.mainPid) (left : unreaped ⊆ s.unreaped)
    (zombies : ∀ p, s.mainPid = some p ∨ s.prQ ≠ [] → p ∈ s.unreaped → p ∈ unreaped) :
    Inv cfg { (apply s q).view with unreaped := unreaped } := by
  have same := same_apply s q s.pipeB silent state (.inl result) job left
  refine ⟨inv.machine.beside same.toBeside, inv.starting.same same (fun _ => execFd) fun _ => ?_, ?_, inv.verdict.same same⟩
  · change s.pipeB.getLastD q.hot = s.pipeB.getLastD s.hot
    rw [hot]
  · apply inv.tracking.kept same.toBeside main zombies rfl rfl rfl
    intro none
    rw [same.state]
    exact (inv.tracking.ended (main.symm.trans none)).2.2.2

include inv in
theorem reaped_gone (main : s.mainPid = some z) (dead : s.pc z = .dead) (prQ : s.prQ = []) :
    s.view.Gone cfg ∧ (z = .executor → s.pc .child = .none) := by
  obtain ⟨there, other, pidns⟩ := inv.tracking.there z main
  have plain : cfg.pidns = false → s.pc .child = .none ∧ _ := inv.machine.plain
  rcases Proc.invoker other with rfl | rfl
  · by_cases nested : cfg.pidns = true
    · have bare : s.pc .child = .none := by
        by_contra started
        exact absurd (prQ.symm.trans (inv.tracking.attributed main nested started)) nofun
      have child : cfg.payload = .child := if_pos nested
      refine ⟨.inr ⟨?_, dead⟩, fun _ => bare⟩
      rw [child]
      exact bare
    · have executor : cfg.payload = .executor := if_neg nested
      refine ⟨.inl ?_, fun _ => (plain (Bool.eq_false_of_not_eq_true nested)).1⟩
      rw [executor]
      exact dead
  · have child : cfg.payload = .child := if_pos (pidns rfl)
    refine ⟨.inl ?_, nofun⟩
    rw [child]
    exact dead

include sound inv in
/-- A payload that was executed is reaped only after the end of exec_fd was seen. -/
theorem reaped_unexecuted (top : s.Top cfg .sigchld) (gone : s.view.Gone cfg) (start : s.state = .start) :
    s.execd = false := by
  apply Bool.eq_false_of_not_eq_true
  intro execd
  have unread : ¬ s.Ready .execFd := top_before top sound.execFd
  cases source : s.execFdSrc with
  | false => exact absurd (execd.symm.trans (inv.starting.closed start source).1) nofun
  | true =>
    apply unread
    refine ⟨source, .inr (Finset.eq_empty_of_forall_notMem ?_)⟩
    have noWriter := inv.machine.gone_silent gone execd
    exact noWriter

include inv in
theorem reaped_failure (start : s.state = .start) (other : z ≠ .sdPam) (dead : s.pc z = .dead) (unexecuted : s.execd = false)
    (bare : z = .executor → s.pc .child = .none) : cfg.failure (s.exitst z) ≠ .success := by
  rcases inv.starting.exits start z other dead with ⟨code, exited, bad⟩ | ⟨_, execd⟩ | ⟨executor, started⟩
  · rw [show s.exitst z = .exited code from exited, Config.failure,
      if_neg (show ¬ cfg.Clean (.exited code) from bad)]
    exact nofun
  · exact absurd (execd.symm.trans unexecuted) nofun
  · exact (started (bare executor)).elim

include sound inv in
theorem Inv.main_exit (top : s.Top cfg .sigchld) (main : s.mainPid = some z) (zombie : z ∈ s.unreaped)
    (watched : Finset Proc) :
    Inv cfg
      { (apply s (mainExit cfg s { s.mgr with watched := watched } (s.exitst z))).view with
        unreaped := s.unreaped.erase z } := by
  have dead : s.pc z = .dead := inv.machine.unreaped z zombie
  have prQ : s.prQ = [] := not_not.mp (top_before top sound.pidref)
  have hoQ : s.hoQ = [] := not_not.mp (top_before top sound.handoff)
  obtain ⟨gone, bare⟩ := reaped_gone inv main dead prQ
  have unexecuted := reaped_unexecuted sound inv top gone
  have failure (start : s.state = .start) :=
    reaped_failure inv start (inv.tracking.there z main).2.1 dead (unexecuted start) bare
  let f := cfg.failure (s.exitst z)
  let r0 : Mgr := { s.mgr with watched := watched }
  let r := r0.reaped cfg (s.exitst z)
  have left : s.unreaped.erase z ⊆ s.unreaped := Finset.erase_subset ..
  have stopped (q : Mgr) (stops : Stops s { r with result := sticky r f } q) (bad : s.job = .running → sticky r f ≠ .success) :
      Inv cfg { (apply s q).view with unreaped := s.unreaped.erase z } := by
    obtain ⟨ended, failed⟩ := stops.job_failed rfl bad
    exact inv.stopped (writes_apply s q s.pipeB q.job le_rfl left) stops (.inr ⟨rfl, gone, unexecuted⟩) ended failed
      (.inr ⟨rfl, gone, hoQ, prQ⟩)
  change Inv cfg { (apply s (mainExit cfg s r0 (s.exitst z))).view with unreaped := _ }
  by_cases start : s.state = .start
  · rw [mainExit_running sound.type (.inl start)]
    exact stopped _ (enterRunning_failed (mgr_silent s) (failure start)) fun _ => sticky_ne (failure start)
  · by_cases running : s.state = .running
    · have settled : s.job ≠ .running := (inv.verdict.active (.inl running)).2
      rw [mainExit_running sound.type (.inr running)]
      rcases enterRunning_cases cfg s f (r := r) (mgr_silent s) with stops | ⟨fine, main' | exited⟩
      · exact stopped _ stops fun on => (settled on).elim
      · exact (main'.1 rfl).elim
      · rw [exited.2]
        let q := setState { r with result := sticky r f } .exited
        have writes := writes_apply s q s.pipeB q.job le_rfl left
        refine ⟨inv.machine.beside writes.toBeside, .past nofun, ?_, ?_⟩
        · exact inv.tracking.orphaned writes.toBeside rfl gone hoQ prQ rfl ⟨nofun, nofun⟩
        · apply inv.verdict.activated inv.starting writes.toBeside (inv.verdict.active (.inl running)).1 fine
            (setState_job_active (.inr rfl)) writes.fired ?_ ?_ rfl rfl
          · exact fun p on => (writes.term p on).resolve_right (Finset.notMem_empty p)
          · exact fun p on => (writes.kill p on).resolve_right (Finset.notMem_empty p)
    · have unfinished (on : s.job = .running) : sticky r f ≠ .success :=
        sticky_keeps (sticky_keeps (inv.verdict.unfinished on start))
      rcases mainExit_other cfg s (s.exitst z) (r := r0) (mgr_silent s) start running with stops | same
      · exact stopped _ stops unfinished
      · rw [same]
        have result : r.result = s.result ∨ r.result ≠ .success ∧ s.state ≠ .start ∧ s.state ≠ .running := by
          by_cases fine : f = .success
          · exact .inl (by rw [show r.result = sticky r0 f from rfl, fine, sticky_success]; rfl)
          · exact .inr ⟨sticky_ne fine, start, running⟩
        have kept := same_apply s r s.pipeB (mgr_silent s) rfl result rfl left
        exact ⟨inv.machine.beside kept.toBeside, .past start,
          inv.tracking.orphaned kept.toBeside rfl gone hoQ prQ rfl ⟨start, running⟩, inv.verdict.same kept⟩

include sound inv in
theorem Inv.dispatch_reap (top : s.Top cfg .sigchld) (zombie : z ∈ s.unreaped) : Inv cfg (reap cfg s z).view := by
  have prQ : s.prQ = [] := not_not.mp (top_before top sound.pidref)
  by_cases main : s.mainPid = some z
  · have view : (reap cfg s z).view =
        { (apply s (mainExit cfg s { s.mgr with watched := s.watched.erase z } (s.exitst z))).view with
          unreaped := s.unreaped.erase z } := by
      rw [reap]
      dsimp only
      rw [if_pos main]
      rfl
    rw [view]
    exact inv.main_exit sound top main zombie _
  · have view : (reap cfg s z).view =
        { (apply s { s.mgr with watched := s.watched.erase z }).view with unreaped := s.unreaped.erase z } := by
      rw [reap]
      dsimp only
      rw [if_neg main]
      rfl
    rw [view]
    apply inv.dispatch_same { s.mgr with watched := s.watched.erase z } (mgr_silent s) rfl rfl rfl rfl rfl rfl
      (Finset.erase_subset ..)
    intro p needed there
    apply Finset.mem_erase_of_ne_of_mem ?_ there
    rintro rfl
    exact needed.elim main fun full => full prQ

/-! ### The cgroup, the timer and the user -/

include inv in
theorem Inv.dispatch_cgEmpty : Inv cfg (dispatchCgEmpty cfg s).view := by
  have unchanged : Inv cfg (apply s s.mgr).view :=
    inv.dispatch_same s.mgr (mgr_silent s) rfl rfl rfl rfl rfl rfl subset_rfl fun _ _ => id
  have stopped (q : Mgr) (stops : Stops s { s.mgr with result := sticky s.mgr .success } q) (later : s.state ≠ .start)
      (main : s.mainPid = none) : Inv cfg (apply s q).view := by
    rw [with_sticky_success] at stops
    obtain ⟨ended, failed⟩ := stops.job_failed rfl fun on => inv.verdict.unfinished on later
    exact inv.stopped (writes_apply s q s.pipeB q.job le_rfl subset_rfl) stops
      (.inr ⟨main, (inv.tracking.ended main).1, fun start => (later start).elim⟩) ended failed (.inl ⟨rfl, rfl⟩)
  have view : (dispatchCgEmpty cfg s).view = (apply s (if s.state.Inactive then s.mgr else cgEmpty cfg s s.mgr)).view := rfl
  rw [view]
  split
  next => exact unchanged
  next =>
    rw [cgEmpty, show s.mgr.state = s.state from rfl]
    cases state : s.state with
    | running =>
      have main : s.mgr.main ≠ none := fun none => (inv.tracking.ended none).2.2.2.2 state
      have fine : sticky s.mgr .success = .success := (sticky_success _).trans (inv.verdict.running state)
      have settled : s.job ≠ .running := (inv.verdict.active (.inl state)).2
      rw [enterRunning_main fine main]
      let q := setState { s.mgr with result := sticky s.mgr .success } .running
      have job : q.job = s.job := (setState_job_active (.inl rfl)).trans (if_neg settled)
      have same := same_apply s q s.pipeB ⟨rfl, rfl⟩ state.symm (.inl (sticky_success s.mgr)) job subset_rfl
      refine ⟨inv.machine.beside same.toBeside, .past nofun, ?_, inv.verdict.same same⟩
      exact inv.tracking.kept same.toBeside rfl (fun _ _ => id) rfl rfl rfl fun none => (main none).elim
    | stopSigterm | stopSigkill =>
      dsimp only
      split
      next none => exact stopped _ (enterStopPost_stops cfg s _ (mgr_silent s)) (by rw [state]; exact nofun) none
      next => exact unchanged
    | finalSigterm | finalSigkill =>
      dsimp only
      split
      next none =>
        have absent : Absent s s.mgr := fun p same => absurd (none.symm.trans same) nofun
        exact stopped _ (enterDead_stops absent rfl rfl) (by rw [state]; exact nofun) none
      next => exact unchanged
    | start | exited | dead | failed => exact unchanged

include inv in
theorem Inv.dispatch_timer (top : s.Top cfg .timer) : Inv cfg (dispatchTimer cfg s).view := by
  have stops := enterStopSigterm_stops cfg s .timeout (mgr_silent s)
  have spent := inv.verdict.fired top.1.1
  obtain ⟨ended, failed⟩ := stops.job_failed rfl fun _ => sticky_ne nofun
  exact inv.stopped (writes_apply s (enterStopSigterm cfg s s.mgr .timeout) s.pipeB _ le_rfl subset_rfl) stops
    (.inl (.inr spent)) ended failed (.inl ⟨rfl, rfl⟩)

include inv in
theorem Inv.stop_request (done : stopRequest cfg s = some t) : Inv cfg t.view := by
  rw [stopRequest] at done
  split at done
  next enabled =>
    obtain rfl := Option.some.inj done
    let q := enterStopSigterm cfg s s.mgr .success
    let job := if s.job = .running then .canceled else q.job
    have stops : Stops s { s.mgr with result := sticky s.mgr .success } q := enterStopSigterm_stops cfg s _ (mgr_silent s)
    have fewer : s.stops - 1 < cfg.stopBudget := by
      have budget : s.stops ≤ cfg.stopBudget := inv.verdict.budget.1
      omega
    have ended : job = s.job ∧ job ≠ .running ∨ job = .canceled := by
      by_cases running : s.job = .running
      · exact .inr (if_pos running)
      · left
        have kept : q.job = s.job := stops.job.resolve_right fun on => running on.1
        rw [show job = q.job from if_neg running, kept]
        exact ⟨rfl, running⟩
    apply inv.stopped (writes_apply s q s.pipeB job (Nat.sub_le ..) subset_rfl) stops (.inl (.inl fewer)) ?_ ?_ (.inl ⟨rfl, rfl⟩)
    · exact ended.imp And.left .inl
    · intro running
      rcases ended with ⟨_, settled⟩ | canceled
      · exact (settled running).elim
      · exact absurd (running.symm.trans canceled) nofun
  next => exact absurd done nofun

include inv in
theorem Inv.timeout_fire (done : timeoutFire s = some t) : Inv cfg t.view := by
  rw [timeoutFire] at done
  split at done
  next enabled =>
    obtain rfl := Option.some.inj done
    obtain ⟨budget, _, _, _, active, ended, unfinished, running⟩ := inv.verdict
    have fewer : s.timeouts - 1 < cfg.timeoutBudget := by
      have known : s.timeouts ≤ cfg.timeoutBudget := budget.2
      omega
    refine ⟨inv.machine.beside ⟨rfl, rfl, subset_rfl, rfl, rfl, rfl, rfl⟩, ?_, ?_, ?_⟩
    · obtain ⟨bytes, closed, fresh, calm, exits⟩ := inv.starting
      exact ⟨bytes, closed, fresh, calm, exits⟩
    · obtain ⟨known, attributed, received, announced, settled, senders, sent, handoff⟩ := inv.tracking
      exact ⟨known, attributed, received, announced, settled, senders, sent, handoff⟩
    · exact ⟨⟨budget.1, fewer.le⟩, fun _ => fewer, fun unspent => (unspent (.inr fewer)).elim,
        fun unspent => (unspent (.inr fewer)).elim, active, ended, unfinished, running⟩
  next => exact absurd done nofun

end Sources

end LinuxTla.Executor
