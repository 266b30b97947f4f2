import LinuxTla.Coredump.Exec

/-! The dumper wakes nobody whose task_struct is gone, and a user worker keeps its mask. -/

namespace LinuxTla.Coredump

open Lib

section Properties

variable {T : Type}

/-- wake_up_process() finds the task_struct it touches. -/
def NoUseAfterFree (s : State T) : Prop :=
  ∀ u ∈ s.releaseList, (s.thread u).released = true → (s.thread u).freed = false

/-- Nobody but the kernel sets the signal mask of a user worker. -/
def WorkerMaskIntact (cfg : Config T) (s : State T) : Prop :=
  ∀ t, (cfg.role t).worker = true ∧ (s.thread t).pc ≠ .none → (s.thread t).blocked = allButKill

/-- A task_struct that is there, with the mask it was made with. -/
structure Sound (cfg : Config T) (t : T) (th : Thread T) : Prop where
  freed : th.freed = false
  mask : (cfg.role t).worker = true → th.blocked = allButKill

/-- The grace period cannot end while there is anybody left to wake. -/
structure Release (cfg : Config T) (s : State T) : Prop where
  threads : ∀ t, Sound cfg t (s.thread t)
  reader : s.releaseList ≠ ∅ → s.rcuReader = true

end Properties

variable {T : Type} [DecidableEq T] {cfg : Config T} {s s' : State T}

/-! ### What the release does not look at -/

omit [DecidableEq T] in
theorem Release.frame (held : Release cfg s) (shared : Finset Sig) (group : Group T) (core : Core T) (dumper : Option T)
    (counted : Finset T) (dump : Dump) (freeze : Freezer) (hist : Hist) (budget : Budget) :
    Release cfg { s with shared, group, core, dumper, counted, dump, freeze, hist, budget } :=
  ⟨held.threads, held.reader⟩

theorem Release.set (held : Release cfg s) {t : T} {th : Thread T} (sound : Sound cfg t th) : Release cfg (s.set t th) := by
  refine ⟨fun u => ?_, held.reader⟩
  obtain rfl | different := eq_or_ne u t
  · rw [State.set_self]
    exact sound
  · rw [State.set_other _ _ different]
    exact held.threads u

/-- Everything else about a thread may change. -/
theorem Release.move (held : Release cfg s) (t : T) (pc : PC) (flags : Finset Flag) (pending realblocked : Finset Sig)
    (sigpending notify decremented released wqexit : Bool) (twq : Finset (Work T)) (owner : Option T) (refput : Bool) :
    Release cfg (s.set t { s.thread t with
      pc, flags, pending, realblocked, sigpending, notify, decremented, released, wqexit, twq, owner, refput }) :=
  held.set ⟨(held.threads t).freed, (held.threads t).mask⟩

/-- The mask of a thread that user space made is its own. -/
theorem Release.remask (held : Release cfg s) {t : T} (user : cfg.role t = .user) (pc : PC) (pending blocked realblocked : Finset Sig)
    (sigpending : Bool) : Release cfg (s.set t { s.thread t with pc, pending, blocked, realblocked, sigpending }) := by
  refine held.set ⟨(held.threads t).freed, fun worker => ?_⟩
  rw [user] at worker
  cases worker

omit [DecidableEq T] in
theorem Release.zap (held : Release cfg s) (chosen : T → Prop) [DecidablePred chosen] : Release cfg (s.zap chosen) := by
  refine ⟨fun u => ?_, held.reader⟩
  obtain ⟨pend, woken, thread, -⟩ := zap_cases s chosen u
  rw [thread]
  exact ⟨(held.threads u).freed, (held.threads u).mask⟩

theorem Release.zapMove (held : Release cfg s) (chosen : T → Prop) [DecidablePred chosen] (t : T) (pc : PC) (flags : Finset Flag)
    (sigpending : Bool) : Release cfg ((s.zap chosen).set t { s.thread t with pc, flags, sigpending }) :=
  (held.zap chosen).set ⟨(held.threads t).freed, (held.threads t).mask⟩

variable [Fintype T]

/-! ### Signals -/

omit [Fintype T] in
theorem Release.completeSignal (held : Release cfg s) (t : T) (sig : Sig) : Release cfg (completeSignal s t sig) := by
  unfold Coredump.completeSignal
  split
  · exact (held.zap _).frame ..
  · exact held.move t ..

theorem Release.sendGroup (held : Release cfg s) {sig : Sig} (step : SendGroup s sig s') : Release cfg s' := by
  obtain ⟨-, -, sent⟩ := step
  have queued : Release cfg { spend s sig with shared := insert sig s.shared } := held.frame ..
  split at sent
  · subst sent
    exact held.frame ..
  split at sent
  · obtain ⟨t, -, rfl⟩ := sent
    exact queued.completeSignal t sig
  · subst sent
    exact queued

omit [Fintype T] in
theorem Release.sendThread (held : Release cfg s) {t : T} {sig : Sig} (step : SendThread s t sig s') : Release cfg s' := by
  obtain ⟨-, -, sent⟩ := step
  have spent : Release cfg (spend s sig) := held.frame ..
  have queued : Release cfg ((spend s sig).set t { s.thread t with pending := insert sig (s.thread t).pending }) :=
    spent.move t ..
  split at sent
  · subst sent
    exact spent
  simp only at sent
  split at sent
  · subst sent
    exact queued.completeSignal t sig
  · subst sent
    exact queued

omit [Fintype T] in
theorem Release.workerLeave (held : Release cfg s) (t : T) : Release cfg (workerLeave cfg s t) :=
  held.move t ..

omit [Fintype T] in
theorem Release.doGroupExit (held : Release cfg s) (t : T) : Release cfg (doGroupExit s t) := by
  unfold Coredump.doGroupExit
  split
  · exact held.move t ..
  · exact Release.frame (held.zapMove (fun u => u ≠ t ∧ (s.thread u).pc.alive = true) t ..) ..

theorem Release.startDump (held : Release cfg s) (t : T) : Release cfg (startDump s t) :=
  Release.frame (held.zapMove (fun u => u ∈ zapped s t) t ..) ..

theorem Release.fatal (held : Release cfg s) (t : T) (sig : Sig) : Release cfg (fatal cfg s t sig) := by
  have signaled : Release cfg (s.set t { s.thread t with flags := insert .signaled (s.thread t).flags }) := held.move t ..
  unfold Coredump.fatal
  simp only
  split
  · exact signaled.workerLeave t
  split
  · unfold vfsCoredump
    split
    · exact held.startDump t
    · simp only
      split
      · exact signaled.workerLeave t
      · exact signaled.doGroupExit t
  · split
    · exact signaled.workerLeave t
    · exact signaled.doGroupExit t

theorem Release.deliver (held : Release cfg s) (t : T) (sig : Sig) : Release cfg (deliver cfg s t sig) := by
  unfold Coredump.deliver
  split
  · exact held
  · exact held.fatal t sig

theorem Release.getSignal (held : Release cfg s) {t : T} (step : GetSignal cfg s t s') : Release cfg s' := by
  obtain ⟨-, -, -, -, result⟩ := step
  split at result
  · subst result
    exact Release.fatal (held.move t ..) t .kill
  split at result
  · obtain ⟨sig, -, rfl⟩ := result
    exact Release.deliver (held.move t ..) t sig
  split at result
  · obtain ⟨sig, -, rfl⟩ := result
    exact Release.deliver (Release.frame (held.move t ..) ..) t sig
  · subst result
    exact held.move t ..

/-! ### Masks -/

omit [Fintype T] in
theorem Release.woken (held : Release cfg s) {t : T}
    (woken : s' = s ∨ ∃ u, u ≠ t ∧ s' = s.set u { s.thread u with sigpending := true }) : Release cfg s' := by
  obtain rfl | ⟨u, -, rfl⟩ := woken
  · exact held
  · exact held.move u ..

theorem Release.blockUsr (held : Release cfg s) {t : T} (step : BlockUsr cfg s t s') : Release cfg s' := by
  obtain ⟨user, -, -, s₁, retarget, rfl⟩ := step
  exact (held.woken retarget.cases).remask user ..

/-- Only a user thread sleeps in sigtimedwait(). -/
theorem Release.sigWaitWake (held : Release cfg s) (inv : Inv cfg s) {t : T} (step : SigWaitWake cfg s t s') : Release cfg s' := by
  obtain ⟨here, s₁, retarget, rfl⟩ := step
  have user : cfg.role t = .user := by
    have suits := (inv.threads t).suits
    rw [here] at suits
    revert suits
    cases cfg.role t <;> decide
  exact Release.frame ((held.woken retarget.cases).remask user ..) ..

omit [DecidableEq T] [Fintype T] in
theorem Release.freeze (held : Release cfg s) {kind : Freezer} (step : Freeze s kind s') : Release cfg s' := by
  obtain ⟨-, -, -, rfl⟩ := step
  refine ⟨fun u => ?_, held.reader⟩
  simp only
  split
  · exact ⟨(held.threads u).freed, (held.threads u).mask⟩
  · exact held.threads u

/-! ### The dumper -/

omit [Fintype T] in
theorem Release.dumpChunk (held : Release cfg s) {t : T} (step : DumpChunk cfg s t s') : Release cfg s' := by
  have truncated : Release cfg { s.set t { s.thread t with pc := .dumpFinish } with
      dump := { s.dump with result := .truncated } } := Release.frame (held.move t ..) ..
  obtain ⟨-, result⟩ := step
  split at result
  · subst result
    exact truncated
  · obtain ⟨-, rfl⟩ | ⟨-, rfl⟩ | ⟨-, rfl⟩ := result
    · exact truncated
    · exact held.frame ..
    · exact Release.frame (held.move t ..) ..

omit [Fintype T] in
/-- The parked threads become the release list with rcu_read_lock() taken. -/
theorem Release.dumpFinish (fixed : cfg.Fixed) (held : Release cfg s) {t : T} (step : DumpFinish cfg s t s') : Release cfg s' := by
  obtain ⟨-, rfl⟩ := step
  exact ⟨(held.move t ..).threads, fun _ => fixed.rcuRelease⟩

omit [Fintype T] in
theorem Release.releaseWake (held : Release cfg s) {t u : T} (step : ReleaseWake s t u s') : Release cfg s' := by
  obtain ⟨-, member, -, rfl⟩ := step
  exact ⟨held.threads, fun _ => held.reader (Finset.ne_empty_of_mem member)⟩

omit [Fintype T] in
/-- rcu_read_unlock() comes when everybody was woken. -/
theorem Release.releaseDone (held : Release cfg s) {t : T} (step : ReleaseDone cfg s t s') : Release cfg s' := by
  obtain ⟨-, woken, rfl⟩ := step
  have unlocked : Release cfg { s with rcuReader := false } := ⟨held.threads, fun left => absurd woken left⟩
  split
  · exact unlocked.workerLeave t
  · exact unlocked.doGroupExit t

omit [Fintype T] in
/-- No grace period ends under the reader. -/
theorem Release.freed (held : Release cfg s) {t : T} (step : Freed s t s') : Release cfg s' := by
  obtain ⟨-, member, -, unlocked, -⟩ := step
  cases unlocked.symm.trans (held.reader (Finset.ne_empty_of_mem member))

/-! ### Threads that come and go -/

theorem Release.exitNotify (held : Release cfg s) {t : T} (step : ExitNotify cfg s t s') : Release cfg s' := by
  obtain ⟨-, -, rfl⟩ | ⟨-, threads, result⟩ := step.cases
  · exact held.move t ..
  · rw [result]
    refine ⟨fun u => ?_, held.reader⟩
    obtain ⟨-, thread⟩ | ⟨-, -, -, -, thread⟩ | ⟨-, thread⟩ := threads u
    all_goals
      simp only
      rw [thread]
      exact ⟨(held.threads u).freed, (held.threads u).mask⟩

omit [Fintype T] in
theorem Release.deThreadDone (held : Release cfg s) {t : T} (step : DeThreadDone cfg s t s') : Release cfg s' := by
  have threads := step.cases
  obtain ⟨-, -, -, rfl⟩ := step
  refine ⟨fun u => ?_, held.reader⟩
  obtain ⟨-, thread⟩ | ⟨-, -, -, thread⟩ | ⟨-, -, thread⟩ := threads u
  all_goals
    rw [thread]
    exact ⟨(held.threads u).freed, (held.threads u).mask⟩

theorem Release.deThread (held : Release cfg s) {t : T} (step : DeThread cfg s t s') : Release cfg s' := by
  obtain ⟨-, rfl⟩ := step
  split
  · exact held.move t ..
  split
  · exact held.move t ..
  · exact Release.frame (held.zapMove (fun u => u ≠ t ∧ (s.thread u).pc.alive = true) t ..) ..

omit [Fintype T] in
theorem Release.workerExit (held : Release cfg s) {t : T} (step : WorkerExit s t s') : Release cfg s' := by
  obtain ⟨-, rfl⟩ := step
  have cancelled : Release cfg ((s.thread t).owner.elim s fun o =>
      s.set o { s.thread o with twq := (s.thread o).twq.erase (.worker t) }) := by
    cases (s.thread t).owner with
    | none => exact held
    | some o => exact held.move o ..
  exact cancelled.move t ..

omit [Fintype T] in
/-- A new worker gets the mask of a worker, and a task_struct that nobody freed. -/
theorem Release.newWorker (held : Release cfg s) (t n : T) : Release cfg (newWorker s t n) := by
  have newborn : Sound cfg n { s.thread n with
      pc := .run
      owner := some t
      flags := (s.thread t).flags
      blocked := allButKill
      pending := ∅
      sigpending := false
      notify := false
      refput := false } := ⟨(held.threads n).freed, fun _ => rfl⟩
  exact (held.set newborn).frame ..

omit [Fintype T] in
theorem Release.createWorker (held : Release cfg s) {c : T} (step : CreateWorker cfg s c s') : Release cfg s' := by
  obtain ⟨-, -, item, -, created⟩ := step
  have taken : Release cfg (s.set c { s.thread c with twq := (s.thread c).twq.erase item }) := held.move c ..
  obtain ⟨-, -, rfl⟩ | created := created
  · exact taken
  split at created
  · subst created
    exact taken
  split at created
  · split at created
    · subst created
      exact Release.frame (held.move c ..) ..
    · subst created
      exact taken
  · obtain ⟨n, -, -, rfl⟩ | ⟨-, rfl⟩ := created
    · exact taken.newWorker c n
    · exact taken

/-! ### Every step -/

omit [Fintype T] in
theorem Release.notified (held : Release cfg s) (o : T) (twq : Finset (Work T)) :
    Release cfg (notified s o { s.thread o with twq := twq }) :=
  Release.frame (held.move o ..) ..

omit [DecidableEq T] in
theorem Release.init (start : Init cfg s) : Release cfg s := by
  subst start
  exact ⟨fun t => ⟨rfl, fun worker => if_pos worker⟩, fun some => absurd rfl some⟩

theorem Release.env (fixed : cfg.Fixed) (held : Release cfg s) (step : EnvStep cfg s s') : Release cfg s' := by
  cases step with
  | sendGroup sig step => exact held.sendGroup step
  | sendThread t sig step => exact held.sendThread step
  | blockUsr t step => exact held.blockUsr step
  | unblockUsr t step =>
    obtain ⟨user, -, -, rfl⟩ := step
    exact held.remask user ..
  | sigWaitEnter t step =>
    obtain ⟨user, -, -, -, -, rfl⟩ := step
    exact held.remask user ..
  | tracerClearMask t step => exact (not_tracerClearMask fixed step).elim
  | exitSyscall t step =>
    obtain ⟨-, -, rfl⟩ := step
    exact held.move t ..
  | exitGroupSyscall t step =>
    obtain ⟨-, -, rfl⟩ := step
    exact held.doGroupExit t
  | execStart t step =>
    obtain ⟨-, -, -, rfl⟩ := step
    split
    · exact Release.frame (held.move t ..) ..
    · exact Release.frame (held.move t ..) ..
  | workerQueuesCreate t step =>
    obtain ⟨-, -, o, -, -, -, rfl⟩ := step
    exact held.notified o _
  | freed t step => exact held.freed step
  | freeze kind step => exact held.freeze step

theorem Release.thread (fixed : cfg.Fixed) (held : Release cfg s) (inv : Inv cfg s) {t : T} (step : ThreadStep cfg s t s') :
    Release cfg s' := by
  have cancels {here next : PC} (step : CancelWait s t here next s') : Release cfg s' := by
    obtain ⟨-, rfl⟩ := step
    exact held.move t ..
  have waits {here next : PC} (step : WaitDone cfg s t here next s') : Release cfg s' := by
    obtain ⟨-, -, rfl⟩ := step
    exact held.move t ..
  cases step with
  | getSignal step => exact held.getSignal step
  | sigWaitWake step => exact held.sigWaitWake inv step
  | handleNotify step | dumpWaitDone step | unpark step =>
    obtain ⟨-, -, rfl⟩ := step
    exact held.move t ..
  | dumpChunk step => exact held.dumpChunk step
  | dumpFinish step => exact held.dumpFinish fixed step
  | releaseClear u step =>
    obtain ⟨-, -, -, rfl⟩ := step
    exact held.move u ..
  | releaseWake u step => exact held.releaseWake step
  | releaseDone step => exact held.releaseDone step
  | syncGroupExit step =>
    obtain ⟨-, next, done, core, rfl, -⟩ := step.cases
    exact Release.frame (held.move t ..) ..
  | exitCancel step | execPost step =>
    obtain ⟨-, rfl⟩ := step
    split
    · exact held.move t ..
    · exact held.move t ..
  | exitSignals step =>
    obtain ⟨-, s₁, woken, rfl⟩ := step.cases
    exact (held.woken woken).move t ..
  | exitNotify step => exact held.exitNotify step
  | workerSeesExit step =>
    obtain ⟨-, -, -, rfl⟩ := step
    exact held.move t ..
  | workerExit step => exact held.workerExit step
  | sqCancel step =>
    obtain ⟨-, rfl⟩ := step
    exact held.move t ..
  | createWorker step => exact held.createWorker step
  | retryFires step =>
    obtain ⟨-, rfl⟩ := step
    split
    · exact held.move t ..
    · exact held.notified t _
  | deThread step => exact held.deThread step
  | deThreadDone step => exact held.deThreadDone step
  | deThreadKilled step =>
    obtain ⟨-, -, rfl⟩ := step
    exact Release.frame (held.move t ..) ..
  | exitCancelWait step | sqCancelWait step | execCancelWait step | execLateWait step => exact cancels step
  | exitWorkersDone step | sqWorkersDone step | execWorkersDone step | execLateDone step => exact waits step

/-- With the series applied coredump_finish() never wakes a thread that is gone, and no user
worker ever runs with another mask than its own. -/
theorem release_safe (wf : cfg.WellFormed) (fixed : cfg.Fixed) :
    (spec cfg).Invariant fun s => NoUseAfterFree s ∧ WorkerMaskIntact cfg s := by
  have release : (spec cfg).Invariant (Release cfg) := by
    refine (inv_invariant wf fixed).relative (fun s start => Release.init start) fun s s' inv _ held step => ?_
    obtain env | ⟨t, own⟩ := step
    · exact held.env fixed env
    · exact held.thread fixed inv own
  exact release.mono fun s held => ⟨fun u _ _ => (held.threads u).freed, fun t worker => (held.threads t).mask worker.1⟩

theorem small_release : ∃ s : State (Fin 3), s.core.active = true ∧ NoUseAfterFree s ∧ WorkerMaskIntact small s := by
  obtain ⟨s, reached, active, -⟩ := small_dumping
  exact ⟨s, active, release_safe small_wellFormed small_fixed s reached⟩

end LinuxTla.Coredump
