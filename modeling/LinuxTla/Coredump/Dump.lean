import LinuxTla.Coredump.Exec

/-! A core is truncated only for a reason, and a freeze always aborts it. -/

namespace LinuxTla.Coredump

open Lib

variable {T : Type} [DecidableEq T] [Fintype T] {cfg : Config T} {s s' : State T}

/-- The dumper before the core is finished. -/
def PC.writing : PC → Bool
  | .dumpWait | .dumpWrite => true
  | _ => false

theorem dumping_of_writing {pc : PC} (writing : pc.writing = true) : pc.dumping = true := by
  revert writing
  cases pc <;> decide

/-- What may interrupt the dumper while it waits or writes has left its trace. -/
structure Writing (cfg : Config T) (s : State T) (th : Thread T) : Prop where
  result : s.dump.result = .none
  written : s.dump.written < cfg.chunks
  notify : th.notify = true → s.hist.notifyDumper = true
  kill : Sig.kill ∈ th.pending → s.hist.kill = true

structure DumpInv (cfg : Config T) (s : State T) : Prop where
  dumpcore : ∀ t, (s.thread t).pc.dumping = true → Flag.dumpcore ∈ (s.thread t).flags
  writing : ∀ t, (s.thread t).pc.writing = true → Writing cfg s (s.thread t)
  justified : TruncationJustified s
  frozen : s.hist.freezeMidDump = true → Freezing s ∧ s.dump.result ≠ .complete

/-- A thread as the dump sees it: no newcomer, and nothing new that interrupts. -/
structure Quiet (th th' : Thread T) : Prop where
  dumping : th'.pc.dumping = true → th.pc.dumping = true
  writing : th'.pc.writing = true → th.pc.writing = true
  flags : th'.pc.dumping = true → Flag.dumpcore ∈ th.flags → Flag.dumpcore ∈ th'.flags
  notify : th'.pc.writing = true → th'.notify = true → th.notify = true
  kill : th'.pc.writing = true → Sig.kill ∈ th'.pending → Sig.kill ∈ th.pending

omit [DecidableEq T] [Fintype T] in
theorem Quiet.refl (th : Thread T) : Quiet th th := ⟨id, id, fun _ => id, fun _ => id, fun _ => id⟩

omit [DecidableEq T] [Fintype T] in
/-- What the dump does not look at. -/
theorem Quiet.same {th th' : Thread T} (pc : th'.pc = th.pc) (flags : th'.flags = th.flags)
    (notify : th'.notify = th.notify) (pending : th'.pending = th.pending) : Quiet th th' := by
  constructor
  · rw [pc]
    exact id
  · rw [pc]
    exact id
  · rw [flags]
    exact fun _ => id
  · rw [notify]
    exact fun _ => id
  · rw [pending]
    exact fun _ => id

omit [DecidableEq T] [Fintype T] in
/-- A thread that does not dump is of no interest. -/
theorem Quiet.idle {th th' : Thread T} (idle : th'.pc.dumping = false) : Quiet th th' := by
  have calm : th'.pc.writing = true → False := fun writing =>
    Bool.false_ne_true (idle.symm.trans (dumping_of_writing writing))
  have still : th'.pc.dumping = true → False := fun dumps => Bool.false_ne_true (idle.symm.trans dumps)
  exact ⟨fun dumps => (still dumps).elim, fun writing => (calm writing).elim, fun dumps => (still dumps).elim,
    fun writing => (calm writing).elim, fun writing => (calm writing).elim⟩

omit [DecidableEq T] [Fintype T] in
theorem DumpInv.quiet (held : DumpInv cfg s) (threads : ∀ t, Quiet (s.thread t) (s'.thread t))
    (dump : s'.dump = s.dump) (hist : s'.hist = s.hist) (freeze : s'.freeze = s.freeze) : DumpInv cfg s' := by
  refine ⟨fun t dumps => ?_, fun t writes => ?_, ?_, ?_⟩
  · exact (threads t).flags dumps (held.dumpcore t ((threads t).dumping dumps))
  · have before := held.writing t ((threads t).writing writes)
    refine ⟨by rw [dump]; exact before.result, by rw [dump]; exact before.written, fun told => ?_, fun killed => ?_⟩
    · rw [hist]
      exact before.notify ((threads t).notify writes told)
    · rw [hist]
      exact before.kill ((threads t).kill writes killed)
  · unfold TruncationJustified Freezing
    rw [dump, hist, freeze]
    exact held.justified
  · unfold Freezing
    rw [dump, hist, freeze]
    exact held.frozen

omit [Fintype T] in
theorem DumpInv.set (held : DumpInv cfg s) (t : T) {th : Thread T} (quiet : Quiet (s.thread t) th) :
    DumpInv cfg (s.set t th) := by
  refine held.quiet (fun u => ?_) rfl rfl rfl
  obtain rfl | different := eq_or_ne u t
  · rw [State.set_self]
    exact quiet
  · rw [State.set_other _ _ different]
    exact Quiet.refl _

omit [DecidableEq T] [Fintype T] in
theorem DumpInv.frame (held : DumpInv cfg s) (shared : Finset Sig) (group : Group T) (core : Core T)
    (dumper : Option T) (counted releaseList : Finset T) (rcuReader : Bool) (budget : Budget) :
    DumpInv cfg { s with shared, group, core, dumper, counted, releaseList, rcuReader, budget } :=
  held.quiet (fun _ => Quiet.refl _) rfl rfl rfl

theorem Inv.nobody_dumps (inv : Inv cfg s) (lives : s.group.exit = false) (t : T) :
    (s.thread t).pc.dumping = false := by
  refine Bool.eq_false_iff.2 fun dumps => ?_
  have none := inv.dumper_none lives
  rw [(inv.dumper dumps).1] at none
  exact nomatch none

/-! ### Signals -/

theorem DumpInv.completeSignal (held : DumpInv cfg s) (inv : Inv cfg s) (t : T) {sig : Sig} {pend : Finset Sig}
    (accepted : Accepts s sig) (queued : pend = (s.thread t).pending ∨ pend = insert sig (s.thread t).pending) :
    DumpInv cfg (completeSignal (s.set t { s.thread t with pending := pend }) t sig) := by
  unfold Coredump.completeSignal
  rw [State.set_self]
  split
  next dies =>
    have cases (u : T) : ∃ pend' woken,
        ((s.set t { s.thread t with pending := pend }).zap fun u =>
          ((s.set t { s.thread t with pending := pend }).thread u).pc.live = true).thread u =
            { s.thread u with pending := pend', sigpending := woken } := by
      obtain ⟨pend', woken, thread, -⟩ := zap_cases (s.set t { s.thread t with pending := pend })
        (fun u => ((s.set t { s.thread t with pending := pend }).thread u).pc.live = true) u
      obtain rfl | different := eq_or_ne u t
      · rw [State.set_self] at thread
        exact ⟨pend', woken, thread⟩
      · rw [State.set_other _ _ different] at thread
        exact ⟨pend', woken, thread⟩
    refine ⟨fun u dumps => ?_, fun u writes => ?_, fun truncated => ?_, held.frozen⟩
    · obtain ⟨pend', woken, thread⟩ := cases u
      simp only at dumps ⊢
      rw [thread] at dumps ⊢
      exact held.dumpcore u dumps
    · obtain ⟨pend', woken, thread⟩ := cases u
      simp only at writes ⊢
      rw [thread] at writes ⊢
      have before := held.writing u writes
      refine ⟨before.result, before.written, before.notify, fun _ => ?_⟩
      -- During a dump only SIGKILL is accepted.
      have dying : s.group.exit = true := by
        by_contra lives
        cases (inv.nobody_dumps (Bool.eq_false_iff.2 lives) u).symm.trans (dumping_of_writing writes)
      simp only
      rw [decide_eq_true (accepted dying).2, Bool.or_true]
    · exact (held.justified truncated).imp_left fun killed => (Bool.or_eq_true_iff ..).2 (.inl killed)
  next lives =>
    rw [State.set_set]
    refine held.set t ⟨id, id, fun _ => id, fun _ => id, fun _ killed => ?_⟩
    obtain rfl | rfl := queued
    · exact killed
    · obtain rfl | before := Finset.mem_insert.1 killed
      · exact absurd ⟨.inl rfl, (inv.threads t).mask.2⟩ lives
      · exact before

theorem DumpInv.sendGroup (held : DumpInv cfg s) (inv : Inv cfg s) {sig : Sig} (step : SendGroup s sig s') :
    DumpInv cfg s' := by
  obtain ⟨-, -, sent⟩ := step
  split at sent
  · subst sent
    exact held.frame ..
  next accepted =>
    have queued : DumpInv cfg { spend s sig with shared := insert sig s.shared } := held.frame ..
    have known : Inv cfg { spend s sig with shared := insert sig s.shared } := inv.frame ..
    have accepts : Accepts s sig := by
      rw [not_or, not_not] at accepted
      exact accepted.1
    split at sent
    · obtain ⟨t, -, rfl⟩ := sent
      have still : Accepts { spend s sig with shared := insert sig s.shared } sig := accepts
      generalize ({ spend s sig with shared := insert sig s.shared } : State T) = after at queued known still
      have complete : DumpInv cfg (Coredump.completeSignal (after.set t (after.thread t)) t sig) :=
        queued.completeSignal known t still (.inl rfl)
      rw [State.set_thread] at complete
      exact complete
    · subst sent
      exact queued

theorem DumpInv.sendThread (held : DumpInv cfg s) (inv : Inv cfg s) {t : T} {sig : Sig}
    (step : SendThread s t sig s') : DumpInv cfg s' := by
  obtain ⟨-, alive, sent⟩ := step
  have spent : DumpInv cfg (spend s sig) := held.frame ..
  split at sent
  · subst sent
    exact spent
  next accepted =>
    have accepts : Accepts s sig := by
      rw [not_or, not_not] at accepted
      exact accepted.1
    simp only at sent
    split at sent
    · subst sent
      exact spent.completeSignal (inv.frame ..) t accepts (.inr rfl)
    next refuses =>
      subst sent
      refine spent.set t ⟨id, id, fun _ => id, fun _ => id, fun writes killed => ?_⟩
      obtain rfl | before := Finset.mem_insert.1 killed
      · have exiting : Flag.exiting ∈ (s.thread t).flags := by
          by_contra stays
          exact refuses ⟨alive, (inv.threads t).mask.1, stays⟩
        have gone := (inv.threads t).exiting exiting
        exact nomatch (not_gone_of_dumping (dumping_of_writing writes)).symm.trans gone
      · exact before

/-! ### A thread that is told to die -/

omit [Fintype T] in
theorem DumpInv.doGroupExit (held : DumpInv cfg s) {t : T}
    (calm : s.group.exit = false → ∀ u, (s.thread u).pc.dumping = false) :
    DumpInv cfg (doGroupExit s t) := by
  unfold Coredump.doGroupExit
  split
  · exact held.set t (Quiet.idle rfl)
  next quiet =>
    rw [not_or, Bool.not_eq_true] at quiet
    refine held.quiet (fun u => ?_) rfl rfl rfl
    obtain rfl | different := eq_or_ne u t
    · rw [show State.thread _ u = _ from State.set_self ..]
      exact Quiet.idle rfl
    · obtain ⟨pend, woken, thread, -⟩ := zap_cases s (fun u => u ≠ t ∧ (s.thread u).pc.alive = true) u
      rw [show State.thread _ u = _ from (State.set_other _ _ different).trans thread]
      exact Quiet.idle (calm quiet.1 u)

theorem DumpInv.startDump (wf : cfg.WellFormed) (held : DumpInv cfg s) {t : T}
    (calm : ∀ u, (s.thread u).pc.dumping = false) (told : (s.thread t).notify = false)
    (spared : Sig.kill ∉ (s.thread t).pending) : DumpInv cfg (startDump s t) := by
  have self : (Coredump.startDump s t).thread t = { s.thread t with
      sigpending := false
      flags := (s.thread t).flags ∪ {.signaled, .dumpcore}
      pc := if 0 < (zapped s t).card then .dumpWait else .dumpWrite } := State.set_self ..
  have other (u : T) (different : u ≠ t) : ((Coredump.startDump s t).thread u).pc.dumping = false := by
    obtain ⟨pend, woken, thread, -⟩ := zap_cases s (fun u => u ∈ zapped s t) u
    have same : (Coredump.startDump s t).thread u = _ := (State.set_other _ _ different).trans thread
    rw [same]
    exact calm u
  refine ⟨fun u dumps => ?_, fun u writes => ?_, nofun, fun froze => ⟨(held.frozen froze).1, nofun⟩⟩
  · obtain rfl | different := eq_or_ne u t
    · rw [self]
      exact Finset.mem_union_right _ (by decide)
    · exact nomatch (other u different).symm.trans dumps
  · obtain rfl | different := eq_or_ne u t
    · rw [self]
      exact ⟨rfl, wf.chunks, fun notify => absurd (told.symm.trans notify) Bool.false_ne_true,
        fun kill => absurd kill spared⟩
    · exact nomatch (other u different).symm.trans (dumping_of_writing writes)

theorem DumpInv.fatal (wf : cfg.WellFormed) (held : DumpInv cfg s) {t : T}
    (calm : s.group.exit = false → ∀ u, (s.thread u).pc.dumping = false)
    (here : (s.thread t).pc.dumping = false) (told : (s.thread t).notify = false)
    (spared : s.group.exit = false ∧ s.group.exec = none → Sig.kill ∉ (s.thread t).pending) (sig : Sig) :
    DumpInv cfg (fatal cfg s t sig) := by
  have leaves (flags : Finset Flag) :
      DumpInv cfg (workerLeave cfg (s.set t { s.thread t with flags := flags }) t) := by
    unfold workerLeave
    rw [State.set_set]
    refine held.set t (Quiet.idle ?_)
    simp only
    split <;> rfl
  have exits (flags : Finset Flag) :
      DumpInv cfg (Coredump.doGroupExit (s.set t { s.thread t with flags := flags }) t) := by
    have signaled : DumpInv cfg (s.set t { s.thread t with flags := flags }) := held.set t (Quiet.idle here)
    refine signaled.doGroupExit fun lives u => ?_
    obtain rfl | different := eq_or_ne u t
    · rw [State.set_self]
      exact here
    · rw [State.set_other _ _ different]
      exact calm lives u
  unfold Coredump.fatal
  simp only
  split
  · exact leaves _
  split
  · unfold vfsCoredump
    split
    next quiet => exact held.startDump wf (calm quiet.1) told (spared quiet)
    next =>
      simp only
      split
      · exact leaves _
      · exact exits _
  · split
    · exact leaves _
    · exact exits _

/-! ### get_signal() and the masks -/

theorem DumpInv.dequeueFatal (wf : cfg.WellFormed) (held : DumpInv cfg s) (inv : Inv cfg s) {t : T}
    (here : (s.thread t).pc = .run) (told : (s.thread t).notify = false) {pend : Finset Sig} (woken : Bool)
    (spared : s.group.exit = false ∧ s.group.exec = none → Sig.kill ∉ pend) (sig : Sig) :
    DumpInv cfg (Coredump.fatal cfg (s.set t { s.thread t with pending := pend, sigpending := woken }) t sig) := by
  have idle : (s.thread t).pc.dumping = false := by rw [here]; rfl
  have taken : DumpInv cfg (s.set t { s.thread t with pending := pend, sigpending := woken }) :=
    held.set t (Quiet.idle idle)
  refine taken.fatal wf (fun lives u => ?_) ?_ ?_ ?_ sig
  · obtain rfl | different := eq_or_ne u t
    · rw [State.set_self]
      exact idle
    · rw [State.set_other _ _ different]
      exact inv.nobody_dumps lives u
  · rw [State.set_self]
    exact idle
  · rw [State.set_self]
    exact told
  · rw [State.set_self]
    exact spared

theorem DumpInv.getSignal (wf : cfg.WellFormed) (held : DumpInv cfg s) (inv : Inv cfg s) {t : T}
    (step : GetSignal cfg s t s') : DumpInv cfg s' := by
  obtain ⟨here, -, told, -, result⟩ := step
  have idle : (s.thread t).pc.dumping = false := by rw [here]; rfl
  split at result
  next marked =>
    subst result
    refine held.dequeueFatal wf inv here told _ (fun quiet => ?_) _
    obtain dies | execs := marked
    · exact absurd (quiet.1.symm.trans dies) Bool.false_ne_true
    · exact absurd quiet.2 execs
  next quiet =>
    have spared : Sig.kill ∉ (s.thread t).pending := fun kill =>
      quiet ((marked_iff inv here).1 ((inv.threads t).clean (by rw [here]; rfl) kill))
    split at result
    · obtain ⟨sig, -, rfl⟩ := result
      unfold deliver
      split
      · exact held.set t (Quiet.idle idle)
      · exact held.dequeueFatal wf inv here told _ (fun _ kill => spared (Finset.mem_of_mem_erase kill)) _
    split at result
    · obtain ⟨sig, -, rfl⟩ := result
      have shared : DumpInv cfg { s with shared := s.shared.erase sig } := held.frame ..
      have known : Inv cfg { s with shared := s.shared.erase sig } := inv.frame ..
      unfold deliver
      split
      · exact shared.set t (Quiet.idle idle)
      · exact shared.dequeueFatal wf known here told _ (fun _ => spared) _
    · subst result
      exact held.set t (Quiet.idle idle)

omit [Fintype T] in
theorem DumpInv.woken (held : DumpInv cfg s) {t : T}
    (woken : s' = s ∨ ∃ u, u ≠ t ∧ s' = s.set u { s.thread u with sigpending := true }) : DumpInv cfg s' := by
  obtain rfl | ⟨u, -, rfl⟩ := woken
  · exact held
  · exact held.set u (Quiet.same rfl rfl rfl rfl)

theorem DumpInv.blockUsr (held : DumpInv cfg s) {t : T} (step : BlockUsr cfg s t s') : DumpInv cfg s' := by
  obtain ⟨-, -, -, s₁, retarget, rfl⟩ := step
  exact (held.woken retarget.cases).set t (Quiet.same rfl rfl rfl rfl)

theorem DumpInv.sigWaitWake (held : DumpInv cfg s) {t : T} (step : SigWaitWake cfg s t s') : DumpInv cfg s' := by
  obtain ⟨-, s₁, retarget, rfl⟩ := step
  exact ((held.woken retarget.cases).set t (Quiet.idle rfl)).frame ..

omit [DecidableEq T] [Fintype T] in
theorem DumpInv.freeze (held : DumpInv cfg s) {kind : Freezer} (step : Freeze s kind s') : DumpInv cfg s' := by
  obtain ⟨real, -, dumps, rfl⟩ := step
  have threads (u : T) : Quiet (s.thread u)
      (if (s.thread u).pc.alive = true then { s.thread u with sigpending := true } else s.thread u) := by
    split
    · exact Quiet.same rfl rfl rfl rfl
    · exact Quiet.refl _
  have unfinished : s.dump.result = .none := by
    unfold dumperPc at dumps
    cases found : s.dumper with
    | none =>
      rw [found] at dumps
      obtain waits | writes := dumps
      · exact nomatch waits
      · exact nomatch writes
    | some d =>
      rw [found] at dumps
      refine (held.writing d ?_).result
      obtain waits | writes := dumps
      · rw [show (s.thread d).pc = .dumpWait from waits]
        rfl
      · rw [show (s.thread d).pc = .dumpWrite from writes]
        rfl
  refine ⟨fun u dumping => ?_, fun u writes => ?_, fun _ => .inr (.inl real), fun _ => ⟨real, ?_⟩⟩
  · exact (threads u).flags dumping (held.dumpcore u ((threads u).dumping dumping))
  · have before := held.writing u ((threads u).writing writes)
    exact ⟨before.result, before.written, fun told => before.notify ((threads u).notify writes told),
      fun killed => before.kill ((threads u).kill writes killed)⟩
  · rw [unfinished]
    exact nofun

/-! ### The dumper -/

omit [Fintype T] in
theorem DumpInv.dumpWaitDone (held : DumpInv cfg s) {t : T} (step : DumpWaitDone s t s') : DumpInv cfg s' := by
  obtain ⟨here, -, rfl⟩ := step
  refine held.set t ⟨fun _ => ?_, fun _ => ?_, fun _ => id, fun _ => id, fun _ => id⟩
  · rw [here]
    rfl
  · rw [here]
    rfl

/-- The dumper stops writing, for better or worse. -/
theorem DumpInv.finishes (held : DumpInv cfg s) (inv : Inv cfg s) {t : T} (here : (s.thread t).pc = .dumpWrite)
    {dump : Dump} (justified : dump.result = .truncated → s.hist.kill = true ∨ Freezing s ∨ s.hist.notifyDumper = true)
    (frozen : Freezing s → dump.result ≠ .complete) :
    DumpInv cfg { s.set t { s.thread t with pc := .dumpFinish } with dump := dump } := by
  have dumps : (s.thread t).pc.dumping = true := by rw [here]; rfl
  refine ⟨fun u dumping => ?_, fun u writes => ?_, justified, fun froze => ?_⟩
  · simp only at dumping ⊢
    obtain rfl | different := eq_or_ne u t
    · rw [State.set_self]
      exact held.dumpcore u dumps
    · rw [State.set_other _ _ different] at dumping ⊢
      exact held.dumpcore u dumping
  · -- There is one dumper, and it has stopped.
    simp only at writes
    obtain rfl | different := eq_or_ne u t
    · rw [State.set_self] at writes
      exact nomatch writes
    · rw [State.set_other _ _ different] at writes
      have other := (inv.dumper (dumping_of_writing writes)).1
      exact absurd (Option.some.inj (other.symm.trans (inv.dumper dumps).1)) different
  · have frozen' := (held.frozen froze).1
    exact ⟨frozen', frozen frozen'⟩

theorem DumpInv.dumpChunk (fixed : cfg.Fixed) (held : DumpInv cfg s) (inv : Inv cfg s) {t : T}
    (step : DumpChunk cfg s t s') : DumpInv cfg s' := by
  obtain ⟨here, result⟩ := step
  have before := held.writing t (by rw [here]; rfl)
  have cuts (reason : s.hist.kill = true ∨ Freezing s ∨ s.hist.notifyDumper = true) :
      DumpInv cfg { s.set t { s.thread t with pc := .dumpFinish } with dump := { s.dump with result := .truncated } } :=
    held.finishes inv here (fun _ => reason) fun _ => nofun
  split at result
  next interrupted =>
    subst result
    refine cuts ?_
    obtain fatal | pm | ⟨-, cg2⟩ := interrupted
    · exact .inl (before.kill fatal.2)
    · exact .inr (.inl (by unfold Freezing; rw [pm]; exact nofun))
    · exact .inr (.inl (by unfold Freezing; rw [cg2]; exact nofun))
  next goes =>
    obtain ⟨pending, rfl⟩ | ⟨more, rfl⟩ | ⟨-, rfl⟩ := result
    · refine cuts ?_
      obtain told | ⟨-, unfixed | plain | killed | froze⟩ := pending
      · exact .inr (.inr (before.notify told))
      · exact absurd (fixed.sigpendingDumpcore.symm.trans unfixed) nofun
      · exact absurd (held.dumpcore t (by rw [here]; rfl)) plain
      · exact .inl (before.kill killed)
      · exact .inr (.inl froze)
    · refine ⟨held.dumpcore, fun u writes => ?_, held.justified, held.frozen⟩
      have known := held.writing u writes
      exact ⟨known.result, more, known.notify, known.kill⟩
    · refine held.finishes inv here nofun fun froze => ?_
      -- Either freezer would have interrupted the dump.
      refine absurd (.inr ?_) goes
      cases kind : s.freeze with
      | none => exact absurd kind froze
      | pm => exact .inl rfl
      | cg2 => exact .inr ⟨fixed.sigpendingDumpcore, rfl⟩

omit [Fintype T] in
theorem DumpInv.dumpFinish (held : DumpInv cfg s) {t : T} (step : DumpFinish cfg s t s') : DumpInv cfg s' := by
  obtain ⟨here, rfl⟩ := step
  have dumps : (s.thread t).pc.dumping = true := by rw [here]; rfl
  have moved : DumpInv cfg (s.set t { s.thread t with pc := .dumpRelease }) :=
    held.set t ⟨fun _ => dumps, nofun, fun _ => id, nofun, nofun⟩
  exact moved.frame ..

theorem DumpInv.releaseDone (held : DumpInv cfg s) (inv : Inv cfg s) {t : T} (step : ReleaseDone cfg s t s') :
    DumpInv cfg s' := by
  obtain ⟨here, -, result⟩ := step
  have user := user_of_dumping (inv.threads t).suits (by rw [here]; rfl)
  rw [user, if_neg (by decide)] at result
  subst result
  have unlocked : DumpInv cfg { s with rcuReader := false } := held.frame ..
  exact unlocked.doGroupExit inv.nobody_dumps

/-! ### do_exit() and the workers -/

omit [Fintype T] in
theorem DumpInv.syncGroupExit (held : DumpInv cfg s) {t : T} (step : SyncGroupExit s t s') : DumpInv cfg s' := by
  obtain ⟨-, next, done, core', rfl, passed, -⟩ := step.cases
  refine (held.set t (Quiet.idle ?_)).frame ..
  obtain rfl | rfl := passed <;> rfl

theorem DumpInv.exitSignals (held : DumpInv cfg s) {t : T} (step : ExitSignals cfg s t s') : DumpInv cfg s' := by
  obtain ⟨-, s₁, woken, rfl⟩ := step.cases
  exact (held.woken woken).set t (Quiet.idle rfl)

omit [DecidableEq T] [Fintype T] in
/-- A step that moves each thread to a label without a dump, or leaves it alone. -/
theorem DumpInv.scatter (held : DumpInv cfg s)
    (threads : ∀ u, (s'.thread u).pc.dumping = false ∨ s'.thread u = s.thread u)
    (dump : s'.dump = s.dump) (hist : s'.hist = s.hist) (freeze : s'.freeze = s.freeze) : DumpInv cfg s' := by
  refine held.quiet (fun u => ?_) dump hist freeze
  obtain idle | same := threads u
  · exact Quiet.idle idle
  · rw [same]
    exact Quiet.refl _

theorem DumpInv.exitNotify (held : DumpInv cfg s) {t : T} (step : ExitNotify cfg s t s') : DumpInv cfg s' := by
  obtain ⟨-, -, rfl⟩ | ⟨-, cases, result⟩ := step.cases
  · exact held.set t (Quiet.idle rfl)
  · refine held.scatter (fun u => ?_) (by rw [result]) (by rw [result]) (by rw [result])
    obtain ⟨-, thread⟩ | ⟨-, -, -, -, thread⟩ | ⟨-, thread⟩ := cases u
    · exact .inl (by rw [thread]; rfl)
    · exact .inl (by rw [thread]; rfl)
    · exact .inr thread

/-- Task work on the dumper leaves its trace. -/
theorem DumpInv.notified (held : DumpInv cfg s) (inv : Inv cfg s) (o : T) (twq : Finset (Work T)) :
    DumpInv cfg (notified s o { s.thread o with twq := twq }) := by
  have other (u : T) (different : u ≠ o) :
      (Coredump.notified s o { s.thread o with twq := twq }).thread u = s.thread u := State.set_other _ _ different
  have self : (Coredump.notified s o { s.thread o with twq := twq }).thread o = _ := State.set_self ..
  refine ⟨fun u dumps => ?_, fun u writes => ?_, fun truncated => ?_, held.frozen⟩
  · obtain rfl | different := eq_or_ne u o
    · rw [self] at dumps ⊢
      exact held.dumpcore u dumps
    · rw [other u different] at dumps ⊢
      exact held.dumpcore u dumps
  · obtain rfl | different := eq_or_ne u o
    · rw [self] at writes ⊢
      have before := held.writing u writes
      have dumper := inv.dumper (dumping_of_writing writes)
      refine ⟨before.result, before.written, fun _ => ?_, before.kill⟩
      refine (Bool.or_eq_true_iff ..).2 (.inr (decide_eq_true ⟨dumper.1.symm, ?_⟩))
      unfold Dumping
      rw [dumper.2]
      exact dumping_of_writing writes
    · rw [other u different] at writes ⊢
      have before := held.writing u writes
      exact ⟨before.result, before.written, fun told => (Bool.or_eq_true_iff ..).2 (.inl (before.notify told)),
        before.kill⟩
  · exact (held.justified truncated).imp_right (.imp_right fun told => (Bool.or_eq_true_iff ..).2 (.inl told))

omit [Fintype T] in
theorem DumpInv.workerExit (held : DumpInv cfg s) {t : T} (step : WorkerExit s t s') : DumpInv cfg s' := by
  obtain ⟨-, rfl⟩ := step
  cases (s.thread t).owner with
  | none => exact held.set t (Quiet.idle rfl)
  | some o =>
    have cancelled : DumpInv cfg (s.set o { s.thread o with twq := (s.thread o).twq.erase (.worker t) }) :=
      held.set o (Quiet.same rfl rfl rfl rfl)
    exact cancelled.set t (Quiet.idle rfl)

omit [Fintype T] in
theorem DumpInv.createWorker (held : DumpInv cfg s) {c : T} (step : CreateWorker cfg s c s') :
    DumpInv cfg s' := by
  obtain ⟨-, -, item, -, result⟩ := step
  have taken (twq : Finset (Work T)) : DumpInv cfg (s.set c { s.thread c with twq := twq }) :=
    held.set c (Quiet.same rfl rfl rfl rfl)
  obtain ⟨-, -, rfl⟩ | result := result
  · exact taken _
  split at result
  · subst result
    exact taken _
  split at result
  · split at result
    · subst result
      exact (taken _).frame ..
    · subst result
      exact taken _
  · obtain ⟨n, -, -, rfl⟩ | ⟨-, rfl⟩ := result
    · exact ((taken _).set n (Quiet.idle rfl)).frame ..
    · exact taken _

theorem DumpInv.retryFires (held : DumpInv cfg s) (inv : Inv cfg s) {t : T} (step : RetryFires s t s') :
    DumpInv cfg s' := by
  obtain ⟨-, result⟩ := step
  split at result
  · subst result
    exact held.set t (Quiet.same rfl rfl rfl rfl)
  · subst result
    exact held.notified inv t _

/-! ### execve() -/

theorem DumpInv.deThread (held : DumpInv cfg s) (inv : Inv cfg s) {t : T} (step : DeThread cfg s t s') :
    DumpInv cfg s' := by
  obtain ⟨-, result⟩ := step
  split at result
  · subst result
    exact held.set t (Quiet.idle rfl)
  split at result
  · subst result
    exact held.set t (Quiet.idle rfl)
  next quiet =>
    have lives : s.group.exit = false := by
      rw [not_or] at quiet
      exact Bool.eq_false_iff.2 quiet.1
    subst result
    refine held.scatter (fun u => .inl ?_) rfl rfl rfl
    obtain rfl | different := eq_or_ne u t
    · rw [show State.thread _ u = _ from State.set_self ..]
      rfl
    · obtain ⟨pend, woken, thread, -⟩ := zap_cases s (fun u => u ≠ t ∧ (s.thread u).pc.alive = true) u
      rw [show State.thread _ u = _ from (State.set_other _ _ different).trans thread]
      exact inv.nobody_dumps lives u

omit [Fintype T] in
theorem DumpInv.deThreadDone (held : DumpInv cfg s) {t : T} (step : DeThreadDone cfg s t s') : DumpInv cfg s' := by
  have cases := step.cases
  obtain ⟨-, -, -, result⟩ := step
  refine held.scatter (fun u => ?_) (by rw [result]) (by rw [result]) (by rw [result])
  obtain ⟨-, thread⟩ | ⟨-, -, -, thread⟩ | ⟨-, -, thread⟩ := cases u
  · exact .inl (by rw [thread]; rfl)
  · exact .inl (by rw [thread]; rfl)
  · exact .inr thread

/-! ### Every reachable state -/

omit [Fintype T] in
theorem DumpInv.goes (held : DumpInv cfg s) (t : T) {th : Thread T} (idle : th.pc.dumping = false) :
    DumpInv cfg (s.set t th) :=
  held.set t (Quiet.idle idle)

omit [DecidableEq T] in
theorem DumpInv.init (start : Init cfg s) : DumpInv cfg s := by
  subst start
  have idle (t : T) : (if cfg.role t = .slot then PC.none else .run).dumping = false := by
    split <;> rfl
  refine ⟨fun t dumps => ?_, fun t writes => ?_, nofun, nofun⟩
  · exact nomatch (idle t).symm.trans dumps
  · exact nomatch (idle t).symm.trans (dumping_of_writing writes)

theorem DumpInv.env (fixed : cfg.Fixed) (held : DumpInv cfg s) (inv : Inv cfg s) (step : EnvStep cfg s s') :
    DumpInv cfg s' := by
  cases step with
  | sendGroup sig step => exact held.sendGroup inv step
  | sendThread t sig step => exact held.sendThread inv step
  | blockUsr t step => exact held.blockUsr step
  | unblockUsr t step =>
    obtain ⟨-, -, -, rfl⟩ := step
    exact held.set t (Quiet.same rfl rfl rfl rfl)
  | sigWaitEnter t step =>
    obtain ⟨-, -, -, -, -, rfl⟩ := step
    exact held.goes t rfl
  | tracerClearMask t step => exact (not_tracerClearMask fixed step).elim
  | exitSyscall t step =>
    obtain ⟨-, -, rfl⟩ := step
    exact held.goes t rfl
  | exitGroupSyscall t step =>
    obtain ⟨-, -, rfl⟩ := step
    exact held.doGroupExit inv.nobody_dumps
  | execStart t step =>
    obtain ⟨-, -, -, rfl⟩ := step
    split
    · exact (held.goes t rfl).frame ..
    · exact (held.goes t rfl).frame ..
  | workerQueuesCreate t step =>
    obtain ⟨-, -, o, -, -, -, rfl⟩ := step
    exact held.notified inv o _
  | freed t step =>
    obtain ⟨-, -, -, -, rfl⟩ := step
    exact held.set t (Quiet.same rfl rfl rfl rfl)
  | freeze kind step => exact held.freeze step

theorem DumpInv.thread (wf : cfg.WellFormed) (fixed : cfg.Fixed) (held : DumpInv cfg s) (inv : Inv cfg s) {t : T}
    (step : ThreadStep cfg s t s') : DumpInv cfg s' := by
  have cancels {here next : PC} (idle : next.dumping = false) (step : CancelWait s t here next s') :
      DumpInv cfg s' := by
    obtain ⟨-, rfl⟩ := step
    exact held.goes t idle
  have waits {here next : PC} (idle : next.dumping = false) (step : WaitDone cfg s t here next s') :
      DumpInv cfg s' := by
    obtain ⟨-, -, rfl⟩ := step
    exact held.goes t idle
  cases step with
  | getSignal step => exact held.getSignal wf inv step
  | handleNotify step =>
    obtain ⟨here, -, rfl⟩ := step
    exact held.goes t (by rw [here]; rfl)
  | sigWaitWake step => exact held.sigWaitWake step
  | dumpWaitDone step => exact held.dumpWaitDone step
  | dumpChunk step => exact held.dumpChunk fixed inv step
  | dumpFinish step => exact held.dumpFinish step
  | releaseClear u step =>
    obtain ⟨-, -, -, rfl⟩ := step
    exact held.set u (Quiet.same rfl rfl rfl rfl)
  | releaseWake u step =>
    obtain ⟨-, -, -, rfl⟩ := step
    exact held.frame ..
  | releaseDone step => exact held.releaseDone inv step
  | syncGroupExit step => exact held.syncGroupExit step
  | unpark step =>
    obtain ⟨-, -, rfl⟩ := step
    exact held.goes t rfl
  | exitCancel step =>
    obtain ⟨-, rfl⟩ := step
    split
    · exact held.goes t rfl
    · exact held.goes t rfl
  | exitCancelWait step => exact cancels rfl step
  | exitWorkersDone step => exact waits rfl step
  | exitSignals step => exact held.exitSignals step
  | exitNotify step => exact held.exitNotify step
  | workerSeesExit step =>
    obtain ⟨-, -, -, rfl⟩ := step
    exact held.goes t rfl
  | workerExit step => exact held.workerExit step
  | sqCancel step =>
    obtain ⟨-, rfl⟩ := step
    exact held.goes t rfl
  | sqCancelWait step => exact cancels rfl step
  | sqWorkersDone step => exact waits rfl step
  | createWorker step => exact held.createWorker step
  | retryFires step => exact held.retryFires inv step
  | execCancelWait step => exact cancels rfl step
  | execWorkersDone step => exact waits rfl step
  | deThread step => exact held.deThread inv step
  | deThreadDone step => exact held.deThreadDone step
  | deThreadKilled step =>
    obtain ⟨-, -, rfl⟩ := step
    exact (held.goes t rfl).frame ..
  | execPost step =>
    obtain ⟨-, rfl⟩ := step
    split
    · exact held.goes t rfl
    · exact held.goes t rfl
  | execLateWait step => exact cancels rfl step
  | execLateDone step => exact waits rfl step

theorem dumpInv_invariant (wf : cfg.WellFormed) (fixed : cfg.Fixed) : (spec cfg).Invariant (DumpInv cfg) := by
  refine (inv_invariant wf fixed).relative (fun s start => DumpInv.init start) fun s s' inv _ held step => ?_
  obtain env | ⟨t, own⟩ := step
  · exact held.env fixed inv env
  · exact held.thread wf fixed inv own

/-- A core is truncated only for a reason, a freeze that hits the dump aborts it,
and no user worker ever dumps. -/
theorem dump_safe (wf : cfg.WellFormed) (fixed : cfg.Fixed) :
    (spec cfg).Invariant fun s => TruncationJustified s ∧ FreezeAbortsDump s ∧ WorkerNeverDumps s cfg := by
  refine ((inv_invariant wf fixed).and (dumpInv_invariant wf fixed)).mono fun s held => ?_
  obtain ⟨inv, dump⟩ := held
  refine ⟨dump.justified, fun froze => (dump.frozen froze).2, fun t worker => Bool.eq_false_iff.2 fun dumps => ?_⟩
  have user := user_of_dumping (inv.threads t).suits dumps
  rw [user] at worker
  exact nomatch worker

/-- A freezer strikes while the leader waits for its worker, and the first write gives up. -/
theorem small_frozen : ∃ s, (spec small).Reachable s ∧ s.dump.result = .truncated ∧ s.hist.freezeMidDump = true ∧
    (s.thread 0).pc.dumping = true ∧ (s.thread 1).pc = .parked := by
  have run : (spec small).Reachable _ := .init rfl
  have run := run.next (.inl (.sendThread 0 .core ⟨by decide, by decide, (if_neg (by decide)).mpr
    ((if_pos (by decide)).mpr rfl)⟩))
  have run := run.next (.inr ⟨0, .getSignal ⟨by decide, by decide, by decide, by decide,
    (if_neg (by decide)).mpr ((if_pos (by decide)).mpr ⟨.core, by decide, rfl⟩)⟩⟩)
  have run := run.next (.inl (.freeze .pm ⟨by decide, by decide, by decide, rfl⟩))
  have run := run.next (.inr ⟨1, .getSignal ⟨by decide, by decide, by decide, by decide, (if_pos (by decide)).mpr rfl⟩⟩)
  have run := run.next (.inr ⟨1, .workerExit ⟨by decide, rfl⟩⟩)
  have run := run.next (.inr ⟨1, .syncGroupExit ⟨by decide, rfl⟩⟩)
  have run := run.next (.inr ⟨0, .dumpWaitDone ⟨by decide, by decide, rfl⟩⟩)
  have run := run.next (.inr ⟨0, .dumpChunk ⟨by decide, (if_pos (by decide)).mpr rfl⟩⟩)
  exact ⟨_, run, by decide, by decide, by decide, by decide⟩

theorem small_dump : ∃ s : State (Fin 3), s.dump.result = .truncated ∧ s.hist.freezeMidDump = true ∧
    (s.thread 0).pc.dumping = true ∧ (s.thread 1).pc = .parked ∧
      TruncationJustified s ∧ FreezeAbortsDump s ∧ WorkerNeverDumps s small := by
  obtain ⟨s, reached, truncated, frozen, dumps, parked⟩ := small_frozen
  exact ⟨s, truncated, frozen, dumps, parked, dump_safe small_wellFormed small_fixed s reached⟩

end LinuxTla.Coredump
