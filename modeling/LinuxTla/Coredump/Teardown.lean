import LinuxTla.Coredump.Exec

/-! What a thread that waits may rely on: the io-wq side of every thread, the
parked threads and the zombie leader. -/

namespace LinuxTla.Coredump

open Lib

variable {T : Type} {cfg : Config T}

/-- Inside an io_uring cancellation. -/
def PC.cancels : PC → Bool
  | .execCancelTw | .execWaitWorkers | .execLateTw | .execLateWait | .sqCancelTw | .sqWaitWorkers
  | .exitCancelTw | .exitWaitWorkers => true
  | _ => false

/-- Waiting for wq->worker_done. -/
def PC.awaits : PC → Bool
  | .execWaitWorkers | .execLateWait | .sqWaitWorkers | .exitWaitWorkers => true
  | _ => false

/-- A worker that may still hold its wq->worker_refs, or a slot without one. -/
def PC.serves : PC → Bool
  | .none | .run | .wqExit => true
  | _ => false

theorem cancels_of_awaits {pc : PC} (awaits : pc.awaits = true) : pc.cancels = true := by
  revert awaits
  cases pc <;> decide

/-- The io-wq side of a thread. -/
structure WqInv (cfg : Config T) (t : T) (th : Thread T) : Prop where
  refput : (cfg.role t).ioWq = true → th.pc.serves = true ∨ th.refput = true
  exits : th.pc.cancels = true → th.wqexit = true
  empties : th.pc.awaits = true → th.twq ⊆ {.retry}
  ring : th.twq ≠ ∅ → t ∈ cfg.ringOwners
  owned : (cfg.role t).ioWq = true → th.pc ≠ .none → ∃ o ∈ cfg.ringOwners, th.owner = some o

namespace WqInv

variable {t : T} {th : Thread T}

/-- The io-wq side does not look at the signals. -/
theorem quiet (held : WqInv cfg t th) (flags : Finset Flag) (pending blocked realblocked : Finset Sig)
    (sigpending notify decremented released freed : Bool) :
    WqInv cfg t { th with flags, pending, blocked, realblocked, sigpending, notify, decremented, released, freed } :=
  ⟨held.refput, held.exits, held.empties, held.ring, held.owned⟩

/-- A worker past its own exit has dropped its reference. -/
theorem dropped (held : WqInv cfg t th) (past : th.pc.serves = false) (ioWq : (cfg.role t).ioWq = true) :
    th.refput = true :=
  (held.refput ioWq).resolve_left fun serves => Bool.false_ne_true (past.symm.trans serves)

/-- A move to a label outside the cancellations. -/
theorem goto (held : WqInv cfg t th) {next : PC} (out : next.cancels = false) (present : th.pc ≠ .none)
    (refput : (cfg.role t).ioWq = true → next.serves = true ∨ th.refput = true) :
    WqInv cfg t { th with pc := next } where
  refput := refput
  exits cancels := nomatch out.symm.trans cancels
  empties awaits := nomatch out.symm.trans (cancels_of_awaits awaits)
  ring := held.ring
  owned ioWq _ := held.owned ioWq present

/-- The usual move: to and from labels a serving worker does not have. -/
theorem passes (held : WqInv cfg t th) {next : PC} (out : next.cancels = false) (past : th.pc.serves = false) :
    WqInv cfg t { th with pc := next } := by
  refine held.goto out (fun absent => ?_) fun ioWq => .inr (held.dropped past ioWq)
  rw [absent] at past
  exact nomatch past

theorem starts (held : WqInv cfg t th) {next : PC} (early : next.awaits = false) (present : th.pc ≠ .none)
    (refput : (cfg.role t).ioWq = true → th.refput = true) :
    WqInv cfg t { th with wqexit := true, pc := next } where
  refput ioWq := .inr (refput ioWq)
  exits _ := rfl
  empties awaits := nomatch early.symm.trans awaits
  ring := held.ring
  owned ioWq _ := held.owned ioWq present

theorem cancels [DecidableEq T] (held : WqInv cfg t th) {here next : PC} (at_here : th.pc = here)
    (cancelling : here.cancels = true) (past : here.serves = false) :
    WqInv cfg t { th with twq := th.twq ∩ {.retry}, pc := next } where
  refput ioWq := .inr (held.dropped (at_here ▸ past) ioWq)
  exits _ := held.exits (at_here ▸ cancelling)
  empties _ := Finset.inter_subset_right
  ring some := held.ring fun none => some (by rw [none, Finset.empty_inter])
  owned ioWq _ := held.owned ioWq fun absent => by
    rw [← at_here, absent] at past
    exact nomatch past

theorem takes (held : WqInv cfg t th) {twq : Finset (Work T)} (fewer : twq ⊆ th.twq) :
    WqInv cfg t { th with twq := twq } where
  refput := held.refput
  exits := held.exits
  empties awaits := fewer.trans (held.empties awaits)
  ring some := held.ring fun none => some (Finset.subset_empty.1 (none ▸ fewer))
  owned := held.owned

/-- Work is queued on a ring owner that does not wait for its workers. -/
theorem queues (held : WqInv cfg t th) (owner : t ∈ cfg.ringOwners) (goes : th.pc.awaits = false)
    (twq : Finset (Work T)) (notify : Bool) : WqInv cfg t { th with twq := twq, notify := notify } where
  refput := held.refput
  exits := held.exits
  empties awaits := nomatch goes.symm.trans awaits
  ring _ := owner
  owned := held.owned

/-- A new worker of a ring owner. -/
theorem newborn (held : WqInv cfg t th) {o : T} (ring : o ∈ cfg.ringOwners) (flags : Finset Flag)
    (blocked pending : Finset Sig) (sigpending notify refput : Bool) :
    WqInv cfg t { th with pc := .run, owner := some o, flags, blocked, pending, sigpending, notify, refput } where
  refput _ := .inl rfl
  exits := nofun
  empties := nofun
  ring := held.ring
  owned _ _ := ⟨o, ring, rfl⟩

end WqInv

/-! ### The group -/

section Group

variable [DecidableEq T] {s s' : State T}

/-- A move that no waiting thread relies on not to happen. -/
structure PC.Calm (a b : PC) : Prop where
  parks : b = .parked → a = .parked
  releases : a = .dumpRelease → b = .dumpRelease
  zombie : b = .zombie → a = .zombie
  live : a.live = true → b.live = true

theorem PC.Calm.refl (a : PC) : a.Calm a := ⟨id, id, id, id⟩

/-- A move of a living thread to a label of no interest to the others. -/
theorem PC.Calm.of {a b : PC} (unparked : b ≠ .parked) (writes : a ≠ .dumpRelease) (stays : b ≠ .zombie)
    (live : b.live = true) : a.Calm b :=
  ⟨fun parks => absurd parks unparked, fun releases => absurd releases writes, fun zombie => absurd zombie stays,
    fun _ => live⟩

structure Teardown (cfg : Config T) (s : State T) : Prop where
  wq : ∀ t, WqInv cfg t (s.thread t)
  parked : ∀ t, (s.thread t).pc = .parked → (s.thread t).released = true ∨
    s.core.active = true ∧ t ∈ s.core.tasks ∨ t ∈ s.releaseList
  releases : s.releaseList ≠ ∅ → dumperPc s = .dumpRelease
  zombie : ∀ t, (s.thread t).pc = .zombie → t = cfg.leader ∧ ∃ u, u ≠ t ∧ (s.thread u).pc.live = true

omit [DecidableEq T] in
/-- Nobody parks, leaves the release or becomes a zombie without notice. -/
theorem Teardown.of_parts (held : Teardown cfg s) (wq : ∀ t, WqInv cfg t (s'.thread t))
    (parks : ∀ t, (s'.thread t).pc = .parked → (s.thread t).pc = .parked)
    (releases : ∀ t, (s.thread t).pc = .dumpRelease → (s'.thread t).pc = .dumpRelease)
    (zombie : ∀ t, (s'.thread t).pc = .zombie → t = cfg.leader ∧ ∃ u, u ≠ t ∧ (s'.thread u).pc.live = true)
    (released : ∀ t, (s'.thread t).released = (s.thread t).released) (core : s'.core = s.core)
    (releaseList : s'.releaseList = s.releaseList) (dumper : s'.dumper = s.dumper) : Teardown cfg s' := by
  refine ⟨wq, fun t parked => ?_, fun some => ?_, zombie⟩
  · rw [released, core, releaseList]
    exact held.parked t (parks t parked)
  · have releasing := held.releases (releaseList ▸ some)
    unfold dumperPc at releasing ⊢
    rw [dumper]
    cases found : s.dumper with
    | none =>
      rw [found] at releasing
      exact nomatch releasing
    | some d =>
      rw [found] at releasing
      exact releases d releasing

omit [DecidableEq T] in
theorem Teardown.of_threads (held : Teardown cfg s) (wq : ∀ t, WqInv cfg t (s'.thread t))
    (calm : ∀ t, (s.thread t).pc.Calm (s'.thread t).pc)
    (released : ∀ t, (s'.thread t).released = (s.thread t).released) (core : s'.core = s.core)
    (releaseList : s'.releaseList = s.releaseList) (dumper : s'.dumper = s.dumper) : Teardown cfg s' := by
  refine held.of_parts wq (fun t => (calm t).parks) (fun t => (calm t).releases) (fun t zombie => ?_) released core
    releaseList dumper
  obtain ⟨leader, u, different, live⟩ := held.zombie t ((calm t).zombie zombie)
  exact ⟨leader, u, different, (calm u).live live⟩

theorem Teardown.set (held : Teardown cfg s) (t : T) {th : Thread T} (wq : WqInv cfg t th)
    (calm : (s.thread t).pc.Calm th.pc) (released : th.released = (s.thread t).released) :
    Teardown cfg (s.set t th) := by
  refine held.of_threads (fun u => ?_) (fun u => ?_) (fun u => ?_) rfl rfl rfl
  · obtain rfl | different := eq_or_ne u t
    · rw [State.set_self]
      exact wq
    · rw [State.set_other _ _ different]
      exact held.wq u
  · obtain rfl | different := eq_or_ne u t
    · rw [State.set_self]
      exact calm
    · rw [State.set_other _ _ different]
      exact PC.Calm.refl _
  · obtain rfl | different := eq_or_ne u t
    · rw [State.set_self]
      exact released
    · rw [State.set_other _ _ different]

omit [DecidableEq T] in
theorem Teardown.frame (held : Teardown cfg s) (shared : Finset Sig) (group : Group T) (counted : Finset T)
    (rcuReader : Bool) (dump : Dump) (freeze : Freezer) (hist : Hist) (budget : Budget) :
    Teardown cfg { s with shared, group, counted, rcuReader, dump, freeze, hist, budget } :=
  ⟨held.wq, held.parked, held.releases, held.zombie⟩

omit [DecidableEq T] in
/-- Signals queued, threads woken: nobody moves. -/
theorem Teardown.zap (held : Teardown cfg s) (chosen : T → Prop) [DecidablePred chosen] :
    Teardown cfg (s.zap chosen) := by
  have thread (u : T) : ∃ pend woken,
      (s.zap chosen).thread u = { s.thread u with pending := pend, sigpending := woken } := by
    obtain ⟨pend, woken, thread, -⟩ := zap_cases s chosen u
    exact ⟨pend, woken, thread⟩
  refine held.of_threads (fun u => ?_) (fun u => ?_) (fun u => ?_) rfl rfl rfl
  all_goals obtain ⟨pend, woken, thread⟩ := thread u
  · rw [thread]
    exact (held.wq u).quiet ..
  · rw [thread]
    exact PC.Calm.refl _
  · rw [thread]

/-- A thread's signals change and it stays where it is. -/
theorem Teardown.quiet (held : Teardown cfg s) (t : T) (flags : Finset Flag)
    (pending blocked realblocked : Finset Sig) (sigpending notify decremented freed : Bool) :
    Teardown cfg (s.set t { s.thread t with
      flags, pending, blocked, realblocked, sigpending, notify, decremented, freed }) :=
  held.set t ((held.wq t).quiet ..) (PC.Calm.refl _) rfl

end Group

/-! ### Signals -/

variable [DecidableEq T] [Fintype T] {s s' : State T}

omit [Fintype T] in
theorem Teardown.completeSignal (held : Teardown cfg s) (t : T) {sig : Sig} :
    Teardown cfg (completeSignal s t sig) := by
  unfold Coredump.completeSignal
  split
  · exact (held.zap _).frame ..
  · exact held.quiet t ..

omit [Fintype T] in
theorem Teardown.sendGroup {sig : Sig} [Fintype T] (held : Teardown cfg s) (step : SendGroup s sig s') :
    Teardown cfg s' := by
  obtain ⟨-, -, sent⟩ := step
  split at sent
  · subst sent
    exact held.frame ..
  have queued : Teardown cfg { spend s sig with shared := insert sig s.shared } := held.frame ..
  split at sent
  · obtain ⟨t, -, rfl⟩ := sent
    exact queued.completeSignal t
  · subst sent
    exact queued

omit [Fintype T] in
theorem Teardown.sendThread (held : Teardown cfg s) {t : T} {sig : Sig} (step : SendThread s t sig s') :
    Teardown cfg s' := by
  obtain ⟨-, -, sent⟩ := step
  have spent : Teardown cfg (spend s sig) := held.frame ..
  split at sent
  · subst sent
    exact spent
  have queued : Teardown cfg ((spend s sig).set t { s.thread t with pending := insert sig (s.thread t).pending }) :=
    spent.quiet t ..
  simp only at sent
  split at sent
  · subst sent
    exact queued.completeSignal t
  · subst sent
    exact queued

omit [Fintype T] in
theorem Teardown.doGroupExit (held : Teardown cfg s) {t : T} (here : (s.thread t).pc = .run)
    (user : (cfg.role t).ioWq = false) : Teardown cfg (doGroupExit s t) := by
  have goes : WqInv cfg t { s.thread t with pc := .exitSync } := by
    refine (held.wq t).goto rfl (fun absent => nomatch here.symm.trans absent) fun ioWq => ?_
    exact nomatch user.symm.trans ioWq
  have calm : (s.thread t).pc.Calm .exitSync :=
    PC.Calm.of nofun (fun releases => nomatch here.symm.trans releases) nofun rfl
  unfold Coredump.doGroupExit
  split
  · exact held.set t goes calm rfl
  · have same : (s.zap fun u => u ≠ t ∧ (s.thread u).pc.alive = true).thread t = s.thread t :=
      if_neg fun chosen => chosen.1 rfl
    refine ((held.zap _).set t goes ?_ ?_).frame ..
    · rw [same]
      exact calm
    · rw [same]

omit [Fintype T] in
theorem Teardown.workerLeave (held : Teardown cfg s) {t : T} (here : (s.thread t).pc = .run) :
    Teardown cfg (workerLeave cfg s t) := by
  have present : (s.thread t).pc ≠ .none := fun absent => nomatch here.symm.trans absent
  have still : (s.thread t).pc ≠ .dumpRelease := fun releases => nomatch here.symm.trans releases
  unfold Coredump.workerLeave
  split
  next sqpoll =>
    refine held.set t ((held.wq t).goto rfl present fun ioWq => ?_) (PC.Calm.of nofun still nofun rfl) rfl
    rw [sqpoll] at ioWq
    exact nomatch ioWq
  next =>
    exact held.set t ((held.wq t).goto rfl present fun _ => .inl rfl) (PC.Calm.of nofun still nofun rfl) rfl

theorem Teardown.startDump (held : Teardown cfg s) (fresh : s.dumper = none) (idle : s.core.active = false) {t : T}
    (here : (s.thread t).pc = .run) (user : (cfg.role t).ioWq = false) : Teardown cfg (startDump s t) := by
  have nothing : s.releaseList = ∅ := by
    by_contra some
    have releasing := held.releases some
    unfold dumperPc at releasing
    rw [fresh] at releasing
    exact nomatch releasing
  have thread (u : T) : u = t ∧ (Coredump.startDump s t).thread u = { s.thread u with
      sigpending := false
      flags := (s.thread u).flags ∪ {.signaled, .dumpcore}
      pc := if 0 < (zapped s u).card then .dumpWait else .dumpWrite } ∨
      u ≠ t ∧ ∃ pend woken,
        (Coredump.startDump s t).thread u = { s.thread u with pending := pend, sigpending := woken } := by
    obtain rfl | different := eq_or_ne u t
    · exact .inl ⟨rfl, State.set_self ..⟩
    · obtain ⟨pend, woken, same, -⟩ := zap_cases s (fun w => w ∈ zapped s t) u
      exact .inr ⟨different, pend, woken, (State.set_other _ _ different).trans same⟩
  have dumps (u : T) : ∃ pc : PC, (if 0 < (zapped s u).card then .dumpWait else .dumpWrite) = pc ∧
      (pc = .dumpWait ∨ pc = .dumpWrite) := by
    split
    · exact ⟨_, rfl, .inl rfl⟩
    · exact ⟨_, rfl, .inr rfl⟩
  refine ⟨fun u => ?_, fun u parks => .inl ?_, fun some => absurd nothing some, fun u zombie => ?_⟩
  · obtain ⟨rfl, same⟩ | ⟨-, pend, woken, same⟩ := thread u
    · rw [same]
      obtain ⟨pc, label, waits⟩ := dumps u
      rw [label]
      have goes : WqInv cfg u { s.thread u with pc := pc } := by
        refine (held.wq u).goto ?_ (fun absent => nomatch here.symm.trans absent) fun ioWq => ?_
        · obtain rfl | rfl := waits <;> rfl
        · exact nomatch user.symm.trans ioWq
      exact goes.quiet ..
    · rw [same]
      exact (held.wq u).quiet ..
  · obtain ⟨rfl, same⟩ | ⟨-, pend, woken, same⟩ := thread u
    · rw [same] at parks
      obtain ⟨pc, label, waits⟩ := dumps u
      rw [label] at parks
      obtain rfl | rfl := waits <;> exact nomatch parks
    · rw [same] at parks ⊢
      obtain released | attached | listed := held.parked u parks
      · exact released
      · exact nomatch idle.symm.trans attached.1
      · rw [nothing] at listed
        exact absurd listed (Finset.notMem_empty u)
  · have before : (s.thread u).pc = .zombie := by
      obtain ⟨rfl, same⟩ | ⟨-, pend, woken, same⟩ := thread u
      · rw [same] at zombie
        obtain ⟨pc, label, waits⟩ := dumps u
        rw [label] at zombie
        obtain rfl | rfl := waits <;> exact nomatch zombie
      · rw [same] at zombie
        exact zombie
    obtain ⟨leader, w, different, live⟩ := held.zombie u before
    refine ⟨leader, w, different, ?_⟩
    obtain ⟨rfl, same⟩ | ⟨-, pend, woken, same⟩ := thread w
    · rw [same]
      simp only
      split <;> rfl
    · rw [same]
      exact live

theorem Teardown.fatal (fixed : cfg.Fixed) (held : Teardown cfg s)
    (calm : s.group.exit = false → s.dumper = none ∧ s.core.active = false) {t : T}
    (here : (s.thread t).pc = .run) (sig : Sig) : Teardown cfg (Coredump.fatal cfg s t sig) := by
  have signaled : Teardown cfg (s.set t { s.thread t with flags := insert .signaled (s.thread t).flags }) :=
    held.quiet t ..
  have still : ((s.set t { s.thread t with flags := insert .signaled (s.thread t).flags }).thread t).pc = .run := by
    rw [State.set_self]
    exact here
  unfold Coredump.fatal
  simp only
  split
  · exact signaled.workerLeave still
  next notWorker =>
    have plain : ¬ (cfg.role t).worker = true := fun worker => notWorker ⟨worker, fixed.workerNodump⟩
    have user : (cfg.role t).ioWq = false := by
      cases role : cfg.role t with
      | user => rfl
      | sqpoll | iowq | slot => exact absurd (by rw [role]; rfl) plain
    rw [if_neg plain]
    split
    · unfold vfsCoredump
      split
      next quiet =>
        obtain ⟨fresh, idle⟩ := calm quiet.1
        exact held.startDump fresh idle here user
      next =>
        simp only
        exact signaled.doGroupExit still user
    · exact signaled.doGroupExit still user

theorem Teardown.getSignal (fixed : cfg.Fixed) (held : Teardown cfg s) (inv : Inv cfg s) {t : T}
    (step : GetSignal cfg s t s') : Teardown cfg s' := by
  obtain ⟨here, -, -, -, result⟩ := step
  have calm (lives : s.group.exit = false) : s.dumper = none ∧ s.core.active = false :=
    ⟨inv.dumper_none lives, inv.idle lives⟩
  have taken (pend : Finset Sig) (woken : Bool) :
      Teardown cfg (s.set t { s.thread t with pending := pend, sigpending := woken }) := held.quiet t ..
  have dies (pend : Finset Sig) (woken : Bool) (sig : Sig) :
      Teardown cfg (Coredump.fatal cfg (s.set t { s.thread t with pending := pend, sigpending := woken }) t sig) := by
    refine (taken pend woken).fatal fixed calm ?_ sig
    rw [State.set_self]
    exact here
  split at result
  · subst result
    exact dies ..
  split at result
  · obtain ⟨sig, -, rfl⟩ := result
    unfold deliver
    split
    · exact taken ..
    · exact dies ..
  split at result
  · obtain ⟨sig, -, rfl⟩ := result
    have shared : Teardown cfg { s.set t { s.thread t with
        sigpending := recalc s (s.thread t).pending (s.shared.erase sig) (s.thread t).blocked } with
        shared := s.shared.erase sig } := (taken ..).frame ..
    unfold deliver
    split
    · exact shared
    · refine shared.fatal fixed calm ?_ sig
      exact (congrArg Thread.pc (State.set_self ..)).trans here
  · subst result
    exact taken ..

omit [Fintype T] in
theorem Teardown.woken (held : Teardown cfg s) {t : T}
    (woken : s' = s ∨ ∃ u, u ≠ t ∧ s' = s.set u { s.thread u with sigpending := true }) :
    Teardown cfg s' ∧ s'.thread t = s.thread t := by
  obtain rfl | ⟨u, different, rfl⟩ := woken
  · exact ⟨held, rfl⟩
  · exact ⟨held.quiet u .., State.set_other _ _ different.symm⟩

theorem Teardown.blockUsr (held : Teardown cfg s) {t : T} (step : BlockUsr cfg s t s') : Teardown cfg s' := by
  obtain ⟨-, -, -, s₁, retarget, rfl⟩ := step
  exact (held.woken retarget.cases).1.quiet t ..

omit [Fintype T] in
/-- A user thread starts a system call that keeps it alive. -/
theorem Teardown.enters (held : Teardown cfg s) {t : T} (role : cfg.role t = .user) (here : (s.thread t).pc = .run)
    (next : PC) (out : next.cancels = false) (calm : PC.run.Calm next) (blocked realblocked : Finset Sig)
    (sigpending : Bool) :
    Teardown cfg (s.set t { s.thread t with pc := next, blocked, realblocked, sigpending }) := by
  have goes : WqInv cfg t { s.thread t with pc := next } := by
    refine (held.wq t).goto out (fun absent => nomatch here.symm.trans absent) fun ioWq => ?_
    rw [role] at ioWq
    exact nomatch ioWq
  refine held.set t (goes.quiet ..) ?_ rfl
  rw [here]
  exact calm

theorem Teardown.sigWaitWake (held : Teardown cfg s) {t : T} (step : SigWaitWake cfg s t s') :
    Teardown cfg s' := by
  obtain ⟨here, s₁, retarget, rfl⟩ := step
  obtain ⟨known, thread⟩ := held.woken retarget.cases
  rw [← thread] at here ⊢
  have goes : WqInv cfg t { s₁.thread t with pc := .run } :=
    (known.wq t).passes rfl (by rw [here]; rfl)
  refine (known.set t (goes.quiet ..) ?_ rfl).frame ..
  rw [here]
  exact PC.Calm.of nofun nofun nofun rfl

omit [DecidableEq T] [Fintype T] in
theorem Teardown.freeze (held : Teardown cfg s) {kind : Freezer} (step : Freeze s kind s') : Teardown cfg s' := by
  obtain ⟨-, -, -, rfl⟩ := step
  refine held.of_threads (fun u => ?_) (fun u => ?_) (fun u => ?_) rfl rfl rfl
  · simp only
    split
    · exact (held.wq u).quiet ..
    · exact held.wq u
  · simp only
    split <;> exact PC.Calm.refl _
  · simp only
    split <;> rfl

/-! ### The dumper -/

omit [Fintype T] in
/-- A thread goes on to a label that is of no interest to the others. -/
theorem Teardown.goes (held : Teardown cfg s) {t : T} {here next : PC} (at_here : (s.thread t).pc = here)
    (past : here.serves = false) (out : next.cancels = false) (calm : here.Calm next) :
    Teardown cfg (s.set t { s.thread t with pc := next }) := by
  refine held.set t ((held.wq t).passes out (by rw [at_here]; exact past)) ?_ rfl
  rw [at_here]
  exact calm

omit [Fintype T] in
theorem Teardown.dumpChunk (held : Teardown cfg s) {t : T} (step : DumpChunk cfg s t s') : Teardown cfg s' := by
  obtain ⟨here, result⟩ := step
  have finish : Teardown cfg (s.set t { s.thread t with pc := .dumpFinish }) :=
    held.goes here rfl rfl (PC.Calm.of nofun nofun nofun rfl)
  split at result
  · subst result
    exact finish.frame ..
  · obtain ⟨-, rfl⟩ | ⟨-, rfl⟩ | ⟨-, rfl⟩ := result
    · exact finish.frame ..
    · exact held.frame ..
    · exact finish.frame ..

/-- The list of those to be released takes over from core_state. -/
theorem Teardown.dumpFinish (held : Teardown cfg s) (inv : Inv cfg s) {t : T} (step : DumpFinish cfg s t s') :
    Teardown cfg s' := by
  obtain ⟨here, rfl⟩ := step
  have moved : Teardown cfg (s.set t { s.thread t with pc := .dumpRelease }) :=
    held.goes here rfl rfl ⟨nofun, nofun, nofun, fun _ => rfl⟩
  obtain ⟨dumper, pc⟩ := inv.dumper (by rw [here]; rfl : (s.thread t).pc.dumping = true)
  have nothing : s.releaseList = ∅ := by
    by_contra some
    have releasing := held.releases some
    rw [pc, here] at releasing
    exact nomatch releasing
  refine ⟨moved.wq, fun u parks => ?_, fun _ => ?_, moved.zombie⟩
  · obtain released | attached | listed := moved.parked u parks
    · exact .inl released
    · exact .inr (.inr attached.2)
    · change u ∈ s.releaseList at listed
      rw [nothing] at listed
      exact absurd listed (Finset.notMem_empty u)
  · unfold dumperPc
    simp only
    change (s.dumper.elim PC.none fun d => ((s.set t { s.thread t with pc := .dumpRelease }).thread d).pc) = _
    rw [dumper, Option.elim_some, State.set_self]

omit [Fintype T] in
theorem Teardown.releaseClear (held : Teardown cfg s) {t u : T} (step : ReleaseClear s t u s') :
    Teardown cfg s' := by
  obtain ⟨here, -, -, rfl⟩ := step
  have thread (w : T) : (s.set u { s.thread u with released := true }).thread w = { s.thread w with
      released := if w = u then true else (s.thread w).released } := by
    obtain rfl | different := eq_or_ne w u
    · rw [State.set_self, if_pos rfl]
    · rw [State.set_other _ _ different, if_neg different]
  refine ⟨fun w => ?_, fun w parks => ?_, fun some => ?_, fun w zombie => ?_⟩
  · rw [thread]
    exact (held.wq w).quiet ..
  · rw [thread] at parks ⊢
    refine (held.parked w parks).imp_left fun released => ?_
    simp only [released, ite_self]
  · have releasing := held.releases some
    unfold dumperPc at releasing ⊢
    change (s.dumper.elim PC.none fun d => ((s.set u { s.thread u with released := true }).thread d).pc) = _
    simp only [thread]
    exact releasing
  · rw [thread] at zombie
    obtain ⟨leader, v, different, live⟩ := held.zombie w zombie
    exact ⟨leader, v, different, by rw [thread]; exact live⟩

omit [Fintype T] in
theorem Teardown.releaseWake (held : Teardown cfg s) {t u : T} (step : ReleaseWake s t u s') :
    Teardown cfg s' := by
  obtain ⟨-, member, released, rfl⟩ := step
  refine ⟨held.wq, fun w parks => ?_, fun _ => held.releases fun none => ?_, held.zombie⟩
  · obtain early | attached | listed := held.parked w parks
    · exact .inl early
    · exact .inr (.inl attached)
    · obtain rfl | different := eq_or_ne w u
      · exact .inl released
      · exact .inr (.inr (Finset.mem_erase.2 ⟨different, listed⟩))
  · rw [none] at member
    exact absurd member (Finset.notMem_empty u)

theorem Teardown.releaseDone (held : Teardown cfg s) (inv : Inv cfg s) {t : T} (step : ReleaseDone cfg s t s') :
    Teardown cfg s' := by
  obtain ⟨here, nothing, result⟩ := step
  have dumps : (s.thread t).pc.dumping = true := by rw [here]; rfl
  have user := user_of_dumping (inv.threads t).suits dumps
  have dies : s.group.exit = true := inv.dies (by rw [(inv.dumper dumps).1]; exact nofun)
  have leaves : Coredump.doGroupExit { s with rcuReader := false } t =
      { s.set t { s.thread t with pc := .exitSync } with rcuReader := false } := if_pos (.inl dies)
  rw [user, if_neg (by decide), leaves] at result
  subst result
  have thread (u : T) : u = t ∧ (s.set t { s.thread t with pc := .exitSync }).thread u =
      { s.thread u with pc := .exitSync } ∨
      u ≠ t ∧ (s.set t { s.thread t with pc := .exitSync }).thread u = s.thread u := by
    obtain rfl | different := eq_or_ne u t
    · exact .inl ⟨rfl, State.set_self ..⟩
    · exact .inr ⟨different, State.set_other _ _ different⟩
  refine ⟨fun u => ?_, fun u parks => ?_, fun some => absurd nothing some, fun u zombie => ?_⟩
  · simp only
    obtain ⟨rfl, same⟩ | ⟨-, same⟩ := thread u
    · rw [same]
      exact (held.wq u).passes rfl (by rw [here]; rfl)
    · rw [same]
      exact held.wq u
  · simp only at parks ⊢
    obtain ⟨rfl, same⟩ | ⟨-, same⟩ := thread u
    · rw [same] at parks
      exact nomatch parks
    · rw [same] at parks ⊢
      exact held.parked u parks
  · simp only at zombie ⊢
    have before : (s.thread u).pc = .zombie := by
      obtain ⟨rfl, same⟩ | ⟨-, same⟩ := thread u
      · rw [same] at zombie
        exact nomatch zombie
      · rw [same] at zombie
        exact zombie
    obtain ⟨leader, w, different, live⟩ := held.zombie u before
    refine ⟨leader, w, different, ?_⟩
    obtain ⟨rfl, same⟩ | ⟨-, same⟩ := thread w
    · rw [same]
      rfl
    · rw [same]
      exact live

/-! ### do_exit() -/

omit [Fintype T] in
/-- A thread only parks on the list of core_state. -/
theorem Teardown.syncGroupExit (held : Teardown cfg s) {t : T} (step : SyncGroupExit s t s') :
    Teardown cfg s' := by
  obtain ⟨here, next, done, core', rfl, passed, active, -, -, tasks, lists⟩ := step.cases
  have out : next.cancels = false := by obtain rfl | rfl := passed <;> rfl
  have goes : WqInv cfg t { s.thread t with pc := next } := (held.wq t).passes out (by rw [here]; rfl)
  have thread (u : T) : u = t ∧ (s.set t { s.thread t with
      flags := insert .postcoredump (s.thread t).flags, decremented := done, pc := next }).thread u =
        { s.thread u with flags := insert .postcoredump (s.thread t).flags, decremented := done, pc := next } ∨
      u ≠ t ∧ (s.set t { s.thread t with
        flags := insert .postcoredump (s.thread t).flags, decremented := done, pc := next }).thread u =
          s.thread u := by
    obtain rfl | different := eq_or_ne u t
    · exact .inl ⟨rfl, State.set_self ..⟩
    · exact .inr ⟨different, State.set_other _ _ different⟩
  refine ⟨fun u => ?_, fun u parks => ?_, fun some => ?_, fun u zombie => ?_⟩
  · simp only
    obtain ⟨rfl, same⟩ | ⟨-, same⟩ := thread u
    · rw [same]
      exact goes.quiet ..
    · rw [same]
      exact held.wq u
  · simp only at parks ⊢
    obtain ⟨rfl, same⟩ | ⟨-, same⟩ := thread u
    · rw [same] at parks
      exact .inr (.inl ⟨active.trans (lists parks).1, (lists parks).2⟩)
    · rw [same] at parks ⊢
      exact (held.parked u parks).imp_right (.imp_left fun attached => ⟨active.trans attached.1, tasks attached.2⟩)
  · have releasing := held.releases some
    unfold dumperPc at releasing ⊢
    change (s.dumper.elim PC.none fun d => ((s.set t _).thread d).pc) = _
    cases found : s.dumper with
    | none =>
      rw [found] at releasing
      exact nomatch releasing
    | some d =>
      rw [found] at releasing
      change (s.thread d).pc = .dumpRelease at releasing
      rw [Option.elim_some]
      obtain ⟨rfl, -⟩ | ⟨-, same⟩ := thread d
      · exact nomatch here.symm.trans releasing
      · exact (congrArg Thread.pc same).trans releasing
  · simp only at zombie ⊢
    have before : (s.thread u).pc = .zombie := by
      obtain ⟨rfl, same⟩ | ⟨-, same⟩ := thread u
      · rw [same] at zombie
        obtain rfl | rfl := passed <;> exact nomatch zombie
      · rw [same] at zombie
        exact zombie
    obtain ⟨leader, w, different, live⟩ := held.zombie u before
    refine ⟨leader, w, different, ?_⟩
    obtain ⟨rfl, same⟩ | ⟨-, same⟩ := thread w
    · rw [same]
      obtain rfl | rfl := passed <;> rfl
    · rw [same]
      exact live

omit [Fintype T] in
theorem Teardown.starts (held : Teardown cfg s) {t : T} {here next : PC} (at_here : (s.thread t).pc = here)
    (past : here.serves = false) (early : next.awaits = false) (calm : here.Calm next) :
    Teardown cfg (s.set t { s.thread t with wqexit := true, pc := next }) := by
  have present : (s.thread t).pc ≠ .none := fun absent => by
    rw [← at_here, absent] at past
    exact nomatch past
  refine held.set t ((held.wq t).starts early present fun ioWq => ?_) ?_ rfl
  · exact (held.wq t).dropped (at_here ▸ past) ioWq
  · rw [at_here]
    exact calm

omit [Fintype T] in
theorem Teardown.cancelWait (held : Teardown cfg s) {t : T} {here next : PC} (step : CancelWait s t here next s')
    (cancelling : here.cancels = true) (past : here.serves = false) (calm : here.Calm next) :
    Teardown cfg s' := by
  obtain ⟨at_here, rfl⟩ := step
  refine held.set t ((held.wq t).cancels at_here cancelling past) ?_ rfl
  rw [at_here]
  exact calm

theorem Teardown.exitSignals (held : Teardown cfg s) {t : T} (step : ExitSignals cfg s t s') :
    Teardown cfg s' := by
  obtain ⟨here, s₁, woken, rfl⟩ := step.cases
  obtain ⟨known, thread⟩ := held.woken woken
  rw [← thread] at here ⊢
  have goes : WqInv cfg t { s₁.thread t with pc := .exitNotify } := (known.wq t).passes rfl (by rw [here]; rfl)
  refine known.set t (goes.quiet ..) ?_ rfl
  rw [here]
  exact PC.Calm.of nofun nofun nofun rfl

/-- A zombie leader that nobody reaps has another thread beside it. -/
theorem Teardown.exitNotify (held : Teardown cfg s) {t : T} (step : ExitNotify cfg s t s') :
    Teardown cfg s' := by
  have here := step.1
  obtain ⟨leader, others, rfl⟩ | ⟨last, cases, result⟩ := step.cases
  · have other (u : T) (different : u ≠ t) : (s.set t { s.thread t with pc := .zombie }).thread u = s.thread u :=
      State.set_other _ _ different
    refine held.of_parts (fun u => ?_) (fun u parks => ?_) (fun u releases => ?_) (fun u zombie => ?_)
      (fun u => ?_) rfl rfl rfl
    · obtain rfl | different := eq_or_ne u t
      · rw [State.set_self]
        exact (held.wq u).passes rfl (by rw [here]; rfl)
      · rw [other u different]
        exact held.wq u
    · obtain rfl | different := eq_or_ne u t
      · rw [State.set_self] at parks
        exact nomatch parks
      · rw [other u different] at parks
        exact parks
    · obtain rfl | different := eq_or_ne u t
      · exact nomatch here.symm.trans releases
      · rw [other u different]
        exact releases
    · have same : u = t := by
        by_contra different
        rw [other u different] at zombie
        exact different ((held.zombie u zombie).1.trans leader.symm)
      obtain rfl := same
      obtain ⟨w, member⟩ := Finset.nonempty_iff_ne_empty.2 others
      obtain ⟨different, live⟩ := (Finset.mem_filter.1 member).2
      exact ⟨leader, w, different, by rw [other w different]; exact live⟩
    · obtain rfl | different := eq_or_ne u t
      · rw [State.set_self]
      · rw [other u different]
  · refine held.of_parts (fun u => ?_) (fun u parks => ?_) (fun u releases => ?_) (fun u zombie => ?_)
      (fun u => ?_) (by rw [result]) (by rw [result]) (by rw [result])
    · obtain ⟨rfl, thread⟩ | ⟨-, -, zombie, -, thread⟩ | ⟨-, thread⟩ := cases u
      · rw [thread]
        exact (held.wq u).passes rfl (by rw [here]; rfl)
      · rw [thread]
        exact (held.wq u).passes rfl (by rw [zombie]; rfl)
      · rw [thread]
        exact held.wq u
    · obtain ⟨-, thread⟩ | ⟨-, -, -, -, thread⟩ | ⟨-, thread⟩ := cases u
      · rw [thread] at parks
        exact nomatch parks
      · rw [thread] at parks
        exact nomatch parks
      · rw [thread] at parks
        exact parks
    · obtain ⟨rfl, -⟩ | ⟨-, -, zombie, -, -⟩ | ⟨-, thread⟩ := cases u
      · exact nomatch here.symm.trans releases
      · exact nomatch zombie.symm.trans releases
      · rw [thread]
        exact releases
    · obtain ⟨-, thread⟩ | ⟨-, -, -, -, thread⟩ | ⟨different, thread⟩ := cases u
      · rw [thread] at zombie
        exact nomatch zombie
      · rw [thread] at zombie
        exact nomatch zombie
      · have before : (s.thread u).pc = .zombie := by
          rw [thread] at zombie
          exact zombie
        obtain ⟨leader, -⟩ := held.zombie u before
        -- `t` was not the only other thread, or the leader would be gone with it.
        have more : othersLive s t ≠ {u} := by
          intro only
          obtain ⟨same, -⟩ | ⟨-, -, -, -, gone⟩ | ⟨-, kept⟩ := cases u
          · exact different same
          · rw [gone] at zombie
            exact nomatch zombie
          · have reaped : s'.thread u = { s.thread u with pc := .dead } := by
              obtain ⟨-, final⟩ := step
              rw [final, if_neg fun alone => different (leader.trans alone.1.symm)]
              simp only
              rw [if_neg different, if_pos ⟨leader, leader ▸ before, leader ▸ only⟩]
            rw [reaped] at zombie
            exact nomatch zombie
        have inside : u ∈ othersLive s t :=
          Finset.mem_filter.2 ⟨Finset.mem_univ u, different, by rw [before]; rfl⟩
        obtain ⟨w, member, apart⟩ : ∃ w ∈ othersLive s t, w ≠ u := by
          by_contra none
          push Not at none
          exact more (Finset.eq_singleton_iff_unique_mem.2 ⟨inside, none⟩)
        obtain ⟨elsewhere, live⟩ := (Finset.mem_filter.1 member).2
        refine ⟨leader, w, apart, ?_⟩
        obtain ⟨same, -⟩ | ⟨-, same, -, -, -⟩ | ⟨-, kept⟩ := cases w
        · exact absurd same elsewhere
        · exact absurd (same.trans leader.symm) apart
        · rw [kept]
          exact live
    · obtain ⟨-, thread⟩ | ⟨-, -, -, -, thread⟩ | ⟨-, thread⟩ := cases u <;> rw [thread]

/-! ### Workers -/

omit [Fintype T] in
theorem Teardown.workerSeesExit (held : Teardown cfg s) {t : T} (step : WorkerSeesExit cfg s t s') :
    Teardown cfg s' := by
  obtain ⟨-, here, -, rfl⟩ := step
  refine held.set t ((held.wq t).goto rfl (fun absent => nomatch here.symm.trans absent) fun _ => .inl rfl) ?_ rfl
  rw [here]
  exact PC.Calm.of nofun nofun nofun rfl

omit [Fintype T] in
/-- Task work is queued on a ring owner whose wq is not on its way out. -/
theorem Teardown.notified (held : Teardown cfg s) {o : T} (owner : o ∈ cfg.ringOwners)
    (goes : (s.thread o).wqexit = false) (twq : Finset (Work T)) :
    Teardown cfg (notified s o { s.thread o with twq := twq }) := by
  have early : (s.thread o).pc.awaits = false := by
    refine Bool.eq_false_iff.2 fun awaits => ?_
    exact nomatch goes.symm.trans ((held.wq o).exits (cancels_of_awaits awaits))
  have told : Teardown cfg (s.set o { s.thread o with twq := twq, notify := true }) :=
    held.set o ((held.wq o).queues owner early twq true) (PC.Calm.refl _) rfl
  exact told.frame ..

omit [Fintype T] in
theorem Teardown.workerQueuesCreate (held : Teardown cfg s) {t : T} (step : WorkerQueuesCreate cfg s t s') :
    Teardown cfg s' := by
  obtain ⟨ioWq, here, o, own, goes, -, rfl⟩ := step
  obtain ⟨o', member, same⟩ := (held.wq t).owned ioWq fun absent => nomatch here.symm.trans absent
  obtain rfl := Option.some.inj (own.symm.trans same)
  exact held.notified member goes _

omit [Fintype T] in
theorem Teardown.retryFires (held : Teardown cfg s) {t : T} (step : RetryFires s t s') : Teardown cfg s' := by
  obtain ⟨queued, result⟩ := step
  split at result
  · subst result
    exact held.set t ((held.wq t).takes (Finset.erase_subset ..)) (PC.Calm.refl _) rfl
  next goes =>
    subst result
    refine held.notified ((held.wq t).ring ?_) (Bool.eq_false_iff.2 goes) _
    exact Finset.ne_empty_of_mem queued

omit [Fintype T] in
/-- The reference is dropped on the way out. -/
theorem Teardown.workerExit (held : Teardown cfg s) {t : T} (step : WorkerExit s t s') : Teardown cfg s' := by
  obtain ⟨here, rfl⟩ := step
  have leaves {known : State T} (held : Teardown cfg known) (here : (known.thread t).pc = .wqExit) :
      Teardown cfg (known.set t { known.thread t with refput := true, pc := .exitSync }) := by
    have wq := held.wq t
    refine held.set t ⟨fun _ => .inr rfl, nofun, nofun, wq.ring, fun ioWq _ => wq.owned ioWq ?_⟩ ?_ rfl
    · exact fun absent => nomatch here.symm.trans absent
    · rw [here]
      exact PC.Calm.of nofun nofun nofun rfl
  cases (s.thread t).owner with
  | none => exact leaves held here
  | some o =>
    have cancelled : Teardown cfg (s.set o { s.thread o with twq := (s.thread o).twq.erase (.worker t) }) :=
      held.set o ((held.wq o).takes (Finset.erase_subset ..)) (PC.Calm.refl _) rfl
    refine leaves cancelled ?_
    rw [Option.elim_some]
    obtain rfl | different := eq_or_ne t o
    · rw [State.set_self]
      exact here
    · rw [State.set_other _ _ different]
      exact here

omit [Fintype T] in
theorem Teardown.createWorker (held : Teardown cfg s) {c : T} (step : CreateWorker cfg s c s') :
    Teardown cfg s' := by
  obtain ⟨ring, point, item, -, result⟩ := step
  have early : (s.thread c).pc.awaits = false := by
    revert point
    cases (s.thread c).pc <;> decide
  have taken : Teardown cfg (s.set c { s.thread c with twq := (s.thread c).twq.erase item }) :=
    held.set c ((held.wq c).takes (Finset.erase_subset ..)) (PC.Calm.refl _) rfl
  obtain ⟨-, -, rfl⟩ | result := result
  · exact taken
  split at result
  · subst result
    exact taken
  split at result
  · split at result
    · subst result
      have queued : Teardown cfg (s.set c { s.thread c with
          twq := insert .retry ((s.thread c).twq.erase item) }) :=
        held.set c ((held.wq c).queues ring early _ (s.thread c).notify) (PC.Calm.refl _) rfl
      exact queued.frame ..
    · subst result
      exact taken
  · obtain ⟨n, slot, absent, rfl⟩ | ⟨-, rfl⟩ := result
    · have apart : n ≠ c := by
        rintro rfl
        rw [absent] at point
        exact nomatch point
      have calm : ((s.set c { s.thread c with twq := (s.thread c).twq.erase item }).thread n).pc.Calm .run := by
        rw [State.set_other _ _ apart, absent]
        exact ⟨nofun, nofun, nofun, nofun⟩
      exact (taken.set n ((taken.wq n).newborn ring ..) calm rfl).frame ..
    · exact taken

/-! ### execve() -/

theorem Teardown.deThread (held : Teardown cfg s) {t : T} (step : DeThread cfg s t s') : Teardown cfg s' := by
  obtain ⟨here, result⟩ := step
  split at result
  · subst result
    exact held.goes here rfl rfl (PC.Calm.of (by decide) (by decide) (by decide) rfl)
  split at result
  · subst result
    exact held.goes here rfl rfl (PC.Calm.of (by decide) (by decide) (by decide) rfl)
  · subst result
    have same : (s.zap fun u => u ≠ t ∧ (s.thread u).pc.alive = true).thread t = s.thread t :=
      if_neg fun chosen => chosen.1 rfl
    have moved : Teardown cfg ((s.zap fun u => u ≠ t ∧ (s.thread u).pc.alive = true).set t
        { (s.zap fun u => u ≠ t ∧ (s.thread u).pc.alive = true).thread t with pc := .execWait }) :=
      (held.zap _).goes ((congrArg Thread.pc same).trans here) rfl rfl (PC.Calm.of (by decide) (by decide) (by decide) rfl)
    rw [same] at moved
    exact moved.frame ..

omit [Fintype T] in
theorem Teardown.deThreadDone (held : Teardown cfg s) {t : T} (step : DeThreadDone cfg s t s') :
    Teardown cfg s' := by
  have cases := step.cases
  obtain ⟨here, -, -, result⟩ := step
  refine held.of_parts (fun u => ?_) (fun u parks => ?_) (fun u releases => ?_) (fun u zombie => ?_)
    (fun u => ?_) (by rw [result]) (by rw [result]) (by rw [result])
  · obtain ⟨rfl, thread⟩ | ⟨-, -, zombie, thread⟩ | ⟨-, -, thread⟩ := cases u
    · rw [thread]
      exact (held.wq u).passes rfl (by rw [here]; rfl)
    · rw [thread]
      exact (held.wq u).passes rfl (by rw [zombie]; rfl)
    · rw [thread]
      exact held.wq u
  · obtain ⟨-, thread⟩ | ⟨-, -, -, thread⟩ | ⟨-, -, thread⟩ := cases u
    · rw [thread] at parks
      exact nomatch parks
    · rw [thread] at parks
      exact nomatch parks
    · rw [thread] at parks
      exact parks
  · obtain ⟨rfl, -⟩ | ⟨-, -, zombie, -⟩ | ⟨-, -, thread⟩ := cases u
    · exact nomatch here.symm.trans releases
    · exact nomatch zombie.symm.trans releases
    · rw [thread]
      exact releases
  · -- The leader was the only zombie.
    obtain ⟨-, thread⟩ | ⟨-, -, -, thread⟩ | ⟨-, apart, thread⟩ := cases u
    · rw [thread] at zombie
      exact nomatch zombie
    · rw [thread] at zombie
      exact nomatch zombie
    · rw [thread] at zombie
      exact absurd (held.zombie u zombie).1 apart
  · obtain ⟨-, thread⟩ | ⟨-, -, -, thread⟩ | ⟨-, -, thread⟩ := cases u <;> rw [thread]

/-! ### Every reachable state -/

omit [DecidableEq T] in
theorem Teardown.init (wf : cfg.WellFormed) (start : Init cfg s) : Teardown cfg s := by
  subst start
  have label (t : T) (pc : PC) (labelled : (if cfg.role t = .slot then PC.none else .run) = pc) :
      pc = .none ∧ cfg.role t = .slot ∨ pc = .run ∧ cfg.role t ≠ .slot := by
    split at labelled
    next slot => exact .inl ⟨labelled.symm, slot⟩
    next other => exact .inr ⟨labelled.symm, other⟩
  refine ⟨fun t => ?_, fun t parks => ?_, fun some => absurd rfl some, fun t zombie => ?_⟩
  · constructor
    case refput =>
      refine fun _ => .inl ?_
      simp only
      obtain ⟨pc, -⟩ | ⟨pc, -⟩ := label t _ rfl <;> rw [pc] <;> rfl
    case exits =>
      intro cancels
      simp only at cancels
      obtain ⟨pc, -⟩ | ⟨pc, -⟩ := label t _ rfl <;> rw [pc] at cancels <;> exact nomatch cancels
    case empties => exact fun _ => Finset.empty_subset _
    case ring => exact fun some => absurd rfl some
    case owned =>
      intro ioWq present
      simp only at present ⊢
      obtain ⟨pc, -⟩ | ⟨-, other⟩ := label t _ rfl
      · exact absurd pc present
      · refine wf.owners t ?_
        revert ioWq other
        cases cfg.role t <;> decide
  · obtain ⟨pc, -⟩ | ⟨pc, -⟩ := label t _ parks <;> exact nomatch pc
  · obtain ⟨pc, -⟩ | ⟨pc, -⟩ := label t _ zombie <;> exact nomatch pc

theorem Teardown.env (fixed : cfg.Fixed) (held : Teardown cfg s) (step : EnvStep cfg s s') : Teardown cfg s' := by
  cases step with
  | sendGroup sig step => exact held.sendGroup step
  | sendThread t sig step => exact held.sendThread step
  | blockUsr t step => exact held.blockUsr step
  | unblockUsr t step =>
    obtain ⟨-, -, -, rfl⟩ := step
    exact held.quiet t ..
  | sigWaitEnter t step =>
    obtain ⟨role, user, -, -, -, rfl⟩ := step
    exact held.enters role user.1 .sigwait rfl (PC.Calm.of nofun nofun nofun rfl) ..
  | tracerClearMask t step => exact (not_tracerClearMask fixed step).elim
  | exitSyscall t step =>
    obtain ⟨role, user, rfl⟩ := step
    exact held.enters role user.1 .exitSync rfl (PC.Calm.of nofun nofun nofun rfl) ..
  | exitGroupSyscall t step =>
    obtain ⟨role, user, rfl⟩ := step
    exact held.doGroupExit user.1 (by rw [role]; rfl)
  | execStart t step =>
    obtain ⟨role, user, -, rfl⟩ := step
    have present : (s.thread t).pc ≠ .none := fun absent => nomatch user.1.symm.trans absent
    split
    · refine (held.set t ((held.wq t).starts rfl present fun ioWq => ?_) ?_ rfl).frame ..
      · rw [role] at ioWq
        exact nomatch ioWq
      · rw [user.1]
        exact PC.Calm.of nofun nofun nofun rfl
    · exact (held.enters role user.1 .execDethread rfl (PC.Calm.of nofun nofun nofun rfl) ..).frame ..
  | workerQueuesCreate t step => exact held.workerQueuesCreate step
  | freed t step =>
    obtain ⟨-, -, -, -, rfl⟩ := step
    exact held.quiet t ..
  | freeze kind step => exact held.freeze step

theorem Teardown.thread (fixed : cfg.Fixed) (held : Teardown cfg s) (inv : Inv cfg s) {t : T}
    (step : ThreadStep cfg s t s') : Teardown cfg s' := by
  have waits {here next : PC} (step : WaitDone cfg s t here next s') (past : here.serves = false)
      (out : next.cancels = false) (calm : here.Calm next) : Teardown cfg s' := by
    obtain ⟨at_here, -, rfl⟩ := step
    exact held.goes at_here past out calm
  cases step with
  | getSignal step => exact held.getSignal fixed inv step
  | handleNotify step =>
    obtain ⟨-, -, rfl⟩ := step
    exact held.quiet t ..
  | sigWaitWake step => exact held.sigWaitWake step
  | dumpWaitDone step =>
    obtain ⟨here, -, rfl⟩ := step
    exact held.goes here rfl rfl (PC.Calm.of nofun nofun nofun rfl)
  | dumpChunk step => exact held.dumpChunk step
  | dumpFinish step => exact held.dumpFinish inv step
  | releaseClear u step => exact held.releaseClear step
  | releaseWake u step => exact held.releaseWake step
  | releaseDone step => exact held.releaseDone inv step
  | syncGroupExit step => exact held.syncGroupExit step
  | unpark step =>
    obtain ⟨here, -, rfl⟩ := step
    exact held.goes here rfl rfl (PC.Calm.of nofun nofun nofun rfl)
  | exitCancel step =>
    obtain ⟨here, rfl⟩ := step
    split
    · exact held.starts here rfl rfl (PC.Calm.of nofun nofun nofun rfl)
    · exact held.goes here rfl rfl (PC.Calm.of nofun nofun nofun rfl)
  | exitCancelWait step => exact held.cancelWait step rfl rfl (PC.Calm.of nofun nofun nofun rfl)
  | exitWorkersDone step => exact waits step rfl rfl (PC.Calm.of nofun nofun nofun rfl)
  | exitSignals step => exact held.exitSignals step
  | exitNotify step => exact held.exitNotify step
  | workerSeesExit step => exact held.workerSeesExit step
  | workerExit step => exact held.workerExit step
  | sqCancel step =>
    obtain ⟨here, rfl⟩ := step
    exact held.starts here rfl rfl (PC.Calm.of nofun nofun nofun rfl)
  | sqCancelWait step => exact held.cancelWait step rfl rfl (PC.Calm.of nofun nofun nofun rfl)
  | sqWorkersDone step => exact waits step rfl rfl (PC.Calm.of nofun nofun nofun rfl)
  | createWorker step => exact held.createWorker step
  | retryFires step => exact held.retryFires step
  | execCancelWait step => exact held.cancelWait step rfl rfl (PC.Calm.of nofun nofun nofun rfl)
  | execWorkersDone step => exact waits step rfl rfl (PC.Calm.of nofun nofun nofun rfl)
  | deThread step => exact held.deThread step
  | deThreadDone step => exact held.deThreadDone step
  | deThreadKilled step =>
    obtain ⟨here, -, rfl⟩ := step
    have moved : Teardown cfg (s.set t { s.thread t with pc := .run }) :=
      held.goes here rfl rfl (PC.Calm.of nofun nofun nofun rfl)
    exact moved.frame ..
  | execPost step =>
    obtain ⟨here, rfl⟩ := step
    split
    · exact held.starts here rfl rfl (PC.Calm.of nofun nofun nofun rfl)
    · exact held.goes here rfl rfl (PC.Calm.of nofun nofun nofun rfl)
  | execLateWait step => exact held.cancelWait step rfl rfl (PC.Calm.of nofun nofun nofun rfl)
  | execLateDone step => exact waits step rfl rfl (PC.Calm.of nofun nofun nofun rfl)

theorem teardown_invariant (wf : cfg.WellFormed) (fixed : cfg.Fixed) : (spec cfg).Invariant (Teardown cfg) := by
  refine (inv_invariant wf fixed).relative (fun s start => Teardown.init wf start) fun s s' inv _ held step => ?_
  obtain env | ⟨t, own⟩ := step
  · exact held.env fixed env
  · exact held.thread fixed inv own

end LinuxTla.Coredump
