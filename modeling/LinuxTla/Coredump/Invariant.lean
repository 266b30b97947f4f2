import LinuxTla.Coredump.Threads

/-! The invariant of the group: who is counted, what the counters say, and that an
exec'ing thread past de_thread() is alone. -/

namespace LinuxTla.Coredump

open Lib

variable {T : Type} [DecidableEq T] [Fintype T]

/-- How many threads have yet to pass synchronize_group_exit(). -/
def quickThreads (s : State T) : ℕ := (Finset.univ.filter fun t => (s.thread t).pc.before = true).card

/-- The siblings de_thread() of `e` waits for, the leader apart. -/
def siblings (cfg : Config T) (s : State T) (e : T) : Finset T :=
  Finset.univ.filter fun t => t ≠ e ∧ t ≠ cfg.leader ∧ (s.thread t).pc.live = true

structure Inv (cfg : Config T) (s : State T) : Prop where
  threads : ∀ t, ThreadInv cfg s.view t (s.thread t)
  quick : s.group.quick = quickThreads s
  remaining : CountConsistent s
  rendezvous : ReleasedAfterAllParked s
  active : s.core.active = true ↔ (dumperPc s).attached = true
  started : s.dumper = none → s.counted = ∅
  dies : s.dumper ≠ none → s.group.exit = true
  notifyCount : ∀ e, s.group.exec = some e → e = cfg.leader ∨ (s.thread cfg.leader).pc.live = true →
    s.group.notifyCount = (siblings cfg s e).card
  alone : ∀ e, (s.thread e).pc = .execPost → ∀ t, t ≠ e → (s.thread t).pc.live = false

variable {cfg : Config T} {s s' : State T}

/-- The counts of threads are kept when nobody comes, goes or passes
synchronize_group_exit(), and exec is not started. -/
theorem Inv.of_live (inv : Inv cfg s) (threads : ∀ t, ThreadInv cfg s'.view t (s'.thread t))
    (before : ∀ t, (s'.thread t).pc.before = (s.thread t).pc.before)
    (live : ∀ t, (s'.thread t).pc.live = (s.thread t).pc.live) (dumper : s'.dumper = s.dumper)
    (counted : s'.counted = s.counted) (exit : s.group.exit = true → s'.group.exit = true)
    (quick : s'.group.quick = s.group.quick)
    (exec : ∀ e, s'.group.exec = some e → s.group.exec = some e ∧ s'.group.notifyCount = s.group.notifyCount)
    (meets : CountConsistent s' ∧ ReleasedAfterAllParked s' ∧
      (s'.core.active = true ↔ (dumperPc s').attached = true))
    (alone : ∀ e, (s'.thread e).pc = .execPost → ∀ t, t ≠ e → (s.thread t).pc.live = false) : Inv cfg s' := by
  have same : quickThreads s' = quickThreads s := by
    unfold quickThreads
    refine congrArg Finset.card (Finset.filter_congr fun t _ => ?_)
    rw [before]
  refine ⟨threads, ?_, meets.1, meets.2.1, meets.2.2, ?_, ?_, ?_, ?_⟩
  · rw [same, quick]
    exact inv.quick
  · rw [dumper, counted]
    exact inv.started
  · rw [dumper]
    exact fun some => exit (inv.dies some)
  · intro e executing
    obtain ⟨executing, count⟩ := exec e executing
    rw [count, live cfg.leader]
    intro leader
    rw [inv.notifyCount e executing leader]
    unfold siblings
    refine congrArg _ (congrArg Finset.card (Finset.filter_congr fun t _ => ?_))
    rw [live]
  · intro e posts t different
    rw [live]
    exact alone e posts t different

/-- What every thread does keeps the counts of threads. -/
theorem Inv.of_moves (inv : Inv cfg s) (threads : ∀ t, ThreadInv cfg s'.view t (s'.thread t))
    (moves : ∀ t, (s.thread t).pc.Moves (s'.thread t).pc) (dumper : s'.dumper = s.dumper)
    (counted : s'.counted = s.counted) (exit : s.group.exit = true → s'.group.exit = true)
    (group : s'.group = { s.group with exit := s'.group.exit })
    (meets : CountConsistent s' ∧ ReleasedAfterAllParked s' ∧
      (s'.core.active = true ↔ (dumperPc s').attached = true)) : Inv cfg s' := by
  refine inv.of_live threads (fun t => (moves t).before) (fun t => (moves t).live) dumper counted exit
    (by rw [group]) (fun e executing => ?_) meets fun e posts => inv.alone e ((moves e).posts posts)
  rw [group] at executing ⊢
  exact ⟨executing, rfl⟩

/-- What every thread does keeps the rendezvous. -/
theorem Inv.meets (inv : Inv cfg s) (attached : ∀ t, (s'.thread t).pc.attached = (s.thread t).pc.attached)
    (waits : ∀ t, (s.thread t).pc = .dumpWait → (s'.thread t).pc = .dumpWait)
    (decremented : ∀ t, (s'.thread t).decremented = (s.thread t).decremented)
    (dumper : s'.dumper = s.dumper) (counted : s'.counted = s.counted) (core : s'.core = s.core) :
    CountConsistent s' ∧ ReleasedAfterAllParked s' ∧
      (s'.core.active = true ↔ (dumperPc s').attached = true) := by
  have same : (dumperPc s').attached = (dumperPc s).attached := by
    unfold dumperPc
    rw [dumper]
    cases s.dumper with
    | none => rfl
    | some d => exact attached d
  have left : (s'.counted.filter fun t => (s'.thread t).decremented = false) =
      s.counted.filter fun t => (s.thread t).decremented = false := by
    rw [counted]
    refine Finset.filter_congr fun t _ => ?_
    rw [decremented]
  refine ⟨?_, ?_, ?_⟩
  · unfold CountConsistent
    rw [left, core]
    exact inv.remaining
  · rintro ⟨some, past⟩ t member
    rw [decremented]
    rw [dumper] at some
    rw [counted] at member
    refine inv.rendezvous ⟨some, fun waiting => past ?_⟩ t member
    unfold dumperPc at waiting ⊢
    rw [dumper]
    cases found : s.dumper with
    | none => exact absurd found some
    | some d =>
      rw [found] at waiting
      exact waits d waiting
  · rw [core, same]
    exact inv.active

theorem Inv.of_threads (inv : Inv cfg s) (threads : ∀ t, ThreadInv cfg s'.view t (s'.thread t))
    (glides : ∀ t, (s.thread t).pc.Glides (s'.thread t).pc)
    (decremented : ∀ t, (s'.thread t).decremented = (s.thread t).decremented)
    (dumper : s'.dumper = s.dumper) (counted : s'.counted = s.counted) (core : s'.core = s.core)
    (exit : s.group.exit = true → s'.group.exit = true)
    (group : s'.group = { s.group with exit := s'.group.exit }) : Inv cfg s' := by
  exact inv.of_moves threads (fun t => (glides t).toMoves) dumper counted exit group
    (inv.meets (fun t => (glides t).attached) (fun t => (glides t).waits) decremented dumper counted core)

/-- One thread moves and nothing the counters see changes. -/
theorem Inv.move (inv : Inv cfg s) (t : T) (thread : ∀ u, u ≠ t → s'.thread u = s.thread u)
    (here : ThreadInv cfg s.view t (s'.thread t)) (glides : (s.thread t).pc.Glides (s'.thread t).pc)
    (decremented : (s'.thread t).decremented = (s.thread t).decremented) (view : s'.view = s.view)
    (core : s'.core = s.core) (group : s'.group = s.group) : Inv cfg s' := by
  have dumper : s'.dumper = s.dumper := congrArg View.dumper view
  have counted : s'.counted = s.counted := congrArg View.counted view
  refine inv.of_threads (fun u => ?_) (fun u => ?_) (fun u => ?_) dumper counted core
    (fun exit => group ▸ exit) (by rw [group])
  · rw [view]
    obtain rfl | different := eq_or_ne u t
    · exact here
    · rw [thread u different]
      exact inv.threads u
  · obtain rfl | different := eq_or_ne u t
    · exact glides
    · rw [thread u different]
      exact PC.Glides.refl _
  · obtain rfl | different := eq_or_ne u t
    · exact decremented
    · rw [thread u different]

omit [Fintype T] in
@[simp] theorem State.set_self (s : State T) (t : T) (th : Thread T) : (s.set t th).thread t = th :=
  Function.update_self ..

omit [Fintype T] in
theorem State.set_other (s : State T) {t u : T} (th : Thread T) (different : u ≠ t) :
    (s.set t th).thread u = s.thread u :=
  Function.update_of_ne different ..

omit [Fintype T] in
@[simp] theorem State.set_set (s : State T) (t : T) (th th' : Thread T) : (s.set t th).set t th' = s.set t th' := by
  unfold State.set
  simp only [Function.update_idem]

omit [Fintype T] in
@[simp] theorem State.set_thread (s : State T) (t : T) : s.set t (s.thread t) = s := by
  unfold State.set
  simp only [Function.update_eq_self]

theorem Inv.set (inv : Inv cfg s) (t : T) {th : Thread T} (here : ThreadInv cfg s.view t th)
    (glides : (s.thread t).pc.Glides th.pc) (decremented : th.decremented = (s.thread t).decremented) :
    Inv cfg (s.set t th) := by
  refine inv.move t (fun u different => s.set_other th different) ?_ ?_ ?_ rfl rfl rfl
  · rw [State.set_self]
    exact here
  · rw [State.set_self]
    exact glides
  · rw [State.set_self]
    exact decremented

/-- What the invariant does not look at. -/
theorem Inv.frame (inv : Inv cfg s) (shared : Finset Sig) (releaseList : Finset T) (rcuReader : Bool)
    (dump : Dump) (freeze : Freezer) (hist : Hist) (budget : Budget) :
    Inv cfg { s with shared, releaseList, rcuReader, dump, freeze, hist, budget } :=
  ⟨inv.threads, inv.quick, inv.remaining, inv.rendezvous, inv.active, inv.started, inv.dies,
    inv.notifyCount, inv.alone⟩

end LinuxTla.Coredump
