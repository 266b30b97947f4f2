import LinuxTla.Lib.Fairness

/-! `IoWqExitBit.tla`: the owner of an io-wq sets the exit bit and cancels queued worker
creations while a worker queues one. The set_bit() sits in a store buffer unless a barrier
follows it. `none` says that an action is not enabled. -/

namespace LinuxTla.IoWqExitBit

open Lib System

inductive Creator
  | check1 | add | check2 | done
deriving DecidableEq, Repr

inductive Exiter
  | set | cancel | wait | done
deriving DecidableEq, Repr

structure State where
  exitVisible : Bool
  exitBuffered : Bool
  queued : Bool
  creator : Creator
  exiter : Exiter

inductive Action
  | flush | exiterSet | exiterCancel | exiterWait | creatorCheck1 | creatorAdd | creatorCheck2
deriving DecidableEq, Repr

variable (fixBarrier : Bool) (s : State)

/-- The store buffer drains. -/
def flush : Option State :=
  if s.exitBuffered = true then some { s with exitVisible := true, exitBuffered := false } else none

/-- io_wq_exit_start() -/
def exiterSet : Option State :=
  if s.exiter = .set then
    some (if fixBarrier then { s with exitVisible := true, exitBuffered := false, exiter := .cancel }
      else { s with exitBuffered := true, exiter := .cancel })
  else none

/-- io_wq_cancel_tw_create() -/
def exiterCancel : Option State := if s.exiter = .cancel then some { s with queued := false, exiter := .wait } else none

/-- wait_for_completion(&wq->worker_done): a queued creation holds a reference. -/
def exiterWait : Option State := if s.exiter = .wait ∧ s.queued = false then some { s with exiter := .done } else none

/-- "raced with exit, just ignore create call" -/
def creatorCheck1 : Option State :=
  if s.creator = .check1 then some { s with creator := if s.exitVisible then .done else .add } else none

/-- task_work_add() -/
def creatorAdd : Option State := if s.creator = .add then some { s with queued := true, creator := .check2 } else none

/-- "EXIT may have been set after checking it above, check after adding" -/
def creatorCheck2 : Option State :=
  if s.creator = .check2 then some { s with queued := if s.exitVisible then false else s.queued, creator := .done } else none

def perform : Action → Option State
  | .flush => flush s
  | .exiterSet => exiterSet fixBarrier s
  | .exiterCancel => exiterCancel s
  | .exiterWait => exiterWait s
  | .creatorCheck1 => creatorCheck1 s
  | .creatorAdd => creatorAdd s
  | .creatorCheck2 => creatorCheck2 s

def init : State := ⟨false, false, false, .check1, .set⟩

def spec : System State := ⟨fun s => s = init, fun s t => ∃ action, perform fixBarrier s action = some t⟩

/-- Once both sides ran, nothing is still queued while the exiter waits. -/
def NoStrandedCreate : Prop := s.exiter = .wait ∧ s.creator = .done ∧ s.exitBuffered = false → s.queued = false

/-- The exiter gets out of io_wq_exit_workers() in every fair behaviour. -/
def ExiterFinishes : Prop :=
  ∀ states, (spec fixBarrier).Behaviour states → (∀ action, WeaklyFair (fun s t => perform fixBarrier s action = some t) states) →
    ∃ n, (states n).exiter = .done

variable {fixBarrier : Bool} {s : State} {t : State}

/-! ### Every step uses something up -/

def Creator.left : Creator → ℕ
  | .check1 => 3
  | .add => 2
  | .check2 => 1
  | .done => 0

def Exiter.left : Exiter → ℕ
  | .set => 4
  | .cancel => 2
  | .wait => 1
  | .done => 0

/-- The set bit may have to be flushed. -/
def State.left (s : State) : ℕ := s.creator.left + s.exiter.left + s.exitBuffered.toNat

theorem perform_lowers {action : Action} (done : perform fixBarrier s action = some t) : t.left < s.left := by
  cases action with
  | flush =>
    obtain ⟨buffered, same⟩ := Option.ite_none_right_eq_some.mp done
    obtain rfl := Option.some.inj same
    simp [State.left, buffered]
  | exiterSet =>
    obtain ⟨here, same⟩ := Option.ite_none_right_eq_some.mp done
    obtain rfl := Option.some.inj same
    split
    next =>
      simp only [State.left, here, Exiter.left, Bool.toNat_false]
      omega
    next =>
      simp only [State.left, here, Exiter.left, Bool.toNat_true]
      omega
  | exiterCancel | exiterWait | creatorAdd | creatorCheck2 =>
    obtain ⟨here, same⟩ := Option.ite_none_right_eq_some.mp done
    obtain rfl := Option.some.inj same
    simp [State.left, here, Exiter.left, Creator.left]
  | creatorCheck1 =>
    obtain ⟨here, same⟩ := Option.ite_none_right_eq_some.mp done
    obtain rfl := Option.some.inj same
    cases s.exitVisible with
    | true => simp [State.left, here, Creator.left]
    | false => simp [State.left, here, Creator.left]

/-! ### With the barrier -/

/-- The bit is seen as soon as it is set, and who queues after that looks again. -/
structure Ordered (s : State) : Prop where
  flushed : s.exitBuffered = false
  visible : s.exiter ≠ .set → s.exitVisible = true
  queued : s.queued = true → s.creator = .check2 ∨ s.creator = .done ∧ (s.exiter = .set ∨ s.exiter = .cancel)

theorem Ordered.perform {action : Action} (ordered : Ordered s) (done : perform true s action = some t) : Ordered t := by
  obtain ⟨flushed, visible, queued⟩ := ordered
  cases action with
  | flush => cases flushed.symm.trans (Option.ite_none_right_eq_some.mp done).1
  | exiterSet =>
    obtain ⟨here, same⟩ := Option.ite_none_right_eq_some.mp done
    obtain rfl := Option.some.inj same
    exact ⟨rfl, fun _ => rfl, fun held => (queued held).imp_right fun ended => ⟨ended.1, .inr rfl⟩⟩
  | exiterCancel =>
    obtain ⟨here, same⟩ := Option.ite_none_right_eq_some.mp done
    obtain rfl := Option.some.inj same
    exact ⟨flushed, fun _ => visible (by rw [here]; decide), fun held => Bool.noConfusion held⟩
  | exiterWait =>
    obtain ⟨here, same⟩ := Option.ite_none_right_eq_some.mp done
    obtain rfl := Option.some.inj same
    exact ⟨flushed, fun _ => visible (by rw [here.1]; decide), fun held => Bool.noConfusion (here.2.symm.trans held)⟩
  | creatorCheck1 =>
    obtain ⟨here, same⟩ := Option.ite_none_right_eq_some.mp done
    obtain rfl := Option.some.inj same
    refine ⟨flushed, visible, fun held => ?_⟩
    obtain later | later := queued held
    · cases here.symm.trans later
    · cases here.symm.trans later.1
  | creatorAdd =>
    obtain ⟨here, same⟩ := Option.ite_none_right_eq_some.mp done
    obtain rfl := Option.some.inj same
    exact ⟨flushed, visible, fun _ => .inl rfl⟩
  | creatorCheck2 =>
    obtain ⟨here, same⟩ := Option.ite_none_right_eq_some.mp done
    obtain rfl := Option.some.inj same
    refine ⟨flushed, visible, fun held => .inr ⟨rfl, .inl ?_⟩⟩
    by_contra set
    change (if s.exitVisible = true then false else s.queued) = true at held
    rw [if_pos (visible set)] at held
    cases held

theorem ordered_invariant : (spec true).Invariant Ordered := by
  apply System.Invariant.of_step
  · rintro s rfl
    exact ⟨rfl, fun set => absurd rfl set, fun held => Bool.noConfusion held⟩
  · rintro s t ordered ⟨action, done⟩
    exact ordered.perform done

theorem Ordered.settled (ordered : Ordered s) (ended : s.creator = .done) (set : s.exiter ≠ .set) (cancel : s.exiter ≠ .cancel) :
    s.queued = false := by
  refine Bool.eq_false_of_not_eq_true fun held => ?_
  obtain later | later := ordered.queued held
  · cases ended.symm.trans later
  · exact later.2.elim set cancel

/-- Where no action is possible both sides are done, or a creation is stranded. -/
theorem idle_cases (idle : ∀ action, ¬ ∃ t, perform fixBarrier s action = some t) :
    s.creator = .done ∧ s.exitBuffered = false ∧ (s.exiter = .done ∨ s.exiter = .wait ∧ s.queued = true) := by
  have flushed : s.exitBuffered = false := Bool.eq_false_of_not_eq_true fun held => idle .flush ⟨_, if_pos held⟩
  have ended : s.creator = .done := by
    cases here : s.creator with
    | check1 => exact absurd ⟨_, if_pos here⟩ (idle .creatorCheck1)
    | add => exact absurd ⟨_, if_pos here⟩ (idle .creatorAdd)
    | check2 => exact absurd ⟨_, if_pos here⟩ (idle .creatorCheck2)
    | done => rfl
  refine ⟨ended, flushed, ?_⟩
  cases here : s.exiter with
  | set => exact absurd ⟨_, if_pos here⟩ (idle .exiterSet)
  | cancel => exact absurd ⟨_, if_pos here⟩ (idle .exiterCancel)
  | wait => exact .inr ⟨rfl, Bool.eq_true_of_not_eq_false fun free => idle .exiterWait ⟨_, if_pos ⟨here, free⟩⟩⟩
  | done => exact .inl rfl

/-! ### Without it -/

/-- Both looks at the bit miss it, and the cancel comes before the creation. -/
theorem stranded : (spec false).Reachable ⟨true, false, true, .done, .wait⟩ := by
  have first : (spec false).Reachable init := .init rfl
  have run := first.next ⟨.exiterSet, rfl⟩
  have run := run.next ⟨.exiterCancel, rfl⟩
  have run := run.next ⟨.creatorCheck1, rfl⟩
  have run := run.next ⟨.creatorAdd, rfl⟩
  have run := run.next ⟨.creatorCheck2, rfl⟩
  exact run.next ⟨.flush, rfl⟩

theorem done_stays {action : Action} (ended : s.exiter = .done) (done : perform fixBarrier s action = some t) : t.exiter = .done := by
  cases action with
  | exiterSet | exiterCancel => cases ended.symm.trans (Option.ite_none_right_eq_some.mp done).1
  | exiterWait => cases ended.symm.trans (Option.ite_none_right_eq_some.mp done).1.1
  | flush | creatorCheck1 | creatorAdd | creatorCheck2 =>
    obtain ⟨_, same⟩ := Option.ite_none_right_eq_some.mp done
    obtain rfl := Option.some.inj same
    exact ended

theorem finishes_iff : ExiterFinishes fixBarrier ↔ ∀ s, (spec fixBarrier).Reachable s →
    (∀ action, ¬ ∃ t, perform fixBarrier s action = some t) → s.exiter = .done := by
  have acts (action : Action) (s t : State) (done : perform fixBarrier s action = some t) : (spec fixBarrier).next s t := ⟨action, done⟩
  have lowers (s t : State) (_ : (spec fixBarrier).Reachable s) (step : (spec fixBarrier).next s t) : t.left < s.left :=
    step.elim fun _ done => perform_lowers done
  have stays (s t : State) (ended : s.exiter = .done) (step : (spec fixBarrier).next s t) : t.exiter = .done :=
    step.elim fun _ done => done_stays ended done
  exact System.completes_iff acts State.left lowers (fun s => s.exiter = .done) stays

/-- The barrier is exactly what keeps a creation from being stranded, and what lets the owner
out of io_wq_exit_workers() in every fair behaviour. -/
theorem barrier_needed :
    ((spec fixBarrier).Invariant NoStrandedCreate ↔ fixBarrier = true) ∧ (ExiterFinishes fixBarrier ↔ fixBarrier = true) := by
  rw [finishes_iff]
  cases fixBarrier with
  | true =>
    refine ⟨iff_of_true (ordered_invariant.mono fun s ordered ends => ?_) rfl, iff_of_true (fun s reached idle => ?_) rfl⟩
    · exact ordered.settled ends.2.1 (by rw [ends.1]; decide) (by rw [ends.1]; decide)
    · obtain ⟨ended, _, done | ⟨wait, held⟩⟩ := idle_cases idle
      · exact done
      · have free := (ordered_invariant s reached).settled ended (by rw [wait]; decide) (by rw [wait]; decide)
        cases free.symm.trans held
  | false =>
    refine ⟨iff_of_false (fun safe => ?_) Bool.noConfusion, iff_of_false (fun finishes => ?_) Bool.noConfusion⟩
    · cases safe _ stranded ⟨rfl, rfl, rfl⟩
    · have ended := finishes _ stranded fun action => ?_
      · cases ended
      · rintro ⟨t, done⟩
        cases action <;> cases done

end LinuxTla.IoWqExitBit
