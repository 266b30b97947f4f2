import LinuxTla.Coredump.Dump
import LinuxTla.Coredump.Teardown
import Mathlib.Algebra.BigOperators.Group.Finset.Basic
import Mathlib.Algebra.Order.BigOperators.Group.Finset
import Mathlib.Data.Prod.Lex

/-! A dying group dies. Every step of its threads lowers a measure, and when none
is left to take, nobody is left to take it. -/

namespace LinuxTla.Coredump

open Lib

variable {T : Type} [DecidableEq T] [Fintype T] {cfg : Config T} {s s' : State T} {t : T}

/-! ### The measure -/

/-- How far a thread is from its end, the execve() it may be in included. -/
def PC.rank : PC → ℕ
  | .none | .dead => 0
  | .zombie => 1
  | .exitNotify => 2
  | .exitSignals => 3
  | .exitWaitWorkers => 4
  | .exitCancelTw => 5
  | .exitCancel => 6
  | .parked => 7
  | .exitSync => 8
  | .dumpRelease | .sqWaitWorkers | .wqExit => 9
  | .dumpFinish | .sqCancelTw => 10
  | .dumpWrite | .sqCancel => 11
  | .dumpWait | .run => 12
  | .sigwait | .execLateWait => 13
  | .execLateTw => 14
  | .execPost => 15
  | .execWait | .execDethread => 16
  | .execWaitWorkers => 17
  | .execCancelTw => 18

/-- A delayed retry may come back as task work with a notification. -/
def Work.cost {T : Type} : Work T → ℕ
  | .retry => 3
  | _ => 1

def Thread.chores {T : Type} (th : Thread T) : ℕ :=
  ∑ item ∈ th.twq, item.cost + (if th.notify = true then 1 else 0) + (if th.released = true then 0 else 1)

omit [DecidableEq T] in
def ranks (s : State T) : ℕ := ∑ t, (s.thread t).pc.rank

def chores (cfg : Config T) (s : State T) : ℕ :=
  ∑ t, (s.thread t).chores + s.releaseList.card + 3 * s.budget.retry + (cfg.chunks - s.dump.written)

/-- Either somebody gets further, or nobody moves and there is less to do. -/
def Lowers (cfg : Config T) (s s' : State T) : Prop :=
  ranks s' < ranks s ∨ ranks s' = ranks s ∧ chores cfg s' < chores cfg s

theorem sum_set (f : Thread T → ℕ) (s : State T) (t : T) (th : Thread T) :
    ∑ u, f ((s.set t th).thread u) + f (s.thread t) = ∑ u, f (s.thread u) + f th := by
  have rest : ∑ u ∈ Finset.univ.erase t, f ((s.set t th).thread u) = ∑ u ∈ Finset.univ.erase t, f (s.thread u) :=
    Finset.sum_congr rfl fun u member => by rw [State.set_other _ _ (Finset.ne_of_mem_erase member)]
  have before := Finset.add_sum_erase Finset.univ (fun u => f (s.thread u)) (Finset.mem_univ t)
  have after := Finset.add_sum_erase Finset.univ (fun u => f ((s.set t th).thread u)) (Finset.mem_univ t)
  rw [State.set_self] at after
  omega

omit [DecidableEq T] in
theorem ranks_lt (lower : (s'.thread t).pc.rank < (s.thread t).pc.rank)
    (others : ∀ u, u ≠ t → (s'.thread u).pc.rank ≤ (s.thread u).pc.rank) : ranks s' < ranks s := by
  refine Finset.sum_lt_sum (fun u _ => ?_) ⟨t, Finset.mem_univ t, lower⟩
  obtain rfl | different := eq_or_ne u t
  · exact lower.le
  · exact others u different

theorem ranks_set {th : Thread T} (lower : th.pc.rank < (s.thread t).pc.rank) : ranks (s.set t th) < ranks s := by
  have := sum_set (fun th => th.pc.rank) s t th
  unfold ranks
  omega

theorem ranks_stay {th : Thread T} (same : th.pc = (s.thread t).pc) : ranks (s.set t th) = ranks s := by
  have := sum_set (fun th => th.pc.rank) s t th
  rw [same] at this
  unfold ranks
  omega

/-- A thread gets further, whatever else happens to it. -/
theorem Lowers.goes {here : PC} (at_here : (s.thread t).pc = here) {th : Thread T}
    (thread : s'.thread = (s.set t th).thread) (next : PC) (label : th.pc = next) (lower : next.rank < here.rank) :
    Lowers cfg s s' := by
  have less : ranks (s.set t th) < ranks s := ranks_set (by rw [label, at_here]; exact lower)
  have same : ranks s' = ranks (s.set t th) := by
    unfold ranks
    rw [thread]
  exact .inl (same ▸ less)

/-- A thread does one of its chores. -/
theorem Lowers.works {th : Thread T} (thread : s'.thread = (s.set t th).thread) (same : th.pc = (s.thread t).pc)
    (less : th.chores < (s.thread t).chores) (releaseList : s'.releaseList = s.releaseList)
    (budget : s'.budget = s.budget) (dump : s'.dump = s.dump) : Lowers cfg s s' := by
  have sum := sum_set Thread.chores s t th
  refine .inr ⟨?_, ?_⟩
  · have stay : ranks (s.set t th) = ranks s := ranks_stay same
    unfold ranks at stay ⊢
    rw [thread]
    exact stay
  · unfold chores
    rw [thread, releaseList, budget, dump]
    omega

/-! ### The steps of a dying group -/

/-- A dying group's thread only leaves get_signal() for its exit. -/
theorem fatal_dying (cfg : Config T) (dies : s.group.exit = true) (here : (s.thread t).pc = .run) :
    ∃ th, fatal cfg s t .kill = s.set t th ∧ th.pc.rank < (s.thread t).pc.rank := by
  rw [here]
  have leaves : ∃ th, workerLeave cfg (s.set t { s.thread t with flags := insert .signaled (s.thread t).flags }) t =
      s.set t th ∧ th.pc.rank < PC.run.rank := by
    unfold workerLeave
    rw [State.set_set]
    refine ⟨_, rfl, ?_⟩
    simp only
    split <;> decide
  have exits : ∃ th, doGroupExit (s.set t { s.thread t with flags := insert .signaled (s.thread t).flags }) t =
      s.set t th ∧ th.pc.rank < PC.run.rank := by
    refine ⟨_, (if_pos (.inl dies)).trans (State.set_set ..), ?_⟩
    simp only
    decide
  unfold fatal
  simp only
  split
  · exact leaves
  · rw [if_neg (by decide)]
    split
    · exact leaves
    · exact exits

/-- Nobody is woken for a shared signal in a dying group. -/
theorem retarget_dying (fixed : cfg.Fixed) (dies : s.group.exit = true) {which : Finset Sig} :
    Retarget cfg s t which s' ↔ s' = s := by
  have wakes : RetargetWake cfg s t which s' ↔ s' = s := by
    unfold RetargetWake
    simp only
    rw [if_pos (.inl ⟨fixed.retargetGroupExit, dies⟩)]
  unfold Retarget
  split
  · exact wakes
  · exact Iff.rfl

theorem Lowers.getSignal (dies : s.group.exit = true) (step : GetSignal cfg s t s') : Lowers cfg s s' := by
  obtain ⟨here, -, -, -, result⟩ := step
  rw [if_pos (.inl dies)] at result
  obtain ⟨th, same, lower⟩ := fatal_dying cfg (t := t)
    (s := s.set t { s.thread t with
      pending := (s.thread t).pending.erase .kill
      sigpending := recalc s ((s.thread t).pending.erase .kill) s.shared (s.thread t).blocked }) dies
    (by rw [State.set_self]; exact here)
  rw [State.set_self] at lower
  rw [State.set_set] at same
  exact Lowers.goes rfl (by rw [result, same]) _ rfl lower

omit [DecidableEq T] [Fintype T] in
theorem cost_pos (item : Work T) : 0 < item.cost := by
  cases item with
  | worker _ | cont | retry => exact Nat.succ_pos _

/-- A creation is done with, or put off at the price of one retry. -/
theorem Lowers.createWorker (inv : Inv cfg s) (fixed : cfg.Fixed) (dies : s.group.exit = true)
    (step : CreateWorker cfg s t s') : Lowers cfg s s' := by
  obtain ⟨-, point, item, queued, result⟩ := step
  have member : item ∈ (s.thread t).twq := Finset.mem_of_mem_erase queued
  have split := Finset.add_sum_erase (s.thread t).twq Work.cost member
  have price := cost_pos item
  have taken : Lowers cfg s (s.set t { s.thread t with twq := (s.thread t).twq.erase item }) := by
    refine Lowers.works rfl rfl ?_ rfl rfl rfl
    unfold Thread.chores
    simp only
    omega
  obtain ⟨-, -, rfl⟩ | result := result
  · exact taken
  split at result
  · subst result
    exact taken
  next gates =>
    split at result
    · split at result
      next again =>
        subst result
        have budget := again.2
        have sum := sum_set Thread.chores s t
          { s.thread t with twq := insert .retry ((s.thread t).twq.erase item) }
        have more : ∑ work ∈ insert Work.retry ((s.thread t).twq.erase item), work.cost ≤
            3 + ∑ work ∈ (s.thread t).twq.erase item, work.cost := by
          by_cases already : Work.retry ∈ (s.thread t).twq.erase item
          · rw [Finset.insert_eq_of_mem already]
            omega
          · rw [Finset.sum_insert already]
            rfl
        have stay : ranks (s.set t { s.thread t with twq := insert .retry ((s.thread t).twq.erase item) }) =
            ranks s := ranks_stay rfl
        refine .inr ⟨stay, ?_⟩
        unfold chores
        unfold Thread.chores at sum
        unfold Thread.chores
        simp only at sum ⊢
        change _ + s.releaseList.card + 3 * (s.budget.retry - 1) + (cfg.chunks - s.dump.written) < _
        omega
      next =>
        subst result
        exact taken
    next quiet =>
      -- Whoever may create a worker is in a group that lives.
      simp only [fixed.gateSignaled, fixed.gatePostcoredump, true_and, not_or] at gates
      obtain ⟨-, -, lives, -⟩ := inv.creator point gates.1 gates.2 (Bool.eq_false_iff.2 quiet)
      exact nomatch lives.symm.trans dies

theorem Lowers.retryFires (step : RetryFires s t s') : Lowers cfg s s' := by
  obtain ⟨member, result⟩ := step
  have split := Finset.add_sum_erase (s.thread t).twq Work.cost member
  have price : (Work.retry : Work T).cost = 3 := rfl
  split at result
  · subst result
    refine Lowers.works rfl rfl ?_ rfl rfl rfl
    unfold Thread.chores
    simp only
    omega
  · subst result
    refine Lowers.works rfl rfl ?_ rfl rfl rfl
    have more : ∑ work ∈ insert Work.cont ((s.thread t).twq.erase .retry), work.cost ≤
        1 + ∑ work ∈ (s.thread t).twq.erase .retry, work.cost := by
      by_cases already : Work.cont ∈ (s.thread t).twq.erase .retry
      · rw [Finset.insert_eq_of_mem already]
        omega
      · rw [Finset.sum_insert already]
        rfl
    unfold Thread.chores
    simp only [if_true]
    omega

theorem Lowers.deThreadDone (step : DeThreadDone cfg s t s') : Lowers cfg s s' := by
  have cases := step.cases
  refine .inl (ranks_lt (t := t) ?_ fun u different => ?_)
  · obtain ⟨-, thread⟩ | ⟨other, -⟩ | ⟨other, -⟩ := cases t
    · rw [thread, step.1]
      exact Nat.lt_succ_self 15
    · exact absurd rfl other
    · exact absurd rfl other
  · obtain ⟨same, -⟩ | ⟨-, -, -, thread⟩ | ⟨-, -, thread⟩ := cases u
    · exact absurd same different
    · rw [thread]
      exact Nat.zero_le _
    · rw [thread]

theorem Lowers.exitNotify (step : ExitNotify cfg s t s') : Lowers cfg s s' := by
  have here := step.1
  obtain ⟨-, -, rfl⟩ | ⟨-, cases, -⟩ := step.cases
  · exact Lowers.goes here rfl .zombie rfl (by decide)
  refine .inl (ranks_lt (t := t) ?_ fun u different => ?_)
  · obtain ⟨-, thread⟩ | ⟨other, -⟩ | ⟨other, -⟩ := cases t
    · rw [thread, here]
      exact Nat.succ_pos 1
    · exact absurd rfl other
    · exact absurd rfl other
  · obtain ⟨same, -⟩ | ⟨-, -, -, -, thread⟩ | ⟨-, thread⟩ := cases u
    · exact absurd same different
    · rw [thread]
      exact Nat.zero_le _
    · rw [thread]

theorem Lowers.dumpChunk (dump : DumpInv cfg s) (step : DumpChunk cfg s t s') : Lowers cfg s s' := by
  obtain ⟨here, result⟩ := step
  have room := (dump.writing t (by rw [here]; rfl)).written
  have finish {d : Dump} : Lowers cfg s { s.set t { s.thread t with pc := .dumpFinish } with dump := d } :=
    Lowers.goes here rfl .dumpFinish rfl (by decide)
  split at result
  · subst result
    exact finish
  · obtain ⟨-, rfl⟩ | ⟨-, rfl⟩ | ⟨-, rfl⟩ := result
    · exact finish
    · refine .inr ⟨rfl, ?_⟩
      unfold chores
      simp only
      omega
    · exact finish

theorem Lowers.releaseClear {u : T} (step : ReleaseClear s t u s') : Lowers cfg s s' := by
  obtain ⟨-, -, unreleased, rfl⟩ := step
  refine Lowers.works rfl rfl ?_ rfl rfl rfl
  unfold Thread.chores
  simp only [unreleased, if_true]
  rw [if_neg Bool.false_ne_true]
  omega

theorem Lowers.releaseWake {u : T} (step : ReleaseWake s t u s') : Lowers cfg s s' := by
  obtain ⟨-, member, -, rfl⟩ := step
  refine .inr ⟨rfl, ?_⟩
  have fewer := Finset.card_erase_add_one member
  unfold chores
  simp only
  omega

theorem Lowers.handleNotify (step : HandleNotify s t s') : Lowers cfg s s' := by
  obtain ⟨-, told, rfl⟩ := step
  refine Lowers.works rfl rfl ?_ rfl rfl rfl
  unfold Thread.chores
  simp only [told, if_true]
  rw [if_neg Bool.false_ne_true]
  omega

theorem Lowers.workerExit (step : WorkerExit s t s') : Lowers cfg s s' := by
  obtain ⟨here, rfl⟩ := step
  cases (s.thread t).owner with
  | none => exact Lowers.goes here rfl .exitSync rfl (by decide)
  | some o =>
    refine .inl (ranks_lt (t := t) ?_ fun u different => ?_)
    · rw [State.set_self, here]
      exact Nat.lt_succ_self 8
    · rw [State.set_other _ _ different, Option.elim_some]
      obtain rfl | apart := eq_or_ne u o
      · rw [State.set_self]
      · rw [State.set_other _ _ apart]

theorem ThreadStep.lowers (inv : Inv cfg s) (dump : DumpInv cfg s) (fixed : cfg.Fixed)
    (dies : s.group.exit = true) (step : ThreadStep cfg s t s') : Lowers cfg s s' := by
  cases step with
  | getSignal step => exact Lowers.getSignal dies step
  | handleNotify step => exact Lowers.handleNotify step
  | sigWaitWake step =>
    obtain ⟨here, s₁, retarget, rfl⟩ := step
    obtain rfl := (retarget_dying fixed dies).1 retarget
    exact Lowers.goes here rfl .run rfl (by decide)
  | dumpWaitDone step =>
    obtain ⟨here, -, rfl⟩ := step
    exact Lowers.goes here rfl .dumpWrite rfl (by decide)
  | dumpChunk step => exact Lowers.dumpChunk dump step
  | dumpFinish step =>
    obtain ⟨here, rfl⟩ := step
    exact Lowers.goes here rfl .dumpRelease rfl (by decide)
  | releaseClear u step => exact Lowers.releaseClear step
  | releaseWake u step => exact Lowers.releaseWake step
  | releaseDone step =>
    obtain ⟨here, -, result⟩ := step
    have user := user_of_dumping (inv.threads t).suits (by rw [here]; rfl)
    have leaves : doGroupExit { s with rcuReader := false } t =
        { s.set t { s.thread t with pc := .exitSync } with rcuReader := false } := if_pos (.inl dies)
    rw [user, if_neg (by decide), leaves] at result
    subst result
    exact Lowers.goes here rfl .exitSync rfl (by decide)
  | syncGroupExit step =>
    obtain ⟨here, next, done, core', rfl, passed, -⟩ := step.cases
    refine Lowers.goes here rfl next rfl ?_
    obtain rfl | rfl := passed <;> decide
  | unpark step =>
    obtain ⟨here, -, rfl⟩ := step
    exact Lowers.goes here rfl .exitCancel rfl (by decide)
  | exitCancel step =>
    obtain ⟨here, rfl⟩ := step
    split
    · exact Lowers.goes here rfl .exitCancelTw rfl (by decide)
    · exact Lowers.goes here rfl .exitSignals rfl (by decide)
  | exitCancelWait step =>
    obtain ⟨here, rfl⟩ := step
    exact Lowers.goes here rfl .exitWaitWorkers rfl (by decide)
  | exitWorkersDone step =>
    obtain ⟨here, -, rfl⟩ := step
    exact Lowers.goes here rfl .exitSignals rfl (by decide)
  | exitSignals step =>
    obtain ⟨here, s₁, retarget, rfl⟩ := step
    rw [if_pos (.inr (.inl dies))] at retarget
    subst retarget
    exact Lowers.goes here rfl .exitNotify rfl (by decide)
  | exitNotify step => exact Lowers.exitNotify step
  | workerSeesExit step =>
    obtain ⟨-, here, -, rfl⟩ := step
    exact Lowers.goes here rfl .wqExit rfl (by decide)
  | workerExit step => exact Lowers.workerExit step
  | sqCancel step =>
    obtain ⟨here, rfl⟩ := step
    exact Lowers.goes here rfl .sqCancelTw rfl (by decide)
  | sqCancelWait step =>
    obtain ⟨here, rfl⟩ := step
    exact Lowers.goes here rfl .sqWaitWorkers rfl (by decide)
  | sqWorkersDone step =>
    obtain ⟨here, -, rfl⟩ := step
    exact Lowers.goes here rfl .exitSync rfl (by decide)
  | createWorker step => exact Lowers.createWorker inv fixed dies step
  | retryFires step => exact Lowers.retryFires step
  | execCancelWait step =>
    obtain ⟨here, rfl⟩ := step
    exact Lowers.goes here rfl .execWaitWorkers rfl (by decide)
  | execWorkersDone step =>
    obtain ⟨here, -, rfl⟩ := step
    exact Lowers.goes here rfl .execDethread rfl (by decide)
  | deThread step =>
    obtain ⟨here, result⟩ := step
    split at result
    · subst result
      exact Lowers.goes here rfl .execPost rfl (by decide)
    · rw [if_pos (.inl dies)] at result
      subst result
      exact Lowers.goes here rfl .run rfl (by decide)
  | deThreadDone step => exact Lowers.deThreadDone step
  | deThreadKilled step =>
    obtain ⟨here, -, rfl⟩ := step
    exact Lowers.goes here rfl .run rfl (by decide)
  | execPost step =>
    obtain ⟨here, rfl⟩ := step
    split
    · exact Lowers.goes here rfl .execLateTw rfl (by decide)
    · exact Lowers.goes here rfl .run rfl (by decide)
  | execLateWait step =>
    obtain ⟨here, rfl⟩ := step
    exact Lowers.goes here rfl .execLateWait rfl (by decide)
  | execLateDone step =>
    obtain ⟨here, -, rfl⟩ := step
    exact Lowers.goes here rfl .run rfl (by decide)

theorem ThreadStep.dies (fixed : cfg.Fixed) (dies : s.group.exit = true) (step : ThreadStep cfg s t s') :
    s'.group.exit = true := by
  cases step with
  | getSignal step =>
    obtain ⟨here, -, -, -, result⟩ := step
    rw [if_pos (.inl dies)] at result
    obtain ⟨th, same, -⟩ := fatal_dying cfg (t := t)
      (s := s.set t { s.thread t with
        pending := (s.thread t).pending.erase .kill
        sigpending := recalc s ((s.thread t).pending.erase .kill) s.shared (s.thread t).blocked }) dies
      (by rw [State.set_self]; exact here)
    rw [result, same]
    exact dies
  | sigWaitWake step =>
    obtain ⟨-, s₁, retarget, rfl⟩ := step
    obtain rfl := (retarget_dying fixed dies).1 retarget
    exact dies
  | dumpChunk step =>
    obtain ⟨-, result⟩ := step
    split at result
    · rw [result]
      exact dies
    · obtain ⟨-, rfl⟩ | ⟨-, rfl⟩ | ⟨-, rfl⟩ := result <;> exact dies
  | releaseDone step =>
    obtain ⟨-, -, rfl⟩ := step
    split
    · exact dies
    · unfold doGroupExit
      rw [if_pos (.inl dies)]
      exact dies
  | syncGroupExit step =>
    obtain ⟨-, next, done, core', rfl, -⟩ := step.cases
    exact (Bool.or_eq_true_iff ..).2 (.inl dies)
  | exitCancel step =>
    obtain ⟨-, rfl⟩ := step
    split <;> exact dies
  | exitSignals step =>
    obtain ⟨-, s₁, retarget, rfl⟩ := step
    rw [if_pos (.inr (.inl dies))] at retarget
    subst retarget
    exact dies
  | exitNotify step =>
    obtain ⟨-, -, rfl⟩ | ⟨-, -, result⟩ := step.cases
    · exact dies
    · rw [result]
      exact dies
  | workerExit step =>
    obtain ⟨-, rfl⟩ := step
    cases (s.thread t).owner <;> exact dies
  | createWorker step =>
    obtain ⟨-, -, item, -, result⟩ := step
    obtain ⟨-, -, rfl⟩ | result := result
    · exact dies
    split at result
    · rw [result]
      exact dies
    split at result
    · split at result <;> rw [result] <;> exact dies
    · obtain ⟨n, -, -, rfl⟩ | ⟨-, rfl⟩ := result <;> exact dies
  | retryFires step =>
    obtain ⟨-, rfl⟩ := step
    split <;> exact dies
  | deThread step =>
    obtain ⟨-, result⟩ := step
    split at result
    · rw [result]
      exact dies
    · rw [if_pos (.inl dies)] at result
      rw [result]
      exact dies
  | execPost step =>
    obtain ⟨-, rfl⟩ := step
    split <;> exact dies
  | handleNotify step | dumpWaitDone step | unpark step | exitWorkersDone step | sqWorkersDone step
  | execWorkersDone step | deThreadKilled step | execLateDone step =>
    obtain ⟨-, -, rfl⟩ := step
    exact dies
  | dumpFinish step | exitCancelWait step | sqCancel step | sqCancelWait step | execCancelWait step
  | execLateWait step =>
    obtain ⟨-, rfl⟩ := step
    exact dies
  | releaseClear u step | releaseWake u step | workerSeesExit step | deThreadDone step =>
    obtain ⟨-, -, -, rfl⟩ := step
    exact dies

/-! ### Who can move on -/

/-- Where a thread may have to wait for another, or is gone. -/
def PC.waits : PC → Bool
  | .none | .dead | .zombie | .parked | .dumpWait | .execWaitWorkers | .execLateWait | .sqWaitWorkers
  | .exitWaitWorkers => true
  | _ => false

theorem none_of_serves {pc : PC} (waits : pc.waits = true) (serves : pc.serves = true) : pc = .none := by
  revert waits serves
  cases pc <;> decide

theorem dumping_of_waits {pc : PC} (waits : pc.waits = true) (goes : pc.awaits = false) (early : pc.past = false)
    (present : pc ≠ .none) : pc.dumping = true := by
  revert waits goes early present
  cases pc <;> decide

theorem not_attached_of_waits {pc : PC} (waits : pc.waits = true) (through : pc ≠ .dumpWait) :
    pc.attached = false ∧ pc ≠ .dumpRelease := by
  revert waits through
  cases pc <;> decide

theorem gone_of_waits {pc : PC} (waits : pc.waits = true) (goes : pc.awaits = false) (through : pc ≠ .dumpWait)
    (unparked : pc ≠ .parked) : pc = .none ∨ pc = .dead ∨ pc = .zombie := by
  revert waits goes through unparked
  cases pc <;> decide

/-- In a dying group a thread in get_signal() has a step to take. -/
theorem run_moves (inv : Inv cfg s) (down : Teardown cfg s) (dies : s.group.exit = true)
    (here : (s.thread t).pc = .run) : ∃ s', ThreadStep cfg s t s' := by
  have woken : (s.thread t).sigpending = true := ((inv.threads t).doomed (.inl dies) (by rw [here]; rfl)).1
  by_cases told : (s.thread t).notify = true
  · exact ⟨_, .handleNotify ⟨here, told, rfl⟩⟩
  by_cases idle : runnable s t = ∅
  · exact ⟨_, .getSignal ⟨here, woken, Bool.eq_false_iff.2 told, idle, (if_pos (.inl dies)).mpr rfl⟩⟩
  · obtain ⟨item, queued⟩ := Finset.nonempty_iff_ne_empty.2 idle
    have ring : t ∈ cfg.ringOwners :=
      (down.wq t).ring (Finset.ne_empty_of_mem (Finset.mem_of_mem_erase queued))
    have point : (s.thread t).pc.taskWork = true := by rw [here]; rfl
    by_cases gates : cfg.fixGateSignaled = true ∧ Flag.signaled ∈ (s.thread t).flags ∨
        cfg.fixGatePostcoredump = true ∧ Flag.postcoredump ∈ (s.thread t).flags
    · exact ⟨_, .createWorker ⟨ring, point, item, queued, .inr ((if_pos gates).mpr rfl)⟩⟩
    · by_cases again : ¬ FatalPending s t ∧ 0 < s.budget.retry
      · exact ⟨_, .createWorker ⟨ring, point, item, queued,
          .inr ((if_neg gates).mpr ((if_pos woken).mpr ((if_pos again).mpr rfl)))⟩⟩
      · exact ⟨_, .createWorker ⟨ring, point, item, queued,
          .inr ((if_neg gates).mpr ((if_pos woken).mpr ((if_neg again).mpr rfl)))⟩⟩

theorem dumpWrite_moves (dump : DumpInv cfg s) (here : (s.thread t).pc = .dumpWrite) :
    ∃ s', ThreadStep cfg s t s' := by
  have room := (dump.writing t (by rw [here]; rfl)).written
  by_cases cut : DumpInterrupted cfg s t
  · exact ⟨_, .dumpChunk ⟨here, (if_pos cut).mpr rfl⟩⟩
  obtain more | last := Nat.lt_or_eq_of_le (Nat.succ_le_of_lt room)
  · exact ⟨_, .dumpChunk ⟨here, (if_neg cut).mpr (.inr (.inl ⟨more, rfl⟩))⟩⟩
  · exact ⟨_, .dumpChunk ⟨here, (if_neg cut).mpr (.inr (.inr ⟨last, rfl⟩))⟩⟩

theorem dumpRelease_moves (here : (s.thread t).pc = .dumpRelease) : ∃ s', ThreadStep cfg s t s' := by
  obtain none | ⟨u, listed⟩ := s.releaseList.eq_empty_or_nonempty
  · exact ⟨_, .releaseDone ⟨here, none, rfl⟩⟩
  by_cases released : (s.thread u).released = true
  · exact ⟨_, .releaseWake u ⟨here, listed, released, rfl⟩⟩
  · exact ⟨_, .releaseClear u ⟨here, listed, Bool.eq_false_iff.2 released, rfl⟩⟩

/-- Whoever does not wait for another thread has a step to take. -/
theorem moves_on (fixed : cfg.Fixed) (inv : Inv cfg s) (dump : DumpInv cfg s) (down : Teardown cfg s)
    (dies : s.group.exit = true) (busy : (s.thread t).pc.waits = false) : ∃ s', ThreadStep cfg s t s' := by
  cases here : (s.thread t).pc
  case run => exact run_moves inv down dies here
  case sigwait => exact ⟨_, .sigWaitWake ⟨here, s, (retarget_dying fixed dies).2 rfl, rfl⟩⟩
  case dumpWrite => exact dumpWrite_moves dump here
  case dumpFinish => exact ⟨_, .dumpFinish ⟨here, rfl⟩⟩
  case dumpRelease => exact dumpRelease_moves here
  case execCancelTw => exact ⟨_, .execCancelWait ⟨here, rfl⟩⟩
  case execDethread => exact ⟨_, .deThread ⟨here, rfl⟩⟩
  case execWait =>
    have kill := ((inv.threads t).doomed (.inl dies) (by rw [here]; rfl)).2
    exact ⟨_, .deThreadKilled ⟨here, kill, rfl⟩⟩
  case execPost => exact ⟨_, .execPost ⟨here, rfl⟩⟩
  case execLateTw => exact ⟨_, .execLateWait ⟨here, rfl⟩⟩
  case sqCancel => exact ⟨_, .sqCancel ⟨here, rfl⟩⟩
  case sqCancelTw => exact ⟨_, .sqCancelWait ⟨here, rfl⟩⟩
  case wqExit => exact ⟨_, .workerExit ⟨here, rfl⟩⟩
  case exitSync => exact ⟨_, .syncGroupExit ⟨here, rfl⟩⟩
  case exitCancel => exact ⟨_, .exitCancel ⟨here, rfl⟩⟩
  case exitCancelTw => exact ⟨_, .exitCancelWait ⟨here, rfl⟩⟩
  case exitSignals => exact ⟨_, .exitSignals ⟨here, s, (if_pos (.inr (.inl dies))).mpr rfl, rfl⟩⟩
  case exitNotify => exact ⟨_, .exitNotify ⟨here, rfl⟩⟩
  all_goals
    rw [here] at busy
    exact nomatch busy

/-! ### Who waits for whom -/

section Stuck

variable (fixed : cfg.Fixed) (inv : Inv cfg s) (dump : DumpInv cfg s) (down : Teardown cfg s)
  (dies : s.group.exit = true) (stuck : ∀ s', ¬ Advance cfg s s')

include fixed inv dump down dies stuck

/-- When nobody can take a step, everybody is gone or waits. -/
theorem all_wait (t : T) : (s.thread t).pc.waits = true := by
  by_contra busy
  obtain ⟨s', step⟩ := moves_on fixed inv dump down dies (Bool.eq_false_iff.2 busy)
  exact stuck s' ⟨t, step⟩

/-- The workers of a ring owner have dropped their references by then, and no
creation is left. -/
theorem workersDone (awaits : (s.thread t).pc.awaits = true) : WorkersDone cfg s t := by
  constructor
  · rintro w ⟨ioWq, -⟩ ⟨-, present, holds⟩
    have waits := all_wait fixed inv dump down dies stuck w
    obtain serves | dropped := (down.wq w).refput ioWq
    · exact present (none_of_serves waits serves)
    · exact Bool.false_ne_true (holds.symm.trans dropped)
  · by_contra some
    obtain ⟨item, queued⟩ := Finset.nonempty_iff_ne_empty.2 some
    have retry := Finset.mem_singleton.1 ((down.wq t).empties awaits queued)
    rw [retry] at queued
    exact stuck _ ⟨t, .retryFires ⟨queued, rfl⟩⟩

/-- So no ring owner waits for its workers. -/
theorem none_awaits (t : T) : (s.thread t).pc.awaits = false := by
  refine Bool.eq_false_iff.2 fun awaits => ?_
  have done := workersDone fixed inv dump down dies stuck awaits
  cases here : (s.thread t).pc
  case execWaitWorkers => exact stuck _ ⟨t, .execWorkersDone ⟨here, done, rfl⟩⟩
  case execLateWait => exact stuck _ ⟨t, .execLateDone ⟨here, done, rfl⟩⟩
  case sqWaitWorkers => exact stuck _ ⟨t, .sqWorkersDone ⟨here, done, rfl⟩⟩
  case exitWaitWorkers => exact stuck _ ⟨t, .exitWorkersDone ⟨here, done, rfl⟩⟩
  all_goals
    rw [here] at awaits
    exact nomatch awaits

theorem none_dumpWait (t : T) : (s.thread t).pc ≠ .dumpWait := by
  intro here
  have dumps : (s.thread t).pc.dumping = true := by rw [here]; rfl
  obtain ⟨dumper, pc⟩ := inv.dumper dumps
  have active : s.core.active = true := inv.active.2 (by rw [pc, here]; rfl)
  have outstanding : s.core.remaining ≠ 0 := fun zero => stuck _ ⟨t, .dumpWaitDone ⟨here, zero, rfl⟩⟩
  rw [inv.remaining active] at outstanding
  obtain ⟨u, member⟩ := Finset.card_pos.1 (Nat.pos_of_ne_zero fun zero => outstanding (by rw [zero]; rfl))
  obtain ⟨counted, undone⟩ := Finset.mem_filter.1 member
  have held := inv.threads u
  obtain ⟨present, other⟩ := held.counted counted
  have waits := all_wait fixed inv dump down dies stuck u
  have goes := none_awaits fixed inv dump down dies stuck u
  have early : (s.thread u).pc.past = false := by
    refine Bool.eq_false_iff.2 fun past => ?_
    exact Bool.false_ne_true (undone.symm.trans (held.decremented.2 ⟨counted, past⟩))
  exact other (held.dumping (dumping_of_waits waits goes early present))

theorem none_parked (t : T) : (s.thread t).pc ≠ .parked := by
  intro here
  have nobody : (dumperPc s).attached = false ∧ dumperPc s ≠ .dumpRelease := by
    unfold dumperPc
    cases s.dumper with
    | none => exact ⟨rfl, nofun⟩
    | some d =>
      have waits := all_wait fixed inv dump down dies stuck d
      exact not_attached_of_waits waits (none_dumpWait fixed inv dump down dies stuck d)
  obtain released | attached | listed := down.parked t here
  · exact stuck _ ⟨t, .unpark ⟨here, released, rfl⟩⟩
  · exact nomatch nobody.1.symm.trans (inv.active.1 attached.1)
  · exact nobody.2 (down.releases (Finset.ne_empty_of_mem listed))

/-- And a zombie leader would have somebody else to wait for. -/
theorem all_dead : AllDead s := by
  have gone (t : T) : (s.thread t).pc = .none ∨ (s.thread t).pc = .dead ∨ (s.thread t).pc = .zombie := by
    exact gone_of_waits (all_wait fixed inv dump down dies stuck t) (none_awaits fixed inv dump down dies stuck t)
      (none_dumpWait fixed inv dump down dies stuck t) (none_parked fixed inv dump down dies stuck t)
  intro t
  obtain none | dead | zombie := gone t
  · exact .inl none
  · exact .inr dead
  · obtain ⟨leader, u, different, live⟩ := down.zombie t zombie
    obtain none | dead | again := gone u
    · rw [none] at live
      exact nomatch live
    · rw [dead] at live
      exact nomatch live
    · exact absurd ((down.zombie u again).1.trans leader.symm) different

end Stuck

/-- A group that dies, as every group with a running dump does, goes on dying and
cannot do so for ever, and it only stops when everybody is gone. -/
theorem teardown_ends (wf : cfg.WellFormed) (fixed : cfg.Fixed) :
    (spec cfg).Invariant fun s => (Dumping s → s.group.exit = true) ∧
      (s.group.exit = true → ¬ Endless (Advance cfg) s ∧ ((∀ s', ¬ Advance cfg s s') → AllDead s)) := by
  intro s reached
  have inv := inv_invariant wf fixed
  have dump := dumpInv_invariant wf fixed
  refine ⟨fun dumping => (inv s reached).dies fun none => ?_, fun dies => ⟨?_, fun stuck => ?_⟩⟩
  · unfold Dumping dumperPc at dumping
    rw [none] at dumping
    exact nomatch dumping
  · refine not_endless (fun s => toLex (ranks s, chores cfg s))
      (fun s => (spec cfg).Reachable s ∧ s.group.exit = true) ⟨reached, dies⟩ ?_ ?_
    · rintro s s' ⟨reached, dies⟩ ⟨t, step⟩
      exact ⟨reached.next (.inr ⟨t, step⟩), step.dies fixed dies⟩
    · rintro s s' ⟨reached, dies⟩ ⟨t, step⟩
      exact Prod.Lex.toLex_lt_toLex.2 (step.lowers (inv s reached) (dump s reached) fixed dies)
  · exact all_dead fixed (inv s reached) (dump s reached) (teardown_invariant wf fixed s reached) dies stuck

theorem small_ends : ∃ s : State (Fin 3), s.group.exit = true ∧ ¬ Endless (Advance small) s ∧
    ((∀ s', ¬ Advance small s s') → AllDead s) := by
  obtain ⟨s, reached, -, dies⟩ := small_dumping
  exact ⟨s, dies, (teardown_ends small_wellFormed small_fixed s reached).2 dies⟩

end LinuxTla.Coredump
