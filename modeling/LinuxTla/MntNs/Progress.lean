import LinuxTla.Lib.Fairness
import LinuxTla.MntNs.Safety

/-! The namespace does not leak: nothing ever waits for something that will not happen, every
step does some of the work, and what is left when all of it is done has been freed. -/

namespace LinuxTla.MntNs

open Lib

variable {cfg : Config} {s after : State} {t : Task} {l : Label} {states : ℕ → State}

/-- `Next`, but for the stutter at the end. -/
def Moves (cfg : Config) (s after : State) : Prop := Next cfg s after ∧ after ≠ s

theorem Settled.stays (all : Settled s) (step : Next cfg s after) : after = s := by
  obtain ⟨done, gp, inode⟩ := all
  have other {t : Task} {l : Label} (here : s.pc t = l) (busy : l ≠ .done) : False := busy (here.symm.trans (done t))
  cases step with
  | t step =>
    cases step with
    | exit here | exitRefFirst here | ref here | activeLate here => exact (other here (by decide)).elim
  | f step =>
    cases step with
    | opens here | gone here | stash here | close here => exact (other here (by decide)).elim
  | l step =>
    cases step with
    | find here | get here | getNot here | miss here | unlock here | put here | unlockLate here =>
      exact (other here (by decide)).elim
  | q step =>
    cases step with
    | find here | get here | getNot here | miss here | opens here | close here => exact (other here (by decide)).elim
  | s step =>
    cases step with
    | find here | get here | miss here | sem here | work here | release here => exact (other here (by decide)).elim
  | evict step =>
    cases step with
    | active present | refFirst present => exact Bool.noConfusion (inode.symm.trans present)
    | ref here | activeLate here => exact (other here (by decide)).elim
  | rcuRelease step => exact Bool.noConfusion (gp.symm.trans step.1)
  | teardown step =>
    cases step with
    | nsem here | tree here | treeLater here | rcu here | rcuNow here | rcuFirst here | treeLate here =>
      exact (other here (by decide)).elim
  | settled => rfl

/-- In the end the initial passive reference has been dropped, and it was the last. -/
theorem Inv.reaped (inv : Inv s) : Reaped s := by
  rintro ⟨done, gp, inode⟩
  have none (f : Label → ℤ) (idle : f .done = 0) : s.count f = 0 := by
    refine Finset.sum_eq_zero fun t _ => ?_
    rw [done, idle]
  have stash : s.stash = 0 := by
    rw [State.stash, inode, done]
    rfl
  have dead : s.ref = 0 := by rw [inv.books.refs, none _ rfl, stash, add_zero]
  have initial : s.initial = 0 := by
    rw [State.initial, State.referenced, dead, none _ rfl, gp]
    rfl
  exact inv.books.freed.mpr (by rw [inv.books.passive, initial, none _ rfl, add_zero])

/-- A label is met at its own task. -/
theorem Inv.home (inv : Inv s) {t u : Task} (here : s.pc t = l) (sole : ∀ t, l.of t = true → t = u) : s.pc u = l := by
  have own := (inv.tasks t).own
  rw [here] at own
  rw [← sole t own, here]

/-- Some step is possible until everything is over: whoever waits for the semaphore finds it free
in the end, and the callback finds its readers gone. -/
theorem Inv.settled (fixed : cfg.Fixed) (inv : Inv s) (stuck : ∀ after, ¬ Moves cfg s after) : Settled s := by
  have no {after : State} (step : Next cfg s after) : Settled s := by
    obtain ⟨-, all⟩ | forward := step.forward fixed inv
    · exact all
    · refine absurd ⟨step, ?_⟩ (stuck after)
      rintro rfl
      exact absurd forward.less (lt_irrefl _)
  by_contra going
  have idle {after : State} (step : Next cfg s after) : False := going (no step)
  have untorn (t : Task) : s.pc t ≠ .tdTree ∧ s.pc t ≠ .tdRcu :=
    ⟨fun here => idle (.teardown (.tree here fixed.treeFirst)), fun here => idle (.teardown (.rcu here fixed.passiveRcu))⟩
  have nsem : s.nsem = none := by
    cases holder : s.nsem with
    | none => rfl
    | some t => exact absurd ((inv.tasks t).sem.mp holder) (untorn t).1
  have reads (t : Task) : t ∉ s.nsreaders := by
    intro inside
    have here := (inv.tasks t).reader.mp inside
    have own := (inv.tasks t).own
    rw [here] at own
    have statmount : t = .S := of_decide_eq_true own
    exact idle (.s (.work (statmount ▸ here)))
  have free : s.NsFree := ⟨nsem, Finset.eq_empty_of_forall_notMem reads⟩
  have done (t : Task) : s.pc t = .done := by
    cases here : s.pc t with
    | done => rfl
    | tdNsem => exact (idle (.teardown (.nsem here free))).elim
    | tdTree => exact absurd here (untorn t).1
    | tdRcu => exact absurd here (untorn t).2
    | tActive | evActive | lUnlockLate | tdRcuFirst | tdTreeLate => exact (inv.not_mutated here fun _ => rfl).elim
    | tRun => exact (idle (.t (.exit (inv.home here (by decide)) fixed.activeFirst))).elim
    | tRef => exact (idle (.t (.ref (inv.home here (by decide))))).elim
    | fOpen =>
      have home := inv.home (u := .F) here (by decide)
      by_cases lives : s.pc .T = .tRun
      · exact (idle (.f (.opens home lives))).elim
      · exact (idle (.f (.gone home lives))).elim
    | fStash => exact (idle (.f (.stash (inv.home here (by decide))))).elim
    | fClose => exact (idle (.f (.close (inv.home here (by decide))))).elim
    | lLookup => exact (idle (.l (.find (inv.home here (by decide))))).elim
    | lGet =>
      have home := inv.home (u := .L) here (by decide)
      by_cases gets : Gets cfg s
      · exact (idle (.l (.get home gets))).elim
      · exact (idle (.l (.getNot home gets))).elim
    | lMiss => exact (idle (.l (.miss (inv.home here (by decide))))).elim
    | lUnlock => exact (idle (.l (.unlock (inv.home here (by decide))))).elim
    | lPut => exact (idle (.l (.put (inv.home here (by decide))))).elim
    | qLookup => exact (idle (.q (.find (inv.home here (by decide))))).elim
    | qGet =>
      have home := inv.home (u := .Q) here (by decide)
      by_cases referenced : 0 < s.ref
      · exact (idle (.q (.get home referenced))).elim
      · exact (idle (.q (.getNot home referenced))).elim
    | qMiss => exact (idle (.q (.miss (inv.home here (by decide))))).elim
    | qOpen => exact (idle (.q (.opens (inv.home here (by decide))))).elim
    | qClose => exact (idle (.q (.close (inv.home here (by decide))))).elim
    | sLookup => exact (idle (.s (.find (inv.home here (by decide))))).elim
    | sGet => exact (idle (.s (.get (inv.home here (by decide))))).elim
    | sMiss => exact (idle (.s (.miss (inv.home here (by decide))))).elim
    | sSem => exact (idle (.s (.sem (inv.home here (by decide)) nsem))).elim
    | sWork => exact (idle (.s (.work (inv.home here (by decide))))).elim
    | sRelease => exact (idle (.s (.release (inv.home here (by decide))))).elim
    | evRef => exact (idle (.evict (.ref (inv.home here (by decide))))).elim
  have unwaited : s.gpWait = ∅ := by
    refine Finset.eq_empty_of_forall_notMem fun t inside => ?_
    have reading := (inv.tasks t).waits inside
    rw [done] at reading
    cases reading
  have closed : s.files = 0 := by
    rw [inv.books.files]
    refine Finset.sum_eq_zero fun t _ => ?_
    rw [place_calm (by rw [done]; rfl), done]
    rfl
  refine going ⟨done, ?_, ?_⟩
  · by_contra on
    exact idle (.rcuRelease ⟨Bool.eq_true_of_not_eq_false on, unwaited, rfl⟩)
  · by_contra present
    exact idle (.evict (.active (Bool.eq_true_of_not_eq_false present) closed (done .S) fixed.evictFirst))

theorem Inv.work_nonneg (inv : Inv s) : 0 ≤ s.work := by
  have ranks : 0 ≤ ∑ t, (s.place t).rank := Finset.sum_nonneg fun _ _ => Label.rank_nonneg _
  have stages := count_nonneg (s := s) Label.stage_nonneg
  have stash := inv.books.stash_nonneg
  have gp : 0 ≤ s.gpOn.toInt := by cases s.gpOn <;> decide
  have referenced : 0 ≤ s.referenced := by
    rw [State.referenced]
    split <;> decide
  rw [State.work]
  omega

/-- `Reaped`, and it comes to that: as long as some step that can be taken is taken, everything is
over in the end, and the namespace is freed. -/
theorem namespace_reaped (fixed : cfg.Fixed) : (spec cfg).Invariant Reaped ∧
    ∀ states, (spec cfg).Behaviour states → System.WeaklyFair (Moves cfg) states →
      ∃ n, ∀ m, n ≤ m → Settled (states m) ∧ (states m).freed = true := by
  refine ⟨(invariant fixed).mono fun s inv => inv.reaped, fun states behaviour fair => ?_⟩
  have inv (n : ℕ) : Inv (states n) := invariant fixed _ (behaviour.reachable n)
  obtain ⟨n, rests⟩ := behaviour.rests (fun s => s.work.toNat) fun s after reached step => by
    have before := invariant fixed s reached
    obtain ⟨same, -⟩ | forward := step.forward fixed before
    · exact .inl same
    · have := forward.less
      have := forward.inv.work_nonneg
      exact .inr (by omega)
  have settled := (inv n).settled fixed fun after moves =>
    fair.disabled (fun _ moves => moves.2) rests ⟨after, moves⟩
  exact ⟨n, fun m later => by
    rw [rests m later]
    exact ⟨settled, (inv n).reaped settled⟩⟩

section Parting

/-- The task leaves, the callback runs, and everybody else comes too late. -/
def partingSteps : List (State → State) := [
  fun s => (s.activePut merged).go .T .tRef,
  fun s => s.refPut .T .done,
  fun s => { s with nsem := some .T, bad := flag s.bad (0 < s.active) .activeWithoutRef }.go .T .tdTree,
  fun s => { s with mounts := false, nsem := none, inum := false, intree := false }.go .T .tdRcu,
  fun s => { s with gpOn := true, gpWait := s.readers }.go .T (s.ret .T),
  fun s => { s with gpOn := false, gpWait := ∅, passive := s.passive - 1, freed := decide (s.passive = 1) },
  fun s => s.go .F .done,
  fun s => (s.rcuIn .L).go .L (if s.intree then .lGet else .lMiss),
  fun s => (s.rcuOut .L).go .L .done,
  fun s => (s.rcuIn .Q).go .Q (if s.intree then .qGet else .qMiss),
  fun s => (s.rcuOut .Q).go .Q .done,
  fun s => (s.rcuIn .S).go .S (if s.intree then .sGet else .sMiss),
  fun s => (s.rcuOut .S).go .S .done]

def parting (n : ℕ) : State := (partingSteps.take n).foldl (fun s step => step s) init

theorem parting_run : (spec merged).Run 13 parting where
  start := rfl
  next i inside := by
    match i, inside with
    | 0, _ => exact .t (TaskT.exit (s := parting 0) rfl rfl)
    | 1, _ => exact .t (TaskT.ref (s := parting 1) rfl)
    | 2, _ => exact .teardown (Teardown.nsem (s := parting 2) rfl ⟨rfl, rfl⟩)
    | 3, _ => exact .teardown (Teardown.tree (s := parting 3) (t := .T) rfl rfl)
    | 4, _ => exact .teardown (Teardown.rcu (s := parting 4) (t := .T) rfl rfl)
    | 5, _ => exact .rcuRelease ⟨rfl, by decide, rfl⟩
    | 6, _ => exact .f (TaskF.gone (s := parting 6) rfl (by decide))
    | 7, _ => exact .l (TaskL.find (s := parting 7) rfl)
    | 8, _ => exact .l (TaskL.miss (s := parting 8) rfl)
    | 9, _ => exact .q (TaskQ.find (s := parting 9) rfl)
    | 10, _ => exact .q (TaskQ.miss (s := parting 10) rfl)
    | 11, _ => exact .s (TaskS.find (s := parting 11) rfl)
    | 12, _ => exact .s (TaskS.miss (s := parting 12) rfl)

theorem parting_over : Settled (parting 13) :=
  ⟨fun t => by cases t <;> rfl, rfl, rfl⟩

theorem parting_reaped : ∃ n, ∀ m, n ≤ m →
    Settled (System.halted 13 parting m) ∧ (System.halted 13 parting m).freed = true :=
  (namespace_reaped merged_fixed).2 _ parting_run.behaviour
    (System.fair_halted fun ⟨_, step, moves⟩ => moves (parting_over.stays step))

end Parting

end LinuxTla.MntNs
