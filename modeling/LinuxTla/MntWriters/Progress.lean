import LinuxTla.MntWriters.Safety
import LinuxTla.Lib.Fairness

/-! Everybody gets done, with or without the barriers: a writer waits for `WRITE_HOLD`
only, and the holder clears it in the end, whatever it has counted. -/

namespace LinuxTla.MntWriters

open Lib

variable {W : Type} {cfg : Config W} {s after : State W} {w : W} {t : Task W} {states : ℕ → State W}

/-! ### What is left to do -/

/-- What is left of a task: its labels, and a flush for each store it still makes. -/
def Label.left : Label → ℕ
  | .wInc => 7
  | .wMb => 5
  | .wSpin => 4
  | .wCheck => 3
  | .wActive => 2
  | .hLock => 9
  | .hHold => 8
  | .hMb => 6
  | .hSum => 5
  | .hDecide => 4
  | .hRemount => 3
  | .done => 0

/-- The CPUs the holder has not read. -/
def State.unread (cfg : Config W) (s : State W) : ℕ :=
  match s.pc holder with
  | .hLock | .hHold | .hMb => cfg.ncpu + 1
  | .hSum => cfg.ncpu + 1 - s.ci
  | _ => 0

def State.load (s : State W) (t : Task W) : ℕ := (s.pc t).left + (s.mem.buf t).length

def State.work (cfg : Config W) (s : State W) : ℕ := s.unread cfg + ∑ t ∈ cfg.tasks, s.load t

variable [DecidableEq W]

theorem work_lowers (member : t ∈ cfg.tasks) (others : ∀ u, u ≠ t → after.load u = s.load u)
    (less : after.unread cfg + after.load t < s.unread cfg + s.load t) : after.work cfg < s.work cfg := by
  have rest : ∑ u ∈ cfg.tasks.erase t, after.load u = ∑ u ∈ cfg.tasks.erase t, s.load u :=
    Finset.sum_congr rfl fun u other => others u (Finset.ne_of_mem_erase other)
  rw [State.work, State.work, ← Finset.sum_erase_add _ _ member, ← Finset.sum_erase_add _ _ member, rest]
  omega

theorem Write.lowers (step : Write cfg s w after) (member : w ∈ cfg.writers) : after.work cfg < s.work cfg := by
  have frame := step.frame
  have unread : after.unread cfg = s.unread cfg := by
    rw [State.unread, State.unread, frame.pc holder (by simp), frame.ci]
  apply work_lowers (t := writer w) (Finset.some_mem_insertNone.mpr member)
  · exact fun u other => by rw [State.load, State.load, frame.pc u other, frame.buf u other]
  · rw [unread]
    apply Nat.add_lt_add_left
    cases step with
    | inc label | checkReadonly label | put label =>
      simp only [State.load, label, State.setPc_pc, State.setPc_mem, State.push_mem, Function.update_self, Memory.push_buf,
        List.length_append, List.length_singleton, Label.left]
      omega
    | mb label | spin label | check label => simp [State.load, label, Label.left]

theorem Hold.lowers (step : Hold cfg s after) : after.work cfg < s.work cfg := by
  apply work_lowers (t := holder) Finset.none_mem_insertNone
  · intro u other
    obtain ⟨w, rfl⟩ := Option.ne_none_iff_exists'.mp other
    rw [State.load, State.load, (step.writers w).1, (step.writers w).2]
  · cases step with
    | lock label | hold label | decideBusy label | decideMnt label | decideSb label | remount label =>
      simp [State.load, State.unread, label, Label.left]
      try omega
    | mb label =>
      simp [State.load, State.unread, label, Label.left]
      omega
    | sum label more =>
      simp [State.load, State.unread, label]
      omega
    | sumEnd label ended =>
      simp [State.load, State.unread, label, Label.left]
      omega

theorem flush_lowers (member : t ∈ cfg.tasks) (pending : s.mem.buf t ≠ []) :
    State.work cfg { s with mem := s.mem.flush apply t } < s.work cfg := by
  apply work_lowers member
  · exact fun u other => by simp [State.load, other]
  · have some : 0 < (s.mem.buf t).length := List.length_pos_iff.mpr pending
    simp only [State.load, State.unread, Memory.flush_buf, List.length_tail]
    omega

/-- Every step but the one of a settled system costs something. -/
theorem Next.lowers (step : Next cfg s after) : after = s ∨ after.work cfg < s.work cfg := by
  cases step with
  | write member step => exact .inr (step.lowers member)
  | hold step => exact .inr step.lowers
  | flush member pending => exact .inr (flush_lowers member pending)
  | settled => exact .inl rfl

/-! ### The holder -/

/-- The answer, and where the mount is marked read-only by then. -/
def Answered (cfg : Config W) (v : Vis W) (b : List (Store W)) (result : Result) : Prop :=
  result = .busy ∧ b = [] ∧ v.Writable ∨
    result = .ok ∧ cfg.hmode = .mnt ∧ b = [] ∧ v.rov = true ∧ v.sbrov = false ∧ v.sbrdv = false ∨
    result = .ok ∧ cfg.hmode ≠ .mnt ∧ v.rov = false ∧
      (b = [.sbrd true, .sbro false] ∨ b = [.sbro false] ∧ v.sbrdv = true ∨ b = [] ∧ v.sbrov = false ∧ v.sbrdv = true)

/-- `WRITE_HOLD` is set, or about to be, in one scope of `mount_lock`. -/
def Scope (cfg : Config W) (l : Label) (v : Vis W) (b : List (Store W)) (result : Result) : Prop :=
  match l with
  | .hLock => b = [] ∧ v.holdv = false ∧ v.lockv = none ∧ v.Writable
  | .hHold => b = [] ∧ v.holdv = false ∧ v.Writable
  | .hMb | .hSum | .hDecide => (b = [.hold true] ∨ b = []) ∧ v.Writable
  | .hRemount => b = [] ∧ v.holdv = false ∧ v.lockv = none ∧ v.rov = false ∧ result = .ok ∧ cfg.hmode ≠ .mnt
  | .done => v.holdv = false ∧ v.lockv = none ∧ Answered cfg v b result
  | _ => False

/-- Writers buffer counts only. -/
structure Scoped (cfg : Config W) (s : State W) : Prop where
  counts : ∀ w ∈ cfg.writers, ∀ e ∈ s.mem.buf (writer w), ∃ c d, e = .cnt c d
  holds : Scope cfg (s.pc holder) s.mem.vis (s.mem.buf holder) s.result
  labels : ∀ w ∈ cfg.writers, (s.pc (writer w)).counted = true ∨ s.pc (writer w) = .wInc ∨ s.pc (writer w) = .done

theorem Hold.scope (step : Hold cfg s after) (ok : Scope cfg (s.pc holder) s.mem.vis (s.mem.buf holder) s.result) :
    Scope cfg (after.pc holder) after.mem.vis (after.mem.buf holder) after.result := by
  cases step with
  | lock label | hold label | mb label | sum label | sumEnd label | remount label =>
    simp_all [Scope, Answered, Vis.Writable]
  | decideBusy label | decideMnt label | decideSb label =>
    rw [label] at ok
    obtain ⟨empty | empty, writable⟩ := ok
    · simp_all [Scope, Answered, Vis.Writable, apply]
    · simp_all [Scope, Answered, Vis.Writable, apply]

omit [DecidableEq W] in
theorem Scope.flush {l : Label} {v : Vis W} {e : Store W} {b : List (Store W)} {result : Result}
    (ok : Scope cfg l v (e :: b) result) : Scope cfg l (apply v e) b result := by
  cases l <;> simp only [Scope, Answered, reduceCtorEq, false_and, and_false, or_false, false_or, List.cons.injEq] at ok ⊢
  case hMb | hSum | hDecide =>
    obtain ⟨⟨rfl, rfl⟩, writable⟩ := ok
    exact ⟨.inr rfl, writable⟩
  case done =>
    obtain ⟨clear, free, done, mode, flags, ⟨rfl, rfl⟩ | ⟨⟨rfl, rfl⟩, marked⟩⟩ := ok
    · exact ⟨clear, free, .inr (.inr ⟨done, mode, flags, .inr (.inl ⟨rfl, rfl⟩)⟩)⟩
    · exact ⟨clear, free, .inr (.inr ⟨done, mode, flags, .inr (.inr ⟨rfl, rfl, marked⟩)⟩)⟩

omit [DecidableEq W] in
theorem Scope.setCnt {l : Label} {v : Vis W} {b : List (Store W)} {result : Result} (ok : Scope cfg l v b result)
    (cntv : ℕ → ℤ) : Scope cfg l { v with cntv := cntv } b result := by
  cases l <;> exact ok

theorem Write.counts (step : Write cfg s w after) (ok : ∀ e ∈ s.mem.buf (writer w), ∃ c d, e = Store.cnt c d) :
    ∀ e ∈ after.mem.buf (writer w), ∃ c d, e = .cnt c d := by
  have pushed (d : ℤ) : ∀ e ∈ s.mem.buf (writer w) ++ [.cnt (cfg.wcpu w) d], ∃ c d, e = Store.cnt c d := by
    intro e inside
    obtain old | new := List.mem_append.mp inside
    · exact ok e old
    · exact ⟨_, _, List.mem_singleton.mp new⟩
  cases step with
  | inc | checkReadonly | put => simpa using pushed _
  | mb | spin | check => exact ok

theorem Write.labels (step : Write cfg s w after) :
    (after.pc (writer w)).counted = true ∨ after.pc (writer w) = .wInc ∨ after.pc (writer w) = .done := by
  cases step <;> simp [Label.counted]

theorem Scoped.flush (ok : Scoped cfg s) (member : t ∈ cfg.tasks) (pending : s.mem.buf t ≠ []) :
    Scoped cfg { s with mem := s.mem.flush apply t } := by
  obtain ⟨e, rest, entry⟩ := List.exists_cons_of_ne_nil pending
  refine ⟨fun w listed e' inside => ?_, ?_, ok.labels⟩
  · by_cases same : t = writer w
    · subst same
      exact ok.counts w listed e' (List.mem_of_mem_tail (by simpa using inside))
    · exact ok.counts w listed e' (by simpa [Ne.symm same] using inside)
  · cases t with
    | none =>
      have own := ok.holds
      rw [entry] at own
      simpa [Memory.flush_vis entry, entry] using own.flush
    | some u =>
      obtain ⟨c, d, rfl⟩ := ok.counts u (Finset.some_mem_insertNone.mp member) e (by simp [entry])
      simpa [Memory.flush_vis entry, apply] using ok.holds.setCnt _

theorem within_scope : (spec cfg).Invariant (Scoped cfg) := by
  apply System.Invariant.of_step
  · rintro _ rfl
    exact ⟨by simp [init], ⟨rfl, rfl, rfl, rfl, rfl, rfl⟩, fun _ _ => .inr (.inl rfl)⟩
  · intro s after ok next
    cases next with
    | @write w after member step =>
      have frame := step.frame
      refine ⟨fun u listed => ?_, ?_, fun u listed => ?_⟩
      · by_cases same : u = w
        · subst same
          exact step.counts (ok.counts u listed)
        · rw [frame.buf _ (by simpa using same)]
          exact ok.counts u listed
      · rw [frame.pc _ (by simp), frame.buf _ (by simp), frame.vis, frame.result]
        exact ok.holds
      · by_cases same : u = w
        · subst same
          exact step.labels
        · rw [frame.pc _ (by simpa using same)]
          exact ok.labels u listed
    | hold step =>
      refine ⟨fun u listed => ?_, step.scope ok.holds, fun u listed => ?_⟩
      · rw [(step.writers u).2]
        exact ok.counts u listed
      · rw [(step.writers u).1]
        exact ok.labels u listed
    | flush member pending => exact ok.flush member pending
    | settled => exact ok

/-! ### No deadlock -/

/-- `<<Next>>_vars` -/
def Moves (cfg : Config W) (s after : State W) : Prop := Next cfg s after ∧ after ≠ s

theorem moves_of_lowers (step : Next cfg s after) (less : after.work cfg < s.work cfg) : Moves cfg s after := by
  refine ⟨step, ?_⟩
  rintro rfl
  exact lt_irrefl _ less

theorem Scoped.holder_moves (ok : Scoped cfg s) (empty : s.mem.buf holder = []) (busy : s.pc holder ≠ .done) :
    ∃ after, Hold cfg s after := by
  have own := ok.holds
  cases label : s.pc holder <;> rw [label] at own busy
  case hLock => exact ⟨_, .lock label own.2.2.1 empty⟩
  case hHold => exact ⟨_, .hold label⟩
  case hMb => exact ⟨_, .mb label fun _ => empty⟩
  case hSum =>
    by_cases more : s.ci ≤ cfg.ncpu
    · exact ⟨_, .sum label more⟩
    · exact ⟨_, .sumEnd label (not_le.mp more)⟩
  case hDecide =>
    by_cases busy : 0 < s.acc
    · exact ⟨_, .decideBusy label busy⟩
    · by_cases mode : cfg.hmode = .mnt
      · exact ⟨_, .decideMnt label busy mode⟩
      · exact ⟨_, .decideSb label busy mode⟩
  case hRemount => exact ⟨_, .remount label⟩
  case done => exact absurd rfl busy
  all_goals exact own.elim

theorem Scoped.writer_moves (ok : Scoped cfg s) (member : w ∈ cfg.writers) (empty : s.mem.buf (writer w) = [])
    (idle : s.pc holder = .done) (busy : s.pc (writer w) ≠ .done) : ∃ after, Write cfg s w after := by
  have clear : s.mem.vis.holdv = false := by
    have own := ok.holds
    rw [idle] at own
    exact own.1
  have labels := ok.labels w member
  cases label : s.pc (writer w) <;> rw [label] at labels busy
  case wInc => exact ⟨_, .inc label⟩
  case wMb => exact ⟨_, .mb label fun _ => empty⟩
  case wSpin => exact ⟨_, .spin label clear⟩
  case wCheck =>
    by_cases readonly : s.Readonly cfg
    · exact ⟨_, .checkReadonly label readonly⟩
    · exact ⟨_, .check label readonly⟩
  case wActive => exact ⟨_, .put label⟩
  case done => exact absurd rfl busy
  all_goals simp [Label.counted] at labels

theorem Scoped.settled_or_moves (ok : Scoped cfg s) : s.Settled cfg ∨ ∃ after, Moves cfg s after := by
  by_cases flushed : ∀ t ∈ cfg.tasks, s.mem.buf t = []
  · have own := flushed holder Finset.none_mem_insertNone
    by_cases idle : s.pc holder = .done
    · by_cases busy : ∃ w ∈ cfg.writers, s.pc (writer w) ≠ .done
      · obtain ⟨w, member, busy⟩ := busy
        obtain ⟨after, step⟩ := ok.writer_moves member (flushed _ (Finset.some_mem_insertNone.mpr member)) idle busy
        exact .inr ⟨after, moves_of_lowers (.write member step) (step.lowers member)⟩
      · push Not at busy
        exact .inl ⟨fun w member => ⟨busy w member, flushed _ (Finset.some_mem_insertNone.mpr member)⟩, idle, own⟩
    · obtain ⟨after, step⟩ := ok.holder_moves own idle
      exact .inr ⟨after, moves_of_lowers (.hold step) step.lowers⟩
  · push Not at flushed
    obtain ⟨t, member, pending⟩ := flushed
    exact .inr ⟨_, moves_of_lowers (.flush member pending) (flush_lowers member pending)⟩

theorem settled_rests (all : s.Settled cfg) (step : Next cfg s after) : after = s := by
  obtain ⟨writers, idle, empty⟩ := all
  cases step with
  | write member step => cases step <;> simp_all
  | hold step => cases step <;> simp_all
  | @flush t member pending =>
    cases t with
    | none => exact absurd empty pending
    | some w => exact absurd (writers w (Finset.some_mem_insertNone.mp member)).2 pending
  | settled => rfl

/-! ### What is left in the end -/

/-- The counts are back, nobody holds anything, and the mount is read-only if the holder
was told so. -/
structure Restored (cfg : Config W) (s : State W) : Prop where
  cntv : ∀ c, s.mem.vis.cntv c = 0
  holdv : s.mem.vis.holdv = false
  lockv : s.mem.vis.lockv = none
  answered : s.result ≠ .none
  rov : s.mem.vis.rov = true ↔ s.result = .ok ∧ cfg.hmode = .mnt
  sbrov : s.mem.vis.sbrov = false
  sbrdv : s.mem.vis.sbrdv = true ↔ s.result = .ok ∧ cfg.hmode ≠ .mnt

omit [DecidableEq W] in
theorem Scoped.restored (ok : Scoped cfg s) (counted : Counted cfg s) (all : s.Settled cfg) : Restored cfg s := by
  obtain ⟨writers, idle, empty⟩ := all
  have own := ok.holds
  rw [idle, empty] at own
  obtain ⟨holdv, lockv, answered⟩ := own
  have flushed : ∀ t ∈ cfg.tasks, s.mem.buf t = [] := by
    intro t member
    cases t with
    | none => exact empty
    | some w => exact (writers w (Finset.some_mem_insertNone.mp member)).2
  have cntv (c : ℕ) : s.mem.vis.cntv c = 0 := by
    have total := counted c
    rw [countOf, Memory.total, Finset.sum_eq_zero fun t member => by rw [flushed t member]; rfl, add_zero] at total
    rw [total]
    refine Finset.sum_eq_zero fun w member => if_neg fun counts => ?_
    rw [Counts, (writers w member).1] at counts
    exact absurd counts.2 (by decide)
  obtain ⟨busy, _, rov, sbrov, sbrdv⟩ | ⟨done, mode, _, rov, sbrov, sbrdv⟩ | ⟨done, mode, rov, pending⟩ := answered
  · exact ⟨cntv, holdv, lockv, by simp [busy], by simp [busy, rov], sbrov, by simp [busy, sbrdv]⟩
  · exact ⟨cntv, holdv, lockv, by simp [done], by simp [done, mode, rov], sbrov, by simp [done, mode, sbrdv]⟩
  · obtain nothing | nothing | ⟨_, sbrov, sbrdv⟩ := pending
    · cases nothing
    · cases nothing.1
    · exact ⟨cntv, holdv, lockv, by simp [done], by simp [mode, rov], sbrov, by simp [done, mode, sbrdv]⟩

/-- No state is a deadlock, and every behaviour that does not stop while it can move settles:
everybody is done, the counts are zero, and the mount is read-only just if the answer was ok. -/
theorem everybody_settles (behaviour : (spec cfg).Behaviour states) (fair : System.WeaklyFair (Moves cfg) states) :
    (∀ n, (states n).Settled cfg ∨ ∃ after, Moves cfg (states n) after) ∧
      ∃ n, (∀ m, n ≤ m → states m = states n) ∧ (states n).Settled cfg ∧ Restored cfg (states n) := by
  have known (n : ℕ) : Scoped cfg (states n) := within_scope _ (behaviour.reachable n)
  refine ⟨fun n => (known n).settled_or_moves, ?_⟩
  obtain ⟨n, rests⟩ := behaviour.rests (State.work cfg) fun _ _ _ step => step.lowers
  have settled := (known n).settled_or_moves.resolve_right (fair.disabled (fun _ moves => moves.2) rests)
  exact ⟨n, rests, settled, (known n).restored (counted _ (behaviour.reachable n)) settled⟩

section Small

/-- One writer against a holder that makes the mount read-only. -/
def alone (barriers : Bool) : Config (Fin 1) where
  writers := {0}
  wcpu _ := 1
  ncpu := 1
  hmode := .mnt
  fixMbGet := barriers
  fixMbHold := barriers
  fixSbro := barriers

/-- Without a barrier the holder does not see the writer, and both finish. -/
theorem alone_settled : ∃ s, (spec (alone false)).Reachable s ∧ s.Settled (alone false) ∧ s.result = .ok := by
  have start : (spec (alone false)).Reachable init := .init rfl
  have run := start.next (.write (w := 0) (Finset.mem_singleton_self 0) (.inc rfl))
  have run := run.next (.write (w := 0) (Finset.mem_singleton_self 0) (.mb rfl fun on => Bool.noConfusion on))
  have run := run.next (.hold (.lock rfl rfl rfl))
  have run := run.next (.hold (.hold rfl))
  have run := run.next (.write (w := 0) (Finset.mem_singleton_self 0) (.spin rfl rfl))
  have run := run.next (.write (w := 0) (Finset.mem_singleton_self 0) (.check rfl (by simp [State.Readonly, init, State.setPc, State.push, Memory.push])))
  have run := run.next (.hold (.mb rfl fun on => Bool.noConfusion on))
  have run := run.next (.hold (.sum rfl (by decide)))
  have run := run.next (.hold (.sumEnd rfl (by decide)))
  have run := run.next (.hold (.decideMnt rfl (by decide) rfl))
  have run := run.next (.write (w := 0) (Finset.mem_singleton_self 0) (.put rfl))
  have run := run.next (.flush (t := writer 0) (by decide) (List.cons_ne_nil _ _))
  have run := run.next (.flush (t := writer 0) (by decide) (List.cons_ne_nil _ _))
  refine ⟨_, run, ⟨?_, rfl, rfl⟩, rfl⟩
  intro w member
  obtain rfl := Finset.mem_singleton.mp member
  exact ⟨rfl, rfl⟩

theorem alone_settles : ∃ s : State (Fin 1), s.result = .ok ∧ (∀ c, s.mem.vis.cntv c = 0) ∧ s.mem.vis.rov = true := by
  obtain ⟨s, reached, settled, done⟩ := alone_settled
  obtain ⟨length, states, run, rfl⟩ := reached.run
  have fair : System.WeaklyFair (Moves (alone false)) (System.halted length states) :=
    System.fair_halted fun ⟨after, step, moves⟩ => moves (settled_rests settled step)
  obtain ⟨_, n, rests, _, restored⟩ := everybody_settles run.behaviour fair
  rw [System.halted_rest rests] at restored
  exact ⟨_, done, restored.cntv, restored.rov.mpr ⟨done, rfl⟩⟩

end Small

end LinuxTla.MntWriters
