import LinuxTla.MntPut.Buffer

/-! mount_lock and its seqcount: who holds the lock, where the increment of the
seqcount is, and what a walker's sample says about it. -/

namespace LinuxTla.MntPut

variable {T : Type} {cfg : Config T} {s after : State T} {t u : T}

def Label.inLock : Label → Bool
  | .pMb | .pDec | .pSum | .pCheck | .wFlags | .uMb | .uSum | .uBusy | .uTree | .uUnlock => true
  | _ => false

/-- The labels inside mount_lock behind a full barrier. -/
def Label.fenced : Label → Bool
  | .pDec | .pSum | .pCheck | .uSum | .uBusy => true
  | _ => false

def seqs (b : List (Store T)) : List ℕ := b.filterMap fun e => match e with | .seq v => some v | _ => none

@[simp] theorem seqs_nil : seqs ([] : List (Store T)) = [] := rfl

@[simp] theorem seqs_append (b b' : List (Store T)) : seqs (b ++ b') = seqs b ++ seqs b' := by simp [seqs]

@[simp] theorem seqs_cons_seq (v : ℕ) (b : List (Store T)) : seqs (.seq v :: b) = v :: seqs b := rfl

@[simp] theorem seqs_cons_wmb (b : List (Store T)) : seqs (.wmb :: b) = seqs b := rfl

@[simp] theorem seqs_cons_cnt (c : ℕ) (d : ℤ) (b : List (Store T)) : seqs (.cnt c d :: b) = seqs b := rfl

@[simp] theorem seqs_cons_hashed (v : Bool) (b : List (Store T)) : seqs (.hashed v :: b) = seqs b := rfl

@[simp] theorem seqs_cons_ns (v : Bool) (b : List (Store T)) : seqs (.ns v :: b) = seqs b := rfl

@[simp] theorem seqs_putStores : seqs (putStores cfg s t) = [] := by
  cases on : cfg.fixPutWmb <;> simp [putStores, wmb, on]

theorem seqs_eraseIdx {b : List (Store T)} {i : ℕ} (none : seqs b = []) : seqs (b.eraseIdx i) = [] := by
  simp only [seqs, List.filterMap_eq_nil_iff] at none ⊢
  exact fun e member => none e (List.mem_of_mem_eraseIdx member)

theorem seenSeq_eq : s.seenSeq t = (seqs (s.buf t)).foldl (fun _ v => v) s.vis.seqv := by
  unfold State.seenSeq
  generalize s.vis.seqv = start
  induction s.buf t generalizing start with
  | nil => rfl
  | cons e b ih => cases e <;> simp [seqs, ih]

@[simp] theorem applyAll_append (v : Vis T) (b b' : List (Store T)) :
    applyAll v (b ++ b') = applyAll (applyAll v b) b' := by
  induction b generalizing v with
  | nil => rfl
  | cons e b ih => exact ih _

theorem applyAll_unlockStores (v : Vis T) :
    applyAll v (s.unlockStores t) = { v with seqv := s.seenSeq t + 1, lockv := none } := rfl

theorem seqv_applyAll {v : Vis T} {b : List (Store T)} : (applyAll v b).seqv = (seqs b).foldl (fun _ v => v) v.seqv := by
  induction b generalizing v with
  | nil => rfl
  | cons e b ih => cases e <;> simp [applyAll, ih, apply, seqs]

theorem lockv_applyAll {v : Vis T} {b : List (Store T)} (none : ∀ e ∈ b, EntryOk cfg s t e) :
    (applyAll v b).lockv = v.lockv := by
  induction b generalizing v with
  | nil => rfl
  | cons e b ih =>
    rw [applyAll, ih fun e' member => none e' (by simp [member])]
    cases e with
    | lock l => exact (none (.lock l) (by simp)).elim
    | _ => rfl

/-- A put returns to a label outside the lock at which the mount is not touched. -/
theorem Control.ret_cases (wf : cfg.WellFormed) (control : Control cfg s) (member : t ∈ cfg.taskList)
    (putting : (s.pc t).preDrop = true ∨ (s.pc t).postDrop = true) : s.ret t ∈ [Label.done, .lost, .hIdle, .uRet] := by
  rcases (wf.tasks t).mp member with rfl | walker | holder
  · have own := control.umounter
    cases label : s.pc cfg.umounter <;> simp_all [UmounterAt, Label.preDrop, Label.postDrop] <;> tauto
  · have own := control.walker t walker
    cases label : s.pc t <;> simp_all [WalkerAt, Label.preDrop, Label.postDrop] <;> tauto
  · have own := control.holder t holder
    cases label : s.pc t <;> simp_all [HolderAt, Label.preDrop, Label.postDrop]

/-- Where the increment of the seqcount is while `t` holds the lock. -/
def SeqHeld (seqv : ℕ) (b : List (Store T)) : Prop :=
  seqv % 2 = 1 ∧ seqs b = [] ∨ seqv % 2 = 0 ∧ seqs b = [seqv + 1]

structure Locking (cfg : Config T) (s : State T) : Prop where
  owner : ∀ t ∈ cfg.taskList, (s.pc t).inLock = true ↔ s.vis.lockv = some t
  free : s.vis.lockv = none → s.vis.seqv % 2 = 0
  others : ∀ t ∈ cfg.taskList, s.vis.lockv ≠ some t → seqs (s.buf t) = []
  held : ∀ t ∈ cfg.taskList, s.vis.lockv = some t → SeqHeld s.vis.seqv (s.buf t)
  fenced : ∀ t ∈ cfg.taskList, (s.pc t).fenced = true → seqs (s.buf t) = []

/-- What a step does to the lock: nothing, or it takes it, or it releases it. -/
inductive LockEffect (s after : State T) (t : T) : Prop
  | none (lockv : after.vis.lockv = s.vis.lockv) (label : (after.pc t).inLock = (s.pc t).inLock)
      (fenced : (after.pc t).fenced = true → (s.pc t).fenced = true ∨ seqs (s.buf t) = [])
      (seqv : after.vis.seqv = s.vis.seqv) (buf : seqs (after.buf t) = seqs (s.buf t))
  | drain (lockv : after.vis.lockv = s.vis.lockv) (before : (s.pc t).inLock = false) (label : (after.pc t).inLock = false)
      (seqv : after.vis.seqv = (seqs (s.buf t)).foldl (fun _ v => v) s.vis.seqv) (buf : after.buf t = [])
  | take (free : s.vis.lockv = .none) (lockv : after.vis.lockv = some t) (label : (after.pc t).inLock = true)
      (fenced : (after.pc t).fenced = false)
      (seqv : after.vis.seqv = s.vis.seqv) (buf : after.buf t = [.seq (s.vis.seqv + 1), .wmb])
  | release (before : (s.pc t).inLock = true) (lockv : after.vis.lockv = .none) (label : (after.pc t).inLock = false)
      (seqv : after.vis.seqv = s.seenSeq t + 1) (buf : after.buf t = [])

variable [DecidableEq T]

theorem Step.lockEffect (wf : cfg.WellFormed) (fixed : cfg.Fixed) (member : t ∈ cfg.taskList) (step : Step cfg s t after)
    (control : Control cfg s) (ok : BufferOk cfg s t) (single : s.pc t ≠ .uNsUnlock) : LockEffect s after t := by
  have outside : (s.pc t).preDrop = true ∨ (s.pc t).postDrop = true →
      (s.ret t).inLock = false ∧ (s.ret t).fenced = false := by
    intro putting
    have := control.ret_cases wf member putting
    simp only [List.mem_cons, List.not_mem_nil, or_false] at this
    rcases this with back | back | back | back <;> simp [back, Label.inLock, Label.fenced]
  have noLock : ∀ v : Vis T, (applyAll v (s.buf t)).lockv = v.lockv := fun v => lockv_applyAll ok.entries
  have noLockPut : ∀ v : Vis T, (applyAll v (putStores cfg s t)).lockv = v.lockv := fun v =>
    lockv_applyAll fun e member => entryOk_putStores member rfl
  cases step
  case putFast label _ =>
    have := outside (by simp [label, Label.preDrop])
    exact .none (by simp) (by rw [label]; simp [this.1]; rfl) (by simp [this]) (by simp) (by simp)
  case putCleanup label =>
    have := outside (by simp [label, Label.postDrop])
    exact .none (by simp) (by rw [label]; simp [this.1]; rfl) (by simp [this]) (by simp) (by simp)
  case putFastWaited label _ =>
    have := outside (by simp [label, Label.preDrop])
    exact .drain (by simp [noLock, noLockPut]) (by simp [label, Label.inLock]) (by simp [this])
      (by simp [seqv_applyAll]) (by simp)
  case wUseWaited _ label _ =>
    exact .drain (by simp [noLock]) (by simp [label, Label.inLock]) (by simp [Label.inLock]) (by simp [seqv_applyAll])
      (by simp)
  case hMigrate label _ _ _ _ _ =>
    exact .drain (by simp [noLock]) (by simp [‹s.pc t = _›, Label.inLock]) (by simp [‹s.pc t = _›, Label.inLock])
      (by simp [seqv_applyAll]) (by simp)
  case putLock label lock | wLock _ label lock | uLock _ label lock _ | uLockLazy _ label lock _ =>
    exact .take lock.1 (by simp) (by simp [Label.inLock]) (by simp [Label.fenced]) (by simp) (by simp [lock.2])
  case putCheckOther label _ =>
    have := outside (by simp [label, Label.postDrop])
    exact .release (by simp [label, Label.inLock]) (by simp [applyAll_unlockStores]) (by simp [this])
      (by simp [applyAll_unlockStores]) (by simp)
  case putCheckLast label _ _ | wFlagsDrop _ label _ | wFlagsPut _ label _ | uBusy _ label _ | uUnlock _ label =>
    exact .release (by simp [label, Label.inLock]) (by simp [applyAll_unlockStores]) (by simp [Label.inLock])
      (by simp [applyAll_unlockStores]) (by simp)
  case uNsUnlock _ label _ _ => exact absurd label single
  case putMb label drained =>
    exact .none (by simp) (by simp [label, Label.inLock]) (by simp [drained fixed.mbPut]) (by simp) (by simp)
  case uMb _ label drained =>
    exact .none (by simp) (by simp [label, Label.inLock]) (by simp [drained fixed.mbUmount]) (by simp) (by simp)
  all_goals
    exact .none (by simp) (by simp [‹s.pc t = _›, Label.inLock]) (by simp [‹s.pc t = _›, Label.fenced])
      (by simp) (by simp)

omit [DecidableEq T] in
theorem SeqHeld.odd_seenSeq (held : SeqHeld s.vis.seqv (s.buf t)) : s.seenSeq t % 2 = 1 := by
  rw [seenSeq_eq]
  rcases held with ⟨odd, none⟩ | ⟨even, one⟩
  · simpa [none] using odd
  · simp only [one, List.foldl_cons, List.foldl_nil]; omega

theorem Locking.transfer (ok : Locking cfg s) (member : t ∈ cfg.taskList) (effect : LockEffect s after t)
    (pc : ∀ u, u ≠ t → after.pc u = s.pc u) (buf : ∀ u, u ≠ t → after.buf u = s.buf u) : Locking cfg after := by
  have owner := ok.owner
  have self := owner t member
  cases effect with
  | none lockv label fenced seqv kept =>
    refine ⟨?_, ?_, ?_, ?_, ?_⟩
    · intro u listed
      by_cases same : u = t
      · subst same; rw [label, lockv]; exact self
      · rw [pc u same, lockv]; exact owner u listed
    · rw [lockv, seqv]; exact ok.free
    · intro u listed other
      rw [lockv] at other
      by_cases same : u = t
      · subst same; rw [kept]; exact ok.others u listed other
      · rw [buf u same]; exact ok.others u listed other
    · intro u listed holds
      rw [lockv] at holds
      have old := ok.held u listed holds
      by_cases same : u = t
      · subst same; unfold SeqHeld at old ⊢; rwa [kept, seqv]
      · rw [buf u same, seqv]; exact old
    · intro u listed inside
      by_cases same : u = t
      · subst same
        rw [kept]
        rcases fenced inside with before | empty
        · exact ok.fenced u listed before
        · exact empty
      · rw [buf u same]; rw [pc u same] at inside; exact ok.fenced u listed inside
  | drain lockv before label seqv empty =>
    have notHeld : s.vis.lockv ≠ some t := fun holds => by simp [self.mpr holds] at before
    have none := ok.others t member notHeld
    have kept : after.vis.seqv = s.vis.seqv := by simpa [none] using seqv
    refine ⟨?_, ?_, ?_, ?_, ?_⟩
    · intro u listed
      by_cases same : u = t
      · subst same; simp [label, lockv, notHeld]
      · rw [pc u same, lockv]; exact owner u listed
    · rw [lockv, kept]; exact ok.free
    · intro u listed other
      by_cases same : u = t
      · subst same; simp [empty]
      · rw [buf u same]; exact ok.others u listed (lockv ▸ other)
    · intro u listed holds
      have same : u ≠ t := fun same => notHeld (by rw [← same, ← lockv]; exact holds)
      rw [buf u same, kept]; exact ok.held u listed (lockv ▸ holds)
    · intro u listed inside
      by_cases same : u = t
      · subst same; simp [empty]
      · rw [buf u same]; rw [pc u same] at inside; exact ok.fenced u listed inside
  | take free lockv label notFenced seqv store =>
    refine ⟨?_, ?_, ?_, ?_, ?_⟩
    · intro u listed
      by_cases same : u = t
      · subst same; simp [label, lockv]
      · rw [pc u same, owner u listed, free, lockv]; simp [Ne.symm same]
    · simp [lockv]
    · intro u listed other
      have same : u ≠ t := fun same => other (by rw [same]; exact lockv)
      rw [buf u same]; exact ok.others u listed (by simp [free])
    · intro u listed holds
      have same : t = u := by simpa [lockv] using holds
      subst same
      exact .inr ⟨seqv ▸ ok.free free, by simp [store, seqv]⟩
    · intro u listed inside
      have same : u ≠ t := fun same => by subst same; simp [notFenced] at inside
      rw [buf u same]; rw [pc u same] at inside; exact ok.fenced u listed inside
  | release before lockv label seqv empty =>
    have holds := self.mp before
    have odd := (ok.held t member holds).odd_seenSeq
    refine ⟨?_, ?_, ?_, ?_, ?_⟩
    · intro u listed
      by_cases same : u = t
      · subst same; simp [label, lockv]
      · rw [pc u same, owner u listed, holds, lockv]; simp [Ne.symm same]
    · intro _; omega
    · intro u listed _
      by_cases same : u = t
      · subst same; simp [empty]
      · rw [buf u same]; exact ok.others u listed (by simp [holds, Ne.symm same])
    · intro u listed taken; simp [lockv] at taken
    · intro u listed inside
      by_cases same : u = t
      · subst same; simp [empty]
      · rw [buf u same]; rw [pc u same] at inside; exact ok.fenced u listed inside

omit [DecidableEq T] in
theorem seqv_applyTasks {ts : List T} {v : Vis T} {x : ℕ}
    (all : ∀ t ∈ ts, seqs (s.buf t) = [] ∨ seqs (s.buf t) = [x])
    (some : v.seqv = x ∨ ∃ t ∈ ts, seqs (s.buf t) = [x]) : (s.applyTasks v ts).seqv = x := by
  induction ts generalizing v with
  | nil => simpa [State.applyTasks] using some
  | cons t ts ih =>
    rw [State.applyTasks]
    apply ih fun t' member => all t' (by simp [member])
    rw [seqv_applyAll]
    rcases all t (by simp) with none | one
    · rcases some with start | ⟨t', member, one⟩
      · left; simpa [none] using start
      · rcases List.mem_cons.mp member with rfl | member
        · simp [none] at one
        · exact .inr ⟨t', member, one⟩
    · left; simp [one]

omit [DecidableEq T] in
theorem lockv_applyTasks {ts : List T} {v : Vis T} (buffer : ∀ t ∈ ts, BufferOk cfg s t) :
    (s.applyTasks v ts).lockv = v.lockv := by
  induction ts generalizing v with
  | nil => rfl
  | cons t ts ih =>
    rw [State.applyTasks, ih fun t' member => buffer t' (by simp [member]), lockv_applyAll (buffer t (by simp)).entries]

/-- A grace period publishes the lock holder's increment. -/
theorem Locking.drainAll (ok : Locking cfg s) (buffer : Buffers cfg s) {u : T} {l : Label}
    (outside : l.inLock = false) (label : (s.pc u).inLock = false) (gp : Gp T) :
    Locking cfg (State.setPc { s.drainedAll cfg with gp := gp } u l) := by
  have lockv : (s.applyTasks s.vis cfg.taskList).lockv = s.vis.lockv := lockv_applyTasks buffer
  have owner : ∀ t ∈ cfg.taskList, (Function.update s.pc u l t).inLock = true ↔ s.vis.lockv = some t := by
    intro t member
    rw [← ok.owner t member]
    by_cases same : t = u
    · subst same; simp [outside, label]
    · simp [same]
  refine ⟨fun t member => ?_, ?_, by simp, ?_, by simp⟩
  · change (Function.update s.pc u l t).inLock = true ↔ (s.applyTasks s.vis cfg.taskList).lockv = some t
    rw [lockv]
    exact owner t member
  · intro none
    simp only [State.setPc_vis, State.drainedAll_vis, lockv] at none ⊢
    rw [seqv_applyTasks (x := s.vis.seqv) (fun t member => .inl (ok.others t member (by simp [none]))) (.inl rfl)]
    exact ok.free none
  · intro t member holds
    simp only [State.setPc_vis, State.drainedAll_vis, lockv] at holds
    simp only [State.setPc_vis, State.drainedAll_vis, State.setPc_buf, State.drainedAll_buf]
    left
    refine ⟨?_, rfl⟩
    have none : ∀ t' ∈ cfg.taskList, t' ≠ t → seqs (s.buf t') = [] := fun t' listed other =>
      ok.others t' listed (by simp [holds, Ne.symm other])
    rcases ok.held t member holds with ⟨odd, empty⟩ | ⟨even, one⟩
    · rw [seqv_applyTasks (x := s.vis.seqv) (fun t' listed => .inl (by
        by_cases same : t' = t
        · rw [same]; exact empty
        · exact none t' listed same)) (.inl rfl)]
      exact odd
    · rw [seqv_applyTasks (x := s.vis.seqv + 1) (fun t' listed => by
        by_cases same : t' = t
        · rw [same]; exact .inr one
        · exact .inl (none t' listed same)) (.inr ⟨t, member, one⟩)]
      omega

theorem Locking.flush {i : ℕ} {e : Store T} (ok : Locking cfg s) (member : t ∈ cfg.taskList)
    (buffer : BufferOk cfg s t) (entry : (s.buf t)[i]? = some e) : Locking cfg (flush s t i e) := by
  obtain ⟨inside, same⟩ := List.getElem?_eq_some_iff.mp entry
  have parts : s.buf t = (s.buf t).take i ++ e :: (s.buf t).drop (i + 1) := by
    rw [← same, List.cons_getElem_drop_succ, List.take_append_drop]
  have erased : (s.buf t).eraseIdx i = (s.buf t).take i ++ (s.buf t).drop (i + 1) := List.eraseIdx_eq_take_drop_succ ..
  have lockv : (apply s.vis e).lockv = s.vis.lockv := by
    have := buffer.entries e (List.mem_of_getElem? entry)
    cases e with
    | lock l => exact this.elim
    | _ => rfl
  have quiet : seqs [e] = [] → (apply s.vis e).seqv = s.vis.seqv ∧ seqs ((s.buf t).eraseIdx i) = seqs (s.buf t) := by
    intro none
    constructor
    · cases e with
      | seq v => simp at none
      | _ => rfl
    · rw [erased]
      conv_rhs => rw [parts, ← List.singleton_append, seqs_append, seqs_append, none]
      simp
  have unlocked : s.vis.lockv ≠ some t → seqs [e] = [] := by
    intro other
    have none := ok.others t member other
    rw [parts, ← List.singleton_append, seqs_append, seqs_append] at none
    simp only [List.append_eq_nil_iff] at none
    exact none.2.1
  refine ⟨?_, ?_, ?_, ?_, ?_⟩
  · intro u listed
    simp only [flush_pc, flush_vis, lockv]
    exact ok.owner u listed
  · simp only [flush_vis, lockv]
    intro none
    rw [(quiet (unlocked (by simp [none]))).1]
    exact ok.free none
  · simp only [flush_vis, lockv, flush_buf]
    intro u listed other
    by_cases same : u = t
    · subst same
      rw [Function.update_self]
      exact seqs_eraseIdx (ok.others u listed other)
    · rw [Function.update_of_ne same]; exact ok.others u listed other
  · simp only [flush_vis, lockv, flush_buf]
    intro u listed holds
    by_cases same : u = t
    · subst same
      rw [Function.update_self]
      by_cases none : seqs [e] = []
      · obtain ⟨seqv, kept⟩ := quiet none
        unfold SeqHeld
        rw [seqv, kept]
        exact ok.held u listed holds
      · cases e with
        | seq v =>
          rcases ok.held u listed holds with ⟨_, empty⟩ | ⟨even, one⟩
          · rw [parts] at empty; simp at empty
          · have shape := one
            rw [parts] at shape
            simp only [seqs_append, seqs_cons_seq] at shape
            have alone := congrArg List.length shape
            simp only [List.length_append, List.length_cons, List.length_nil] at alone
            have first : seqs ((s.buf u).take i) = [] := List.length_eq_zero_iff.mp (by omega)
            have rest : seqs ((s.buf u).drop (i + 1)) = [] := List.length_eq_zero_iff.mp (by omega)
            rw [first, rest] at shape
            simp only [List.nil_append, List.cons.injEq, and_true] at shape
            refine .inl ⟨?_, by rw [erased, seqs_append, first, rest]; rfl⟩
            simp only [apply]
            omega
        | _ => exact absurd rfl none
    · rw [Function.update_of_ne same, (quiet (unlocked fun mine => same (by simpa [mine] using holds.symm))).1]
      exact ok.held u listed holds
  · simp only [flush_pc, flush_buf]
    intro u listed label
    by_cases same : u = t
    · subst same; rw [Function.update_self]; exact seqs_eraseIdx (ok.fenced u listed label)
    · rw [Function.update_of_ne same]; exact ok.fenced u listed label

theorem locking_init : Locking cfg (init cfg) := by
  refine ⟨?_, by simp [init], by simp [init], by simp [init], by simp [init]⟩
  intro t _
  simp only [init]
  split
  · simp [Label.inLock]
  · split <;> simp [Label.inLock]

theorem Step.locking (wf : cfg.WellFormed) (fixed : cfg.Fixed) (member : t ∈ cfg.taskList) (step : Step cfg s t after)
    (control : Control cfg s) (buffer : Buffers cfg s) (ok : Locking cfg s) : Locking cfg after := by
  by_cases single : s.pc t = .uNsUnlock
  · cases step
    case uNsUnlock _ label _ _ => exact ok.drainAll buffer rfl (by simp [label, Label.inLock]) _
    case uNsUnlockNow _ _ _ delay => simp [fixed.rcuDelay] at delay
    all_goals exact absurd (single.symm.trans ‹s.pc t = _›) (by decide)
  · exact ok.transfer member (step.lockEffect wf fixed member control (buffer t member) single)
      (fun u other => step.pc_other other) fun u other => step.buf_eq other single

theorem locking (wf : cfg.WellFormed) (fixed : cfg.Fixed) : (spec cfg).Invariant (Locking cfg) := by
  refine Lib.System.Invariant.relative ((control wf).and (buffers wf fixed)) ?_ ?_
  · rintro _ rfl
    exact locking_init
  · intro s after known _ ok next
    cases next with
    | task member step => exact step.locking wf fixed member known.1 known.2 ok
    | flush member entry allowed => exact ok.flush member (known.2 _ member) entry
    | rcuFree on ended => exact ⟨ok.owner, ok.free, ok.others, ok.held, ok.fenced⟩

end LinuxTla.MntPut
