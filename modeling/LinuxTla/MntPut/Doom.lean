import LinuxTla.MntPut.Held

/-! After the last settled reference. A walker whose sample is stale or that finds
the mount unhashed cannot turn its count into a reference, so once mount_lock
was released with nobody left, nobody comes back. -/

namespace LinuxTla.MntPut

variable {T : Type} {cfg : Config T} {s after : State T} {t u : T} {S : T → Prop}

/-! ### The flags -/

@[simp] theorem sync_applyAll (v : Vis T) (b : List (Store T)) : (applyAll v b).m.sync = v.m.sync := by
  induction b generalizing v with
  | nil => rfl
  | cons e b ih => rw [applyAll, ih]; cases e <;> rfl

@[simp] theorem doomed_applyAll (v : Vis T) (b : List (Store T)) : (applyAll v b).m.doomed = v.m.doomed := by
  induction b generalizing v with
  | nil => rfl
  | cons e b ih => rw [applyAll, ih]; cases e <;> rfl

@[simp] theorem freed_applyAll (v : Vis T) (b : List (Store T)) : (applyAll v b).m.freed = v.m.freed := by
  induction b generalizing v with
  | nil => rfl
  | cons e b ih => rw [applyAll, ih]; cases e <;> rfl

theorem flags_applyTasks (v : Vis T) (ts : List T) :
    (s.applyTasks v ts).m.sync = v.m.sync ∧ (s.applyTasks v ts).m.doomed = v.m.doomed ∧
      (s.applyTasks v ts).m.freed = v.m.freed := by
  induction ts generalizing v with
  | nil => exact ⟨rfl, rfl, rfl⟩
  | cons t ts ih =>
    obtain ⟨sync, doomed, freed⟩ := ih (applyAll v (s.buf t))
    exact ⟨by rw [State.applyTasks, sync]; simp, by rw [State.applyTasks, doomed]; simp,
      by rw [State.applyTasks, freed]; simp⟩

variable [DecidableEq T]

theorem Step.freed_eq (step : Step cfg s t after) : after.vis.m.freed = s.vis.m.freed := by
  cases step
  case uNsUnlock => exact (flags_applyTasks s.vis cfg.taskList).2.2
  all_goals simp

theorem Step.doomed_eq (step : Step cfg s t after) (other : ¬ (s.pc t = .pCheck ∧ s.acc t = 0)) :
    after.vis.m.doomed = s.vis.m.doomed := by
  cases step
  case uNsUnlock => exact (flags_applyTasks s.vis cfg.taskList).2.1
  case putCheckLast label last _ => exact absurd ⟨label, last⟩ other
  all_goals simp

theorem Step.doomed_mono (step : Step cfg s t after) (doomed : s.vis.m.doomed = true) : after.vis.m.doomed = true := by
  cases step
  case uNsUnlock => exact (flags_applyTasks s.vis cfg.taskList).2.1.trans doomed
  all_goals simp [doomed]

theorem Step.sync_eq (step : Step cfg s t after) (other : s.pc t ≠ .uTree) : after.vis.m.sync = s.vis.m.sync := by
  cases step
  case uNsUnlock => exact (flags_applyTasks s.vis cfg.taskList).1
  case uTree _ label => exact absurd label other
  all_goals simp

/-- The two words umount_tree() clears with plain stores. -/
inductive Word
  | hashed | ns

def Mount.word (m : Mount) : Word → Bool
  | .hashed => m.hashed
  | .ns => m.ns

def Store.word (x : Bool) : Word → Store T
  | .hashed => .hashed x
  | .ns => .ns x

omit [DecidableEq T] in
theorem word_apply (w : Word) (v : Vis T) (e : Store T) :
    (apply v e).m.word w = v.m.word w ∨ ∃ x, e = .word x w ∧ (apply v e).m.word w = x := by
  cases w <;> cases e <;> simp [apply, Mount.word, Store.word]

omit [DecidableEq T] in
@[simp] theorem word_apply_self (w : Word) (v : Vis T) (x : Bool) : (apply v (.word x w)).m.word w = x := by
  cases w <;> rfl

omit [DecidableEq T] in
theorem EntryOk.word_off {w : Word} {x : Bool} (ok : EntryOk cfg s t (.word x w)) : x = false := by
  cases w <;> exact ok.2.2

omit [DecidableEq T] in
/-- No buffered store sets the word again. -/
theorem word_apply_off {w : Word} {v : Vis T} {e : Store T} (entry : EntryOk cfg s t e) (gone : v.m.word w = false) :
    (apply v e).m.word w = false := by
  rcases word_apply w v e with kept | ⟨x, rfl, set⟩
  · exact kept.trans gone
  · exact set.trans entry.word_off

omit [DecidableEq T] in
theorem word_applyAll {w : Word} {v : Vis T} {b : List (Store T)} (entries : ∀ e ∈ b, EntryOk cfg s t e)
    (gone : v.m.word w = false ∨ .word false w ∈ b) : (applyAll v b).m.word w = false := by
  induction b generalizing v with
  | nil => simpa [applyAll] using gone
  | cons e b ih =>
    refine ih (fun e' member => entries e' (by simp [member])) ?_
    rcases gone with gone | pending
    · exact .inl (word_apply_off (entries e (by simp)) gone)
    · rcases List.mem_cons.mp pending with rfl | later
      · exact .inl (word_apply_self w v false)
      · exact .inr later

omit [DecidableEq T] in
theorem word_applyTasks {w : Word} {ts : List T} {v : Vis T} (buffer : ∀ t ∈ ts, BufferOk cfg s t)
    (gone : v.m.word w = false) : (s.applyTasks v ts).m.word w = false := by
  induction ts generalizing v with
  | nil => exact gone
  | cons t ts ih =>
    exact ih (fun t' member => buffer t' (by simp [member])) (word_applyAll (buffer t (by simp)).entries (.inl gone))

omit [DecidableEq T] in
@[simp] theorem hashed_unlockStores (v : Vis T) : (applyAll v (s.unlockStores t)).m = v.m := rfl

omit [DecidableEq T] in
@[simp] theorem hashed_putStores (v : Vis T) : (applyAll v (putStores cfg s t)).m = v.m := by
  cases on : cfg.fixPutWmb <;> simp [putStores, wmb, on, applyAll, apply]

theorem Step.word_mono (w : Word) (step : Step cfg s t after) (member : t ∈ cfg.taskList) (buffer : Buffers cfg s)
    (gone : s.vis.m.word w = false) : after.vis.m.word w = false := by
  have drained : (applyAll s.vis (s.buf t)).m.word w = false := word_applyAll (buffer t member).entries (.inl gone)
  cases step
  case uNsUnlock => exact word_applyTasks buffer gone
  all_goals cases w <;> simpa [Mount.word] using ‹_›

theorem Step.hashed_mono (step : Step cfg s t after) (member : t ∈ cfg.taskList) (buffer : Buffers cfg s)
    (gone : s.vis.m.hashed = false) : after.vis.m.hashed = false :=
  step.word_mono .hashed member buffer gone

theorem Step.buf_quiet (step : Step cfg s t after) (other : u ≠ t) (notU : t ≠ cfg.umounter) : after.buf u = s.buf u := by
  cases step <;> simp_all

/-- A successful umount has cleared the word, at the latest when it unlocks. -/
def Cleared (w : Word) (cfg : Config T) (s : State T) : Prop :=
  s.uresult = .ok → s.vis.m.word w = false ∨ s.pc cfg.umounter = .uUnlock ∧ .word false w ∈ s.buf cfg.umounter

theorem Step.cleared {w : Word} (step : Step cfg s t after) (member : t ∈ cfg.taskList) (buffer : Buffers cfg s)
    (ok : Cleared w cfg s) : Cleared w cfg after := by
  intro result
  by_cases same : t = cfg.umounter
  · subst same
    by_cases first : s.uresult = .ok
    · rcases ok first with gone | ⟨label, pending⟩
      · exact .inl (step.word_mono w member buffer gone)
      · have drained : (applyAll s.vis (s.buf cfg.umounter)).m.word w = false :=
          word_applyAll (buffer _ member).entries (.inr pending)
        cases step
        case uUnlock => exact .inl (by simpa using drained)
        all_goals exact absurd (label.symm.trans ‹s.pc _ = _›) (by decide)
    · cases step
      case uTree => exact .inr ⟨by simp, by cases w <;> simp [Store.word]⟩
      all_goals simp_all
  · have label := step.pc_other (Ne.symm same)
    have kept := step.buf_quiet (Ne.symm same) same
    rw [(step.umounter_other same).2.2] at result
    rcases ok result with gone | ⟨unlocking, pending⟩
    · exact .inl (step.word_mono w member buffer gone)
    · exact .inr ⟨label ▸ unlocking, kept ▸ pending⟩

theorem cleared (w : Word) (wf : cfg.WellFormed) (fixed : cfg.Fixed) : (spec cfg).Invariant (Cleared w cfg) := by
  refine Lib.System.Invariant.relative (buffers wf fixed) ?_ ?_
  · rintro _ rfl
    simp [Cleared, init]
  · intro s after buffer _ ok next
    cases next with
    | task member step => exact step.cleared member buffer ok
    | @flush t i e member entry allowed =>
      intro result
      rcases ok result with gone | ⟨label, pending⟩
      · exact .inl (word_apply_off ((buffer t member).entries _ (List.mem_of_getElem? entry)) gone)
      · by_cases same : cfg.umounter = t
        · subst same
          by_cases this : e = .word false w
          · exact .inl (by simp [this])
          · refine .inr ⟨label, ?_⟩
            obtain ⟨j, inside, found⟩ := List.mem_iff_getElem.mp pending
            have apart : j ≠ i := by
              rintro rfl
              rw [List.getElem?_eq_getElem inside, found] at entry
              exact this (Option.some.inj entry).symm
            simpa using List.mem_eraseIdx_iff_getElem.mpr ⟨j, inside, apart, found⟩
        · exact .inr ⟨label, by simpa [same] using pending⟩
    | rcuFree on ended => cases w <;> exact ok

/-- A successful umount has unhashed the mount, at the latest when it unlocks. -/
def Unhashed (cfg : Config T) (s : State T) : Prop :=
  s.uresult = .ok → s.vis.m.hashed = false ∨ s.pc cfg.umounter = .uUnlock ∧ .hashed false ∈ s.buf cfg.umounter

theorem Step.unhashed (step : Step cfg s t after) (member : t ∈ cfg.taskList) (buffer : Buffers cfg s)
    (ok : Unhashed cfg s) : Unhashed cfg after :=
  step.cleared (w := .hashed) member buffer ok

theorem unhashed (wf : cfg.WellFormed) (fixed : cfg.Fixed) : (spec cfg).Invariant (Unhashed cfg) :=
  cleared .hashed wf fixed

/-! ### Nobody comes back -/

/-- The labels between a walker's lookup and its second comparison. -/
def Label.validating : Label → Bool
  | .wL1 | .wL2 | .wMb | .wL4 => true
  | _ => false

/-- No task of `S` has a settled reference or can get one. -/
structure Cut (cfg : Config T) (s : State T) (S : T → Prop) : Prop where
  held : ∀ t ∈ cfg.taskList, S t → ¬ Settled cfg s t
  idle : ∀ t ∈ cfg.taskList, S t → s.pc t ≠ .pSum ∧ s.pc t ≠ .pCheck
  stale : ∀ t ∈ cfg.walkers, (s.pc t).validating = true → s.sq t < s.vis.seqv
  unhashed : s.vis.m.hashed = false ∨ s.pc cfg.umounter = .uUnlock

omit [DecidableEq T] in
theorem Control.settled_of_preDrop (control : Control cfg s) (wf : cfg.WellFormed) (member : t ∈ cfg.taskList)
    (label : (s.pc t).preDrop = true) : Settled cfg s t := by
  have held : 1 ≤ s.refs t := by
    rcases (wf.tasks t).mp member with rfl | walker | holder
    · have own := control.umounter
      cases pc : s.pc cfg.umounter <;> simp_all [UmounterAt, Label.preDrop]
    · have own := control.walker t walker
      cases pc : s.pc t <;> simp_all [WalkerAt, Label.preDrop]
    · have own := control.holder t holder
      cases pc : s.pc t <;> simp_all [HolderAt, Label.preDrop]
  refine ⟨held, fun transient => ?_⟩
  cases pc : s.pc t <;> simp_all [Label.preDrop]

theorem Cut.step (ok : Cut cfg s S) (wf : cfg.WellFormed) (fixed : cfg.Fixed) (member : t ∈ cfg.taskList)
    (step : Step cfg s t after) (control : Control cfg s) (buffer : Buffers cfg s) (lock : Locking cfg s)
    (sample : Sampled cfg s) (unhash : Unhashed cfg s) (others : ∀ u, u ≠ cfg.umounter → S u)
    (flag : s.vis.m.sync = true ∨ s.vis.m.doomed = true)
    (odd : s.pc cfg.umounter = .uUnlock → s.vis.seqv % 2 = 1) : Cut cfg after S := by
  have grow := step.seqv_le wf fixed member control buffer lock
  have back := control.ret_cases wf member
  have noPut : S t → (s.pc t).preDrop = false := fun inside => by
    by_contra put
    exact ok.held t member inside (control.settled_of_preDrop wf member (by simpa using put))
  refine ⟨fun u listed inside settled => ?_, fun u listed inside => ?_, fun u walker label => ?_, ?_⟩
  · refine ok.held u listed inside ?_
    by_cases same : u = t
    · subst same
      refine step.settled_mono fixed wf control (fun walker label => ?_) (fun _ _ => flag) settled
      have := ok.stale u walker (by simp [label, Label.validating])
      omega
    · exact (step.settled_other same).mp settled
  · by_cases same : u = t
    · subst same
      have := noPut inside
      have old := ok.idle u listed inside
      cases step
      case putFast label _ | putFastWaited label _ | putDec label => simp [label, Label.preDrop] at this
      case putCleanup label =>
        have := back (by simp [label, Label.postDrop])
        simp only [List.mem_cons, List.not_mem_nil, or_false] at this
        rcases this with back | back | back | back <;> simp [back]
      case hGet | hMigrate | uSum => simp [‹s.pc u = _›]
      all_goals first
        | exact absurd ‹s.pc u = _› old.1
        | exact absurd ‹s.pc u = _› old.2
        | simp
    · rw [step.pc_other same]; exact ok.idle u listed inside
  · by_cases same : u = t
    · subst same
      have notU : u ≠ cfg.umounter := fun same => wf.umounter_walker (same ▸ walker)
      have old := ok.stale u walker
      cases step
      case wLookup _ label' found =>
        refine lt_of_lt_of_le ?_ grow
        rcases ok.unhashed with gone | unlocking
        · rcases found with hashed | ⟨h, holder, held, idle⟩
          · simp [gone] at hashed
          · have notW : h ∉ cfg.walkers := fun walker => wf.disjoint h walker holder
            have notU : h ≠ cfg.umounter := fun same => wf.umounter_holder (same ▸ holder)
            exact absurd ⟨held, fun transient => notW transient.1⟩
              (ok.held h ((wf.tasks h).mpr (.inr (.inr holder))) (others h notU))
        · have := sample u walker (by simp [label', Label.sampled])
          have := odd unlocking
          simp only [State.setPc_sq]
          omega
      case putFast label' _ | putFastWaited label' _ | putCheckOther label' _ | putCleanup label' =>
        simp only [State.setPc_pc, Function.update_self] at label
        have := back (by simp [label', Label.preDrop, Label.postDrop])
        simp only [List.mem_cons, List.not_mem_nil, or_false] at this
        rcases this with back | back | back | back <;> simp [back, Label.validating] at label
      all_goals first
        | exact absurd ‹u = cfg.umounter› notU
        | (simp [Label.validating] at label; done)
        | (simp [‹s.pc u = _›, Label.validating] at label; done)
        | exact lt_of_lt_of_le (old (by simp [‹s.pc u = _›, Label.validating])) grow
    · rw [step.pc_other same] at label
      rw [step.sq_other same]
      exact lt_of_lt_of_le (ok.stale u walker label) grow
  · rcases ok.unhashed with gone | unlocking
    · exact .inl (step.hashed_mono member buffer gone)
    · by_cases same : t = cfg.umounter
      · subst same
        have own := control.umounter
        simp only [unlocking, UmounterAt] at own
        have result : after.uresult = .ok := by cases step <;> simp_all
        rcases step.unhashed member buffer unhash result with gone | ⟨label, _⟩
        · exact .inl gone
        · exact .inr label
      · exact .inr ((step.pc_other (Ne.symm same)).trans unlocking)

theorem Cut.flush {i : ℕ} {e : Store T} (ok : Cut cfg s S) (member : t ∈ cfg.taskList) (buffer : Buffers cfg s)
    (lock : Locking cfg s) (entry : (s.buf t)[i]? = some e) : Cut cfg (MntPut.flush s t i e) S where
  held := ok.held
  idle := ok.idle
  stale u walker label := lt_of_lt_of_le (ok.stale u walker label) (lock.seqv_le_flush member entry)
  unhashed := by
    rcases ok.unhashed with gone | unlocking
    · refine .inl ?_
      exact word_apply_off (w := .hashed) ((buffer t member).entries _ (List.mem_of_getElem? entry)) gone
    · exact .inr unlocking

end LinuxTla.MntPut
