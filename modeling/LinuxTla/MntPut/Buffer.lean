import LinuxTla.MntPut.Control
import LinuxTla.Lib.Fences
import Mathlib.Tactic.Linarith

/-! What the store buffers hold. A put is behind its fence, so whatever order the
stores leave in, every counter a task still has to publish keeps it at or above
the references it holds. -/

namespace LinuxTla.MntPut

open Lib Lib.Fences

section Net

variable {T : Type}

def Store.d : Store T → ℤ
  | .cnt _ d => d
  | _ => 0

theorem net_wmb (on : Bool) : net Store.d (wmb on : List (Store T)) = 0 := by cases on <;> rfl

end Net

variable {T : Type} {cfg : Config T} {s after : State T} {t u : T}

@[simp] theorem net_putStores : net Store.d (putStores cfg s t) = -1 := by simp [putStores, net_wmb, Store.d]

@[simp] theorem net_unlockStores : net Store.d (s.unlockStores t) = 0 := by simp [State.unlockStores, Store.d]

/-- A put is the first entry or follows a fence. -/
abbrev Fenced (b : List (Store T)) : Prop := Fences.Fenced Store.d (· = .wmb) b

/-- Entry by entry: counts of the task's own CPU, gets only of holders and of
walkers before their barrier, the unhashing only between `uTree` and the unlock. -/
def EntryOk (cfg : Config T) (s : State T) (t : T) : Store T → Prop
  | .wmb => True
  | .seq _ => True
  | .cnt c d => c = s.cpu t ∧ (d = -1 ∨ d = 1 ∧ (t ∈ cfg.holders ∨ t ∈ cfg.walkers ∧ s.pc t = .wMb))
  | .hashed v => t = cfg.umounter ∧ s.pc t = .uUnlock ∧ v = false
  | .ns v => t = cfg.umounter ∧ s.pc t = .uUnlock ∧ v = false
  | .lock _ => False

structure BufferOk (cfg : Config T) (s : State T) (t : T) : Prop where
  cpu : 1 ≤ s.cpu t ∧ s.cpu t ≤ cfg.ncpu
  entries : ∀ e ∈ s.buf t, EntryOk cfg s t e
  fenced : Fenced (s.buf t)
  early : t ∈ cfg.walkers → s.pc t ∈ [Label.wStart, .wLookup, .wL1, .wL2] → s.buf t = []
  single : t ∈ cfg.walkers → s.pc t = .wMb → s.buf t = [] ∨ s.buf t = [.cnt (s.cpu t) 1]
  /-- In whatever order the rest is published, a holder is never seen with fewer
  references than none, or than one while it holds one. -/
  floor : t ∈ cfg.holders → Floor Store.d (s.refs t) (s.buf t)

variable [DecidableEq T]

theorem Step.buf_other (step : Step cfg s t after) (other : u ≠ t) : after.buf u = s.buf u ∨ after.buf u = [] := by
  cases step <;> simp [other]

/-- Only the start of the grace period drains somebody else's buffer. -/
theorem Step.buf_eq (step : Step cfg s t after) (other : u ≠ t) (single : s.pc t ≠ .uNsUnlock) : after.buf u = s.buf u := by
  cases step
  case uNsUnlock label _ _ => exact absurd label single
  all_goals simp [other]

theorem Step.cpu_other (step : Step cfg s t after) (other : u ≠ t) : after.cpu u = s.cpu u := by
  cases step <;> simp [other]

omit [DecidableEq T] in
theorem BufferOk.of_empty (cpu : 1 ≤ s.cpu t ∧ s.cpu t ≤ cfg.ncpu) (empty : s.buf t = [])
    (held : t ∈ cfg.holders → 0 ≤ s.refs t) : BufferOk cfg s t where
  cpu := cpu
  entries := by simp [empty]
  fenced := by simp [empty, Fences.Fenced]
  early _ _ := empty
  single _ _ := .inl empty
  floor holder := .of_nonpos (held holder) (by simp [empty])

omit [DecidableEq T] in
theorem BufferOk.congr (ok : BufferOk cfg s t) (buf : after.buf t = s.buf t) (cpu : after.cpu t = s.cpu t)
    (pc : after.pc t = s.pc t) (refs : after.refs t = s.refs t) : BufferOk cfg after t where
  cpu := cpu ▸ ok.cpu
  entries e member := by
    have same : EntryOk cfg after t e ↔ EntryOk cfg s t e := by cases e <;> simp [EntryOk, cpu, pc]
    exact same.mpr (ok.entries e (buf ▸ member))
  fenced := buf ▸ ok.fenced
  early walker label := buf ▸ ok.early walker (pc ▸ label)
  single walker label := by rw [buf, cpu]; exact ok.single walker (pc ▸ label)
  floor holder := by rw [refs, buf]; exact ok.floor holder

omit [DecidableEq T] in
/-- Leaving a buffer in flushable order keeps the puts fenced. -/
theorem Flushable.split {pre post : List (Store T)} {e : Store T}
    (allowed : Flushable cfg (pre ++ e :: post) pre.length e) (fenced : Fenced (pre ++ e :: post)) :
    Fenced (pre ++ post) ∧ (e.d < 0 → pre = []) := by
  refine fenced.remove (fun last inside fence => ?_) fun fence => ?_
  · subst fence
    unfold Flushable at allowed
    split at allowed
    · rw [List.take_left] at allowed
      exact (allowed.1 .wmb inside).1 rfl
    · simp [List.length_eq_zero_iff.mp allowed] at inside
  · unfold Flushable at allowed
    split at allowed
    · exact List.length_eq_zero_iff.mp (allowed.2 fence)
    · exact List.length_eq_zero_iff.mp allowed

theorem BufferOk.flush {i : ℕ} {e : Store T} (ok : BufferOk cfg s t) (entry : (s.buf t)[i]? = some e)
    (allowed : Flushable cfg (s.buf t) i e) : BufferOk cfg (flush s t i e) t := by
  obtain ⟨inside, same⟩ := List.getElem?_eq_some_iff.mp entry
  have parts : s.buf t = (s.buf t).take i ++ e :: (s.buf t).drop (i + 1) := by
    rw [← same, List.cons_getElem_drop_succ, List.take_append_drop]
  have erased : (s.buf t).eraseIdx i = (s.buf t).take i ++ (s.buf t).drop (i + 1) := List.eraseIdx_eq_take_drop_succ ..
  have length : ((s.buf t).take i).length = i := by simp; omega
  generalize (s.buf t).take i = pre at parts erased length
  generalize (s.buf t).drop (i + 1) = post at parts erased
  have fenced := ok.fenced
  rw [parts] at fenced
  have split := Flushable.split (by rw [length, ← parts]; exact allowed) fenced
  refine ⟨ok.cpu, ?_, ?_, ?_, ?_, ?_⟩
  · intro e' member
    have old : e' ∈ s.buf t := List.mem_of_mem_eraseIdx (by simpa using member)
    simpa [EntryOk] using ok.entries e' old
  · simpa [erased] using split.1
  · intro walker label
    have empty := ok.early walker label
    simp [empty] at parts
  · intro walker label
    rcases ok.single walker label with empty | single
    · simp [empty] at parts
    · rw [single] at parts inside
      have : i = 0 := by simpa using inside
      simp [single, this]
  · intro holder
    have floor := ok.floor holder
    rw [parts] at floor
    simpa [erased] using floor.remove split.2

omit [DecidableEq T] in
theorem floor_put {b : List (Store T)} {refs : ℤ} (held : 1 ≤ refs) (floor : Floor Store.d refs b) :
    Floor Store.d (refs - 1) (b ++ putStores cfg s t) := by
  refine floor.put held (fun e member => ?_) net_putStores
  simp only [putStores, List.mem_append, List.mem_singleton] at member
  rcases member with fence | rfl
  · cases on : cfg.fixPutWmb <;> simp_all [wmb, Store.d]
  · simp [Store.d]

omit [DecidableEq T] in
theorem EntryOk.mono {e : Store T} (ok : EntryOk cfg s t e) (cpu : after.cpu t = s.cpu t)
    (moved : s.pc t ≠ .wMb ∧ s.pc t ≠ .uUnlock) : EntryOk cfg after t e := by
  cases e <;> grind [EntryOk]

omit [DecidableEq T] in
theorem entryOk_putStores {e : Store T} (member : e ∈ putStores cfg s t) (cpu : after.cpu t = s.cpu t) :
    EntryOk cfg after t e := by
  simp only [putStores, List.mem_append, List.mem_singleton] at member
  rcases member with fence | rfl
  · cases on : cfg.fixPutWmb <;> simp_all [wmb, EntryOk]
  · simp [EntryOk, cpu]

theorem Step.entries (fixed : cfg.Fixed) (step : Step cfg s t after) (ok : BufferOk cfg s t) :
    ∀ e ∈ after.buf t, EntryOk cfg after t e := by
  have old := ok.entries
  have legit := fixed.mbLegit
  cases step
  case putFast label waited =>
    intro e member
    simp only [State.setPc_buf, State.rcuOut_buf, dropRef_buf, State.pushAll_buf, Function.update_self,
      List.mem_append] at member
    rcases member with member | member
    · exact (old e member).mono rfl (by simp [label])
    · exact entryOk_putStores member rfl
  case putDec label =>
    intro e member
    simp only [State.setPc_buf, State.startSum_buf, dropRef_buf, State.pushAll_buf, Function.update_self,
      List.mem_append] at member
    rcases member with member | member
    · exact (old e member).mono rfl (by simp [label])
    · exact entryOk_putStores member rfl
  case hMigrate => simp
  case wL2 walker label =>
    simp [ok.early walker (by simp [label]), EntryOk, walker]
  case wMb walker label drained => simp [drained legit]
  all_goals
    intro e member
    simp only [State.setPc_buf, State.setRet_buf, State.rcuOut_buf, State.pushAll_buf, State.drained_buf, State.addRefs_buf,
      State.startSum_buf, State.locked_buf, State.doom_buf, State.drainedAll_buf, dropRef_buf, sumRead_buf, cleanup_buf,
      Function.update_self, List.mem_append, List.not_mem_nil, List.mem_cons, or_false] at member
  all_goals first
    | exact (old e member).mono rfl (by simp [‹s.pc t = _›])
    | (rcases member with member | member
       · exact (old e member).mono rfl (by simp [‹s.pc t = _›])
       · rcases member with rfl | rfl <;> simp [EntryOk, *])

omit [DecidableEq T] in
theorem Fenced.append_putStores {b : List (Store T)} (wmb : cfg.fixPutWmb = true) (ok : Fenced b) :
    Fenced (b ++ putStores cfg s t) := by
  simpa [putStores, MntPut.wmb, wmb] using ok.append_fence (e := .cnt (s.cpu t) (-1)) rfl le_rfl

theorem Step.fenced (fixed : cfg.Fixed) (step : Step cfg s t after) (ok : BufferOk cfg s t) :
    Fenced (after.buf t) := by
  have old := ok.fenced
  cases step
  case putFast => simpa using old.append_putStores fixed.putWmb
  case putDec => simpa using old.append_putStores fixed.putWmb
  all_goals
    simp only [State.setPc_buf, State.setRet_buf, State.rcuOut_buf, State.pushAll_buf, State.drained_buf, State.addRefs_buf,
      State.startSum_buf, State.locked_buf, State.doom_buf, State.drainedAll_buf, dropRef_buf, sumRead_buf, cleanup_buf,
      Function.update_self]
  all_goals first
    | exact old
    | exact List.IsChain.nil
    | exact old.append (by simp [Store.d])

theorem Step.floor (wf : cfg.WellFormed) (step : Step cfg s t after) (holder : t ∈ cfg.holders)
    (control : Control cfg s) (ok : BufferOk cfg s t) : Floor Store.d (after.refs t) (after.buf t) := by
  have old := ok.floor holder
  have own := control.holder t holder
  have notU : t ≠ cfg.umounter := fun same => wf.umounter_holder (same ▸ holder)
  have notW : t ∉ cfg.walkers := fun walker => wf.disjoint t walker holder
  have settled (refs : ℤ) (nonneg : 0 ≤ refs) : Floor Store.d refs ([] : List (Store T)) :=
    .of_nonpos nonneg (by simp)
  cases step
  case putFast label waited =>
    simp only [label, HolderAt] at own
    simpa [notU] using floor_put own.1 old
  case putDec label =>
    simp only [label, HolderAt] at own
    simpa [notU] using floor_put own.1 old
  case hGet holder' label held budget => simpa using old.get held (e := .cnt (s.cpu t) 1) rfl
  case putFastWaited label waited =>
    simp only [label, HolderAt] at own
    simpa [notU] using settled (s.refs t - 1) (by omega)
  case putLock label lock =>
    simp only [label, HolderAt] at own
    have held := own.1
    refine .of_nonpos (by simp only [State.setPc_refs, State.locked_refs]; omega) fun e member => ?_
    simp [lock.2] at member
    rcases member with rfl | rfl <;> exact le_rfl
  all_goals first
    | exact absurd ‹t = cfg.umounter› notU
    | exact absurd ‹t ∈ cfg.walkers› notW
    | exact old
    | (simp only [‹s.pc t = _›, HolderAt] at own
       simpa using settled (s.refs t) (by omega))

theorem Step.buffer (wf : cfg.WellFormed) (fixed : cfg.Fixed) (step : Step cfg s t after)
    (control : Control cfg s) (ok : BufferOk cfg s t) : BufferOk cfg after t where
  cpu := by
    have old := ok.cpu
    cases step <;> simp_all
  entries := step.entries fixed ok
  fenced := step.fenced fixed ok
  early walker label := by
    have old := ok.early walker
    have notU : t ≠ cfg.umounter := fun same => wf.umounter_walker (same ▸ walker)
    have own := control.walker t walker
    cases step <;> simp_all [WalkerAt] <;> grind
  single walker label := by
    have old := ok.single walker
    have first := ok.early walker
    have own := control.walker t walker
    cases step <;> simp_all [WalkerAt]
  floor holder := step.floor wf holder control ok

def Buffers (cfg : Config T) (s : State T) : Prop := ∀ t ∈ cfg.taskList, BufferOk cfg s t

theorem buffers_init (wf : cfg.WellFormed) : Buffers cfg (init cfg) := by
  intro t _
  have two := wf.ncpu
  apply BufferOk.of_empty
  · simp only [init]; split <;> omega
  · rfl
  · intro holder
    simp [init, holder]

theorem Step.buffers (wf : cfg.WellFormed) (fixed : cfg.Fixed) (step : Step cfg s t after)
    (control : Control cfg s) (ok : Buffers cfg s) : Buffers cfg after := by
  intro u member
  by_cases same : u = t
  · subst same
    exact step.buffer wf fixed control (ok u member)
  · rcases step.buf_other same with kept | empty
    · exact (ok u member).congr kept (step.cpu_other same) (step.pc_other same) (step.refs_other same)
    · refine .of_empty (step.cpu_other same ▸ (ok u member).cpu) empty fun holder => ?_
      have := control.holder u holder
      rw [step.refs_other same]
      cases label : s.pc u <;> simp only [HolderAt, label] at this <;> omega

theorem buffers (wf : cfg.WellFormed) (fixed : cfg.Fixed) : (spec cfg).Invariant (Buffers cfg) := by
  refine Lib.System.Invariant.relative (control wf) ?_ ?_
  · rintro _ rfl
    exact buffers_init wf
  · intro s after known _ ok next
    cases next with
    | task member step => exact step.buffers wf fixed known ok
    | @flush t i e member entry allowed =>
      intro u listed
      by_cases same : u = t
      · subst same
        exact (ok u listed).flush entry allowed
      · exact (ok u listed).congr (by simp [same]) rfl rfl rfl
    | rcuFree on ended => exact fun u listed => (ok u listed).congr rfl rfl rfl rfl

end LinuxTla.MntPut
