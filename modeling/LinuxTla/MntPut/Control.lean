import LinuxTla.MntPut.Actions
import Mathlib.Tactic.Common

/-! Where each kind of task can be, where its put returns to and how many
references it holds there. Only the task itself changes these. -/

namespace LinuxTla.MntPut

variable {T : Type} [DecidableEq T] {cfg : Config T} {s after : State T} {t u : T}

theorem Step.pc_other (step : Step cfg s t after) (other : u ≠ t) : after.pc u = s.pc u := by
  cases step <;> simp [other]

theorem Step.ret_other (step : Step cfg s t after) (other : u ≠ t) : after.ret u = s.ret u := by
  cases step <;> simp [other]

theorem Step.refs_other (step : Step cfg s t after) (other : u ≠ t) : after.refs u = s.refs u := by
  cases step <;> simp [other] <;> split <;> simp [other]

/-- The labels between the entry of a put and its decrement. -/
def Label.preDrop : Label → Bool
  | .pEnter | .pFast | .pLock | .pMb | .pDec => true
  | _ => false

/-- The labels of a put that has made its decrement. -/
def Label.postDrop : Label → Bool
  | .pSum | .pCheck | .pCleanup => true
  | _ => false

def WalkerAt (l ret : Label) (refs : ℤ) : Prop :=
  match l with
  | .wStart | .wLookup | .wL1 | .wL2 => refs = 0 ∧ ret = .done
  | .wMb | .wL4 | .wLock | .wFlags | .wUse => refs = 1 ∧ ret = .done
  | .pEnter | .pFast | .pLock | .pMb | .pDec => refs = 1 ∧ (ret = .done ∨ ret = .lost)
  | .pSum | .pCheck | .pCleanup => refs = 0 ∧ (ret = .done ∨ ret = .lost)
  | .done | .lost | .wNone => refs = 0
  | _ => False

def HolderAt (l ret : Label) (refs : ℤ) : Prop :=
  match l with
  | .hIdle => 0 ≤ refs
  | .pEnter | .pFast | .pLock | .pMb | .pDec => 1 ≤ refs ∧ ret = .hIdle
  | .pSum | .pCheck | .pCleanup => 0 ≤ refs ∧ ret = .hIdle
  | .done => refs = 0
  | _ => False

/-- The umounter first drops the namespace's reference (`ret` is `uRet`), then
its own, unless the mount was busy. -/
def UmounterAt (l ret : Label) (refs : ℤ) (nsref nsput : Bool) (uresult : UResult) : Prop :=
  match l with
  | .uLock | .uMb | .uSum | .uBusy | .uTree =>
    refs = 1 ∧ nsref = true ∧ nsput = false ∧ uresult = .none
  | .uUnlock | .uNsUnlock | .uGpWait | .uNsPut =>
    refs = 1 ∧ nsref = true ∧ nsput = false ∧ uresult = .ok
  | .pEnter | .pFast | .pLock | .pMb | .pDec =>
    refs = 1 ∧ (ret = .uRet ∧ nsput = true ∧ nsref = true ∧ uresult = .ok ∨
      ret = .done ∧ nsput = false ∧ (nsref = true ∧ uresult = .busy ∨ nsref = false ∧ uresult = .ok))
  | .pSum | .pCheck | .pCleanup =>
    ret = .uRet ∧ refs = 1 ∧ nsput = true ∧ nsref = false ∧ uresult = .ok ∨
      ret = .done ∧ refs = 0 ∧ nsput = false ∧ (nsref = true ∧ uresult = .busy ∨ nsref = false ∧ uresult = .ok)
  | .uRet => refs = 1 ∧ nsput = true ∧ nsref = false ∧ uresult = .ok
  | .done => refs = 0 ∧ nsput = false ∧ (nsref = true ∧ uresult = .busy ∨ nsref = false ∧ uresult = .ok)
  | _ => False

theorem Step.walkerAt (wf : cfg.WellFormed) (walker : t ∈ cfg.walkers) (step : Step cfg s t after)
    (ok : WalkerAt (s.pc t) (s.ret t) (s.refs t)) : WalkerAt (after.pc t) (after.ret t) (after.refs t) := by
  have notU : t ≠ cfg.umounter := fun same => wf.umounter_walker (same ▸ walker)
  have notH : t ∉ cfg.holders := wf.disjoint t walker
  cases step
  all_goals first
    | exact absurd ‹t = cfg.umounter› notU
    | exact absurd ‹t ∈ cfg.holders› notH
    | (simp_all [WalkerAt]; done)
    | (obtain ⟨held, back | back⟩ := (by simpa [*, WalkerAt] using ok : _ ∧ (_ ∨ _)) <;>
        simp_all [WalkerAt])

theorem Step.holderAt (wf : cfg.WellFormed) (holder : t ∈ cfg.holders) (step : Step cfg s t after)
    (ok : HolderAt (s.pc t) (s.ret t) (s.refs t)) : HolderAt (after.pc t) (after.ret t) (after.refs t) := by
  have notU : t ≠ cfg.umounter := fun same => wf.umounter_holder (same ▸ holder)
  have notW : t ∉ cfg.walkers := fun walker => wf.disjoint t walker holder
  cases step
  all_goals first
    | exact absurd ‹t = cfg.umounter› notU
    | exact absurd ‹t ∈ cfg.walkers› notW
    | (simp_all [HolderAt] <;> omega)

/-- Only the umounter touches the namespace's entry of the ledger. -/
theorem Step.umounter_other (step : Step cfg s t after) (other : t ≠ cfg.umounter) :
    after.nsref = s.nsref ∧ after.nsput = s.nsput ∧ after.uresult = s.uresult := by
  cases step <;> simp_all

theorem Step.umounterAt (wf : cfg.WellFormed) (step : Step cfg s cfg.umounter after)
    (ok : UmounterAt (s.pc cfg.umounter) (s.ret cfg.umounter) (s.refs cfg.umounter) s.nsref s.nsput s.uresult) :
    UmounterAt (after.pc cfg.umounter) (after.ret cfg.umounter) (after.refs cfg.umounter)
      after.nsref after.nsput after.uresult := by
  cases step
  all_goals first
    | exact absurd ‹cfg.umounter ∈ cfg.walkers› wf.umounter_walker
    | exact absurd ‹cfg.umounter ∈ cfg.holders› wf.umounter_holder
    | (simp_all [UmounterAt]; done)
    | (cases ref : s.nsref <;> cases put : s.nsput <;> cases result : s.uresult <;> simp_all [UmounterAt])

structure Control (cfg : Config T) (s : State T) : Prop where
  walker : ∀ t ∈ cfg.walkers, WalkerAt (s.pc t) (s.ret t) (s.refs t)
  holder : ∀ t ∈ cfg.holders, HolderAt (s.pc t) (s.ret t) (s.refs t)
  umounter : UmounterAt (s.pc cfg.umounter) (s.ret cfg.umounter) (s.refs cfg.umounter) s.nsref s.nsput s.uresult

theorem control_init (wf : cfg.WellFormed) : Control cfg (init cfg) := by
  refine ⟨fun t member => ?_, fun t member => ?_, ?_⟩
  · have notU : t ≠ cfg.umounter := fun same => wf.umounter_walker (same ▸ member)
    simp [init, WalkerAt, member, notU, wf.disjoint t member]
  · have notU : t ≠ cfg.umounter := fun same => wf.umounter_holder (same ▸ member)
    have notW : t ∉ cfg.walkers := fun walker => wf.disjoint t walker member
    simp [init, HolderAt, member, notU, notW]
  · simp [init, UmounterAt]

theorem Step.control (wf : cfg.WellFormed) (step : Step cfg s t after) (ok : Control cfg s) : Control cfg after := by
  refine ⟨fun u member => ?_, fun u member => ?_, ?_⟩
  · by_cases same : u = t
    · subst same; exact step.walkerAt wf member (ok.walker u member)
    · rw [step.pc_other same, step.ret_other same, step.refs_other same]; exact ok.walker u member
  · by_cases same : u = t
    · subst same; exact step.holderAt wf member (ok.holder u member)
    · rw [step.pc_other same, step.ret_other same, step.refs_other same]; exact ok.holder u member
  · by_cases same : cfg.umounter = t
    · subst same; exact step.umounterAt wf ok.umounter
    · obtain ⟨ref, put, result⟩ := step.umounter_other (Ne.symm same)
      rw [step.pc_other same, step.ret_other same, step.refs_other same, ref, put, result]; exact ok.umounter

theorem control (wf : cfg.WellFormed) : (spec cfg).Invariant (Control cfg) := by
  apply Lib.System.Invariant.of_step
  · rintro _ rfl
    exact control_init wf
  · intro s after ok next
    cases next with
    | task member step => exact step.control wf ok
    | flush member entry allowed => exact ⟨ok.walker, ok.holder, ok.umounter⟩
    | rcuFree on ended => exact ⟨ok.walker, ok.holder, ok.umounter⟩

end LinuxTla.MntPut
