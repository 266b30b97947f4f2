import LinuxTla.Lib.Fairness
import LinuxTla.Verity.Removal

/-! Every step spends something, so what the workers, the kernel and udev do comes to an end:
each worker with a device of its own or a shared one, the shared one gone when nobody is left
to use it. -/

namespace LinuxTla.Verity

open Lib

variable {W : Type} {cfg : Config W} {d d' : Device} {x x' : Worker} {s s' : State W} {states : ℕ → State W}

/-! ### What is left to do -/

/-- The uevents to come without another activation. -/
def Device.load (d : Device) : ℕ := (if d.dev = .absent then 0 else 2) + d.udevq.length

/-- Where the attempts count, an attempt more outweighs the labels of one. -/
def Worker.left (attempts : ℕ) (x : Worker) : ℕ :=
  match x.pc with
  | .idle => 9 * attempts + 10
  | .loop => if x.attempt < attempts then 9 * (attempts - x.attempt) + 9 else 2
  | .activate => 9 * (attempts - x.attempt) + 8
  | .check => 9 * (attempts - x.attempt) + 7
  | .reuse => 9 * (attempts - x.attempt) + 6
  | .waitlink => 9 * (attempts - x.attempt) + 5
  | .tryOpen => 9 * (attempts - x.attempt) + 4
  | .again | .opened => 9 * (attempts - x.attempt) + 3
  | .fallback => 1
  | .done | .doneUnique | .dead => 0

def Worker.load (attempts : ℕ) (x : Worker) : ℕ := 4 * x.left attempts + x.mount.toNat

namespace Device

@[simp] theorem close_load : d.close.load = d.load := by
  rw [load, load, close]
  split
  · case isTrue last => simp [last.2.2]
  · rfl

@[simp] theorem deactivate_load : d.deactivate.load = d.load := by
  rw [load, load, deactivate]
  split
  · rfl
  · case isFalse present =>
    have active : d.dev = .active := by simpa using present
    split <;> simp [active]

end Device

theorem cleanupDev_load : (cleanupDev cfg x d).load = d.load := by
  rw [cleanupDev]
  split <;> split <;> simp

theorem activated_load : (activated cfg d).load ≤ d.udevq.length + 3 := by
  rw [Device.load, activated]
  cases cfg.udevSync
  · simp
    omega
  · simp

theorem WorkerStep.lowers (step : WorkerStep cfg d x d' x') :
    d'.load + x'.load cfg.attempts < d.load + x.load cfg.attempts := by
  cases step with
  | start label =>
    simp only [Worker.load, Worker.left, label]
    split <;> omega
  | loopEnd label spent =>
    simp only [Worker.load, Worker.left, label, if_neg (not_lt.mpr spent)]
    omega
  | loopOpen label more | loopActivate label more =>
    simp only [Device.load, Worker.load, Worker.left, label, if_pos more]
    omega
  | activate label absent =>
    have bound : (activated cfg d).load ≤ d.udevq.length + 3 := activated_load
    simp only [Worker.load, Worker.left, label]
    have empty : d.load = d.udevq.length := by simp [Device.load, absent]
    omega
  | activateExists label | checkGone label | reuseGone label | waitLink label | waitLinkTimeout label | tryOpenFailed label =>
    simp only [Worker.load, Worker.left, label]
    omega
  | check label | tryOpen label =>
    simp only [Device.load, Worker.load, Worker.left, label]
    omega
  | reuse label =>
    cases fd : x.fd with
    | false | true =>
      simp only [Worker.load, Worker.left, label, Bool.false_eq_true, if_false, if_true]
      omega
  | opened label =>
    have same : (Device.close { d with opens := d.opens + 1 }).deactivate.load = d.load := by
      rw [Device.deactivate_load, Device.close_load]
      rfl
    rw [same]
    simp only [Worker.load, Worker.left, label, Bool.toNat_true]
    omega
  | again label =>
    rw [cleanupDev_load]
    simp only [Worker.load, Worker.left, label]
    split <;> omega
  | fallback label =>
    rw [cleanupDev_load]
    simp only [Worker.load, Worker.left, label]
    omega

theorem Move.lowers (step : Move cfg d x d' x') : d'.load + x'.load cfg.attempts < d.load + x.load cfg.attempts := by
  cases step with
  | worker step => exact step.lowers
  | die _ label started =>
    have same : (if x.fd then d.close else d).load = d.load := by
      split
      · exact Device.close_load
      · rfl
    have spends : 0 < x.left cfg.attempts := by
      rw [Worker.left]
      cases pc : x.pc with
      | idle => exact absurd pc started
      | loop =>
        dsimp only
        split <;> omega
      | done | doneUnique | dead =>
        rw [pc] at label
        cases label
      | _ => exact Nat.succ_pos _
    rw [same]
    change d.load + (4 * 0 + x.mount.toNat) < d.load + (4 * x.left cfg.attempts + x.mount.toNat)
    omega
  | umount mounted =>
    rw [Device.close_load]
    have same : ({ x with mount := false } : Worker).left cfg.attempts = x.left cfg.attempts := rfl
    simp only [Worker.load, same, mounted, Bool.toNat_true, Bool.toNat_false]
    omega

theorem DeviceStep.lowers (step : DeviceStep d d') : d'.load < d.load := by
  cases step with
  | removeWork going =>
    simp only [Device.load, going, reduceCtorEq, if_false, if_true, List.length_append, List.length_singleton]
    omega
  | udev pending =>
    simp [Device.load, pending]

def State.load (cfg : Config W) (s : State W) : ℕ := s.device.load + ∑ w ∈ cfg.workers, (s.worker w).load cfg.attempts

theorem Next.lowers [DecidableEq W] (step : Next cfg s s') : s'.load cfg < s.load cfg := by
  cases step with
  | @move w d' x' member step =>
    have less := step.lowers
    have others : ∑ v ∈ cfg.workers.erase w, (Function.update s.worker w x' v).load cfg.attempts =
        ∑ v ∈ cfg.workers.erase w, (s.worker v).load cfg.attempts :=
      Finset.sum_congr rfl fun v other => by rw [Function.update_of_ne (Finset.ne_of_mem_erase other)]
    rw [State.load, State.load, ← Finset.sum_erase_add _ _ member, ← Finset.sum_erase_add _ _ member, others]
    dsimp only
    rw [Function.update_self]
    omega
  | device step =>
    have less := step.lowers
    rw [State.load, State.load]
    dsimp only
    omega

/-! ### Who has to go on -/

theorem WorkerStep.enabled (busy : x.pc.finished = false) : ∃ d' x', WorkerStep cfg d x d' x' := by
  cases label : x.pc with
  | idle => exact ⟨_, _, .start label⟩
  | loop =>
    by_cases more : x.attempt < cfg.attempts
    · by_cases openable : d.Openable
      · exact ⟨_, _, .loopOpen label more openable⟩
      · exact ⟨_, _, .loopActivate label more openable⟩
    · exact ⟨_, _, .loopEnd label (not_lt.mp more)⟩
  | activate =>
    by_cases absent : d.dev = .absent
    · exact ⟨_, _, .activate label absent⟩
    · exact ⟨_, _, .activateExists label absent⟩
  | check =>
    by_cases active : d.dev = .active
    · exact ⟨_, _, .check label active⟩
    · exact ⟨_, _, .checkGone label active⟩
  | reuse =>
    by_cases active : d.dev = .active
    · exact ⟨_, _, .reuse label active⟩
    · exact ⟨_, _, .reuseGone label active⟩
  | waitlink => exact ⟨_, _, .waitLinkTimeout label⟩
  | tryOpen =>
    by_cases openable : d.Openable
    · exact ⟨_, _, .tryOpen label openable⟩
    · exact ⟨_, _, .tryOpenFailed label openable⟩
  | opened => exact ⟨_, _, .opened label⟩
  | again => exact ⟨_, _, .again label⟩
  | fallback => exact ⟨_, _, .fallback label⟩
  | done | doneUnique | dead =>
    rw [label] at busy
    cases busy

/-- Nothing the workers, the kernel or udev would do is left. -/
structure Over (cfg : Config W) (s : State W) : Prop where
  workers : ∀ w ∈ cfg.workers, (s.worker w).pc.finished = true
  gone : s.device.dev ≠ .deleting
  told : s.device.udevq = []

theorem Over.quiet (ended : Over cfg s) : Quiet cfg s := fun w member => .inr (ended.workers w member)

def RemoveWork (s s' : State W) : Prop :=
  s.device.dev = .deleting ∧
    s' = { s with device := { s.device with dev := .absent, deferred := false, udevq := s.device.udevq ++ [.remove] } }

def Udev (s s' : State W) : Prop :=
  ∃ event rest, s.device.udevq = event :: rest ∧
    s' = { s with device := { s.device with devlink := event = .add, udevq := rest } }

theorem RemoveWork.moves (removes : RemoveWork s s') : s' ≠ s := by
  rintro rfl
  simpa [removes.1] using congrArg (fun t => t.device.dev) removes.2

theorem Udev.moves (told : Udev s s') : s' ≠ s := by
  obtain ⟨event, rest, pending, moved⟩ := told
  rintro rfl
  simpa [pending] using congrArg (fun t => t.device.udevq.length) moved

section Fair

variable [DecidableEq W]

/-- `WorkerStep(w)` on the state. -/
def Works (cfg : Config W) (w : W) (s s' : State W) : Prop :=
  ∃ d' x', WorkerStep cfg s.device (s.worker w) d' x' ∧ s' = ⟨d', Function.update s.worker w x'⟩

structure Fair (cfg : Config W) (states : ℕ → State W) : Prop where
  worker : ∀ w ∈ cfg.workers, System.WeaklyFair (Works cfg w) states
  remove : System.WeaklyFair RemoveWork states
  udev : System.WeaklyFair Udev states

theorem Works.next {w : W} (member : w ∈ cfg.workers) (works : Works cfg w s s') : Next cfg s s' := by
  obtain ⟨d', x', step, rfl⟩ := works
  exact .move member (.worker step)

theorem Next.moves (step : Next cfg s s') : s' ≠ s := by
  rintro rfl
  exact lt_irrefl _ step.lowers

theorem Fair.ends (fair : Fair cfg states) {n : ℕ} (rests : ∀ m, n ≤ m → states m = states n) : Over cfg (states n) := by
  constructor
  · intro w member
    by_contra busy
    obtain ⟨d', x', step⟩ : ∃ d' x', WorkerStep cfg (states n).device ((states n).worker w) d' x' :=
      WorkerStep.enabled (Bool.eq_false_of_not_eq_true busy)
    exact (fair.worker w member).disabled (fun _ works => (works.next member).moves) rests ⟨_, d', x', step, rfl⟩
  · intro going
    exact fair.remove.disabled (fun _ removes => removes.moves) rests ⟨_, going, rfl⟩
  · cases pending : (states n).device.udevq with
    | nil => rfl
    | cons event rest =>
      exact (fair.udev.disabled (fun _ told => told.moves) rests ⟨_, event, rest, pending, rfl⟩).elim

end Fair

/-! ### The shared device goes -/

/-- Without workers in the protocol the device is active only under a mount. -/
theorem Owed.idle (owed : Owed cfg s) (counted : Counted cfg s) (quiet : Quiet cfg s)
    (unmounted : ∀ w ∈ cfg.workers, (s.worker w).mount = false) : s.device.dev ≠ .active := by
  intro active
  have marked : s.device.deferred = true := by
    by_contra unmarked
    exact owed.paid quiet ⟨active, Bool.eq_false_of_not_eq_true unmarked⟩
  obtain ⟨w, member, mounted⟩ := counted.mounted quiet (owed.settled.used active marked)
  exact Bool.noConfusion ((unmounted w member).symm.trans mounted)

namespace Device

theorem close_deleting (going : d.dev = .deleting) : d.close.dev = .deleting := by
  rw [close, if_neg fun last => by cases going.symm.trans last.2.2]
  exact going

theorem deactivate_deleting (going : d.dev = .deleting) : d.deactivate.dev = .deleting := by
  rw [deactivate, if_pos (by rw [going]; decide)]
  exact going

end Device

/-- Only the kernel ends the removal. -/
theorem Move.deleting (step : Move cfg d x d' x') (going : d.dev = .deleting) : d'.dev = .deleting := by
  have closed : (if x.fd then d.close else d).dev = .deleting := by
    split
    · exact Device.close_deleting going
    · exact going
  have cleaned : (cleanupDev cfg x d).dev = .deleting := by
    rw [cleanupDev]
    split
    · exact Device.deactivate_deleting closed
    · exact closed
  cases step with
  | worker step =>
    cases step with
    | activate _ absent => cases going.symm.trans absent
    | opened => exact Device.deactivate_deleting (Device.close_deleting going)
    | again | fallback => exact cleaned
    | _ => exact going
  | die => exact closed
  | umount => exact Device.close_deleting going

theorem Next.deleting [DecidableEq W] (step : Next cfg s s') (going : s.device.dev = .deleting) :
    RemoveWork s s' ∨ s'.device.dev = .deleting := by
  cases step with
  | move _ step => exact .inr (step.deleting going)
  | device step =>
    cases step with
    | removeWork => exact .inl ⟨going, rfl⟩
    | udev => exact .inr going

theorem Fair.removes [DecidableEq W] (fair : Fair cfg states) (behaviour : (spec cfg).Behaviour states) {n : ℕ}
    (going : (states n).device.dev = .deleting) : ∃ m, n ≤ m ∧ (states m).device.dev = .absent := by
  obtain ⟨m, later, -, -, removed⟩ := behaviour.taken fair.remove (fun s => s.device.dev = .deleting)
    (fun s going => ⟨_, going, rfl⟩) (fun _ _ going step => step.deleting going) going
  exact ⟨m + 1, later.trans (Nat.le_succ m), by rw [removed]⟩

/-- `NoOrphanDevice` -/
theorem orphan_goes [DecidableEq W] (fixed : cfg.Fixed) (behaviour : (spec cfg).Behaviour states) (fair : Fair cfg states) {n : ℕ}
    (quiet : Quiet cfg (states n)) (unmounted : ∀ w ∈ cfg.workers, ((states n).worker w).mount = false) :
    ∃ m, n ≤ m ∧ (states m).device.dev = .absent := by
  have reached := behaviour.reachable n
  have idle := (owed fixed _ reached).idle (counted _ reached) quiet unmounted
  cases dev : (states n).device.dev with
  | absent => exact ⟨n, Nat.le_refl n, dev⟩
  | active => exact absurd dev idle
  | deleting => exact fair.removes behaviour dev

section Solo

/-- A worker, and its client unmounts. -/
def solo : Config (Fin 1) where
  workers := Finset.univ
  attempts := 1
  workerMayDie := false
  udevSync := true
  fixCancelDeferred := true
  fixRestoreDeferred := true

def at' (dev : Dev) (opens : ℤ) (deferred : Bool) (udevq : List Uevent) (devlink : Bool) (pc : Label) (fd mount : Bool) :
    State (Fin 1) where
  device := { dev, opens, deferred, udevq, devlink }
  worker _ := { pc, fd, restore := false, attempt := 0, mount }

def soloRun : ℕ → State (Fin 1)
  | 0 => at' .absent 0 false [] false .idle false false
  | 1 => at' .absent 0 false [] false .loop false false
  | 2 => at' .absent 0 false [] false .activate false false
  | 3 => at' .active 0 false [] true .tryOpen false false
  | 4 => at' .active 1 false [] true .opened true false
  | 5 => at' .active 1 true [] true .done false true
  | 6 => at' .deleting 0 true [] true .done false false
  | 7 => at' .absent 0 false [.remove] true .done false false
  | _ => at' .absent 0 false [] false .done false false

theorem solo_move {d d' : Device} {x x' : Worker} (step : Move solo d x d' x') :
    Next solo ⟨d, fun _ => x⟩ ⟨d', fun _ => x'⟩ := by
  have same : (fun _ : Fin 1 => x') = Function.update (fun _ => x) 0 x' := by
    funext w
    rw [Subsingleton.elim w 0, Function.update_self]
  rw [same]
  exact .move (Finset.mem_univ 0) step

theorem soloRun_run : (spec solo).Run 8 soloRun where
  start := rfl
  next i inside := by
    match i, inside with
    | 0, _ => exact solo_move (.worker (.start rfl))
    | 1, _ => exact solo_move (.worker (.loopActivate rfl Nat.one_pos (by decide)))
    | 2, _ => exact solo_move (.worker (.activate rfl rfl))
    | 3, _ => exact solo_move (.worker (.tryOpen rfl (by decide)))
    | 4, _ => exact solo_move (.worker (.opened rfl))
    | 5, _ => exact solo_move (.umount rfl)
    | 6, _ => exact .device (.removeWork rfl)
    | 7, _ =>
      have told : DeviceStep (soloRun 7).device
          { (soloRun 7).device with devlink := Uevent.remove = .add, udevq := [] } := .udev rfl
      exact .device told

theorem soloRun_fair : Fair solo (System.halted 8 soloRun) where
  worker w _ := System.fair_halted fun ⟨_, _, _, step, _⟩ => by
    cases step <;> contradiction
  remove := System.fair_halted fun ⟨_, going, _⟩ => by cases going
  udev := System.fair_halted fun ⟨_, _, _, pending, _⟩ => by cases pending

theorem solo_goes : ∃ m, 6 ≤ m ∧ (System.halted 8 soloRun m).device.dev = .absent :=
  orphan_goes ⟨rfl, rfl, rfl, rfl⟩ soloRun_run.behaviour soloRun_fair (n := 6) (fun _ _ => .inr rfl) fun _ _ => rfl

end Solo

end LinuxTla.Verity
