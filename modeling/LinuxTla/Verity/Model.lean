import LinuxTla.Lib.Transition
import Mathlib.Data.Finset.Card
import Mathlib.Data.Int.Order.Basic

/-! `VeritySharing.tla`: workers of mountfsd that share the device-mapper device
named after the root hash, its deferred removal and udev's symlink. -/

namespace LinuxTla.Verity

structure Config (W : Type) where
  workers : Finset W
  attempts : ℕ
  workerMayDie : Bool
  udevSync : Bool
  fixCancelDeferred : Bool
  fixRestoreDeferred : Bool

/-- Every piece of the protocol is in place and no worker is killed. -/
structure Config.Fixed {W : Type} (cfg : Config W) : Prop where
  sync : cfg.udevSync = true
  cancel : cfg.fixCancelDeferred = true
  restore : cfg.fixRestoreDeferred = true
  lives : cfg.workerMayDie = false

inductive Dev
  | absent | active | deleting
deriving DecidableEq, Repr

inductive Uevent
  | add | remove
deriving DecidableEq, Repr

inductive Label
  | idle | loop | activate | check | reuse | waitlink | tryOpen | opened | again | fallback
  | done | doneUnique | dead
deriving DecidableEq, Repr

/-- `Done` -/
def Label.finished : Label → Bool
  | .done | .doneUnique | .dead => true
  | _ => false

/-- The shared device; `opens` is its open count. -/
structure Device where
  dev : Dev
  opens : ℤ
  deferred : Bool
  udevq : List Uevent
  devlink : Bool
deriving DecidableEq, Repr

/-- What the variables say about one worker and its client. -/
structure Worker where
  pc : Label
  fd : Bool
  restore : Bool
  attempt : ℕ
  mount : Bool
deriving DecidableEq, Repr

structure State (W : Type) where
  device : Device
  worker : W → Worker

/-! ### The kernel and udev -/

namespace Device

variable (d : Device)

/-- dev_remove with DM_DEFERRED_REMOVE: open devices are marked, others go now. -/
def deactivate : Device :=
  if d.dev ≠ .active then d
  else if 0 < d.opens then { d with deferred := true }
  else { d with dev := .deleting }

/-- dm_blk_close: the last close of a marked device queues its removal. -/
def close : Device :=
  if d.opens = 1 ∧ d.deferred = true ∧ d.dev = .active then { d with dev := .deleting, opens := 0 }
  else { d with opens := d.opens - 1 }

def Openable : Prop := d.devlink = true ∧ d.dev = .active

instance : Decidable d.Openable := inferInstanceAs (Decidable (_ ∧ _))

end Device

variable {W : Type} [DecidableEq W] (cfg : Config W)

/-- The cleanup at the end of a failed attempt: the fd is closed, then removal is
re-armed. -/
def cleanupDev (x : Worker) (d : Device) : Device :=
  let c := if x.fd then d.close else d
  if x.restore && cfg.fixRestoreDeferred then c.deactivate else c

/-- A successful do_crypt_activate_verity(): with the udev cookie the earlier events
of the name and the add are processed before it returns. -/
def activated (d : Device) : Device where
  dev := .active
  opens := 0
  deferred := false
  udevq := if cfg.udevSync then [] else d.udevq ++ [.add]
  devlink := if cfg.udevSync then true else d.devlink

/-! ### verity_partition(), one worker -/

inductive WorkerStep (d : Device) (x : Worker) : Device → Worker → Prop
  | start (label : x.pc = .idle) :
      WorkerStep d x d { x with pc := .loop, attempt := 0, fd := false, restore := false }
  | loopEnd (label : x.pc = .loop) (spent : cfg.attempts ≤ x.attempt) :
      WorkerStep d x d { x with pc := .fallback }
  | loopOpen (label : x.pc = .loop) (more : x.attempt < cfg.attempts) (openable : d.Openable) :
      WorkerStep d x { d with opens := d.opens + 1 } { x with fd := true, pc := .check }
  -- ENOENT or ENXIO
  | loopActivate (label : x.pc = .loop) (more : x.attempt < cfg.attempts) (failed : ¬ d.Openable) :
      WorkerStep d x d { x with pc := .activate }
  | activate (label : x.pc = .activate) (absent : d.dev = .absent) :
      WorkerStep d x (activated cfg d) { x with pc := .tryOpen }
  -- EEXIST or EBUSY
  | activateExists (label : x.pc = .activate) (present : d.dev ≠ .absent) :
      WorkerStep d x d { x with pc := .check }
  -- EBUSY or ENXIO from dm_deferred_remove_cancel()
  | checkGone (label : x.pc = .check) (gone : d.dev ≠ .active) : WorkerStep d x d { x with pc := .again }
  | check (label : x.pc = .check) (active : d.dev = .active) :
      WorkerStep d x { d with deferred := if cfg.fixCancelDeferred then false else d.deferred }
        { x with restore := true, pc := .reuse }
  | reuseGone (label : x.pc = .reuse) (gone : d.dev ≠ .active) : WorkerStep d x d { x with pc := .again }
  | reuse (label : x.pc = .reuse) (active : d.dev = .active) :
      WorkerStep d x d { x with pc := if x.fd then .opened else .waitlink }
  | waitLink (label : x.pc = .waitlink) (linked : d.devlink = true) : WorkerStep d x d { x with pc := .tryOpen }
  | waitLinkTimeout (label : x.pc = .waitlink) : WorkerStep d x d { x with pc := .fallback }
  | tryOpen (label : x.pc = .tryOpen) (openable : d.Openable) :
      WorkerStep d x { d with opens := d.opens + 1 } { x with fd := true, pc := .opened }
  | tryOpenFailed (label : x.pc = .tryOpen) (failed : ¬ d.Openable) : WorkerStep d x d { x with pc := .again }
  -- the mount is opened, the worker's fd closed, and decrypted_image_free() marks the device
  | opened (label : x.pc = .opened) :
      WorkerStep d x (Device.close { d with opens := d.opens + 1 }).deactivate
        { x with fd := false, restore := false, mount := true, pc := .done }
  | again (label : x.pc = .again) :
      WorkerStep d x (cleanupDev cfg x d)
        { x with fd := false, restore := false, attempt := x.attempt + 1, pc := .loop }
  | fallback (label : x.pc = .fallback) :
      WorkerStep d x (cleanupDev cfg x d) { x with fd := false, restore := false, pc := .doneUnique }

/-- What happens to the device and one worker together. -/
inductive Move (d : Device) (x : Worker) : Device → Worker → Prop
  | worker {d' x'} (step : WorkerStep cfg d x d' x') : Move d x d' x'
  -- the worker is killed: its fd is closed by the kernel, nothing else runs
  | die (mortal : cfg.workerMayDie = true) (label : x.pc.finished = false) (started : x.pc ≠ .idle) :
      Move d x (if x.fd then d.close else d) { x with fd := false, pc := .dead }
  -- the client unmounts
  | umount (mounted : x.mount = true) : Move d x d.close { x with mount := false }

inductive DeviceStep (d : Device) : Device → Prop
  -- dm_deferred_remove(): the device is gone, udev is told
  | removeWork (going : d.dev = .deleting) :
      DeviceStep d { d with dev := .absent, deferred := false, udevq := d.udevq ++ [.remove] }
  | udev {event rest} (pending : d.udevq = event :: rest) :
      DeviceStep d { d with devlink := event = .add, udevq := rest }

inductive Next (s : State W) : State W → Prop
  | move {w d' x'} (member : w ∈ cfg.workers) (step : Move cfg s.device (s.worker w) d' x') :
      Next s ⟨d', Function.update s.worker w x'⟩
  | device {d'} (step : DeviceStep s.device d') : Next s { s with device := d' }

def init : State W where
  device := { dev := .absent, opens := 0, deferred := false, udevq := [], devlink := false }
  worker _ := { pc := .idle, fd := false, restore := false, attempt := 0, mount := false }

def spec : Lib.System (State W) where
  init s := s = init
  next := Next cfg

/-! ### What is checked -/

section Checked

variable (s : State W)

/-- The open count is exactly the workers' fds and the clients' mounts. -/
def OpenCountExact : Prop :=
  s.device.opens = (cfg.workers.filter fun w => (s.worker w).fd).card +
    (cfg.workers.filter fun w => (s.worker w).mount).card

/-- A device under a mount is never removed. -/
def MountedIsActive : Prop := (∃ w ∈ cfg.workers, (s.worker w).mount = true) → s.device.dev = .active

/-- Nothing is open on a device that is going away. -/
def NoOpenWhileDeleting : Prop := s.device.dev = .deleting → s.device.opens = 0

def Quiet : Prop := ∀ w ∈ cfg.workers, (s.worker w).pc = .idle ∨ (s.worker w).pc.finished = true

instance : Decidable (Quiet cfg s) := inferInstanceAs (Decidable (∀ w ∈ cfg.workers, _))

/-- Removal is armed: an active device has a mount and goes with the last one. -/
def Armed : Prop :=
  ((∀ w ∈ cfg.workers, (s.worker w).mount = false) → s.device.dev ≠ .active) ∧
    ((∃ w ∈ cfg.workers, (s.worker w).mount = true) → s.device.deferred = true)

end Checked

end LinuxTla.Verity
