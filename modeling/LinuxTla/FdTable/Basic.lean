import LinuxTla.Lib.Search
import Mathlib.Data.Finset.Card
import Mathlib.Order.Interval.Finset.Nat

/-! `FdTable.tla`: descriptor tables and the operators of fs/file.c on them.
`W` is BITS_PER_LONG, which is also NR_OPEN_DEFAULT, and `dropInDupFd` selects
the series or the code before it. -/

namespace LinuxTla.FdTable

open Lib

/-- The open_fds bit, whether a struct file is installed, the close_on_exec bit.
A slot can be open without a file, never the other way round. -/
@[ext]
structure Slot where
  opened : Bool
  file : Bool
  cloexec : Bool
  installed : file = true → opened = true
deriving DecidableEq, Repr

theorem Slot.filed : true = true → true = true := id

theorem Slot.bare : false = true → true = true := fun _ => rfl

def Free : Slot := ⟨false, false, false, by decide⟩

/-- `__put_unused_fd()`: close_on_exec stays. -/
def Closed (s : Slot) : Slot := ⟨false, false, s.cloexec, by decide⟩

/-- A slot with its close_on_exec bit set. -/
def Slot.mark (s : Slot) : Slot := { s with cloexec := true }

/-- A table has the descriptors below `maxFds`. -/
structure Table where
  maxFds : ℕ
  slot : ℕ → Slot

def lastFd (t : Table) : ℕ := t.maxFds - 1

structure Flags where
  unshare : Bool
  cloexec : Bool
  except : Bool
  cloexecOnly : Bool
deriving DecidableEq, Repr

def Flags.Valid (f : Flags) : Prop := ¬(f.cloexec = true ∧ f.cloexecOnly = true)

def Flags.Old (f : Flags) : Prop := f.except = false ∧ f.cloexecOnly = false

/-- `[from, to]`; `none` for a range is the NULL fd_range pointer and ~0U is one
of the numbers. -/
structure FdRange where
  fromFd : ℕ
  toFd : ℕ
  ordered : fromFd ≤ toFd
deriving DecidableEq, Repr

def InRange (r : FdRange) (d : ℕ) : Prop := r.fromFd ≤ d ∧ d ≤ r.toFd

instance (r : FdRange) (d : ℕ) : Decidable (InRange r d) :=
  inferInstanceAs (Decidable (_ ∧ _))

section Words

variable (W : ℕ)

def wordBits : Finset ℕ := Finset.range W

def align (x : ℕ) : ℕ := (x + W - 1) / W * W

def words (t : Table) : Finset ℕ := Finset.range (t.maxFds / W)

def openBits (t : Table) (i : ℕ) : Finset ℕ :=
  (wordBits W).filter fun b => (t.slot (i * W + b)).opened = true

/-- fd_range_word(): the bits of the range that fall into word `i`. -/
def fdRangeWord (r : FdRange) (i : ℕ) : Finset ℕ :=
  let first := i * W
  let last := first + W - 1
  if r.toFd < first ∨ r.fromFd > last then ∅
  else Finset.Icc (max r.fromFd first - first) (min r.toFd last - first)

/-- dup_fd_dropped_word(): the bits of word `i` that dup_fd() leaves behind. -/
def dupFdDroppedWord (t : Table) (i : ℕ) (r : Option FdRange) (f : Flags) : Finset ℕ :=
  match r with
  | none => ∅
  | some r =>
    let base := fdRangeWord W r i
    let d1 := if f.except = true then wordBits W \ base else base
    if f.cloexecOnly = true then d1.filter fun b => (t.slot (i * W + b)).cloexec = true else d1

def DupFdDrops (t : Table) (d : ℕ) (r : Option FdRange) (f : Flags) : Prop :=
  d % W ∈ dupFdDroppedWord W t (d / W) r f

instance (t : Table) (d : ℕ) (r : Option FdRange) (f : Flags) : Decidable (DupFdDrops W t d r f) :=
  inferInstanceAs (Decidable (_ ∈ _))

/-- sane_fdtable_size() of the series: reach the last open descriptor that is
carried over. -/
def saneFdtableSizeNew (t : Table) (r : Option FdRange) (f : Flags) : ℕ :=
  let kept := (words W t).filter fun i => openBits W t i \ dupFdDroppedWord W t i r f ≠ ∅
  if kept = ∅ then W else (greatest kept 0 + 1) * W

/-- find_last_bit(open_fds, size): the last open descriptor below `size`, or
`size`. -/
def findLastBit (t : Table) (size : ℕ) : ℕ :=
  greatest ((Finset.range size).filter fun d => (t.slot d).opened = true) size

/-- sane_fdtable_size() before the series: the punch_hole special case. -/
def saneFdtableSizeOld (t : Table) (r : Option FdRange) : ℕ :=
  let last := findLastBit t t.maxFds
  if last = t.maxFds then W
  else match r with
    | none => align W (last + 1)
    | some r =>
      if r.toFd ≥ last ∧ r.fromFd ≤ last then
        let l2 := findLastBit t r.fromFd
        if l2 = r.fromFd then W else align W (l2 + 1)
      else align W (last + 1)

variable (dropInDupFd : Bool)

def saneFdtableSize (t : Table) (r : Option FdRange) (f : Flags) : ℕ :=
  if dropInDupFd = true then saneFdtableSizeNew W t r f else saneFdtableSizeOld W t r

/-- The copy loop of dup_fd() carries a file over unless it is dropped. -/
def Keeps (t : Table) (d : ℕ) (r : Option FdRange) (f : Flags) : Prop :=
  (t.slot d).file = true ∧ (dropInDupFd = true → ¬ DupFdDrops W t d r f)

instance (t : Table) (d : ℕ) (r : Option FdRange) (f : Flags) :
    Decidable (Keeps W dropInDupFd t d r f) :=
  inferInstanceAs (Decidable (_ ∧ (_ → _)))

/-- What dup_fd() makes: the size the copy needs, the slots, the full_fds_bits
words and the descriptors get_file() was called on. -/
structure Clone where
  max : ℕ
  slots : ℕ → Slot
  full : ℕ → Bool
  refs : Finset ℕ

def Clone.table (c : Clone) : Table := ⟨c.max, c.slots⟩

/-- A slot of the clone: close_on_exec is copied whatever happens to the file. -/
def copySlot (s : Slot) (kept : Bool) : Slot := ⟨kept, kept, s.cloexec, id⟩

def dupFd (t : Table) (r : Option FdRange) (f : Flags) : Clone :=
  let openFiles := saneFdtableSize W dropInDupFd t r f
  { max := openFiles
    slots := fun d => copySlot (t.slot d) (decide (Keeps W dropInDupFd t d r f))
    full := fun i => decide (openBits W t i = wordBits W ∧
      ∀ b ∈ wordBits W, Keeps W dropInDupFd t (i * W + b) r f)
    refs := (Finset.range openFiles).filter fun d => Keeps W dropInDupFd t d r f }

def rangeCloexec (t : Table) (r : FdRange) (f : Flags) : Table :=
  let last := lastFd t
  let marked :=
    if f.except = false then
      if r.fromFd ≤ last then Finset.Icc r.fromFd (min r.toFd last) else ∅
    else (if r.fromFd > 0 then Finset.Icc 0 (min (r.fromFd - 1) last) else ∅) ∪
      (if r.toFd < last then Finset.Icc (r.toFd + 1) last else ∅)
  { t with slot := fun d => if d ∈ marked then (t.slot d).mark else t.slot d }

/-- next_open_fd(): find_next_bit() or find_next_and_bit() over `[fd, maxFd]`. -/
def nextOpenFd (t : Table) (fd maxFd : ℕ) (f : Flags) : ℕ :=
  least ((Finset.Icc fd maxFd).filter fun d =>
    (t.slot d).opened = true ∧ (f.cloexecOnly = true → (t.slot d).cloexec = true)) (maxFd + 1)

/-- next_fd_to_close(): hop over the window CLOSE_RANGE_EXCEPT keeps, at most
once. -/
def nextFdToClose (t : Table) (fd0 maxFd : ℕ) (r : FdRange) (f : Flags) : ℕ :=
  let fd := nextOpenFd t fd0 maxFd f
  if f.except = true ∧ InRange r fd then
    if r.toFd ≥ maxFd then maxFd + 1 else nextOpenFd t (r.toFd + 1) maxFd f
  else fd

def closeSlot (t : Table) (d : ℕ) : Table :=
  { t with slot := Function.update t.slot d (Closed (t.slot d)) }

/-- What `__range_close()` does at `d`: a claimed slot is left alone. -/
def closeInstalled (t : Table) (d : ℕ) : Table :=
  if (t.slot d).file = true then closeSlot t d else t

end Words

@[simp] theorem Closed_opened (s : Slot) : (Closed s).opened = false := rfl

@[simp] theorem Closed_file (s : Slot) : (Closed s).file = false := rfl

@[simp] theorem Slot.mark_opened (s : Slot) : s.mark.opened = s.opened := rfl

theorem Slot.marked_opened (s : Slot) (marked : Prop) [Decidable marked] :
    (if marked then s.mark else s).opened = s.opened := by
  split <;> rfl

@[simp] theorem copySlot_opened (s : Slot) (kept : Bool) : (copySlot s kept).opened = kept := rfl

@[simp] theorem copySlot_file (s : Slot) (kept : Bool) : (copySlot s kept).file = kept := rfl

theorem copySlot_installed {s : Slot} (file : s.file = true) : copySlot s true = s :=
  Slot.ext (s.installed file).symm file.symm rfl

@[simp] theorem closeSlot_maxFds (t : Table) (d : ℕ) : (closeSlot t d).maxFds = t.maxFds := rfl

@[simp] theorem closeSlot_self (t : Table) (d : ℕ) : (closeSlot t d).slot d = Closed (t.slot d) :=
  Function.update_self ..

theorem closeSlot_other (t : Table) {d other : ℕ} (different : other ≠ d) :
    (closeSlot t d).slot other = t.slot other :=
  Function.update_of_ne different ..

@[simp] theorem closeInstalled_maxFds (t : Table) (d : ℕ) : (closeInstalled t d).maxFds = t.maxFds := by
  unfold closeInstalled
  split <;> rfl

theorem closeInstalled_self (t : Table) (d : ℕ) :
    (closeInstalled t d).slot d = if (t.slot d).file = true then Closed (t.slot d) else t.slot d := by
  unfold closeInstalled
  split
  · exact closeSlot_self t d
  · rfl

theorem closeInstalled_other (t : Table) {d other : ℕ} (different : other ≠ d) :
    (closeInstalled t d).slot other = t.slot other := by
  unfold closeInstalled
  split
  · exact closeSlot_other t different
  · rfl

@[simp] theorem rangeCloexec_maxFds (t : Table) (r : FdRange) (f : Flags) :
    (rangeCloexec t r f).maxFds = t.maxFds := rfl

end LinuxTla.FdTable
