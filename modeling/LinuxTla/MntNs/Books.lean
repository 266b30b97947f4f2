import LinuxTla.Lib.Sums
import LinuxTla.MntNs.Model
import Mathlib.Tactic.Common

/-! The books of a mount namespace: every reference, active reference and passive reference
belongs to a task at a label that holds it, to the nsfs inode, or to the one way from the last
reference to the RCU callback. -/

namespace LinuxTla.MntNs

open Lib

variable {cfg : Config} {s after : State} {t u : Task} {l next : Label} {bad : Option Violation} {v : Violation}

/-! ### What a task has at its label -/

namespace Label

def refs : Label → ℤ
  | .tRun | .tRef | .fStash | .lUnlock | .lPut | .qOpen | .evRef => 1
  | _ => 0

def uses : Label → ℤ
  | .tRun => 1
  | _ => 0

/-- The inode's references are being dropped. -/
def evicts : Label → ℤ
  | .evRef => 1
  | _ => 0

def pins : Label → ℤ
  | .sSem | .sWork | .sRelease => 1
  | _ => 0

def opens : Label → ℤ
  | .fClose | .qClose => 1
  | _ => 0

/-- On the way from the last reference to call_rcu(). -/
def tears : Label → ℤ
  | .tdNsem | .tdTree | .tdRcu => 1
  | _ => 0

/-- Inside rcu_read_lock(). -/
def reading : Label → Bool
  | .lGet | .lMiss | .lUnlock | .qGet | .qMiss | .sGet | .sMiss => true
  | _ => false

def found : Label → Bool
  | .lGet | .qGet | .sGet => true
  | _ => false

def returns : Label → Bool
  | .done | .fClose | .qClose => true
  | _ => false

/-- What a task still has to do, an inode it may leave behind included. -/
def rank : Label → ℤ
  | .qLookup => 8
  | .fOpen | .qGet => 7
  | .fStash | .qOpen | .sLookup => 6
  | .sGet => 5
  | .lLookup | .sSem => 4
  | .lGet | .sWork => 3
  | .tRun | .lUnlock | .sRelease => 2
  | .tRef | .fClose | .lMiss | .lPut | .qMiss | .qClose | .sMiss | .evRef => 1
  | _ => 0

def stage : Label → ℤ
  | .tdNsem => 4
  | .tdTree => 3
  | .tdRcu => 2
  | _ => 0

/-- Whose label it is; a mutation of the protocol has none. -/
def of (t : Task) : Label → Bool
  | .tRun | .tRef => t = .T
  | .fOpen | .fStash | .fClose => t = .F
  | .lLookup | .lGet | .lMiss | .lUnlock | .lPut => t = .L
  | .qLookup | .qGet | .qMiss | .qOpen | .qClose => t = .Q
  | .sLookup | .sGet | .sMiss | .sSem | .sWork | .sRelease | .evRef => t = .S
  | .tdNsem | .tdTree | .tdRcu | .done => true
  | .tActive | .evActive | .lUnlockLate | .tdRcuFirst | .tdTreeLate => false

end Label

namespace State

variable (s : State)

def count (f : Label → ℤ) : ℤ := ∑ t, f (s.pc t)

def place (t : Task) : Label := if (s.pc t).tears = 1 then s.ret t else s.pc t

def stash : ℤ := s.inode.toInt - (s.pc .S).evicts

def referenced : ℤ := if 0 < s.ref then 1 else 0

def initial : ℤ := s.referenced + s.count Label.tears + s.gpOn.toInt

def work : ℤ := ∑ t, (s.place t).rank + s.count Label.stage + 4 * s.stash + 5 * s.referenced + s.gpOn.toInt

end State

structure Books (s : State) : Prop where
  refs : s.ref = s.count Label.refs + s.stash
  active : s.active = s.count Label.uses + s.stash
  evicts : s.pc .S = .evRef → s.inode = true
  owner : OwnerOK s
  files : s.files = ∑ t, (s.place t).opens
  initial : s.initial ≤ 1
  passive : s.passive = s.initial + s.count Label.pins
  freed : s.freed = true ↔ s.passive = 0
  tree : s.intree = true → s.initial = 1 ∧ s.gpOn = false
  alive : 0 < s.ref → s.intree = true ∧ s.mounts = true ∧ s.inum = true
  bad : s.bad = none

structure Local (s : State) (t : Task) : Prop where
  rcu : s.rcu t = (s.pc t).reading
  found : (s.pc t).found = true → s.initial = 1 ∧ (s.gpOn = true → t ∈ s.gpWait)
  waits : t ∈ s.gpWait → (s.pc t).reading = true
  back : (s.pc t).tears = 1 → (s.ret t).returns = true ∧ (s.ret t).of t = true
  sem : s.nsem = some t ↔ s.pc t = .tdTree
  reader : t ∈ s.nsreaders ↔ s.pc t = .sWork
  tree : s.pc t = .tdRcu → s.intree = false
  own : (s.pc t).of t = true

structure Inv (s : State) : Prop where
  books : Books s
  tasks : ∀ t, Local s t

/-- A step keeps the invariant and does some of the work. -/
structure Forward (s after : State) : Prop where
  inv : Inv after
  less : after.work < s.work

/-! ### What the books say -/

section Count

variable {f : Label → ℤ}

theorem count_move (pc : after.pc = Function.update s.pc t l) : after.count f = s.count f + (f l - f (s.pc t)) := by
  rw [State.count, State.count]
  have rest := sum_change (f := fun u => f (after.pc u)) (g := fun u => f (s.pc u)) (Finset.mem_univ t) fun u _ other => by
    rw [pc, Function.update_of_ne other]
  rw [rest, pc, Function.update_self]

theorem count_nonneg (nonneg : ∀ l, 0 ≤ f l) : 0 ≤ s.count f := Finset.sum_nonneg fun _ _ => nonneg _

theorem le_count (nonneg : ∀ l, 0 ≤ f l) (t : Task) : f (s.pc t) ≤ s.count f :=
  Finset.single_le_sum (fun u _ => nonneg (s.pc u)) (Finset.mem_univ t)

end Count

namespace Label

theorem refs_nonneg (l : Label) : 0 ≤ l.refs := by cases l <;> decide

theorem uses_nonneg (l : Label) : 0 ≤ l.uses := by cases l <;> decide

theorem pins_nonneg (l : Label) : 0 ≤ l.pins := by cases l <;> decide

theorem opens_nonneg (l : Label) : 0 ≤ l.opens := by cases l <;> decide

theorem tears_nonneg (l : Label) : 0 ≤ l.tears := by cases l <;> decide

theorem rank_nonneg (l : Label) : 0 ≤ l.rank := by cases l <;> decide

theorem stage_nonneg (l : Label) : 0 ≤ l.stage := by cases l <;> decide

theorem stage_of_tears (calm : l.tears = 0) : l.stage = 0 := by cases l <;> first | rfl | cases calm

theorem uses_le (l : Label) : l.uses ≤ l.refs := by cases l <;> decide

theorem reading_of_found (found : l.found = true) : l.reading = true := by cases l <;> first | rfl | cases found

theorem eq_evRef : l = .evRef ∨ l.evicts = 0 := by cases l <;> first | exact .inl rfl | exact .inr rfl

end Label

theorem State.initial_nonneg (s : State) : 0 ≤ s.initial := by
  have tears := count_nonneg (s := s) Label.tears_nonneg
  have gp : 0 ≤ s.gpOn.toInt := by cases s.gpOn <;> decide
  have referenced : 0 ≤ s.referenced := by
    rw [State.referenced]
    split <;> decide
  rw [State.initial]
  omega

namespace Books

variable (books : Books s)

include books

theorem stash_nonneg : 0 ≤ s.stash := by
  rw [State.stash]
  obtain here | none := Label.eq_evRef (l := s.pc .S)
  · rw [here, books.evicts here]
    decide
  · rw [none]
    cases s.inode <;> decide

theorem ref_nonneg : 0 ≤ s.ref := by
  have := count_nonneg (s := s) Label.refs_nonneg
  have := books.stash_nonneg
  have := books.refs
  omega

theorem active_nonneg : 0 ≤ s.active := by
  have := count_nonneg (s := s) Label.uses_nonneg
  have := books.stash_nonneg
  have := books.active
  omega

theorem active_le : s.active ≤ s.ref := by
  have less : s.count Label.uses ≤ s.count Label.refs := Finset.sum_le_sum fun _ _ => Label.uses_le _
  have := books.active
  have := books.refs
  omega

theorem passive_nonneg : 0 ≤ s.passive := by
  have := count_nonneg (s := s) Label.pins_nonneg
  have := s.initial_nonneg
  have := books.passive
  omega

theorem not_freed (pinned : 0 < s.initial + (s.pc t).pins) : s.freed = false := by
  have := le_count (s := s) Label.pins_nonneg t
  have := books.passive
  have := s.initial_nonneg
  have held : s.passive ≠ 0 := by
    have := Label.pins_nonneg (s.pc t)
    omega
  exact Bool.eq_false_of_not_eq_true fun freed => held (books.freed.mp freed)

/-- A task that holds a reference keeps the namespace out of the teardown. -/
theorem held (holds : (s.pc t).refs = 1) : 0 < s.ref := by
  have := le_count (s := s) Label.refs_nonneg t
  have := books.stash_nonneg
  have := books.refs
  omega

/-- Whoever tears the namespace down is alone in that, and it has no reference. -/
theorem torn (tears : (s.pc t).tears = 1) : s.ref = 0 ∧ s.gpOn = false := by
  have count := le_count (s := s) Label.tears_nonneg t
  have bound := books.initial
  have nonneg := books.ref_nonneg
  rw [State.initial, State.referenced] at bound
  cases gp : s.gpOn with
  | false =>
    refine ⟨?_, rfl⟩
    rw [gp] at bound
    split at bound
    · change 1 + s.count Label.tears + 0 ≤ 1 at bound
      omega
    · omega
  | true =>
    rw [gp] at bound
    change _ + s.count Label.tears + 1 ≤ 1 at bound
    split at bound <;> omega

end Books

/-! ### What a step of one task does -/

/-- A step of `t` to `l`, as the other tasks see it. -/
structure Does (s after : State) (t : Task) (l : Label) : Prop where
  pc : after.pc = Function.update s.pc t l
  ret : ∀ u, u ≠ t → after.ret u = s.ret u
  rcu : ∀ u, u ≠ t → after.rcu u = s.rcu u
  sem : ∀ u, u ≠ t → (after.nsem = some u ↔ s.nsem = some u)
  readers : ∀ u, u ≠ t → (u ∈ after.nsreaders ↔ u ∈ s.nsreaders)
  found : ∀ u, u ≠ t → s.rcu u = true → (s.gpOn = true → u ∈ s.gpWait) → after.gpOn = true → u ∈ after.gpWait
  waits : ∀ u, u ≠ t → u ∈ after.gpWait → u ∈ s.gpWait ∨ s.rcu u = true
  tree : after.intree = true → s.intree = true ∧ after.gpOn = s.gpOn
  alive : 0 < after.ref → 0 < s.ref ∧ after.intree = s.intree ∧ after.mounts = s.mounts ∧ after.inum = s.inum

/-- The books before and after agree on what `t` has at its label. -/
structure Balanced (s after : State) (t : Task) (l : Label) : Prop where
  refs : after.ref - s.ref = l.refs - (s.pc t).refs + (after.stash - s.stash)
  active : after.active - s.active = l.uses - (s.pc t).uses + (after.stash - s.stash)
  evicts : after.pc .S = .evRef → after.inode = true
  owner : OwnerOK after
  files : after.files - s.files = (after.place t).opens - (s.place t).opens
  stage : after.referenced + after.gpOn.toInt + l.tears = s.referenced + s.gpOn.toInt + (s.pc t).tears
  passive : after.passive - s.passive = l.pins - (s.pc t).pins
  freed : after.freed = true ↔ after.passive = 0
  bad : after.bad = none

theorem Does.initial (does : Does s after t l) (balanced : Balanced s after t l) : after.initial = s.initial := by
  have count := count_move (f := Label.tears) does.pc
  have stage := balanced.stage
  rw [State.initial, State.initial, count]
  omega

theorem Does.work (does : Does s after t l) : after.work = s.work + ((after.place t).rank - (s.place t).rank) +
    (l.stage - (s.pc t).stage) + 4 * (after.stash - s.stash) + 5 * (after.referenced - s.referenced) +
      (after.gpOn.toInt - s.gpOn.toInt) := by
  have places : ∑ u, (after.place u).rank = ∑ u, (s.place u).rank + ((after.place t).rank - (s.place t).rank) := by
    refine sum_change (Finset.mem_univ t) fun u _ other => ?_
    rw [State.place, State.place, does.pc, Function.update_of_ne other, does.ret u other]
  rw [State.work, State.work, places, count_move does.pc]
  omega

theorem Does.places (does : Does s after t l) (balanced : Balanced s after t l) :
    ∑ u, (after.place u).opens = ∑ u, (s.place u).opens + (after.files - s.files) := by
  rw [balanced.files]
  refine sum_change (Finset.mem_univ t) fun u _ other => ?_
  rw [State.place, State.place, does.pc, Function.update_of_ne other, does.ret u other]

theorem Books.does (books : Books s) (does : Does s after t l) (balanced : Balanced s after t l) : Books after := by
  have initial := does.initial balanced
  refine ⟨?_, ?_, balanced.evicts, balanced.owner, ?_, initial.trans_le books.initial, ?_, balanced.freed, fun tree => ?_,
    fun referenced => ?_, balanced.bad⟩
  · have := balanced.refs
    have := books.refs
    rw [count_move does.pc]
    omega
  · have := balanced.active
    have := books.active
    rw [count_move does.pc]
    omega
  · have := books.files
    rw [does.places balanced]
    omega
  · have := balanced.passive
    have := books.passive
    rw [count_move does.pc, initial]
    omega
  · obtain ⟨before, gp⟩ := does.tree tree
    rw [initial, gp]
    exact books.tree before
  · obtain ⟨before, tree, mounts, inum⟩ := does.alive referenced
    rw [tree, mounts, inum]
    exact books.alive before

theorem Local.other (tasks : Local s u) (does : Does s after t l) (balanced : Balanced s after t l) (other : u ≠ t) :
    Local after u := by
  have pc : after.pc u = s.pc u := by rw [does.pc, Function.update_of_ne other]
  obtain ⟨rcu, found, waits, back, sem, reader, tree, own⟩ := tasks
  constructor
  case rcu => rw [does.rcu u other, pc, rcu]
  case found =>
    intro at_found
    rw [pc] at at_found
    obtain ⟨initial, waited⟩ := found at_found
    exact ⟨(does.initial balanced).trans initial,
      does.found u other (rcu.trans (Label.reading_of_found at_found)) waited⟩
  case waits =>
    intro inside
    rw [pc]
    obtain before | reads := does.waits u other inside
    · exact waits before
    · exact rcu.symm.trans reads
  case back =>
    rw [pc, does.ret u other]
    exact back
  case sem => rw [does.sem u other, pc, sem]
  case reader => rw [does.readers u other, pc, reader]
  case tree =>
    intro late
    rw [pc] at late
    by_contra present
    exact Bool.noConfusion ((tree late).symm.trans (does.tree (Bool.eq_true_of_not_eq_false present)).1)
  case own =>
    rw [pc]
    exact own

theorem Inv.does (inv : Inv s) (does : Does s after t l) (balanced : Balanced s after t l) (own : Local after t) : Inv after where
  books := inv.books.does does balanced
  tasks u := by
    by_cases same : u = t
    · rw [same]
      exact own
    · exact (inv.tasks u).other does balanced same

/-- Nothing but counters, flags of the inode and of the end, and `bad`. -/
structure Same (s after : State) : Prop where
  pc : after.pc = s.pc
  ret : after.ret = s.ret
  rcu : after.rcu = s.rcu
  gpOn : after.gpOn = s.gpOn
  gpWait : after.gpWait = s.gpWait
  nsem : after.nsem = s.nsem
  nsreaders : after.nsreaders = s.nsreaders
  intree : after.intree = s.intree
  mounts : after.mounts = s.mounts
  inum : after.inum = s.inum
  ref : 0 < after.ref → 0 < s.ref

theorem Same.go (same : Same s after) : Does s (after.go t l) t l where
  pc := by
    change Function.update after.pc t l = _
    rw [same.pc]
  ret _ _ := congrFun same.ret _
  rcu _ _ := congrFun same.rcu _
  sem _ _ := by rw [State.go, same.nsem]
  readers _ _ := by rw [State.go, same.nsreaders]
  found _ _ _ kept := by
    rw [State.go, same.gpOn, same.gpWait]
    exact kept
  waits _ _ inside := .inl (same.gpWait ▸ inside)
  tree tree := ⟨same.intree ▸ tree, same.gpOn⟩
  alive referenced := ⟨same.ref referenced, same.intree, same.mounts, same.inum⟩

theorem Same.rcuIn (same : Same s after) : Does s ((after.rcuIn t).go t l) t l :=
  { same.go with rcu := fun _ other => (Function.update_of_ne other ..).trans (congrFun same.rcu _) }

theorem Same.rcuOut (same : Same s after) : Does s ((after.rcuOut t).go t l) t l :=
  { same.go with
    rcu := fun _ other => (Function.update_of_ne other ..).trans (congrFun same.rcu _)
    found := fun _ other _ kept on => Finset.mem_erase.mpr ⟨other, same.gpWait ▸ kept (same.gpOn ▸ on)⟩
    waits := fun _ _ inside => .inl (same.gpWait ▸ Finset.mem_of_mem_erase inside) }

theorem place_calm (calm : (s.pc t).tears = 0) : s.place t = s.pc t := by rw [State.place, calm, if_neg (by decide)]

theorem place_torn (torn : (s.pc t).tears = 1) : s.place t = s.ret t := if_pos torn

/-- A turn of `t` to `l` that moves `k` references between the inode and the tasks. -/
structure Turn (s after : State) (t : Task) (l : Label) (k : ℤ) : Prop where
  same : Same s after
  plain : (s.pc t).tears = 0 ∧ l.tears = 0
  kept : 0 < s.ref → 0 < after.ref
  stash : (after.go t l).stash = s.stash + k
  refs : after.ref = s.ref + l.refs - (s.pc t).refs + k
  active : after.active = s.active + l.uses - (s.pc t).uses + k
  owner : OwnerOK after
  files : after.files = s.files + l.opens - (s.pc t).opens
  passive : after.passive = s.passive + l.pins - (s.pc t).pins
  freed : after.freed = true ↔ after.passive = 0
  evicts : (after.go t l).pc .S = .evRef → after.inode = true
  bad : after.bad = none

theorem Turn.referenced {k : ℤ} (turn : Turn s after t l k) : after.referenced = s.referenced := by
  have iff : 0 < after.ref ↔ 0 < s.ref := ⟨turn.same.ref, turn.kept⟩
  simp only [State.referenced, iff]

theorem Turn.balanced {k : ℤ} (turn : Turn s after t l k) : Balanced s (after.go t l) t l where
  refs := by
    have := turn.refs
    rw [turn.stash]
    change after.ref - s.ref = _
    omega
  active := by
    have := turn.active
    rw [turn.stash]
    change after.active - s.active = _
    omega
  evicts := turn.evicts
  owner := turn.owner
  files := by
    have := turn.files
    have pc : (after.go t l).pc t = l := Function.update_self ..
    have calm : ((after.go t l).pc t).tears = 0 := by rw [pc, turn.plain.2]
    rw [place_calm calm, pc, place_calm turn.plain.1]
    change after.files - s.files = _
    omega
  stage := by
    have referenced : (after.go t l).referenced = s.referenced := turn.referenced
    rw [referenced, turn.plain.1, turn.plain.2]
    change s.referenced + after.gpOn.toInt + 0 = _
    rw [turn.same.gpOn]
  passive := by
    have := turn.passive
    change after.passive - s.passive = _
    omega
  freed := turn.freed
  bad := turn.bad

/-- A turn that pays for the references it moves into the inode. -/
theorem Turn.less {k : ℤ} (turn : Turn s after t l k) (rank : l.rank + 4 * k < (s.pc t).rank) :
    (after.go t l).work < s.work := by
  have pc : (after.go t l).pc t = l := Function.update_self ..
  have calm : ((after.go t l).pc t).tears = 0 := by rw [pc, turn.plain.2]
  have referenced : (after.go t l).referenced = s.referenced := turn.referenced
  have gp : (after.go t l).gpOn = s.gpOn := turn.same.gpOn
  rw [turn.same.go.work, place_calm calm, pc, place_calm turn.plain.1, Label.stage_of_tears turn.plain.1,
    Label.stage_of_tears turn.plain.2, turn.stash, referenced, gp]
  omega

theorem Balanced.rcuIn (balanced : Balanced s (after.go t l) t l) : Balanced s ((after.rcuIn t).go t l) t l :=
  ⟨balanced.refs, balanced.active, balanced.evicts, balanced.owner, balanced.files, balanced.stage, balanced.passive,
    balanced.freed, balanced.bad⟩

theorem Balanced.rcuOut (balanced : Balanced s (after.go t l) t l) : Balanced s ((after.rcuOut t).go t l) t l :=
  ⟨balanced.refs, balanced.active, balanced.evicts, balanced.owner, balanced.files, balanced.stage, balanced.passive,
    balanced.freed, balanced.bad⟩

/-! ### The task itself -/

/-- A label with no business in the teardown, the semaphore or the tree. -/
def Label.calm : Label → Bool
  | .lGet | .qGet | .sGet | .tdNsem | .tdTree | .tdRcu | .sWork => false
  | _ => true

theorem Label.calm_spec (calm : l.calm = true) :
    l.found = false ∧ l.tears = 0 ∧ l ≠ .tdTree ∧ l ≠ .sWork ∧ l ≠ .tdRcu := by
  cases l <;> first | decide | cases calm

theorem Local.of_calm (pc : after.pc t = l) (calm : l.calm = true) (own : l.of t = true) (rcu : after.rcu t = l.reading)
    (waits : t ∈ after.gpWait → l.reading = true) (sem : after.nsem ≠ some t) (reader : t ∉ after.nsreaders) :
    Local after t := by
  obtain ⟨found, tears, tree, work, late⟩ := Label.calm_spec calm
  constructor <;> rw [pc]
  case rcu => exact rcu
  case found => exact fun at_found => Bool.noConfusion (found.symm.trans at_found)
  case waits => exact waits
  case back => exact fun torn => absurd (tears.symm.trans torn) (by decide)
  case sem => exact ⟨fun inside => absurd inside sem, fun here => absurd here tree⟩
  case reader => exact ⟨fun inside => absurd inside reader, fun here => absurd here work⟩
  case tree => exact fun here => absurd here late
  case own => exact own

/-- Neither holding the semaphore nor reading under it. -/
theorem Local.outside (tasks : Local s t) (before : s.pc t ≠ .tdTree ∧ s.pc t ≠ .sWork) :
    s.nsem ≠ some t ∧ t ∉ s.nsreaders :=
  ⟨fun inside => before.1 (tasks.sem.mp inside), fun inside => before.2 (tasks.reader.mp inside)⟩

theorem go_pc (s : State) (t : Task) (l : Label) : (s.go t l).pc t = l := Function.update_self ..

theorem Same.calm (same : Same s after) (tasks : Local s t) (before : s.pc t ≠ .tdTree ∧ s.pc t ≠ .sWork)
    (calm : l.calm = true) (own : l.of t = true) (reading : (s.pc t).reading = l.reading) : Local (after.go t l) t := by
  obtain ⟨sem, reader⟩ := tasks.outside before
  refine .of_calm (go_pc ..) calm own ?_ ?_ ?_ ?_
  · exact (congrFun same.rcu t).trans (tasks.rcu.trans reading)
  · exact fun inside => reading.symm.trans (tasks.waits (same.gpWait ▸ inside))
  · exact fun inside => sem (same.nsem ▸ inside)
  · exact fun inside => reader (same.nsreaders ▸ inside)

theorem Same.calmOut (same : Same s after) (tasks : Local s t) (before : s.pc t ≠ .tdTree ∧ s.pc t ≠ .sWork)
    (calm : l.calm = true) (own : l.of t = true) (reading : l.reading = false) : Local ((after.rcuOut t).go t l) t := by
  obtain ⟨sem, reader⟩ := tasks.outside before
  refine .of_calm (go_pc ..) calm own ?_ ?_ ?_ ?_
  · exact (Function.update_self ..).trans reading.symm
  · exact fun inside => absurd inside (Finset.notMem_erase t _)
  · exact fun inside => sem (same.nsem ▸ inside)
  · exact fun inside => reader (same.nsreaders ▸ inside)

/-- How the weights of two labels outside the teardown differ. -/
def Label.Differs (l l' : Label) (refs uses opens pins : ℤ) : Prop :=
  l'.refs = l.refs + refs ∧ l'.uses = l.uses + uses ∧ l'.opens = l.opens + opens ∧ l'.pins = l.pins + pins ∧
    l.tears = 0 ∧ l'.tears = 0

instance (l l' : Label) (refs uses opens pins : ℤ) : Decidable (Label.Differs l l' refs uses opens pins) :=
  inferInstanceAs (Decidable (_ ∧ _ ∧ _ ∧ _ ∧ _ ∧ _))

/-- A way of `t` between labels that hold nothing but counts. -/
def Label.Ordinary (t : Task) (l l' : Label) : Prop :=
  (l ≠ .tdTree ∧ l ≠ .sWork) ∧ l'.calm = true ∧ l'.of t = true

instance (t : Task) (l l' : Label) : Decidable (Label.Ordinary t l l') := inferInstanceAs (Decidable (_ ∧ _ ∧ _))

theorem Turn.of {k refs uses opens pins : ℤ} (differs : Label.Differs (s.pc t) l refs uses opens pins) (same : Same s after)
    (kept : 0 < s.ref → 0 < after.ref) (stash : (after.go t l).stash = s.stash + k) (ref : after.ref = s.ref + refs + k)
    (active : after.active = s.active + uses + k) (owner : OwnerOK after) (files : after.files = s.files + opens)
    (passive : after.passive = s.passive + pins) (freed : after.freed = true ↔ after.passive = 0)
    (evicts : (after.go t l).pc .S = .evRef → after.inode = true) (bad : after.bad = none) : Turn s after t l k := by
  obtain ⟨refs', uses', opens', pins', plain⟩ := differs
  refine ⟨same, plain, kept, stash, ?_, ?_, owner, ?_, ?_, freed, evicts, bad⟩ <;> omega

theorem Inv.turn {k : ℤ} (inv : Inv s) (turn : Turn s after t l k) (ordinary : Label.Ordinary t (s.pc t) l)
    (reading : (s.pc t).reading = l.reading) (rank : l.rank + 4 * k < (s.pc t).rank) : Forward s (after.go t l) :=
  ⟨inv.does turn.same.go turn.balanced (turn.same.calm (inv.tasks t) ordinary.1 ordinary.2.1 ordinary.2.2 reading),
    turn.less rank⟩

theorem Inv.turnOut {k : ℤ} (inv : Inv s) (turn : Turn s after t l k) (ordinary : Label.Ordinary t (s.pc t) l)
    (reading : l.reading = false) (rank : l.rank + 4 * k < (s.pc t).rank) : Forward s ((after.rcuOut t).go t l) :=
  ⟨inv.does turn.same.rcuOut turn.balanced.rcuOut
    (turn.same.calmOut (inv.tasks t) ordinary.1 ordinary.2.1 ordinary.2.2 reading), turn.less rank⟩

/-! ### ns_ref_put() -/

/-- Where a reference is put. -/
def Label.puts : Label → Bool
  | .tRef | .fStash | .lPut | .qOpen | .evRef => true
  | _ => false

theorem Label.puts_spec (puts : l.puts = true) : l.refs = 1 ∧ l.uses = 0 ∧ l.pins = 0 ∧ l.opens = 0 ∧ l.tears = 0 ∧
    l.reading = false ∧ l ≠ .tdTree ∧ l ≠ .sWork := by
  cases l <;> first | decide | cases puts

theorem Label.returns_spec (returns : l.returns = true) : l.refs = 0 ∧ l.uses = 0 ∧ l.pins = 0 ∧ l.tears = 0 ∧
    l.reading = false ∧ l.calm = true ∧ l.evicts = 0 := by
  cases l <;> first | decide | cases returns

@[simp] theorem flag_false (bad : Option Violation) (v : Violation) {cond : Prop} [Decidable cond] (no : ¬ cond) :
    flag bad cond v = bad := by
  rw [flag, if_neg fun both => no both.2]

def State.lastPut (s : State) (t : Task) (next : Label) : State :=
  { s with
    ref := s.ref - 1
    pc := Function.update s.pc t .tdNsem
    ret := Function.update s.ret t next
    bad := flag s.bad (s.rcu t = true) .sleepInRcu }

/-- The last reference takes its task into the teardown, any other one is gone. -/
theorem Inv.put (inv : Inv s) (same : Same s after) (puts : (s.pc t).puts = true) (back : next.returns = true)
    (own : next.of t = true) (ref : after.ref = s.ref) (active : after.active = s.active) (owner : OwnerOK after)
    (files : after.files = s.files + next.opens) (passive : after.passive = s.passive)
    (freed : after.freed = true ↔ after.passive = 0) (bad : after.bad = none)
    (evicts : ∀ l, l.evicts = 0 → (after.go t l).stash = s.stash ∧ ((after.go t l).pc .S = .evRef → after.inode = true))
    (rank : next.rank < (s.pc t).rank) : Forward s (after.refPut t next) := by
  obtain ⟨holds, uses, pins, opens, tears, reading, outside⟩ := Label.puts_spec puts
  obtain ⟨refs', uses', pins', tears', reading', calm', evicts'⟩ := Label.returns_spec back
  have held := inv.books.held holds
  have tasks := inv.tasks t
  rw [State.refPut]
  split
  · case isTrue last =>
    obtain ⟨sem, reader⟩ := tasks.outside outside
    have quiet : ¬ after.rcu t = true := by
      rw [same.rcu, tasks.rcu, reading]
      decide
    change Forward s (after.lastPut t next)
    have pc : (after.lastPut t next).pc t = .tdNsem := Function.update_self ..
    have does : Does s (after.lastPut t next) t .tdNsem :=
      { same.go with
        ret := fun _ other => (Function.update_of_ne other ..).trans (congrFun same.ret _)
        alive := fun _ => ⟨held, same.intree, same.mounts, same.inum⟩ }
    have place : (after.lastPut t next).place t = next :=
      (place_torn (by rw [pc]; rfl)).trans (Function.update_self ..)
    have before : s.referenced = 1 := if_pos held
    have none : (after.lastPut t next).referenced = 0 := by
      rw [State.referenced]
      exact if_neg (by change ¬ 0 < after.ref - 1; omega)
    have nowhere := evicts .tdNsem rfl
    refine ⟨inv.does does ?_ ?_, ?_⟩
    · refine ⟨?_, ?_, nowhere.2, owner, ?_, ?_, ?_, freed, ?_⟩
      · change after.ref - 1 - s.ref = 0 - (s.pc t).refs + ((after.go t .tdNsem).stash - s.stash)
        rw [nowhere.1, holds]
        omega
      · change after.active - s.active = 0 - (s.pc t).uses + ((after.go t .tdNsem).stash - s.stash)
        rw [nowhere.1, uses]
        omega
      · rw [place_calm tears, opens, place]
        change after.files - s.files = next.opens - 0
        omega
      · rw [before, tears, none]
        change 0 + after.gpOn.toInt + 1 = 1 + s.gpOn.toInt + 0
        rw [same.gpOn]
        omega
      · rw [pins]
        change after.passive - s.passive = 0 - 0
        omega
      · exact (flag_false _ _ quiet).trans bad
    · constructor <;> rw [pc]
      case rcu =>
        change after.rcu t = false
        rw [same.rcu, tasks.rcu, reading]
      case found => exact fun no => Bool.noConfusion no
      case waits => exact fun inside => Bool.noConfusion (reading.symm.trans (tasks.waits (same.gpWait ▸ inside)))
      case back =>
        have returns : (after.lastPut t next).ret t = next := Function.update_self ..
        rw [returns]
        exact fun _ => ⟨back, own⟩
      case sem => exact ⟨fun inside => absurd (same.nsem ▸ inside) sem, Label.noConfusion⟩
      case reader => exact ⟨fun inside => absurd (same.nsreaders ▸ inside) reader, Label.noConfusion⟩
      case tree => exact Label.noConfusion
      case own => rfl
    · rw [does.work, place, place_calm tears, Label.stage_of_tears tears, before, none]
      change s.work + (next.rank - (s.pc t).rank) + (4 - 0) + 4 * ((after.go t .tdNsem).stash - s.stash) + 5 * (0 - 1) +
        (after.gpOn.toInt - s.gpOn.toInt) < s.work
      rw [nowhere.1, same.gpOn]
      omega
  · case isFalse more =>
    have nowhere := evicts next evicts'
    have turn : Turn s { after with ref := after.ref - 1 } t next 0 := by
      refine ⟨{ same with ref := fun _ => held }, ⟨tears, tears'⟩, fun _ => ?_, ?_, ?_, ?_, owner, ?_, ?_, freed, nowhere.2, bad⟩
      · dsimp only
        omega
      · rw [add_zero]
        exact nowhere.1
      · dsimp only
        omega
      · dsimp only
        omega
      · dsimp only
        omega
      · dsimp only
        omega
    exact inv.turn turn ⟨outside, calm', own⟩ (reading.trans reading'.symm) (by omega)

end LinuxTla.MntNs
