import LinuxTla.Userns.Safety
import LinuxTla.Lib.Fairness
import Mathlib.Algebra.BigOperators.Group.Finset.Basic
import Mathlib.Algebra.Order.BigOperators.Group.Finset
import Mathlib.Tactic.Linarith

/-! Every request is answered and, unless the ring buffer overflowed, every range of a dead
namespace comes back: the registry only waits for the manager, and the manager for the lock. -/

namespace LinuxTla.Userns

open Lib

variable {C I R : Type} {cfg : Config C I R}
  {k : Kernel I R} {st st' : Store I R} {s s' : State C I R} {c : C} {states : ℕ → State C I R}

/-! ### What is left to do -/

def WorkerPc.left : WorkerPc → ℕ
  | .lock => 7
  | .slot => 6
  | .range => 5
  | .push => 1
  | .done => 0

def ClientPc.left : ClientPc → ℕ
  | .idle => 0
  | .alloc => 2
  | .registered | .failed => 1

def Entry.left (e : Entry R) : ℕ := if e.id = none then 0 else if e.cg then 1 else 2

def State.desk (s : State C I R) (c : C) : ℕ := (s.wk c).left + (s.cl c).pc.left

def Store.files (cfg : Config C I R) (st : Store I R) : ℕ := ∑ i ∈ cfg.inodes, (st.registry i).left

/-- What is left for the kernel, the manager and the registry. -/
def State.house (cfg : Config C I R) (s : State C I R) : ℕ :=
  30 * (cfg.idMax + 1 - s.kernel.nextId) + 3 * s.kernel.nsAlive.card + 2 * s.ringbuf.length + s.mgr.isSome.toNat + s.restart +
    s.store.files cfg

def State.work (cfg : Config C I R) (s : State C I R) : ℕ := s.house cfg + ∑ c ∈ cfg.clients, s.desk c

variable [DecidableEq C]

theorem work_lowers (member : c ∈ cfg.clients) (others : ∀ d, d ≠ c → s'.desk d = s.desk d)
    (less : s'.house cfg + s'.desk c < s.house cfg + s.desk c) : s'.work cfg < s.work cfg := by
  have rest : ∑ d ∈ cfg.clients.erase c, s'.desk d = ∑ d ∈ cfg.clients.erase c, s.desk d :=
    Finset.sum_congr rfl fun d other => others d (Finset.ne_of_mem_erase other)
  rw [State.work, State.work, ← Finset.sum_erase_add _ _ member, ← Finset.sum_erase_add _ _ member, rest]
  omega

variable [DecidableEq I]

theorem released_left (i j : I) : ((st.released i).registry j).left ≤ (st.registry j).left := by
  by_cases here : j = i
  · subst here
    change (Function.update st.registry j noEntry j).left ≤ _
    rw [Function.update_self]
    exact Nat.zero_le _
  · exact (congrArg Entry.left (Function.update_of_ne here ..)).le

omit [DecidableEq C] [DecidableEq I] in
theorem files_le (fewer : ∀ j, (st'.registry j).left ≤ (st.registry j).left) : st'.files cfg ≤ st.files cfg :=
  Finset.sum_le_sum fun j _ => fewer j

omit [DecidableEq C] in
theorem files_change {i : I} (inside : i ∈ cfg.inodes) (others : ∀ j, j ≠ i → st'.registry j = st.registry j) :
    st'.files cfg + (st.registry i).left = st.files cfg + (st'.registry i).left := by
  have rest : ∑ j ∈ cfg.inodes.erase i, (st'.registry j).left = ∑ j ∈ cfg.inodes.erase i, (st.registry j).left :=
    Finset.sum_congr rfl fun j other => by rw [others j (Finset.ne_of_mem_erase other)]
  rw [Store.files, Store.files, ← Finset.sum_erase_add _ _ inside, ← Finset.sum_erase_add _ _ inside, rest]
  omega

omit [DecidableEq C] in
theorem mgrReleased_left (alive : Finset ℕ) (i j : I) :
    ((mgrReleased cfg alive st i).registry j).left ≤ (st.registry j).left := by
  rw [mgrReleased]
  split
  next => exact le_rfl
  next =>
    split
    next => exact le_rfl
    next => exact released_left i j

omit [DecidableEq C] in
theorem swept_left (alive : Finset ℕ) (j : I) : ((swept cfg st alive).registry j).left ≤ (st.registry j).left := by
  change (if j ∈ staleEntries cfg st alive then noEntry else st.registry j).left ≤ _
  split
  next => exact Nat.zero_le _
  next => exact le_rfl

omit [DecidableEq C] [DecidableEq I] in
theorem desk_other {d : C} (wk : s'.wk d = s.wk d) (cl : s'.cl d = s.cl d) : s'.desk d = s.desk d := by
  rw [State.desk, State.desk, wk, cl]

omit [DecidableEq I] in
/-- A worker moves on, and the registry has no more entries than before. -/
theorem setWk_lowers {pc pc' : WorkerPc} {st : Store I R} {lock : Option (Holder C)} (member : c ∈ cfg.clients) (at_pc : s.wk c = pc)
    (fewer : st.files cfg ≤ s.store.files cfg) (less : pc'.left < pc.left) :
    State.work cfg { s.setWk c pc' with store := st, lock := lock } < s.work cfg := by
  apply work_lowers member
  · exact fun d other => desk_other (Function.update_of_ne other ..) rfl
  · simp only [State.house, State.desk, State.setWk, Function.update_self, at_pc]
    omega

omit [DecidableEq I] in
theorem failed_lowers {hist : Hist} (member : c ∈ cfg.clients) (asking : (s.cl c).pc = .alloc) :
    State.work cfg { s.failed c with hist := hist } < s.work cfg := by
  apply work_lowers member
  · exact fun d other => desk_other (Function.update_of_ne other ..) (Function.update_of_ne other ..)
  · simp only [State.house, State.desk, State.failed, Function.update_self, asking, WorkerPc.left, ClientPc.left]
    omega

/-! ### The desk -/

omit [DecidableEq I] in
@[grind =]
theorem setWk_wk (pc : WorkerPc) (d : C) : (s.setWk c pc).wk d = if d = c then pc else s.wk d := Function.update_apply ..

omit [DecidableEq I] in
@[grind =]
theorem setWk_cl (pc : WorkerPc) (d : C) : (s.setWk c pc).cl d = s.cl d := rfl

omit [DecidableEq I] in
@[grind =]
theorem setWk_lock (pc : WorkerPc) : (s.setWk c pc).lock = s.lock := rfl

omit [DecidableEq I] in
@[grind =]
theorem setWk_mgr (pc : WorkerPc) : (s.setWk c pc).mgr = s.mgr := rfl

omit [DecidableEq I] in
@[grind =]
theorem failed_wk (d : C) : (s.failed c).wk d = if d = c then .done else s.wk d := Function.update_apply ..

omit [DecidableEq I] in
@[grind =]
theorem failed_cl (d : C) : (s.failed c).cl d = if d = c then { s.cl c with pc := .failed } else s.cl d :=
  Function.update_apply ..

omit [DecidableEq I] in
@[grind =]
theorem failed_lock : (s.failed c).lock = none := rfl

omit [DecidableEq I] in
@[grind =]
theorem failed_mgr : (s.failed c).mgr = s.mgr := rfl

/-- Who asks is served, and the lock is held by a worker that is at the registry or by the
manager that releases. -/
structure Desk (cfg : Config C I R) (s : State C I R) : Prop where
  serving : ∀ c, s.wk c ≠ .done → (s.cl c).pc = .alloc ∧ c ∈ cfg.clients
  asking : ∀ c, (s.cl c).pc = .alloc → s.wk c ≠ .done ∧ (s.cl c).ns ≠ none
  worker : ∀ c, s.lock = some (.worker c) → s.wk c = .slot ∨ s.wk c = .range
  mgr : s.lock = some .mgr → cfg.fixRingbufLock = true ∧ s.mgr ≠ none

variable [DecidableEq R]

theorem ClientStep.desk (step : ClientStep cfg s c s') (member : c ∈ cfg.clients) (desk : Desk cfg s) : Desk cfg s' := by
  obtain ⟨serving, asking, worker, mgr⟩ := desk
  cases step <;> constructor <;>
    grind -ring -linarith [Function.update_apply]

omit [DecidableEq C] [DecidableEq R] in
theorem reported_desk (cfg : Config C I R) (s : State C I R) (i : I) :
    (reported cfg s i).lock = s.lock ∧ (reported cfg s i).mgr = s.mgr ∧ (reported cfg s i).restart = s.restart ∧
      (reported cfg s i).kernel = s.kernel ∧ (reported cfg s i).hist.starved = s.hist.starved := by
  unfold reported
  split
  · split <;> exact ⟨rfl, rfl, rfl, rfl, rfl⟩
  · exact ⟨rfl, rfl, rfl, rfl, rfl⟩

theorem Next.desk (step : Next cfg s s') (desk : Desk cfg s) : Desk cfg s' := by
  cases step with
  | client member step => exact step.desk member desk
  | @nsDie n i alive unused unpinned inode =>
    obtain ⟨store, cl, wk⟩ := reported_same cfg s i
    obtain ⟨lock, mgr, _⟩ := reported_desk cfg s i
    constructor
    all_goals simp only [cl, wk, lock, mgr]
    · exact desk.serving
    · exact desk.asking
    · exact desk.worker
    · exact desk.mgr
  | mgrTake idle event free =>
    obtain ⟨serving, asking, worker, mgr⟩ := desk
    constructor <;> grind -ring -linarith
  | mgrRelease busy =>
    obtain ⟨serving, asking, worker, mgr⟩ := desk
    constructor <;> grind -ring -linarith
  | restart budget idle =>
    obtain ⟨serving, asking, worker, mgr⟩ := desk
    constructor <;> grind -ring -linarith

theorem desk : (spec cfg).Invariant (Desk cfg) := by
  refine System.Invariant.of_step ?_ fun _ _ desk step => step.desk desk
  rintro _ rfl
  exact ⟨fun _ busy => absurd rfl busy, fun _ => ClientPc.noConfusion, fun _ held => (by cases held), fun held => (by cases held)⟩

/-! ### Every step costs something -/

omit [DecidableEq C] [DecidableEq I] [DecidableEq R] in
/-- The inode of a namespace that a client holds. -/
theorem Inv.inside (inv : Inv cfg s) {n : ℕ} {i : I} (ns : (s.cl c).ns = some n) (inode : s.kernel.nsInode n = some i) :
    i ∈ cfg.inodes := by
  obtain ⟨j, inside, same, _⟩ := inv.kernel.used n (inv.held.alive c n ns)
  obtain rfl : i = j := Option.some.inj (inode.symm.trans same)
  exact inside

theorem ClientStep.lowers (step : ClientStep cfg s c s') (member : c ∈ cfg.clients) (inv : Inv cfg s) (desk : Desk cfg s) :
    s'.work cfg < s.work cfg := by
  cases step with
  | @create i idle bound free =>
    apply work_lowers member
    · exact fun d other => desk_other (Function.update_of_ne other ..) (Function.update_of_ne other ..)
    · have new : s.kernel.nextId ∉ s.kernel.nsAlive := fun live => lt_irrefl _ (inv.kernel.old _ live)
      simp only [State.house, State.desk, Kernel.created, Function.update_self, Finset.card_insert_of_notMem new, WorkerPc.left,
        ClientPc.left]
      omega
  | @drop n ended ns =>
    apply work_lowers member
    · exact fun d other => desk_other rfl (Function.update_of_ne other ..)
    · have left : (s.cl c).pc.left = 1 := by
        obtain pc | pc := ended
        · rw [pc]
          rfl
        · rw [pc]
          rfl
      have idle : ClientPc.idle.left = 0 := rfl
      simp only [State.house, State.desk, Kernel.dropped, Function.update_self, left, idle]
      omega
  | wLock pc free => exact setWk_lowers member pc le_rfl (by decide)
  | wSlotEmpty pc ns inode empty => exact setWk_lowers member pc le_rfl (by decide)
  | @wSlotStale n i e pc ns inode entry other => exact setWk_lowers member pc (files_le (released_left i)) (by decide)
  | wSlotTaken pc =>
    have asking := (desk.serving c (by rw [pc]; decide)).1
    have lowers : State.work cfg { s.failed c with hist := s.hist } < s.work cfg := failed_lowers member asking
    exact lowers
  | @wRange n i r pc ns inode free =>
    apply work_lowers member
    · exact fun d other => desk_other (Function.update_of_ne other ..) rfl
    · have files : (s.store.stored i n r).files cfg + (s.store.registry i).left =
          s.store.files cfg + ((s.store.stored i n r).registry i).left :=
        files_change (inv.inside ns inode) fun j other => Function.update_of_ne other ..
      have here : ((s.store.stored i n r).registry i).left = 2 := by
        change (Function.update s.store.registry i _ i).left = 2
        rw [Function.update_self]
        rfl
      simp only [State.house, State.desk, State.setWk, Kernel.mapped, Function.update_self, pc, WorkerPc.left]
      omega
  | @wRangeReap j pc none reap dead =>
    apply work_lowers member
    · exact fun _ _ => rfl
    · obtain ⟨inside, n, entry, _⟩ := Finset.mem_filter.mp dead
      have files : (s.store.released j).files cfg + (s.store.registry j).left =
          s.store.files cfg + ((s.store.released j).registry j).left :=
        files_change inside fun i other => Function.update_of_ne other ..
      have here : ((s.store.released j).registry j).left = 0 := by
        change (Function.update s.store.registry j noEntry j).left = 0
        rw [Function.update_self]
        rfl
      have before : 0 < (s.store.registry j).left := by
        rw [Entry.left, entry, if_neg (Option.some_ne_none n)]
        split <;> decide
      simp only [State.house, State.desk]
      omega
  | wRangeFail pc =>
    have asking := (desk.serving c (by rw [pc]; decide)).1
    exact failed_lowers member asking
  | @wPush n i pc ns inode =>
    have asking := (desk.serving c (by rw [pc]; decide)).1
    apply work_lowers member
    · exact fun d other => desk_other (Function.update_of_ne other ..) (Function.update_of_ne other ..)
    · have files : (s.store.pushed cfg i n).files cfg = s.store.files cfg := rfl
      simp only [State.house, State.desk, State.setWk, Function.update_self, pc, asking, WorkerPc.left, ClientPc.left, files]
      omega
  | @wResources n i pc role free ns inode entry fresh =>
    apply work_lowers member
    · exact fun _ _ => rfl
    · have files : (s.store.delegated i n).files cfg + (s.store.registry i).left =
          s.store.files cfg + ((s.store.delegated i n).registry i).left :=
        files_change (inv.inside ns inode) fun j other => Function.update_of_ne other ..
      have here : ((s.store.delegated i n).registry i).left = 1 := by
        change (Function.update s.store.registry i _ i).left = 1
        rw [Function.update_self, Entry.left, entry, if_neg (Option.some_ne_none n)]
        rfl
      have before : (s.store.registry i).left = 2 := by
        rw [Entry.left, entry, if_neg (Option.some_ne_none n), fresh]
        rfl
      simp only [State.house, State.desk]
      omega

omit [DecidableEq C] [DecidableEq R] in
theorem reported_ringbuf (cfg : Config C I R) (s : State C I R) (i : I) :
    (reported cfg s i).ringbuf.length ≤ s.ringbuf.length + 1 := by
  unfold reported
  split
  · split
    · simp
    · exact Nat.le_succ _
  · exact Nat.le_succ _

omit [DecidableEq C] [DecidableEq I] [DecidableEq R] in
theorem work_le (desks : ∀ c, s'.desk c ≤ s.desk c) (house : s'.house cfg < s.house cfg) : s'.work cfg < s.work cfg :=
  Nat.add_lt_add_of_lt_of_le house (Finset.sum_le_sum fun c _ => desks c)

theorem Next.lowers (step : Next cfg s s') (inv : Inv cfg s) (desk : Desk cfg s) : s'.work cfg < s.work cfg := by
  cases step with
  | client member step => exact step.lowers member inv desk
  | @nsDie n i alive unused unpinned inode =>
    obtain ⟨store, cl, wk⟩ := reported_same cfg s i
    obtain ⟨_, mgr, restart, _⟩ := reported_desk cfg s i
    apply work_le
    · intro c
      simp only [State.desk, cl, wk]
      exact le_rfl
    · have longer := reported_ringbuf cfg s i
      have fewer : (s.kernel.nsAlive.erase n).card + 1 = s.kernel.nsAlive.card := Finset.card_erase_add_one alive
      simp only [State.house, Kernel.died, store, mgr, restart]
      omega
  | @mgrTake i rest idle event free =>
    refine work_le (fun c => Nat.le_refl (s.desk c)) ?_
    simp only [State.house, idle, event, Option.isSome_some, Option.isSome_none, Bool.toNat_true, Bool.toNat_false, List.length_cons]
    omega
  | @mgrRelease i busy =>
    refine work_le (fun c => Nat.le_refl (s.desk c)) ?_
    have files : (mgrReleased cfg s.kernel.nsAlive s.store i).files cfg ≤ s.store.files cfg :=
      files_le (mgrReleased_left s.kernel.nsAlive i)
    simp only [State.house, busy, Option.isSome_some, Option.isSome_none, Bool.toNat_true, Bool.toNat_false]
    omega
  | restart budget idle =>
    apply work_le
    · intro c
      simp only [State.desk, WorkerPc.left]
      split
      next asking =>
        rw [asking]
        simp only [ClientPc.left]
        omega
      next => exact Nat.add_le_add_right (Nat.zero_le _) _
    · have files : (swept cfg s.store s.kernel.nsAlive).files cfg ≤ s.store.files cfg := files_le (swept_left s.kernel.nsAlive)
      simp only [State.house]
      omega

/-! ### What the registry is owed -/

/-- Unless an event was dropped, the manager has or will get the inode of every dead
namespace that is registered. -/
structure Owed (cfg : Config C I R) (s : State C I R) : Prop where
  mapped : ∀ i n, (s.store.registry i).id = some n → s.kernel.nsRange n ≠ none
  owed : s.hist.dropped = false → ∀ i n, (s.store.registry i).id = some n → n ∉ s.kernel.nsAlive → i ∈ s.ringbuf ∨ s.mgr = some i
  fdstore : cfg.fdstorePins = false → s.store.fdstore = ∅
  room : s.ringbuf.length + s.kernel.nsAlive.card < s.kernel.nextId ∧ s.kernel.nextId ≤ cfg.idMax + 1
  full : cfg.idMax ≤ cfg.ringCap → s.hist.dropped = false
  starved : cfg.fixReapOnAlloc = true → s.hist.starved = false

omit [DecidableEq C] [DecidableEq I] [DecidableEq R] in
/-- The registry loses entries, and nothing else changes that is owed. -/
theorem Owed.fewer (owed : Owed cfg s) (kernel : s'.kernel = s.kernel)
    (entries : ∀ i n, (s'.store.registry i).id = some n → (s.store.registry i).id = some n) (ringbuf : s'.ringbuf = s.ringbuf)
    (mgr : s'.mgr = s.mgr) (fdstore : s'.store.fdstore ⊆ s.store.fdstore) (hist : s'.hist = s.hist) : Owed cfg s' := by
  obtain ⟨mapped, owes, empty, room, full, starved⟩ := owed
  refine ⟨?_, ?_, fun off => Finset.subset_empty.mp (empty off ▸ fdstore), ?_, ?_, ?_⟩
  · rw [kernel]
    exact fun i n entry => mapped i n (entries i n entry)
  · rw [kernel, ringbuf, mgr, hist]
    exact fun kept i n entry => owes kept i n (entries i n entry)
  · rw [kernel, ringbuf]
    exact room
  · rw [hist]
    exact full
  · rw [hist]
    exact starved

omit [DecidableEq R] in
theorem released_id {i j : I} {n : ℕ} (entry : ((st.released i).registry j).id = some n) : (st.registry j).id = some n := by
  change (Function.update st.registry i noEntry j).id = some n at entry
  by_cases here : j = i
  · subst here
    rw [Function.update_self] at entry
    cases entry
  · rwa [Function.update_of_ne here] at entry

theorem ClientStep.owed (step : ClientStep cfg s c s') (inv : Inv cfg s) (owed : Owed cfg s) : Owed cfg s' := by
  cases step with
  | @create i idle bound free =>
    obtain ⟨mapped, owes, empty, room, full, starved⟩ := owed
    refine ⟨mapped, fun kept j n entry dead => ?_, empty, ?_, full, starved⟩
    · exact owes kept j n entry fun live => dead (Finset.mem_insert_of_mem live)
    · have new : s.kernel.nextId ∉ s.kernel.nsAlive := fun live => lt_irrefl _ (inv.kernel.old _ live)
      simp only [Kernel.created, Finset.card_insert_of_notMem new]
      omega
  | drop | wLock | wSlotEmpty | wSlotTaken =>
    exact ⟨owed.mapped, owed.owed, owed.fdstore, owed.room, owed.full, owed.starved⟩
  | wSlotStale => exact owed.fewer rfl (fun _ _ => released_id) rfl rfl (Finset.filter_subset ..) rfl
  | @wRange n i r pc ns inode free =>
    obtain ⟨mapped, owes, empty, room, full, starved⟩ := owed
    refine ⟨fun j m entry => ?_, fun kept j m entry dead => ?_, empty, room, full, starved⟩
    · change (Function.update s.store.registry i _ j).id = some m at entry
      change Function.update s.kernel.nsRange n (some r) m ≠ none
      by_cases own : m = n
      · rw [own, Function.update_self]
        exact Option.some_ne_none r
      · rw [Function.update_of_ne own]
        by_cases here : j = i
        · rw [here, Function.update_self] at entry
          exact absurd (Option.some.inj entry).symm own
        · rw [Function.update_of_ne here] at entry
          exact mapped j m entry
    · change (Function.update s.store.registry i _ j).id = some m at entry
      by_cases here : j = i
      · rw [here, Function.update_self] at entry
        obtain rfl : n = m := Option.some.inj entry
        exact absurd (inv.held.alive c n ns) dead
      · rw [Function.update_of_ne here] at entry
        exact owes kept j m entry dead
  | wRangeReap => exact owed.fewer rfl (fun _ _ => released_id) rfl rfl (Finset.filter_subset ..) rfl
  | wRangeFail pc none stuck =>
    refine ⟨owed.mapped, owed.owed, owed.fdstore, owed.room, owed.full, fun reap => ?_⟩
    have nobody : s.store.dead cfg s.kernel.nsAlive = ∅ := stuck.resolve_left (by rw [reap]; exact Bool.noConfusion)
    simp [owed.starved reap, nobody]
  | wPush =>
    refine ⟨owed.mapped, owed.owed, fun off => ?_, owed.room, owed.full, owed.starved⟩
    change (if cfg.fdstorePins then _ else s.store.fdstore) = ∅
    rw [off]
    exact owed.fdstore off
  | @wResources n i pc role free ns inode entry fresh =>
    refine owed.fewer rfl (fun j m entry' => ?_) rfl rfl subset_rfl rfl
    change (Function.update s.store.registry i { s.store.registry i with cg := true, netif := true } j).id = some m at entry'
    by_cases here : j = i
    · rw [here, Function.update_self] at entry'
      rw [here]
      exact entry'
    · rwa [Function.update_of_ne here] at entry'

omit [DecidableEq C] [DecidableEq R] in
theorem Owed.died (owed : Owed cfg s) (inv : Inv cfg s) {n : ℕ} {i : I} (alive : n ∈ s.kernel.nsAlive)
    (inode : s.kernel.nsInode n = some i) : Owed cfg { reported cfg s i with kernel := s.kernel.died n i } := by
  obtain ⟨mapped, owes, empty, room, full, starved⟩ := owed
  have fewer : (s.kernel.nsAlive.erase n).card + 1 = s.kernel.nsAlive.card := Finset.card_erase_add_one alive
  have known {j : I} {m : ℕ} (entry : (s.store.registry j).id = some m) (dead : m ∉ s.kernel.nsAlive.erase n)
      (kept : s.hist.dropped = false) : (j ∈ s.ringbuf ∨ s.mgr = some j) ∨ j = i ∧ i ∈ s.store.managed := by
    by_cases own : m = n
    · subst own
      obtain rfl : j = i := Option.some.inj ((inv.store.consistent j m entry alive).symm.trans inode)
      obtain ⟨r, range⟩ := Option.ne_none_iff_exists'.mp (mapped j m entry)
      exact .inr ⟨rfl, (inv.store.registered m r j ⟨alive, range⟩ inode).2.2⟩
    · exact .inl (owes kept j m entry fun live => dead (Finset.mem_erase.mpr ⟨own, live⟩))
  unfold reported
  split
  next managed =>
    split
    next space =>
      refine ⟨mapped, fun kept j m entry dead => ?_, empty, ?_, full, starved⟩
      · obtain before | ⟨rfl, _⟩ := known entry dead kept
        · exact before.imp_left (List.mem_append_left _)
        · exact .inl (List.mem_append_right _ (List.mem_singleton_self j))
      · simp only [Kernel.died, List.length_append, List.length_singleton]
        omega
    next space =>
      refine ⟨mapped, Bool.noConfusion, empty, ?_, fun large => ?_, starved⟩
      · simp only [Kernel.died]
        omega
      · -- Not more namespaces die than there are ids.
        have := Finset.card_pos.mpr ⟨n, alive⟩
        omega
  next unmanaged =>
    refine ⟨mapped, fun kept j m entry dead => ?_, empty, ?_, full, starved⟩
    · obtain before | ⟨_, managed⟩ := known entry dead kept
      · exact before
      · exact absurd managed unmanaged
    · simp only [Kernel.died]
      omega

theorem Next.owed (step : Next cfg s s') (inv : Inv cfg s) (owed : Owed cfg s) : Owed cfg s' := by
  cases step with
  | client _ step => exact step.owed inv owed
  | nsDie alive unused unpinned inode => exact owed.died inv alive inode
  | @mgrTake i rest idle event free =>
    obtain ⟨mapped, owes, empty, room, full, starved⟩ := owed
    refine ⟨mapped, fun kept j n entry dead => ?_, empty, ?_, full, starved⟩
    · obtain queued | busy := owes kept j n entry dead
      · rw [event] at queued
        obtain rfl | later := List.mem_cons.mp queued
        · exact .inr rfl
        · exact .inl later
      · cases idle.symm.trans busy
    · rw [event, List.length_cons] at room
      dsimp only
      omega
  | @mgrRelease i busy =>
    obtain ⟨mapped, owes, empty, room, full, starved⟩ := owed
    have before {j : I} {n : ℕ} (entry : ((mgrReleased cfg s.kernel.nsAlive s.store i).registry j).id = some n) :
        (s.store.registry j).id = some n := by
      rw [mgrReleased] at entry
      split at entry
      next => exact entry
      next =>
        split at entry
        next => exact entry
        next => exact released_id entry
    refine ⟨fun j n entry => mapped j n (before entry), fun kept j n entry dead => ?_, fun off => ?_, room, full, starved⟩
    · obtain queued | same := owes kept j n (before entry) dead
      · exact .inl queued
      · -- The manager releases the entry, because its namespace is dead.
        obtain rfl : i = j := Option.some.inj (busy.symm.trans same)
        have gone : mgrReleased cfg s.kernel.nsAlive s.store i = s.store.released i := by
          rw [mgrReleased, before entry]
          exact if_neg fun lives => dead lives.2
        rw [gone] at entry
        change (Function.update s.store.registry i noEntry i).id = some n at entry
        rw [Function.update_self] at entry
        cases entry
    · change (mgrReleased cfg s.kernel.nsAlive s.store i).fdstore = ∅
      rw [mgrReleased]
      split
      next => rw [Store.cleaned, empty off]; rfl
      next =>
        split
        next => exact empty off
        next => rw [Store.released, empty off]; rfl
  | restart budget idle =>
    refine owed.fewer rfl (fun i n entry => ?_) rfl rfl (Finset.filter_subset ..) rfl
    change (if i ∈ staleEntries cfg s.store s.kernel.nsAlive then noEntry else s.store.registry i).id = some n at entry
    split at entry
    next => cases entry
    next => exact entry

theorem owed (verify : cfg.fixNsidVerify = true) : (spec cfg).Invariant (Owed cfg) := by
  refine System.Invariant.relative (inv verify) ?_ fun _ _ inv _ owed step => step.owed inv owed
  rintro _ rfl
  refine ⟨fun _ _ entry => ?_, fun _ _ _ entry => ?_, fun _ => rfl, ⟨?_, ?_⟩, fun _ => rfl, fun _ => rfl⟩
  · cases entry
  · cases entry
  · exact Nat.one_pos
  · exact Nat.le_add_left 1 _

/-! ### Fairness -/

/-- `WLock(c) \/ WSlot(c) \/ WRange(c) \/ WPush(c)`: the steps of a client that is being served. -/
def Serves (cfg : Config C I R) (c : C) (s s' : State C I R) : Prop := s.wk c ≠ .done ∧ ClientStep cfg s c s'

def Dies (cfg : Config C I R) (n : ℕ) (s s' : State C I R) : Prop :=
  n ∈ s.kernel.nsAlive ∧ s.kernel.nsRefs n = 0 ∧ ¬ Pinned s.store n ∧
    ∃ i, s.kernel.nsInode n = some i ∧ s' = { reported cfg s i with kernel := s.kernel.died n i }

/-- `MgrTake \/ MgrRelease` -/
def Manages (cfg : Config C I R) (s s' : State C I R) : Prop :=
  (∃ i rest, s.mgr = none ∧ s.ringbuf = i :: rest ∧ (cfg.fixRingbufLock = true → s.lock = none) ∧
      s' = { s with lock := if cfg.fixRingbufLock then some .mgr else s.lock, mgr := some i, ringbuf := rest }) ∨
    ∃ i, s.mgr = some i ∧
      s' = { s with
        store := mgrReleased cfg s.kernel.nsAlive s.store i
        lock := if cfg.fixRingbufLock then none else s.lock
        mgr := none }

structure Fair (cfg : Config C I R) (states : ℕ → State C I R) : Prop where
  worker : ∀ c ∈ cfg.clients, System.WeaklyFair (Serves cfg c) states
  dies : ∀ n, System.WeaklyFair (Dies cfg n) states
  manager : System.WeaklyFair (Manages cfg) states

theorem Dies.next {n : ℕ} (dies : Dies cfg n s s') : Next cfg s s' := by
  obtain ⟨alive, unused, unpinned, i, inode, rfl⟩ := dies
  exact .nsDie alive unused unpinned inode

theorem Manages.next (manages : Manages cfg s s') : Next cfg s s' := by
  obtain ⟨i, rest, idle, event, free, rfl⟩ | ⟨i, busy, rfl⟩ := manages
  · exact .mgrTake idle event free
  · exact .mgrRelease busy

/-- A worker that is not at the lock can go on. -/
theorem Desk.serves (desk : Desk cfg s) (inv : Inv cfg s) (busy : s.wk c ≠ .done) (free : s.wk c = .lock → s.lock = none) :
    ∃ s', Serves cfg c s s' := by
  obtain ⟨asking, member⟩ := desk.serving c busy
  obtain ⟨n, ns⟩ := Option.ne_none_iff_exists'.mp (desk.asking c asking).2
  obtain ⟨i, _, inode, _⟩ := inv.kernel.used n (inv.held.alive c n ns)
  cases pc : s.wk c with
  | lock => exact ⟨_, busy, .wLock pc (free pc)⟩
  | slot =>
    cases entry : (s.store.registry i).id with
    | none => exact ⟨_, busy, .wSlotEmpty pc ns inode entry⟩
    | some e =>
      by_cases other : cfg.fixNsidVerify = true ∧ e ≠ n
      · exact ⟨_, busy, .wSlotStale pc ns inode entry other⟩
      · exact ⟨_, busy, .wSlotTaken pc ns inode entry other⟩
  | range =>
    obtain none | ⟨r, free⟩ := (s.store.freeRange cfg).eq_empty_or_nonempty
    · obtain nobody | ⟨j, dead⟩ := (s.store.dead cfg s.kernel.nsAlive).eq_empty_or_nonempty
      · exact ⟨_, busy, .wRangeFail pc none (.inr nobody)⟩
      · cases reap : cfg.fixReapOnAlloc with
        | false => exact ⟨_, busy, .wRangeFail pc none (.inl reap)⟩
        | true => exact ⟨_, busy, .wRangeReap pc none reap dead⟩
    · exact ⟨_, busy, .wRange pc ns inode free⟩
  | push => exact ⟨_, busy, .wPush pc ns inode⟩
  | done => exact absurd pc busy

/-- What is left when everybody who has to has acted. -/
structure Reclaimed (cfg : Config C I R) (s : State C I R) : Prop where
  answered : ∀ c, s.wk c = .done ∧ (s.cl c).pc ≠ .alloc
  free : s.lock = none ∧ s.mgr = none ∧ s.ringbuf = []
  reclaimed : s.hist.dropped = false → ∀ i n, (s.store.registry i).id = some n → n ∈ s.kernel.nsAlive
  room : cfg.idMax ≤ cfg.ringCap → s.hist.dropped = false
  pinned : ∀ n ∈ s.kernel.nsAlive, s.kernel.nsRefs n = 0 → cfg.fdstorePins = true ∧ Pinned s.store n
  fed : cfg.fixReapOnAlloc = true → s.hist.starved = false

theorem reclaimed_of_rest (inv : Inv cfg s) (desk : Desk cfg s) (owed : Owed cfg s)
    (worker : ∀ c ∈ cfg.clients, ¬ ∃ s', Serves cfg c s s') (dies : ∀ n, ¬ ∃ s', Dies cfg n s s')
    (manager : ¬ ∃ s', Manages cfg s s') : Reclaimed cfg s := by
  have idle : s.mgr = none := by
    cases busy : s.mgr with
    | none => rfl
    | some i => exact absurd ⟨_, .inr ⟨i, busy, rfl⟩⟩ manager
  have waits (c : C) (busy : s.wk c ≠ .done) : s.wk c = .lock ∧ s.lock ≠ none := by
    have stuck := worker c (desk.serving c busy).2
    by_contra moves
    exact stuck (desk.serves inv busy fun pc => not_not.mp fun held => moves ⟨pc, held⟩)
  have free : s.lock = none := by
    cases held : s.lock with
    | none => rfl
    | some holder =>
      cases holder with
      | worker c =>
        have here := desk.worker c held
        have busy : s.wk c ≠ .done := by
          obtain pc | pc := here
          · rw [pc]
            decide
          · rw [pc]
            decide
        rw [(waits c busy).1] at here
        exact absurd here (by decide)
      | mgr => exact absurd idle (desk.mgr held).2
  have read : s.ringbuf = [] := by
    cases event : s.ringbuf with
    | nil => rfl
    | cons i rest => exact absurd ⟨_, .inl ⟨i, rest, idle, event, fun _ => free, rfl⟩⟩ manager
  have done (c : C) : s.wk c = .done := by
    by_contra busy
    exact (waits c busy).2 free
  refine ⟨fun c => ⟨done c, fun asking => (desk.asking c asking).1 (done c)⟩, ⟨free, idle, read⟩, fun kept i n entry => ?_, owed.full,
    fun n alive unused => ?_, owed.starved⟩
  · by_contra dead
    obtain queued | busy := owed.owed kept i n entry dead
    · rw [read] at queued
      exact List.not_mem_nil queued
    · cases idle.symm.trans busy
  · have pinned : Pinned s.store n := by
      by_contra unpinned
      obtain ⟨i, _, inode, _⟩ := inv.kernel.used n alive
      exact dies n ⟨_, alive, unused, unpinned, i, inode, rfl⟩
    refine ⟨Bool.eq_true_of_not_eq_false fun off => ?_, pinned⟩
    obtain ⟨x, stored, _⟩ := pinned
    rw [owed.fdstore off] at stored
    exact Finset.notMem_empty x stored

/-- Every fair behaviour comes to rest with all requests answered and all that is dead
reclaimed. -/
theorem everything_reclaimed (verify : cfg.fixNsidVerify = true) (behaviour : (spec cfg).Behaviour states) (fair : Fair cfg states) :
    ∃ n, (∀ m, n ≤ m → states m = states n) ∧ Reclaimed cfg (states n) := by
  have known (n : ℕ) := inv verify _ (behaviour.reachable n)
  have served (n : ℕ) := desk _ (behaviour.reachable n)
  have lowers (s s' : State C I R) (reached : (spec cfg).Reachable s) (step : Next cfg s s') : s'.work cfg < s.work cfg :=
    step.lowers (inv verify s reached) (desk s reached)
  obtain ⟨n, rests, idles⟩ := behaviour.idles (State.work cfg) lowers
  refine ⟨n, rests, reclaimed_of_rest (known n) (served n) (owed verify _ (behaviour.reachable n)) ?_ ?_ ?_⟩
  · exact fun c member => idles _ (fair.worker c member) fun _ serves => .client member serves.2
  · exact fun m => idles _ (fair.dies m) fun _ dies => dies.next
  · exact idles _ fair.manager fun _ manages => manages.next

section Small

/-- One client, one inode number and one range, and nothing that pins a namespace. -/
def single : Config (Fin 1) (Fin 1) (Fin 1) where
  clients := Finset.univ
  role _ := .executor
  inodes := Finset.univ
  ranges := Finset.univ
  idMax := 1
  ringCap := 1
  restartBudget := 0
  fdstorePins := false
  fixNsidVerify := true
  fixReapOnAlloc := true
  fixStartupSweep := true
  fixRingbufLock := true

/-- The namespace is registered, used and left, dies, and the manager takes its range back. -/
theorem single_rests : ∃ s, (spec single).Reachable s ∧ (∀ c, s.wk c = .done) ∧ s.kernel.nsAlive = ∅ ∧ s.ringbuf = [] ∧
    s.mgr = none ∧ s.kernel.nextId = 2 := by
  have client {s s' : State (Fin 1) (Fin 1) (Fin 1)} (reached : (spec single).Reachable s) (step : ClientStep single s 0 s') :
      (spec single).Reachable s' := reached.next (.client (Finset.mem_univ 0) step)
  have run := client (.init rfl) (.create (i := 0) rfl (by decide) (by decide))
  have run := client run (.wLock rfl rfl)
  have run := client run (.wSlotEmpty rfl rfl rfl rfl)
  have run := client run (.wRange (r := 0) rfl rfl rfl (by decide))
  have run := client run (.wPush rfl rfl rfl)
  have run := client run (.drop (.inl rfl) rfl)
  have run := run.next (.nsDie (n := 1) (i := 0) (by decide) (by decide)
    (fun pinned => pinned.elim fun x stored => Finset.notMem_empty x stored.1) rfl)
  have run := run.next (.mgrTake (i := 0) rfl rfl fun _ => rfl)
  have run := run.next (.mgrRelease (i := 0) rfl)
  exact ⟨_, run, by decide, by decide, rfl, rfl, rfl⟩

theorem single_reclaimed : ∃ s, s.kernel.nextId = 2 ∧ Reclaimed single s := by
  obtain ⟨s, reached, done, nobody, read, idle, next⟩ := single_rests
  obtain ⟨length, states, run, rfl⟩ := reached.run
  have fair : Fair single (System.halted length states) := by
    refine ⟨fun c _ => System.fair_halted ?_, fun n => System.fair_halted ?_, System.fair_halted ?_⟩
    · rintro ⟨after, busy, _⟩
      exact busy (done c)
    · rintro ⟨after, alive, _⟩
      rw [nobody] at alive
      exact Finset.notMem_empty n alive
    · rintro ⟨after, ⟨i, rest, _, event, _⟩ | ⟨i, busy, _⟩⟩
      · rw [read] at event
        cases event
      · rw [idle] at busy
        cases busy
  obtain ⟨n, rests, reclaimed⟩ := everything_reclaimed rfl run.behaviour fair
  exact ⟨_, next, System.halted_rest rests ▸ reclaimed⟩

end Small

end LinuxTla.Userns
