import LinuxTla.MntVacant.Books
import Mathlib.Algebra.BigOperators.Group.Finset.Piecewise

/-! What the parts of mntput() in `MntVacant.tla` leave of the tree, of who frees what and of the
filesystems. -/

namespace LinuxTla.MntVacant

open Lib

variable {M S H W : Type} {cfg : Config M S H} {s : State M S H W} {m x c : M} {w : W} {busy : Option M} {loose d : Finset M}

/-! ### What the invariant says of a mount -/

theorem Stages.idle (stages : Stages cfg s loose) (live : s.Live m) : ∀ it ∈ s.tw, it.m ≠ m := by
  rintro it inside rfl
  obtain kind | kind : it.kind = .release ∨ it.kind = .cleanup := by cases it.kind <;> simp
  · have vacant := stages.oldroot _ (stages.release it inside kind).1
    simp [live.1] at vacant
  · have doomed := (stages.cleanup it inside kind).2.1
    simp [live.2] at doomed

theorem Stages.unstuck (stages : Stages cfg s loose) (idle : ∀ it ∈ s.tw, it.m ≠ m) : s.stuck m = ∅ := by
  refine Finset.eq_empty_of_forall_notMem fun c inside => ?_
  obtain ⟨-, -, -, -, -, -, it, inside, here, -⟩ := stages.stuck c m inside
  exact idle it inside here

theorem Stages.notFree (stages : Stages cfg s loose) (alive : s.doomed m = false) : s.rcufree m = false := by
  by_contra called
  have doomed := (stages.rcufree m (by simpa using called)).1
  simp [alive] at doomed

theorem Stages.exists (stages : Stages cfg s loose) (called : s.rcufree m = false) : s.freed m = false := by
  by_contra freed
  have := stages.freed m (by simpa using freed)
  simp [called] at this

theorem Stages.noItem (stages : Stages cfg s loose) (vacant : s.vacant m = true) (released : s.oldroot m = false) :
    ∀ it ∈ s.tw, it.m ≠ m := by
  rintro it inside rfl
  obtain kind | kind : it.kind = .release ∨ it.kind = .cleanup := by cases it.kind <;> simp
  · simp [(stages.release it inside kind).1] at released
  · simp [(stages.cleanup it inside kind).1] at vacant

theorem Stages.notStuck (stages : Stages cfg s loose) (alive : s.doomed m = false) (p : M) : m ∉ s.stuck p := by
  intro inside
  have doomed := (stages.stuck m p inside).2.2.1
  simp [alive] at doomed

theorem Visible.of_holding (holds : Holding (s.walker w).pc) (tgt : (s.walker w).tgt = some m) : Visible s w m :=
  ⟨tgt, by rcases holds with pc | pc <;> simp [pc]⟩

variable [LinearOrder M]

theorem Tree.mem_kids [Fintype M] (tree : Tree cfg s busy) (stages : Stages cfg s loose) :
    c ∈ s.kids m ↔ s.hashed c = true ∧ cfg.parent c = some m := by
  simp only [State.kids, Finset.mem_filter, Finset.mem_univ, true_and, tree.parent c]
  constructor
  · rintro ⟨-, hashed, parent⟩
    rw [if_pos hashed] at parent
    exact ⟨hashed, parent⟩
  · rintro ⟨hashed, parent⟩
    rw [if_pos hashed]
    exact ⟨stages.exists (stages.notFree (tree.alive c hashed)), hashed, parent⟩

/-- What is vacant or doomed has nothing mounted on it. -/
theorem Tree.childless [Fintype M] (tree : Tree cfg s busy) (stages : Stages cfg s loose) (dead : ¬ s.Live m) :
    s.kids m = ∅ := by
  refine Finset.eq_empty_of_forall_notMem fun c inside => ?_
  obtain ⟨hashed, parent⟩ := (tree.mem_kids stages).mp inside
  exact dead (tree.below c m hashed parent)

theorem wrefs_pos [Fintype W] (sees : Visible s w m) : 1 ≤ wrefs s m :=
  Finset.card_pos.mpr ⟨w, by simpa using sees⟩

/-! ### Freeing -/

theorem Stages.free [Fintype M] (stages : Stages cfg s loose) (inside : m ∈ loose) :
    Stages cfg (s.free m) (loose.erase m) := by
  obtain ⟨doomed, released, called, idle, unstuck⟩ := stages.left m inside
  have grows : ∀ x, (s.free m).rcufree x = true ↔ x = m ∨ s.rcufree x = true := fun x => by
    by_cases here : x = m <;> simp [State.free, here]
  exact
    { stages with
      freed := fun x freed => (grows x).mpr (.inr (stages.freed x freed))
      rcufree := fun x called => by
        obtain rfl | called := (grows x).mp called
        · exact ⟨doomed, released⟩
        · exact stages.rcufree x called
      cleanup := fun it member kind => by
        obtain ⟨own, doomed, called, step⟩ := stages.cleanup it member kind
        refine ⟨own, doomed, ?_, step⟩
        simp [State.free, idle it member, called]
      stuck := fun c p member => by
        obtain ⟨mode, vacant, doomed, released, called, only, item⟩ := stages.stuck c p member
        have other : c ≠ m := fun here => unstuck p (here ▸ member)
        exact ⟨mode, vacant, doomed, released, by simp [State.free, other, called], only, item⟩
      left := fun x member => by
        obtain ⟨other, member⟩ := Finset.mem_erase.mp member
        obtain ⟨doomed, released, called, rest⟩ := stages.left x member
        exact ⟨doomed, released, by simp [State.free, other, called], rest⟩
      ends := fun x doomed released called => by
        have other : x ≠ m := fun here => by simp [State.free, here] at called
        have called : s.rcufree x = false := by simpa [State.free, other] using called
        exact (stages.ends x doomed released called).imp_left (Finset.mem_erase.mpr ⟨other, ·⟩) }

theorem Walkers.free [Fintype M] (walkers : Walkers cfg s) (pending : s.freed m = false) : Walkers cfg (s.free m) where
  each w :=
    { walkers.each w with
      waits := fun x called crossing tgt => by
        by_cases here : x = m
        · subst here
          simpa [State.free] using (walkers.each w).rcu.mpr (.inr crossing)
        · simp only [State.free, Function.update_of_ne here] at called ⊢
          exact (walkers.each w).waits x called crossing tgt
      waitsSrc := fun x called reading src => by
        by_cases here : x = m
        · subst here
          simpa [State.free] using (walkers.each w).rcu.mpr reading
        · simp only [State.free, Function.update_of_ne here] at called ⊢
          exact (walkers.each w).waitsSrc x called reading src }
  gone x freed := by
    have other : x ≠ m := fun here => by
      rw [here] at freed
      simp [State.free, pending] at freed
    simpa [State.free, other] using walkers.gone x freed

/-! ### The decrement -/

/-- mount_lock was taken since every walk began. -/
def Behind (s : State M S H W) : Prop := ∀ w, s.seq ≠ (s.walker w).seq

theorem Walkers.drop (walkers : Walkers cfg s) : Walkers cfg (s.drop m) ∧ Behind (s.drop m) := by
  have behind : Behind (s.drop m) := fun w same => by
    have := (walkers.each w).seq
    simp only [State.drop] at same
    omega
  refine ⟨⟨fun w => ?_, walkers.gone⟩, behind⟩
  exact
    { walkers.each w with
      seq := (walkers.each w).seq.trans (Nat.le_succ _)
      looks := fun _ _ same => absurd same (behind w)
      found := fun _ _ same => absurd same (behind w)
      lock := fun _ => behind w
      marked := fun _ _ same => absurd same (behind w) }

theorem drop_count (s : State M S H W) (m x : M) : (s.drop m).count x = s.count x - one m x := by
  by_cases here : x = m
  · subst here
    simp [State.drop]
  · simp [State.drop, here]

/-! ### The last put of a stand-in -/

@[simps] def State.die (s : State M S H W) (m : M) : State M S H W :=
  { s with doomed := Function.update s.doomed m true, inst := Function.update s.inst m .none }

theorem die_doomed_true : (s.die m).doomed x = true ↔ x = m ∨ s.doomed x = true := by
  by_cases here : x = m <;> simp [here]

theorem die_doomed_false : (s.die m).doomed x = false ↔ x ≠ m ∧ s.doomed x = false := by
  by_cases here : x = m <;> simp [here]

theorem die_live : (s.die m).Live x ↔ x ≠ m ∧ s.Live x := by
  unfold State.Live
  rw [die_doomed_false]
  exact and_left_comm

theorem Stages.die (stages : Stages cfg s ∅) (vacant : s.vacant m = true) (alive : s.doomed m = false) :
    Stages cfg (s.die m) (if s.oldroot m then ∅ else {m}) :=
  { stages with
    inst := fun x => by
      have inst := stages.inst x
      by_cases here : x = m
      · subst here
        simp [place]
      · simpa [here, place] using inst
    rcufree := fun x called => ⟨die_doomed_true.mpr (.inr (stages.rcufree x called).1), (stages.rcufree x called).2⟩
    cleanup := fun it inside kind => by
      obtain ⟨own, doomed, rest⟩ := stages.cleanup it inside kind
      exact ⟨own, die_doomed_true.mpr (.inr doomed), rest⟩
    stuck := fun c p inside => by
      obtain ⟨mode, vacant, doomed, rest⟩ := stages.stuck c p inside
      exact ⟨mode, vacant, die_doomed_true.mpr (.inr doomed), rest⟩
    left := fun x inside => by
      split at inside
      · simp at inside
      · case isFalse released =>
        obtain rfl := Finset.mem_singleton.mp inside
        have released : s.oldroot x = false := by simpa using released
        exact ⟨die_doomed_true.mpr (.inl rfl), released, stages.notFree alive, stages.noItem vacant released,
          stages.notStuck alive⟩
    ends := fun x doomed released called => by
      obtain rfl | doomed := die_doomed_true.mp doomed
      · have released : s.oldroot x = false := released
        simp [released]
      · exact .inr ((stages.ends x doomed released called).resolve_left (Finset.notMem_empty x)) }

theorem Tree.die (tree : Tree cfg s (some m)) (unhashed : s.hashed m = false)
    (childless : ∀ c, s.hashed c = true → cfg.parent c ≠ some m) : Tree cfg (s.die m) none :=
  { tree with
    alive := fun x on => die_doomed_false.mpr ⟨fun here => by simp [here, unhashed] at on, tree.alive x on⟩
    below := fun c p on parent => die_live.mpr ⟨fun here => childless c on (here ▸ parent), tree.below c p on parent⟩
    covers := fun c p parent live there _ =>
      have live := die_live.mp live
      tree.covers c p parent live.2 there fun same => live.1 (Option.some.inj same).symm }

theorem vacantPut_eq [Fintype M] (unhashed : s.hashed m = false) (listed : s.inst m = .null) :
    s.vacantPut m = if s.oldroot m then s.die m else (s.die m).free m := by
  simp [State.vacantPut, State.die, warnIf, unhashed, listed]

theorem vacantPutNoref_eq [Fintype M] (unhashed : s.hashed m = false) (listed : s.inst m = .none) :
    s.vacantPutNoref m = if s.oldroot m then s.die m else (s.die m).free m := by
  have same : Function.update s.inst m .none = s.inst := by rw [← listed, Function.update_eq_self]
  simp [State.vacantPutNoref, State.die, warnIf, unhashed, listed, same]

/-! ### The children come off the hash -/

/-- The stand-ins among `d` that are found dead with their release done. -/
def fallen (cfg : Config M S H) (s : State M S H W) (d : Finset M) : Finset M :=
  d.filter fun c => cfg.noref = true ∧ s.vacant c = true ∧ s.dead c = true

theorem cut_hashed_true : (s.cut cfg d).hashed x = true ↔ x ∉ d ∧ s.hashed x = true := by
  by_cases inside : x ∈ d <;> simp [State.cut, inside]

theorem cut_hashed_false : (s.cut cfg d).hashed x = false ↔ x ∈ d ∨ s.hashed x = false := by
  by_cases inside : x ∈ d <;> simp [State.cut, inside]

theorem cut_doomed_true (alive : ∀ c ∈ d, s.doomed c = false) : (s.cut cfg d).doomed x = true ↔
    s.doomed x = true ∨ x ∈ d ∧ cfg.noref = true ∧ s.vacant x = true ∧ s.verdict x = true := by
  by_cases standin : x ∈ d ∧ cfg.noref = true ∧ s.vacant x = true
  · obtain ⟨inside, mode, vacant⟩ := standin
    simp [State.cut, inside, mode, vacant, alive x inside]
  · simp only [State.cut, if_neg standin]
    tauto

theorem cut_doomed_false (alive : ∀ c ∈ d, s.doomed c = false) : (s.cut cfg d).doomed x = false ↔
    s.doomed x = false ∧ (x ∈ d → cfg.noref = true → s.vacant x = true → s.verdict x = false) := by
  rw [← Bool.not_eq_true, cut_doomed_true alive]
  simp only [Bool.not_eq_true, not_or, not_and]

theorem cut_live (alive : ∀ c ∈ d, s.doomed c = false) : (s.cut cfg d).Live x ↔ s.Live x := by
  unfold State.Live
  rw [cut_doomed_false alive]
  refine ⟨fun live => ⟨live.1, live.2.1⟩, fun live => ⟨live.1, live.2, fun _ _ vacant => ?_⟩⟩
  simp [live.1] at vacant

theorem Tree.cut (tree : Tree cfg s busy) (hashed : ∀ c ∈ d, s.hashed c = true)
    (open' : ∀ c ∈ d, ∀ p, cfg.parent c = some p → s.mpgone c = true ∨ busy = some p) : Tree cfg (s.cut cfg d) busy := by
  have alive : ∀ c ∈ d, s.doomed c = false := fun c inside => tree.alive c (hashed c inside)
  exact
    { parent := fun x => by
        by_cases inside : x ∈ d <;> simp [State.cut, inside, tree.parent x]
      top := fun x on => tree.top x (cut_hashed_true.mp on).2
      alive := fun x on => by
        obtain ⟨outside, on⟩ := cut_hashed_true.mp on
        exact (cut_doomed_false alive).mpr ⟨tree.alive x on, fun inside => absurd inside outside⟩
      below := fun c p on parent => (cut_live alive).mpr (tree.below c p (cut_hashed_true.mp on).2 parent)
      covers := fun c p parent live there calm => by
        refine cut_hashed_true.mpr ⟨fun inside => ?_, tree.covers c p parent ((cut_live alive).mp live) there calm⟩
        obtain gone | same := open' c inside p parent
        · simp [show s.mpgone c = false from there] at gone
        · exact calm same }

theorem Stages.cut (stages : Stages cfg s ∅) (alive : ∀ c ∈ d, s.doomed c = false) :
    Stages cfg (s.cut cfg d) (fallen cfg s d) := by
  have doomed : ∀ x, s.doomed x = true → (s.cut cfg d).doomed x = true := fun x doomed =>
    (cut_doomed_true alive).mpr (.inl doomed)
  exact
    { stages with
      inst := fun x => by
        have inst := stages.inst x
        by_cases inside : x ∈ d
        · by_cases vacant : s.vacant x = true <;> by_cases mode : cfg.noref = true <;>
            simp_all [State.cut, place]
        · simpa [State.cut, place, inside] using inst
      rcufree := fun x called => ⟨doomed x (stages.rcufree x called).1, (stages.rcufree x called).2⟩
      cleanup := fun it inside kind => by
        obtain ⟨own, dead, rest⟩ := stages.cleanup it inside kind
        exact ⟨own, doomed _ dead, rest⟩
      stuck := fun c p inside => by
        obtain ⟨mode, vacant, dead, rest⟩ := stages.stuck c p inside
        exact ⟨mode, vacant, doomed c dead, rest⟩
      left := fun x inside => by
        obtain ⟨inside, mode, vacant, dead⟩ := Finset.mem_filter.mp inside
        obtain ⟨verdict, released⟩ : s.verdict x = true ∧ s.oldroot x = false := by simpa [State.dead] using dead
        exact ⟨(cut_doomed_true alive).mpr (.inr ⟨inside, mode, vacant, verdict⟩), released, stages.notFree (alive x inside),
          stages.noItem vacant released, stages.notStuck (alive x inside)⟩
      ends := fun x doomed released called => by
        obtain doomed | ⟨inside, mode, vacant, verdict⟩ := (cut_doomed_true alive).mp doomed
        · exact .inr ((stages.ends x doomed released called).resolve_left (Finset.notMem_empty x))
        · have released : s.oldroot x = false := released
          exact .inl (Finset.mem_filter.mpr ⟨inside, mode, vacant, by simp [State.dead, verdict, released]⟩) }

theorem Releases.cut (releases : Releases cfg s) (alive : ∀ c ∈ d, s.doomed c = false) : Releases cfg (s.cut cfg d) :=
  { releases with sbact := fun x => by rw [cut_live alive]; exact releases.sbact x }

theorem mem_ordered [Fintype M] : x ∈ ordered cfg d ↔ x ∈ d := by
  simp [ordered]

theorem ordered_nodup [Fintype M] (d : Finset M) : (ordered cfg d).Nodup := by
  refine (Finset.sort_nodup _ _).map_on fun first inside second inside' same => ?_
  obtain ⟨a, -, rfl⟩ := Finset.mem_image.mp ((Finset.mem_sort _).mp inside)
  obtain ⟨b, -, rfl⟩ := Finset.mem_image.mp ((Finset.mem_sort _).mp inside')
  have here : a = b := same
  rw [here]

theorem count_ordered [Fintype M] (d : Finset M) (x : M) : (ordered cfg d).count x = if x ∈ d then 1 else 0 := by
  by_cases inside : x ∈ d
  · rw [if_pos inside, List.count_eq_one_of_mem (ordered_nodup d) (mem_ordered.mpr inside)]
  · rw [if_neg inside, List.count_eq_zero.mpr fun listed => inside (mem_ordered.mp listed)]

/-! ### The last put of a mount -/

theorem vacate_vacant_true : (s.vacate cfg m d).vacant x = true ↔ x = m ∨ s.vacant x = true := by
  by_cases here : x = m <;> simp [State.vacate, here]

theorem vacate_live : (s.vacate cfg m d).Live x ↔ x ≠ m ∧ s.Live x := by
  unfold State.Live
  rw [← Bool.not_eq_true, vacate_vacant_true, not_or, Bool.not_eq_true]
  exact and_assoc

theorem Tree.vacate (tree : Tree cfg s (some m)) (childless : ∀ c, s.hashed c = true → cfg.parent c ≠ some m) :
    Tree cfg (s.vacate cfg m d) none :=
  { tree with
    below := fun c p on parent =>
      vacate_live.mpr ⟨fun here => childless c on (here ▸ parent), tree.below c p on parent⟩
    covers := fun c p parent live there _ =>
      have live := vacate_live.mp live
      tree.covers c p parent live.2 there fun same => live.1 (Option.some.inj same).symm }

variable [DecidableEq H] [DecidableEq W]

/-- What the last put does to `m` itself. -/
structure Ends (cfg : Config M S H) (s : State M S H W) (m : M) (it : Item M H W) (loose : Finset M)
    (after : State M S H W) : Prop where
  here : it.m = m
  step : it.step = if loose = ∅ then .sb else .stuck
  tw : after.tw = insert it s.tw
  stuck : after.stuck = Function.update s.stuck m loose
  others : ∀ x, x ≠ m → after.vacant x = s.vacant x ∧ after.doomed x = s.doomed x ∧ after.oldroot x = s.oldroot x ∧
    after.inst x = s.inst x
  inst : after.inst m = place cfg after m
  ends : it.kind = .release ∧ after.vacant m = true ∧ after.oldroot m = true ∨
    it.kind = .cleanup ∧ after.vacant m = false ∧ after.doomed m = true ∧ after.oldroot m = false
  same : after.hashed = s.hashed ∧ after.freed = s.freed ∧ after.rcufree = s.rcufree

theorem Ends.live {it : Item M H W} {after : State M S H W} (ends : Ends cfg s m it loose after) (other : x ≠ m) :
    after.Live x ↔ s.Live x := by
  unfold State.Live
  rw [(ends.others x other).1, (ends.others x other).2.1]

theorem Ends.not_live {it : Item M H W} {after : State M S H W} (ends : Ends cfg s m it loose after) : ¬ after.Live m := by
  intro live
  obtain ⟨-, vacant, -⟩ | ⟨-, -, doomed, -⟩ := ends.ends
  · simp [live.1] at vacant
  · simp [live.2] at doomed

theorem Ends.mem {it i : Item M H W} {after : State M S H W} (ends : Ends cfg s m it loose after) :
    i ∈ after.tw ↔ i = it ∨ i ∈ s.tw := by
  rw [ends.tw, Finset.mem_insert]

theorem Ends.mem_stuck {it : Item M H W} {after : State M S H W} (ends : Ends cfg s m it loose after) (unstuck : s.stuck m = ∅)
    {p : M} : c ∈ after.stuck p ↔ p = m ∧ c ∈ loose ∨ c ∈ s.stuck p := by
  by_cases here : p = m
  · subst here
    simp [ends.stuck, unstuck]
  · simp [ends.stuck, here]

/-- The dead stand-ins are stuck on the mount that ends, the others where they were. -/
theorem Stages.close_stuck (stages : Stages cfg s loose) (live : s.Live m)
    (standins : ∀ c ∈ loose, cfg.noref = true ∧ s.vacant c = true) {it : Item M H W} {after : State M S H W}
    (ends : Ends cfg s m it loose after) {p : M} (member : c ∈ after.stuck p) :
    cfg.noref = true ∧ after.vacant c = true ∧ after.doomed c = true ∧ after.oldroot c = false ∧ after.rcufree c = false ∧
      (∀ q, c ∈ after.stuck q → q = p) ∧ ∃ i ∈ after.tw, i.m = p ∧ i.step = .stuck := by
  have unstuck := stages.unstuck (stages.idle live)
  have same : s.doomed c = true →
      after.vacant c = s.vacant c ∧ after.doomed c = s.doomed c ∧ after.oldroot c = s.oldroot c := fun doomed => by
    obtain ⟨vacant, doomed, released, -⟩ := ends.others c fun here => by simp [here, live.2] at doomed
    exact ⟨vacant, doomed, released⟩
  rw [ends.same.2.2]
  obtain ⟨rfl, member⟩ | member := (ends.mem_stuck unstuck).mp member
  · obtain ⟨mode, vacant⟩ := standins c member
    obtain ⟨doomed, released, called, -, apart⟩ := stages.left c member
    obtain ⟨vacant', doomed', released'⟩ := same doomed
    refine ⟨mode, vacant' ▸ vacant, doomed' ▸ doomed, released' ▸ released, called, fun q again => ?_,
      it, ends.mem.mpr (.inl rfl), ends.here, ?_⟩
    · obtain ⟨here, -⟩ | again := (ends.mem_stuck unstuck).mp again
      · exact here
      · exact absurd again (apart q)
    · rw [ends.step, if_neg (Finset.ne_empty_of_mem member)]
  · obtain ⟨mode, vacant, doomed, released, called, only, i, inside, own, step⟩ := stages.stuck c p member
    obtain ⟨vacant', doomed', released'⟩ := same doomed
    refine ⟨mode, vacant' ▸ vacant, doomed' ▸ doomed, released' ▸ released, called, fun q again => ?_,
      i, ends.mem.mpr (.inr inside), own, step⟩
    obtain ⟨-, again⟩ | again := (ends.mem_stuck unstuck).mp again
    · exact absurd member ((stages.left c again).2.2.2.2 p)
    · exact only q again

theorem Stages.close (stages : Stages cfg s loose) (live : s.Live m)
    (standins : ∀ c ∈ loose, cfg.noref = true ∧ s.vacant c = true)
    {it : Item M H W} {after : State M S H W} (ends : Ends cfg s m it loose after) : Stages cfg after ∅ := by
  obtain ⟨hashed, freed, rcufree⟩ := ends.same
  have idle := stages.idle live
  have called := stages.notFree live.2
  have other : ∀ {x}, s.doomed x = true → x ≠ m := fun doomed here => by simp [here, live.2] at doomed
  exact
    { inst := fun x => by
        by_cases here : x = m
        · exact here ▸ ends.inst
        · obtain ⟨vacant, doomed, -, inst⟩ := ends.others x here
          rw [inst, stages.inst x]
          simp only [place, vacant, doomed, hashed]
      freed := by rw [freed, rcufree]; exact stages.freed
      rcufree := fun x done => by
        rw [rcufree] at done
        obtain ⟨doomed, released⟩ := stages.rcufree x done
        obtain ⟨-, doomed', released', -⟩ := ends.others x (other doomed)
        exact ⟨doomed' ▸ doomed, released' ▸ released⟩
      oldroot := fun x pending => by
        by_cases here : x = m
        · subst here
          obtain ⟨-, vacant, -⟩ | ⟨-, -, -, released⟩ := ends.ends
          · exact vacant
          · simp [released] at pending
        · obtain ⟨vacant, -, released, -⟩ := ends.others x here
          rw [vacant]
          exact stages.oldroot x (released ▸ pending)
      unique := fun i member i' member' same => by
        obtain rfl | member := ends.mem.mp member <;> obtain rfl | member' := ends.mem.mp member'
        · rfl
        · exact absurd (same.symm.trans ends.here) (idle i' member')
        · exact absurd (same.trans ends.here) (idle i member)
        · exact stages.unique i member i' member' same
      release := fun i member kind => by
        obtain rfl | member := ends.mem.mp member
        · obtain ⟨-, -, pending⟩ | ⟨kind', -⟩ := ends.ends
          · refine ⟨ends.here ▸ pending, ?_⟩
            rw [ends.step]
            split <;> simp
          · simp [kind] at kind'
        · rw [(ends.others _ (idle i member)).2.2.1]
          exact stages.release i member kind
      cleanup := fun i member kind => by
        obtain rfl | member := ends.mem.mp member
        · obtain ⟨kind', -⟩ | ⟨-, own, doomed, -⟩ := ends.ends
          · simp [kind] at kind'
          · rw [ends.here, rcufree]
            refine ⟨own, doomed, called, ?_⟩
            rw [ends.step]
            split <;> simp
        · obtain ⟨vacant, doomed, -⟩ := ends.others _ (idle i member)
          rw [vacant, doomed, rcufree]
          exact stages.cleanup i member kind
      pending := fun x pending => by
        by_cases here : x = m
        · exact ⟨it, ends.mem.mpr (.inl rfl), ends.here.trans here.symm⟩
        · rw [(ends.others x here).2.2.1] at pending
          obtain ⟨i, member, own⟩ := stages.pending x pending
          exact ⟨i, ends.mem.mpr (.inr member), own⟩
      stuck := fun _ _ => stages.close_stuck live standins ends
      left := fun x inside => absurd inside (Finset.notMem_empty x)
      ends := fun x doomed released called => by
        by_cases here : x = m
        · exact .inr (.inl ⟨it, ends.mem.mpr (.inl rfl), ends.here.trans here.symm⟩)
        · obtain ⟨-, doomed', released', -⟩ := ends.others x here
          obtain inside | ⟨i, member, own⟩ | ⟨p, member⟩ :=
            stages.ends x (doomed' ▸ doomed) (released' ▸ released) (rcufree ▸ called)
          · exact .inr (.inr ⟨m, (ends.mem_stuck (stages.unstuck idle)).mpr (.inl ⟨rfl, inside⟩)⟩)
          · exact .inr (.inl ⟨i, ends.mem.mpr (.inr member), own⟩)
          · exact .inr (.inr ⟨p, (ends.mem_stuck (stages.unstuck idle)).mpr (.inr member)⟩) }

theorem Releases.close (releases : Releases cfg s) (live : s.Live m)
    {it : Item M H W} {after : State M S H W} (ends : Ends cfg s m it loose after) (sbact : after.sbact = s.sbact)
    (conn : after.conn = s.conn) (watched : after.watched = s.watched) (count : after.releases = s.releases) :
    Releases cfg after where
  sbact x := by
    rw [sbact, releases.sbact x, ends.tw]
    by_cases here : x = m
    · subst here
      have step : it.step = .stuck ∨ it.step = .sb := by
        rw [ends.step]
        split <;> simp
      exact iff_of_true (.inl live) (.inr ⟨it, Finset.mem_insert_self _ _, ends.here, step⟩)
    · rw [ends.live here]
      refine or_congr_right ⟨fun ⟨i, member, own⟩ => ⟨i, Finset.mem_insert_of_mem member, own⟩, fun ⟨i, member, own, step⟩ => ?_⟩
      obtain rfl | member := Finset.mem_insert.mp member
      · exact absurd (own.symm.trans ends.here) here
      · exact ⟨i, member, own, step⟩
  conn := by rw [conn, sbact]; exact releases.conn
  watched := by rw [conn, watched]; exact releases.watched
  unwatched := by rw [watched]; exact releases.unwatched
  releases := by rw [count, sbact]; exact releases.releases

end LinuxTla.MntVacant
