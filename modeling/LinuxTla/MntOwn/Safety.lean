import LinuxTla.MntOwn.Umount
import Mathlib.Data.Fin.VecNotation
import Mathlib.Order.Iterate

/-! What the books say about every run: nothing freed is pointed at, and what is left
when everything external is gone hangs on files that keep each other open. -/

namespace LinuxTla.MntOwn

open Lib

variable {M S : Type} [Fintype M] [LinearOrder M] {cfg : Config M S}
  {st : Tables M S} {s after : State M S} {ext hand : M → ℕ} {owe : S → ℕ} {m x y : M} {b t : S}

/-! ### Puts leave the namespace alone -/

@[simp] theorem put_ns : (st.put cfg m).ns = st.ns := by
  unfold Tables.put
  simp only
  repeat' split
  all_goals rfl

@[simp] theorem putAll_ns (ms : List M) : (st.putAll cfg ms).ns = st.ns := by
  induction ms generalizing st with
  | nil => rfl
  | cons m ms ih => rw [Tables.putAll, ih, put_ns]

variable [Fintype S] [DecidableEq S]

@[simp] theorem dropSb_ns : (st.dropSb cfg b).ns = st.ns := by
  induction st, b using Tables.dropSb.induct cfg with
  | case1 st s a zero none =>
    rw [Tables.dropSb, dif_pos zero]
    simp only [none]
    rfl
  | case2 st s a zero x file cloned ih =>
    rw [Tables.dropSb, dif_pos zero]
    simp only [file, cloned, if_true]
    exact ih
  | case3 st s a zero x file direct =>
    rw [Tables.dropSb, dif_pos zero]
    simp only [file, direct]
    exact put_ns
  | case4 st s a more =>
    rw [Tables.dropSb, dif_neg more]
    rfl

@[simp] theorem cleanup_ns : (st.cleanup cfg m).ns = st.ns := by
  have visit : (st.visit m).ns = st.ns := rfl
  have released : ((st.visit m).released m).ns = st.ns := rfl
  have free : ∀ t : Tables M S, (t.free m).ns = t.ns := fun _ => rfl
  unfold Tables.cleanup
  split
  · simp [released]
  · split <;> simp [free, visit]

/-! ### The books along a run -/

/-- Between the steps of a run nothing is in anybody's hands. -/
structure Kept (cfg : Config M S) (s : State M S) : Prop where
  books : Sound cfg s.ext 0 0 none ∅ s.tables
  root : s.nsalive = true → s.tables.ns cfg.root = true
  left : s.nsalive = false → ∀ m, s.tables.ns m = false

theorem Sound.regroup {ext' hand' : M → ℕ} (ok : Sound cfg ext hand owe none ∅ st)
    (same : ∀ x, ext x + hand x = ext' x + hand' x) : Sound cfg ext' hand' owe none ∅ st :=
  { ok with
    count := fun x => by
      have count := ok.count x
      have same := same x
      unfold refs at count ⊢
      omega }

/-- The head of the unmounted list is taken off. -/
theorem Sound.unlist {ms : List M} (ok : Sound cfg ext hand owe none ∅ st) (pending : st.unm = m :: ms) :
    Sound cfg ext (hand + one m) owe none ∅ { st with unm := ms } :=
  { ok with
    count := fun x => by
      have count := ok.count x
      have pins : pinsOn cfg { st with unm := ms } x = pinsOn cfg st x := pinsOn_congr rfl (holds_congr rfl)
      have owned : Owned cfg { st with unm := ms } x ↔ Owned cfg st x := Iff.rfl
      have stuck : stuckIn { st with unm := ms } x = stuckIn st x := rfl
      have head := congrFun (one_add_count m ms) x
      rw [← pending] at head
      rw [refs_hand]
      simp only [Pi.add_apply] at head
      unfold refs at count ⊢
      rw [pins, stuck, if_congr owned rfl rfl]
      dsimp only
      omega }

theorem kept_init (wf : cfg.WellFormed) {pin : S → Option M} (choice : PinChoice cfg pin) : Kept cfg (init cfg pin) := by
  have null : pin cfg.nullSb = none := by
    unfold PinChoice at choice
    split at choice
    · exact choice.1 _ wf.null_pinner
    · exact choice ▸ wf.null_pin
  have homes : ∀ b, (∃ m, cfg.sb m = b) → 0 < (Finset.univ.filter fun m => cfg.sb m = b).card := fun b ⟨m, home⟩ =>
    Finset.card_pos.mpr ⟨m, by simp [home]⟩
  have holds : ∀ b, Holds cfg (init cfg pin).tables b := by
    intro b
    by_cases home : ∃ m, cfg.sb m = b
    · have := homes b home
      left
      simp only [init]
      omega
    · exact .inr fun m here => home ⟨m, here⟩
  refine ⟨?_, fun _ => rfl, nofun⟩
  constructor
  case count =>
    intro m
    have stuck : stuckIn (init cfg pin).tables m = 0 := by simp [stuckIn, init]
    have owned : ¬ Owned cfg (init cfg pin).tables m := by simp [Owned, init]
    unfold refs pinsOn
    rw [stuck, if_neg owned]
    simp only [holds, and_true]
    simp [init]
    omega
  case active =>
    intro b real
    unfold users clonesOf
    simp only [holds, and_true]
    simp [Uses, init]
  case null_active =>
    simp [init, wf.null_sb]
  case null_pin => exact null
  case doomed =>
    intro m
    simp only [init]
    constructor
    · exact fun doomed => absurd doomed Bool.false_ne_true
    · intro zero
      omega
  case parent => exact fun m p parent => ⟨parent, rfl, rfl⟩
  case below => exact fun m p _ => ⟨rfl, rfl, fun _ => rfl⟩
  case mounted => exact fun m _ => ⟨rfl, rfl⟩
  case ns => simp [init]
  case tomb => simpa [init] using fun m => wf.null_sb m
  case sb => exact fun m _ => rfl
  all_goals simp [init]

theorem Kept.umount (wf : cfg.WellFormed) (owns : cfg.fixDisconnectPinners = true → cfg.fixDisown = false)
    (kept : Kept cfg s) (how : How) (mounted : s.Mounted cfg m) : Kept cfg (s.umount cfg m how) := by
  obtain ⟨-, alive, -, other, here, -⟩ := mounted
  refine ⟨kept.books.umountTree wf how owns here, fun _ => ?_, fun dead => absurd alive (by simpa using dead)⟩
  rw [State.umount_tables, umountTree_ns, if_neg (kept.books.root_notMem wf other)]
  exact kept.root alive

/-- A step that leaves the namespace alone. -/
theorem Kept.of_books (kept : Kept cfg s) (books : Sound cfg after.ext 0 0 none ∅ after.tables)
    (ns : after.tables.ns = s.tables.ns) (alive : after.nsalive = s.nsalive) : Kept cfg after where
  books := books
  root on := by
    rw [ns]
    exact kept.root (alive ▸ on)
  left dead := by
    rw [ns]
    exact kept.left (alive ▸ dead)

theorem Kept.next (wf : cfg.WellFormed) (owns : cfg.fixDisconnectPinners = true → cfg.fixDisown = false)
    (kept : Kept cfg s) (step : Next cfg s after) : Kept cfg after := by
  cases step with
  | lazyUmount _ mounted _ => exact kept.umount wf owns _ mounted
  | syncUmount _ mounted _ _ _ _ => exact kept.umount wf owns _ mounted
  | detachMounts _ mounted => exact kept.umount wf owns _ mounted
  | leave _ => exact ⟨kept.books, kept.root, kept.left⟩
  | putMntNs alive _ _ =>
    refine ⟨kept.books.umountTree wf _ owns (kept.root alive), nofun, fun _ x => ?_⟩
    change (Tables.umountTree cfg s.tables cfg.root _).ns x = false
    rw [umountTree_ns]
    split
    · rfl
    · case isFalse outside =>
      by_contra mounted
      exact outside (kept.books.subtree_root wf x (by simpa using mounted))
  | nsUnlockPut pending => exact kept.of_books ((kept.books.unlist pending).put wf) put_ns rfl
  | @close m held =>
    refine kept.of_books (Sound.put wf (kept.books.regroup fun x => ?_)) put_ns rfl
    by_cases here : x = m
    · subst here
      simp
      omega
    · simp [here]
  | cleanupMnt queued => exact kept.of_books (kept.books.cleanup wf queued) cleanup_ns rfl
  | settled _ => exact kept

theorem kept (wf : cfg.WellFormed) (owns : cfg.fixDisconnectPinners = true → cfg.fixDisown = false) :
    (spec cfg).Invariant (Kept cfg) := by
  apply Lib.System.Invariant.of_step
  · rintro _ ⟨pin, choice, rfl⟩
    exact kept_init wf choice
  · exact fun _ _ kept step => kept.next wf owns step

/-! ### Nothing freed is used -/

/-- A mount with a reference is neither doomed nor freed. -/
theorem Sound.counted (ok : Sound cfg ext hand owe none ∅ st) (held : refs cfg ext hand st m ≠ 0) :
    st.doomed m = false ∧ st.freed m = false := by
  have alive : st.doomed m = false := by
    by_contra doomed
    exact held (ok.gone (by simpa using doomed)).refs
  refine ⟨alive, ?_⟩
  by_contra freed
  have := ok.freed m (by simpa using freed)
  simp [alive] at this

theorem Sound.not_freed (ok : Sound cfg ext hand owe none ∅ st) (alive : st.doomed m = false) : st.freed m = false := by
  by_contra freed
  have := ok.freed m (by simpa using freed)
  simp [alive] at this

/-- A file keeps open what it lives on. -/
theorem Sound.pin (wf : cfg.WellFormed) (ok : Sound cfg ext hand owe none ∅ st) (file : st.pin b = some x)
    (active : 0 < st.active b) :
    if cfg.fixInternalClone then 0 < st.active (cfg.sb x) else st.freed x = false := by
  have holds : Holds cfg st b := .inl active
  split
  · case isTrue cloned =>
    have counts := ok.active (cfg.sb x) (wf.null_sb x)
    have clones : 0 < clonesOf cfg st (cfg.sb x) := by
      unfold clonesOf
      rw [if_pos cloned]
      exact Finset.card_pos.mpr ⟨b, by simp [file, holds]⟩
    omega
  · case isFalse direct =>
    have pins : 0 < pinsOn cfg st x := by
      unfold pinsOn
      rw [if_neg direct]
      exact Finset.card_pos.mpr ⟨b, by simp [file, holds]⟩
    refine (ok.counted ?_).2
    unfold refs
    omega

theorem Kept.noUAF (wf : cfg.WellFormed) (kept : Kept cfg s) : NoUAF cfg s where
  parent m _ p parent := kept.books.not_freed (kept.books.below m p parent).1
  stuck m _ x inside := by
    have waits : 0 < stuckIn s.tables x := Finset.card_pos.mpr ⟨m, by simpa using inside⟩
    have held : refs cfg s.ext 0 s.tables x ≠ 0 := by
      unfold refs
      omega
    exact Finset.mem_filter.mpr ⟨Finset.mem_univ x, (kept.books.counted held).2⟩
  pin b x active file := kept.books.pin wf file active
  held m freed := by
    have gone := kept.books.gone (kept.books.freed m freed)
    refine ⟨gone.ext, fun queued => ?_, List.count_eq_zero.mp gone.unm⟩
    have := ((kept.books.queued m).mp queued).1
    simp [freed] at this

theorem Kept.ownRef (kept : Kept cfg s) : OwnRef cfg s := by
  rintro - m - ⟨umounted, attached, -⟩
  have gone : s.tables.ns m = false := by
    have := kept.books.ns m
    simp_all
  obtain ⟨p, parent⟩ := Option.ne_none_iff_exists'.mp (kept.books.attached m gone attached)
  have alive := (kept.books.parent m p parent).2.2
  have counted := mt (kept.books.doomed m).mpr (by simp [alive])
  have := kept.books.count m
  omega

theorem Kept.tombOK (kept : Kept cfg s) : TombOK cfg s := fun m _ empty => (kept.books.tomb m).mpr empty

theorem Kept.tombLeaf (kept : Kept cfg s) : TombLeaf cfg s := by
  intro m _ tomb
  refine ⟨(kept.books.tomb m).mp tomb, ?_⟩
  by_contra children
  obtain ⟨c, child⟩ := Finset.nonempty_iff_ne_empty.mpr children
  have := (kept.books.below c m (kept.books.mem_children.mp child)).2.1
  simp [tomb] at this

/-! ### What survives -/

/-- Every superblock that keeps a file has a mount in the tree. -/
def Homed (cfg : Config M S) (s : State M S) : Prop := ∀ b x, s.tables.pin b = some x → ∃ y, cfg.sb y = b

theorem Kept.release_none (kept : Kept cfg s) (settled : s.Settled) : s.tables.release m = false := by
  by_contra release
  have release : s.tables.release m = true := by simpa using release
  have held : refs cfg s.ext 0 s.tables m ≠ 0 := by
    unfold refs
    rw [release, Bool.toNat_true]
    omega
  have queued := (kept.books.queued m).mpr ⟨(kept.books.counted held).2, nofun, .inr release⟩
  simp [settled.cleanq] at queued

/-- When all else is gone a mount is kept by a file or by its parent. -/
theorem Kept.survivor (kept : Kept cfg s) (settled : s.Settled) (alive : s.tables.freed m = false) :
    0 < pinsOn cfg s.tables m ∨ Owned cfg s.tables m := by
  have counted : s.tables.count m ≠ 0 := by
    intro zero
    have queued := (kept.books.queued m).mpr ⟨alive, nofun, .inl ((kept.books.doomed m).mpr zero)⟩
    simp [settled.cleanq] at queued
  have stuck : stuckIn s.tables m = 0 := by
    unfold stuckIn
    rw [Finset.card_eq_zero, Finset.filter_eq_empty_iff]
    intro p _ inside
    have queued := kept.books.stuck p (Finset.ne_empty_of_mem inside)
    simp [settled.cleanq] at queued
  have count := kept.books.count m
  unfold refs at count
  rw [settled.ext, kept.left settled.ns, settled.unm, kept.release_none settled, stuck] at count
  by_contra! none
  rw [if_neg none.2, Nat.le_zero.mp none.1] at count
  exact counted count

/-- The parent that owns a mount is alive and no tombstone. -/
theorem Kept.owner (kept : Kept cfg s) (owned : Owned cfg s.tables m) :
    ∃ p, s.tables.parent m = some p ∧ s.tables.freed p = false ∧ s.tables.tomb p = false := by
  obtain ⟨p, parent⟩ := Option.ne_none_iff_exists'.mp (kept.books.attached m owned.2.1 owned.1)
  obtain ⟨alive, open', -⟩ := kept.books.below m p parent
  exact ⟨p, parent, kept.books.not_freed alive, open'⟩

/-- A file that keeps a mount is kept by a mount in turn. -/
theorem Kept.pinner (direct : cfg.fixInternalClone = false) (kept : Kept cfg s) (settled : s.Settled)
    (homed : Homed cfg s) (pinned : 0 < pinsOn cfg s.tables m) :
    ∃ y, s.tables.freed y = false ∧ s.tables.tomb y = false ∧ Pins s y m := by
  unfold pinsOn at pinned
  simp only [direct, Bool.false_eq_true, if_false] at pinned
  obtain ⟨b, inside⟩ := Finset.card_pos.mp pinned
  obtain ⟨file, holds⟩ := (Finset.mem_filter.mp inside).2
  obtain ⟨home, here⟩ := homed b m file
  have active : 0 < s.tables.active b := holds.resolve_right fun homeless => homeless home here
  have real : b ≠ cfg.nullSb := by
    rintro rfl
    rw [kept.books.null_pin] at file
    cases file
  have counts := kept.books.active b real
  rw [clonesOf_direct direct] at counts
  simp only [Pi.zero_apply] at counts
  obtain ⟨y, inside⟩ := Finset.card_pos.mp (show 0 < users s.tables none b by omega)
  obtain ⟨alive, -, uses⟩ := (Finset.mem_filter.mp inside).2
  have on : s.tables.sb y = b := by simpa [kept.release_none settled] using uses
  refine ⟨y, alive, ?_, by rwa [on], by rwa [on]⟩
  by_contra tomb
  exact real (on.symm.trans ((kept.books.tomb y).mp (by simpa using tomb)))

theorem subset_iterate {α : Type} {f : Finset α → Finset α} (grows : ∀ c, c ⊆ f c) {n : ℕ} (more : 0 < n)
    (c : Finset α) : f c ⊆ f^[n] c := by
  obtain ⟨n, rfl⟩ := Nat.exists_eq_succ_of_ne_zero more.ne'
  rw [Function.iterate_succ_apply]
  exact Function.id_le_iterate_of_id_le grows n (f c)

theorem Kept.leaksAreCycles (direct : cfg.fixInternalClone = false) (disown : cfg.fixDisown = true) (kept : Kept cfg s)
    (homed : Homed cfg s) : LeaksAreCycles cfg s := by
  intro settled m alive
  have alive : s.tables.freed m = false := (Finset.mem_filter.mp alive).2
  let standing := (MntOwn.alive s).filter fun y => s.tables.tomb y = false
  have mem_standing : ∀ y, y ∈ standing ↔ s.tables.freed y = false ∧ s.tables.tomb y = false := by
    intro y
    simp [standing, MntOwn.alive]
  -- a mount that still has its filesystem is kept by a file only
  have cycle : ∀ y ∈ standing, ∃ x ∈ standing, Pins s x y := by
    intro y inside
    obtain ⟨alive, filled⟩ := (mem_standing y).mp inside
    have pinned := (kept.survivor settled alive).resolve_right fun owned => by
      have := owned.2.2 disown
      simp [filled] at this
    obtain ⟨x, alive', filled', pins⟩ := kept.pinner direct settled homed pinned
    exact ⟨x, (mem_standing x).mpr ⟨alive', filled'⟩, pins⟩
  have keeper : ∃ y ∈ standing, Keeps cfg s y m := by
    rcases kept.survivor settled alive with pinned | owned
    · obtain ⟨y, alive', filled, pins⟩ := kept.pinner direct settled homed pinned
      exact ⟨y, (mem_standing y).mpr ⟨alive', filled⟩, .inl ⟨direct, pins⟩⟩
    · obtain ⟨p, parent, alive', filled⟩ := kept.owner owned
      exact ⟨p, (mem_standing p).mpr ⟨alive', filled⟩, .inr ⟨owned.1, parent, .inr (owned.2.2 disown)⟩⟩
  obtain ⟨y, inside, keeps⟩ := keeper
  refine ⟨standing, Finset.filter_subset _ _, ⟨Finset.ne_empty_of_mem inside, cycle⟩, ?_⟩
  refine subset_iterate (fun c => Finset.subset_union_left) (Fintype.card_pos_iff.mpr ⟨m⟩) standing ?_
  refine Finset.mem_union_right _ (Finset.mem_filter.mpr ⟨?_, y, inside, keeps⟩)
  simpa [MntOwn.alive] using alive

/-- With the internal clones only parents keep mounts, and the topmost has none. -/
theorem Kept.mountsReaped (wf : cfg.WellFormed) (kept : Kept cfg s) : MountsReaped cfg s := by
  intro cloned settled m
  obtain ⟨rank, falls⟩ := wf.tree
  induction h : rank m using Nat.strong_induction_on generalizing m with
  | _ n ih =>
    by_contra alive
    have owned := (kept.survivor settled (by simpa using alive)).resolve_left (by simp [pinsOn_cloned cloned])
    obtain ⟨p, parent, alive', -⟩ := kept.owner owned
    have above := falls m p (kept.books.parent m p parent).1
    have reaped := ih (rank p) (by omega) p rfl
    simp [alive'] at reaped

theorem Kept.sbLeaksAreCycles (wf : cfg.WellFormed) (kept : Kept cfg s) (homed : Homed cfg s) :
    SbLeaksAreCycles cfg s := by
  intro cloned settled t active
  have reaped := kept.mountsReaped wf cloned settled
  have keeper : ∀ t, 0 < s.tables.active t → ∃ u, 0 < s.tables.active u ∧ SbKeeps cfg s u t := by
    intro t active
    have real : t ≠ cfg.nullSb := by
      rintro rfl
      rw [kept.books.null_active] at active
      exact lt_irrefl _ active
    have counts := kept.books.active t real
    have nobody : users s.tables none t = 0 := by simp [users, Uses, reaped]
    rw [nobody] at counts
    simp only [Pi.zero_apply] at counts
    have clones : 0 < clonesOf cfg s.tables t := by omega
    unfold clonesOf at clones
    rw [if_pos cloned] at clones
    obtain ⟨u, inside⟩ := Finset.card_pos.mp clones
    obtain ⟨file, holds⟩ := (Finset.mem_filter.mp inside).2
    obtain ⟨x, pin, -⟩ := Option.map_eq_some_iff.mp file
    obtain ⟨home, here⟩ := homed u x pin
    have active := holds.resolve_right fun homeless => homeless home here
    exact ⟨u, active, active, file⟩
  let standing := Finset.univ.filter fun t => 0 < s.tables.active t
  have inside : t ∈ standing := by simpa [standing] using active
  refine ⟨standing, ⟨Finset.ne_empty_of_mem inside, fun t inside => ?_⟩, ?_⟩
  · obtain ⟨u, up, keeps⟩ := keeper t (by simpa [standing] using inside)
    exact ⟨u, by simpa [standing] using up, keeps⟩
  · exact Function.id_le_iterate_of_id_le (f := sbKeptStep cfg s) (fun c => Finset.subset_union_left) _ standing inside

/-! ### Tombstones -/

/-- With the tombstones only cycles of pins leak, if every superblock that keeps a file has a mount. -/
theorem tombstones_safe (wf : cfg.WellFormed) (disown : cfg.fixDisown = true) (pinners : cfg.fixDisconnectPinners = false)
    (direct : cfg.fixInternalClone = false) :
    (spec cfg).Invariant fun s => NoUAF cfg s ∧ OwnRef cfg s ∧ TombOK cfg s ∧ TombLeaf cfg s ∧
      (Homed cfg s → LeaksAreCycles cfg s) :=
  (kept wf (by simp [pinners])).mono fun _ kept =>
    ⟨kept.noUAF wf, kept.ownRef, kept.tombOK, kept.tombLeaf, kept.leaksAreCycles direct disown⟩

/-- The layout of the report: `L` on `A` keeps a file on `A`. -/
def report (cloned : Bool) : Config (Fin 3) (Fin 4) where
  root := 0
  parent := ![none, some 0, some 1]
  sb := ![0, 1, 2]
  pin := ![none, none, some 1, none]
  locked := ∅
  extRefs := ![0, 1, 0]
  nsUsers := 1
  lazy := true
  sync := true
  detach := true
  fixPutMntNsDisconnect := true
  fixDisown := !cloned
  fixDisconnectPinners := false
  pinnersAncestorOnly := false
  pinnersReexamine := false
  fixInternalClone := cloned
  pinBusy := false
  anyPin := false
  selfPin := false
  pinnerSbs := ∅
  nullSb := 3

theorem report_wf (cloned : Bool) : (report cloned).WellFormed where
  root := by simp only [report]; decide
  tree := ⟨fun m => m.val, by simp only [Lib.Falls, report]; decide⟩
  null_sb := by simp only [report]; decide
  null_pin := rfl
  null_pinner := by simp [report]

theorem report_safe : (spec (report false)).Invariant fun s =>
    NoUAF (report false) s ∧ OwnRef (report false) s ∧ TombOK (report false) s ∧ TombLeaf (report false) s ∧
      (Homed (report false) s → LeaksAreCycles (report false) s) :=
  tombstones_safe (report_wf false) rfl rfl rfl

/-- One mount, and a superblock without a mount that keeps a file on it. -/
def stray (cloned : Bool) : Config Unit (Fin 3) where
  root := ()
  parent := fun _ => none
  sb := fun _ => 0
  pin := ![none, some (), none]
  locked := ∅
  extRefs := fun _ => 0
  nsUsers := 0
  lazy := true
  sync := true
  detach := true
  fixPutMntNsDisconnect := true
  fixDisown := !cloned
  fixDisconnectPinners := false
  pinnersAncestorOnly := false
  pinnersReexamine := false
  fixInternalClone := cloned
  pinBusy := false
  anyPin := false
  selfPin := false
  pinnerSbs := ∅
  nullSb := 2

theorem stray_wf (cloned : Bool) : (stray cloned).WellFormed where
  root _ := by simp [stray]
  tree := Lib.Acyclic.none
  null_sb _ := by simp [stray]
  null_pin := rfl
  null_pinner := by simp [stray]

/-- After the umount_tree() of the whole namespace. -/
def torn (cloned : Bool) : Tables Unit (Fin 3) :=
  { (init (stray cloned) (stray cloned).pin).tables with
    attached := fun _ => false
    umount := fun _ => true
    ns := fun _ => false }

theorem stray_umounted (cloned : Bool) (how : How) :
    Tables.umountTree (stray cloned) (init (stray cloned) (stray cloned).pin).tables () how =
      { torn cloned with unm := [()] } := by
  have only : (init (stray cloned) (stray cloned).pin).tables.subtree () = {()} := by
    ext
    simp [mem_subtree_self]
  have listed : ordered (stray cloned) {()} = [()] := Finset.sort_singleton _ _
  have gone : ((init (stray cloned) (stray cloned).pin).tables.markUmount {()}).Disconnect (stray cloned) () how :=
    .inr (.inr (.inl nofun))
  have marked : ((init (stray cloned) (stray cloned).pin).tables.markUmount {()}).umount () = true := by simp
  unfold Tables.umountTree
  simp only [only, listed, Tables.umountEach, umountOne_eq marked, if_pos gone]
  cases cloned <;> simp [torn, init, stray, Tables.list, Tables.leave, Tables.detach, Tables.markUmount] <;> rfl

theorem stray_dead (cloned : Bool) :
    (spec (stray cloned)).Reachable ⟨{ torn cloned with unm := [()] }, fun _ => 0, 0, false⟩ := by
  rw [← stray_umounted cloned ⟨false, false⟩]
  exact .next (.init ⟨_, rfl, rfl⟩) (.putMntNs rfl rfl rfl)

/-- Its file stays, and the mount with it, without any cycle. -/
theorem stray_leaks : (stray false).WellFormed ∧ (stray false).fixDisown = true ∧
    (stray false).fixDisconnectPinners = false ∧ (stray false).fixInternalClone = false ∧
    ¬ (spec (stray false)).Invariant (LeaksAreCycles (stray false)) := by
  refine ⟨stray_wf false, rfl, rfl, rfl, fun cycles => ?_⟩
  have count : (torn false).count () = 2 := by decide
  have put : (torn false).put (stray false) () = (torn false).setCount () 1 := by
    unfold Tables.put
    simp [count]
  have settled : (spec (stray false)).Reachable ⟨(torn false).setCount () 1, fun _ => 0, 0, false⟩ := by
    rw [← put]
    exact (stray_dead false).next (.nsUnlockPut rfl)
  obtain ⟨c, -, ⟨some', cycle⟩, -⟩ := cycles _ settled ⟨rfl, rfl, rfl, rfl, fun _ => rfl⟩ () (by simp [alive, torn, init])
  obtain ⟨y, inside⟩ := Finset.nonempty_iff_ne_empty.mpr some'
  obtain ⟨x, -, pins, -⟩ := cycle y inside
  simp [torn, init, stray] at pins

/-! ### Internal clones -/

/-- With the internal clones every mount is reaped. -/
theorem clones_safe (wf : cfg.WellFormed) (cloned : cfg.fixInternalClone = true)
    (pinners : cfg.fixDisconnectPinners = false) :
    (spec cfg).Invariant fun s => NoUAF cfg s ∧ (s.Settled → ∀ m, s.tables.freed m = true) ∧
      (Homed cfg s → SbLeaksAreCycles cfg s) :=
  (kept wf (by simp [pinners])).mono fun _ kept =>
    ⟨kept.noUAF wf, kept.mountsReaped wf cloned, kept.sbLeaksAreCycles wf⟩

theorem report_reaped : (spec (report true)).Invariant fun s => NoUAF (report true) s ∧
    (s.Settled → ∀ m, s.tables.freed m = true) ∧ (Homed (report true) s → SbLeaksAreCycles (report true) s) :=
  clones_safe (report_wf true) rfl rfl

/-- With the clones its file keeps the superblock instead. -/
theorem stray_active : (stray true).WellFormed ∧ (stray true).fixInternalClone = true ∧
    (stray true).fixDisown = false ∧ (stray true).fixDisconnectPinners = false ∧
    ¬ (spec (stray true)).Invariant (SbLeaksAreCycles (stray true)) := by
  refine ⟨stray_wf true, rfl, rfl, rfl, fun cycles => ?_⟩
  have count : (torn true).count () = 1 := by decide
  have childless : (torn true).children () = ∅ := by decide
  have active : (torn true).active 0 = 2 := by decide
  have put : (torn true).put (stray true) () = (torn true).doom (stray true) () := by
    have alive : (torn true).doomed () = false ∧ (torn true).ns () = false := ⟨rfl, rfl⟩
    unfold Tables.put
    simp [count, alive, stray]
  have cleanup : ((torn true).doom (stray true) ()).cleanup (stray true) () =
      ((((torn true).doom (stray true) ()).visit ()).setActive 0 1).free () := by
    have stuck : ordered (stray true) (((torn true).doom (stray true) ()).stuck ()) = [] := by
      simp [Tables.stuckOf, childless, ordered]
    have sb : ((torn true).doom (stray true) ()).sb () = 0 := rfl
    have drop : (((torn true).doom (stray true) ()).visit ()).dropSb (stray true) 0 =
        (((torn true).doom (stray true) ()).visit ()).setActive 0 1 := by
      have active : (((torn true).doom (stray true) ()).visit ()).active 0 = 2 := active
      rw [Tables.dropSb, dif_neg (by rw [active]; decide), active]
      rfl
    unfold Tables.cleanup
    have other : (0 : Fin 3) ≠ (stray true).nullSb := by simp [stray]
    rw [if_neg (by simp [stray])]
    simp only [stuck, sb, if_neg other, Tables.putAll, drop]
  have doomed : (spec (stray true)).Reachable ⟨(torn true).doom (stray true) (), fun _ => 0, 0, false⟩ := by
    rw [← put]
    exact (stray_dead true).next (.nsUnlockPut rfl)
  have settled : (spec (stray true)).Reachable
      ⟨((((torn true).doom (stray true) ()).visit ()).setActive 0 1).free (), fun _ => 0, 0, false⟩ := by
    rw [← cleanup]
    exact doomed.next (.cleanupMnt (by simp))
  obtain ⟨c, ⟨some', cycle⟩, -⟩ := cycles _ settled rfl ⟨rfl, rfl, rfl, by decide, fun _ => rfl⟩ 0 (by decide)
  obtain ⟨t, inside⟩ := Finset.nonempty_iff_ne_empty.mpr some'
  obtain ⟨u, -, up, file⟩ := cycle t inside
  clear inside
  revert u t
  decide

end LinuxTla.MntOwn
