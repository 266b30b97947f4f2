import LinuxTla.MntVacant.Put

/-! The walkers of `MntVacant.tla`: what one finds in the hash, legitimizes and takes back, and
that no walk ends beneath a mount or on a dead one. -/

namespace LinuxTla.MntVacant

open Lib

variable {M S H W : Type} {cfg : Config M S H} {s after : State M S H W} {m x t p : M} {v w : W} {l : Walker M} {pc : WLabel}
  {hand : M → ℕ}

/-! ### What a walker finds -/

section

variable [LinearOrder M] [Fintype S] [Fintype H] [Fintype W]

theorem Inv.outside (inv : Inv cfg s 0 none ∅) (here : (s.walker w).pc = .ref) : w ∉ s.rcu := by
  rw [(inv.walkers.each w).rcu]
  simp [Reading, Crossing, here]

/-- A mount that can be reached from an open file is found. -/
theorem Inv.found (inv : Inv cfg s 0 none ∅) (begun : (s.walker w).pc ≠ .idle) (src : (s.walker w).src = some p)
    (tgt : (s.walker w).tgt = some t) (hashed : s.hashed t = true) : s.Found p t := by
  obtain ⟨t', p', tgt', src', parent⟩ := (inv.walkers.each w).aim begun
  obtain rfl : t = t' := Option.some.inj (tgt.symm.trans tgt')
  obtain rfl : p = p' := Option.some.inj (src.symm.trans src')
  exact ⟨hashed, by rw [inv.tree.parent, if_pos hashed, parent]⟩

theorem Inv.live_of_ext (inv : Inv cfg s 0 none ∅) (file : s.ext p ≠ 0) : s.Live p := by
  have kept : ∀ {dead}, (s.vacant p = true ∨ s.doomed p = true) = dead → ¬ dead := by
    rintro _ rfl dead
    have none := inv.ledger.final p dead
    unfold outer at none
    omega
  have kept := kept rfl
  rw [not_or] at kept
  exact ⟨Bool.eq_false_of_not_eq_true kept.1, Bool.eq_false_of_not_eq_true kept.2⟩

end

/-! ### What a walker leaves alone -/

structure Frame (s after : State M S H W) : Prop where
  hashed : after.hashed = s.hashed
  parent : after.parent = s.parent
  doomed : after.doomed = s.doomed
  vacant : after.vacant = s.vacant
  oldroot : after.oldroot = s.oldroot
  inst : after.inst = s.inst
  stuck : after.stuck = s.stuck
  freed : after.freed = s.freed
  rcufree : after.rcufree = s.rcufree
  mpgone : after.mpgone = s.mpgone
  conn : after.conn = s.conn
  sbact : after.sbact = s.sbact
  watched : after.watched = s.watched
  uhead : after.uhead = s.uhead
  ext : after.ext = s.ext
  hdone : after.hdone = s.hdone
  tw : after.tw = s.tw
  vq : after.vq = s.vq
  pins : after.pins = s.pins
  negative : after.negative = s.negative
  warn : after.warn = s.warn
  frees : after.frees = s.frees
  releases : after.releases = s.releases
  hung : after.hung = s.hung

theorem Frame.live (frame : Frame s after) : after.Live m ↔ s.Live m := by
  unfold State.Live
  rw [frame.vacant, frame.doomed]

theorem Tree.frame (tree : Tree cfg s none) (frame : Frame s after) : Tree cfg after none where
  parent := by simpa only [frame.parent, frame.hashed] using tree.parent
  top := by simpa only [frame.hashed] using tree.top
  alive := by simpa only [frame.hashed, frame.doomed] using tree.alive
  below := by simpa only [frame.hashed, frame.live] using tree.below
  covers := by simpa only [frame.hashed, frame.live, frame.mpgone] using tree.covers

theorem Stages.frame (stages : Stages cfg s ∅) (frame : Frame s after) : Stages cfg after ∅ where
  inst := by simpa only [place, frame.inst, frame.doomed, frame.vacant, frame.hashed] using stages.inst
  freed := by simpa only [frame.freed, frame.rcufree] using stages.freed
  rcufree := by simpa only [frame.rcufree, frame.doomed, frame.oldroot] using stages.rcufree
  oldroot := by simpa only [frame.oldroot, frame.vacant] using stages.oldroot
  unique := by simpa only [frame.tw] using stages.unique
  release := by simpa only [frame.tw, frame.oldroot] using stages.release
  cleanup := by simpa only [frame.tw, frame.vacant, frame.doomed, frame.rcufree] using stages.cleanup
  pending := by simpa only [frame.tw, frame.oldroot] using stages.pending
  stuck := by
    simpa only [frame.tw, frame.stuck, frame.vacant, frame.doomed, frame.oldroot, frame.rcufree] using stages.stuck
  left := fun x inside => absurd inside (Finset.notMem_empty x)
  ends := by simpa only [frame.tw, frame.stuck, frame.doomed, frame.oldroot, frame.rcufree] using stages.ends

theorem Releases.frame (releases : Releases cfg s) (frame : Frame s after) : Releases cfg after where
  sbact := by simpa only [frame.sbact, frame.live, frame.tw] using releases.sbact
  conn := by simpa only [frame.conn, frame.sbact] using releases.conn
  watched := by simpa only [frame.conn, frame.watched] using releases.watched
  unwatched := by simpa only [frame.watched] using releases.unwatched
  releases := by simpa only [frame.releases, frame.sbact] using releases.releases

theorem Clean.frame (clean : Clean s) (frame : Frame s after) : Clean after where
  negative := frame.negative.trans clean.negative
  warn := frame.warn.trans clean.warn
  hung := frame.hung.trans clean.hung
  frees := by simpa only [frame.frees, frame.rcufree] using clean.frees

/-- `w` moves and mount_lock is taken at most. -/
structure Moves (w : W) (s after : State M S H W) : Prop where
  others : ∀ v, v ≠ w → after.walker v = s.walker v
  seq : s.seq ≤ after.seq
  held : ∀ x, s.held x = true → after.held x = true
  rcu : ∀ v, v ≠ w → (v ∈ after.rcu ↔ v ∈ s.rcu)
  freewait : ∀ v m, v ≠ w → v ∈ s.freewait m → v ∈ after.freewait m
  gone : ∀ m, s.freewait m = ∅ → after.freewait m = ∅

theorem WalkerOK.other (ok : WalkerOK cfg s v) (frame : Frame s after) (moves : Moves w s after) (other : v ≠ w) :
    WalkerOK cfg after v := by
  have same := moves.others v other
  have back : after.seq = (s.walker v).seq → s.seq = (s.walker v).seq := fun now => by
    have early := ok.seq
    have later := moves.seq
    omega
  exact
    { rcu := by rw [moves.rcu v other, same]; exact ok.rcu
      seq := by rw [same]; exact ok.seq.trans moves.seq
      aim := by rw [same]; exact ok.aim
      looks := by
        rw [same, frame.mpgone, frame.hashed]
        exact fun t here now => ok.looks t here (back now)
      found := by
        rw [same, frame.hashed]
        exact fun t here now => ok.found t here (back now)
      lock := by
        rw [same]
        exact fun here now => ok.lock here (back now)
      marked := by
        rw [same, frame.vacant]
        exact fun t here now tgt vacant => (ok.marked t here (back now) tgt vacant).imp_left (moves.held t)
      stores := by rw [same]; exact ok.stores
      kept := by
        rw [same, frame.vacant, frame.doomed]
        exact fun t here tgt => ⟨(ok.kept t here tgt).1, fun vacant => moves.held t ((ok.kept t here tgt).2 vacant)⟩
      waits := by
        rw [same, frame.rcufree]
        exact fun m called here tgt => moves.freewait v m other (ok.waits m called here tgt)
      waitsSrc := by
        rw [same, frame.rcufree]
        exact fun m called here src => moves.freewait v m other (ok.waitsSrc m called here src)
      answers := by rw [same]; exact ok.answers }

/-! ### Where a walker goes -/

theorem WalkerOK.leave (ok : WalkerOK cfg s w) {res : Option Result} (seq : s.seq ≤ after.seq)
    (walker : after.walker w = { s.walker w with pc := pc, res := res }) (out : pc = .idle ∨ pc = .ref) (rcu : w ∉ after.rcu)
    (begun : (s.walker w).pc ≠ .idle) (empty : (s.walker w).pc ≠ .drain) (good : res ≠ some .beneath ∧ res ≠ some .hang) :
    WalkerOK cfg after w := by
  have stores := (not_congr ok.stores).mp empty
  have aim := ok.aim begun
  have early := ok.seq.trans seq
  rcases out with rfl | rfl <;>
    constructor <;> simp_all [Reading, Crossing, Transient, Holding]

theorem WalkerOK.hold (ok : WalkerOK cfg s w) (seq : s.seq ≤ after.seq)
    (walker : after.walker w = { s.walker w with pc := pc })
    (holds : Holding pc) (rcu : w ∉ after.rcu) (begun : (s.walker w).pc ≠ .idle) (empty : (s.walker w).pc ≠ .drain)
    (kept : ∀ t, (s.walker w).tgt = some t → after.doomed t = false ∧ (after.vacant t = true → after.held t = true)) :
    WalkerOK cfg after w := by
  have stores := (not_congr ok.stores).mp empty
  have aim := ok.aim begun
  have early := ok.seq.trans seq
  have answers := ok.answers
  rcases holds with rfl | rfl <;>
    constructor <;> simp_all [Reading, Crossing, Transient, Holding]

theorem WalkerOK.cross (ok : WalkerOK cfg s w) (frame : Frame s after) {stHeld stCnt : Bool} (seq : after.seq = s.seq)
    (freewait : after.freewait = s.freewait) (rcu : after.rcu = s.rcu) (reads : Reading (s.walker w).pc)
    (walker : after.walker w = { s.walker w with pc := pc, stHeld := stHeld, stCnt := stCnt }) (crosses : Crossing pc)
    (found : ∀ t, s.seq = (s.walker w).seq → (s.walker w).tgt = some t → s.hashed t = true)
    (waits : ∀ m, s.rcufree m = true → (s.walker w).tgt = some m → w ∈ s.freewait m)
    (lock : pc = .lock → s.seq ≠ (s.walker w).seq)
    (marked : ∀ t, Transient pc → s.seq = (s.walker w).seq → (s.walker w).tgt = some t → s.vacant t = true →
      after.held t = true ∨ stHeld = true)
    (stores : pc = .drain ↔ stHeld = true ∨ stCnt = true) : WalkerOK cfg after w where
  rcu := by
    rw [rcu, walker]
    exact iff_of_true (ok.rcu.mpr reads) (.inr crosses)
  seq := by rw [walker, seq]; exact ok.seq
  aim := by
    rw [walker]
    exact fun _ => ok.aim (by rintro here; simp [Reading, Crossing, here] at reads)
  looks := by
    rw [walker]
    rintro t rfl
    simp [Crossing] at crosses
  found := by
    rw [walker, seq, frame.hashed]
    exact fun t _ => found t
  lock := by rw [walker, seq]; exact lock
  marked := by rw [walker, seq, frame.vacant]; exact marked
  stores := by rw [walker]; exact stores
  kept := by
    rw [walker]
    rintro t (rfl | rfl) <;> simp [Crossing] at crosses
  waits := by
    rw [walker, frame.rcufree, freewait]
    exact fun m called _ => waits m called
  waitsSrc := by
    rw [walker, frame.rcufree, freewait]
    exact fun m called _ => ok.waitsSrc m called reads
  answers := by rw [walker]; exact ok.answers

theorem Moves.locked (moves : Moves w s after) : Moves w s { after with seq := after.seq + 1 } :=
  { moves with seq := moves.seq.trans (Nat.le_succ _) }

theorem Moves.mark [LinearOrder M] (moves : Moves w s after) (t : M) : Moves w s (after.mark t) :=
  { moves with
    held := fun x held => by
      have held := moves.held x held
      by_cases here : x = t
      · subst here
        simp [State.mark, held]
      · simpa [State.mark, here] using held }

theorem Moves.addCount [LinearOrder M] (moves : Moves w s after) (t : M) (delta : ℤ) :
    Moves w s (after.addCount t delta) := { moves with }

theorem addCount_le [LinearOrder M] (t : M) {delta : ℤ} (grows : 0 ≤ delta) (x : M) :
    s.count x ≤ (s.addCount t delta).count x := by
  by_cases same : x = t
  · subst same
    simpa [State.addCount] using grows
  · simp [State.addCount, same]

theorem mark_marks [LinearOrder M] (t : M) (vacant : s.vacant t = true) :
    (s.mark t).held t = true := by simp [State.mark, vacant]

variable [DecidableEq W]

theorem setWalker_walker (l : Walker M) : (s.setWalker w l).walker w = l := by simp [State.setWalker]

/-- What `Moves` and `Frame` say of a step that only goes on with `w`. -/
theorem moves_setWalker (l : Walker M) : Moves w s (s.setWalker w l) :=
  ⟨fun v other => by simp [State.setWalker, other], le_rfl, fun _ => id, fun _ _ => .rfl, fun _ _ _ => id, fun _ => id⟩

theorem Moves.rcuOut (moves : Moves w s after) : Moves w s (after.rcuOut w) where
  others := moves.others
  seq := moves.seq
  held := moves.held
  rcu v other := by
    rw [← moves.rcu v other]
    simp [State.rcuOut, other]
  freewait v m other inside := Finset.mem_erase.mpr ⟨other, moves.freewait v m other inside⟩
  gone m empty := by
    have empty := moves.gone m empty
    simp [State.rcuOut, empty]

/-! ### The increment of one walker -/

variable [LinearOrder M] [Fintype W]

theorem wrefs_change (others : ∀ v, v ≠ w → after.walker v = s.walker v) (x : M) :
    wrefs after x + (if Visible s w x then 1 else 0) = wrefs s x + if Visible after w x then 1 else 0 := by
  have same : ∀ v, v ≠ w → (Visible after v x ↔ Visible s v x) := fun v other => by
    unfold Visible
    rw [others v other]
  unfold wrefs
  rw [card_filter_drop (a := w) (p := fun v => Visible after v x) (q := fun v => v ≠ w ∧ Visible s v x)
      (fun v other => by simp [other, same v other]) (by simp),
    card_filter_drop (a := w) (p := fun v => Visible s v x) (q := fun v => v ≠ w ∧ Visible s v x)
      (fun v other => by simp [other]) (by simp)]
  omega

variable [Fintype S] [Fintype H]

/-- The references of `w` change, in the count or from there to its hands. -/
theorem Ledger.frame (ledger : Ledger cfg s 0 none) (frame : Frame s after)
    (others : ∀ v, v ≠ w → after.walker v = s.walker v) (count : ∀ x, after.count x + (if Visible s w x then 1 else 0) =
      s.count x + (if Visible after w x then 1 else 0) + hand x)
    (falls : ∀ x, s.doomed x = false → s.count x ≤ after.count x) : Ledger cfg after hand none := by
  have outer_eq : ∀ x, outer cfg after x = outer cfg s x := fun x => by
    simp only [outer, pinned, frame.uhead, frame.ext, frame.sbact, frame.pins]
  have owed_eq : ∀ x, owed after x = owed s x := fun x => by simp only [owed, frame.vq]
  have parent_eq : ∀ x, parentRef cfg after x = parentRef cfg s x := fun x => by
    simp only [parentRef, frame.vacant, frame.hashed]
  have moved : ∀ x, ((refs cfg after x + hand x : ℕ) : ℤ) - refs cfg s x = after.count x - s.count x := fun x => by
    have wrefs_eq := wrefs_change others x
    have count := count x
    unfold refs
    rw [outer_eq, owed_eq, parent_eq]
    split at count <;> split at count <;> simp_all only [if_true, if_false] <;> omega
  exact
    { least := fun x => by
        have least := ledger.least x
        have moved := moved x
        simp only [Pi.zero_apply] at least
        omega
      exact := fun x ends => by
        rw [frame.vacant, frame.doomed] at ends
        have exact := ledger.exact x ends
        have moved := moved x
        simp only [Pi.zero_apply] at exact
        omega
      ext := by simpa only [frame.ext, frame.hdone] using ledger.ext
      final := fun x ends => by
        rw [frame.vacant, frame.doomed] at ends
        exact (outer_eq x).trans (ledger.final x ends)
      unowed := fun x doomed => by
        rw [frame.doomed] at doomed
        exact (owed_eq x).trans (ledger.unowed x doomed)
      noref := by simpa only [frame.vq] using ledger.noref
      alive := fun x up cut other => by
        rw [frame.doomed] at up
        rw [frame.vacant, frame.hashed] at cut
        exact (ledger.alive x up cut other).trans (falls x up)
      pins := by simpa only [frame.pins, frame.sbact] using ledger.pins }

theorem Inv.walks (inv : Inv cfg s 0 none ∅) (frame : Frame s after) (moves : Moves w s after) (own : WalkerOK cfg after w)
    (count : ∀ x, after.count x + (if Visible s w x then 1 else 0) =
      s.count x + (if Visible after w x then 1 else 0) + hand x)
    (falls : ∀ x, s.doomed x = false → s.count x ≤ after.count x) : Inv cfg after hand none ∅ where
  tree := inv.tree.frame frame
  stages := inv.stages.frame frame
  releases := inv.releases.frame frame
  ledger := inv.ledger.frame frame moves.others count falls
  walkers :=
    { each := fun v => by
        by_cases here : v = w
        · exact here ▸ own
        · exact (inv.walkers.each v).other frame moves here
      gone := fun m freed => moves.gone m (inv.walkers.gone m (frame.freed ▸ freed)) }
  clean := inv.clean.frame frame

/-- The walker's increment stays as it is. -/
theorem Inv.strolls (inv : Inv cfg s 0 none ∅) (frame : Frame s after) (moves : Moves w s after) (own : WalkerOK cfg after w)
    (count : after.count = s.count) (seen : ∀ x, Visible after w x ↔ Visible s w x) : Inv cfg after 0 none ∅ := by
  refine inv.walks frame moves own (fun x => ?_) fun x _ => (congrFun count x).ge
  simp [count, seen]

/-! ### The walk -/

/-- What a walk without a reference comes to. -/
theorem Inv.leaves (inv : Inv cfg s 0 none ∅) (frame : Frame s after) (moves : Moves w s after)
    (count : after.count = s.count)
    {res : Option Result} (walker : after.walker w = { s.walker w with pc := pc, res := res }) (out : pc = .idle ∨ pc = .ref)
    (rcu : w ∉ after.rcu) (good : res ≠ some .beneath ∧ res ≠ some .hang)
    (here : (s.walker w).pc = .lookup ∨ (s.walker w).pc = .legit1 ∨ (s.walker w).pc = .ref) : Inv cfg after 0 none ∅ := by
  have begun : (s.walker w).pc ≠ .idle := by rcases here with here | here | here <;> simp [here]
  have empty : (s.walker w).pc ≠ .drain := by rcases here with here | here | here <;> simp [here]
  refine inv.strolls frame moves ((inv.walkers.each w).leave moves.seq walker out rcu begun empty good) count fun x => ?_
  unfold Visible
  rw [walker]
  rcases here with here | here | here <;> rcases out with rfl | rfl <;> simp [here]

theorem Inv.walk_rcu (inv : Inv cfg s 0 none ∅) (here : (s.walker w).pc = .lookup ∨ (s.walker w).pc = .legit1)
    (res : Option Result) (good : res ≠ some .beneath ∧ res ≠ some .hang) (out : pc = .idle ∨ pc = .ref) :
    Inv cfg ((s.setWalker w { s.walker w with pc := pc, res := res }).rcuOut w) 0 none ∅ :=
  inv.leaves (by constructor <;> rfl) (moves_setWalker _).rcuOut rfl (setWalker_walker _) out (by simp [State.rcuOut]) good
    (by tauto)

theorem Inv.answers (inv : Inv cfg s 0 none ∅) (here : (s.walker w).pc = .ref) (res : Result)
    (good : res ≠ .beneath ∧ res ≠ .hang) : Inv cfg (s.answer w res) 0 none ∅ :=
  inv.leaves (by constructor <;> rfl) (moves_setWalker _) rfl (setWalker_walker _) (.inl rfl) (inv.outside here)
    (by simpa using good) (.inr (.inr here))

/-- The file the walk starts from is open, so what is mounted below it can be found. -/
theorem Inv.start (inv : Inv cfg s 0 none ∅) (here : (s.walker w).pc = .idle) (file : 0 < s.ext p)
    (below : cfg.parent t = some p) (n : ℕ) : Inv cfg { s.setWalker w { s.walker w with
      pc := .lookup, src := some p, tgt := some t, seq := s.seq, res := none, n := n } with rcu := insert w s.rcu } 0 none ∅ := by
  have live := inv.live_of_ext (p := p) (by omega)
  have called : s.rcufree p = false := inv.stages.notFree live.2
  have stores := (not_congr (inv.walkers.each w).stores).mp (by simp [here])
  have open' : s.mpgone t = true ∨ s.hashed t = true := by
    cases there : s.mpgone t
    · exact .inr (inv.tree.covers t p below live there (by simp))
    · exact .inl rfl
  refine inv.strolls (by constructor <;> rfl) { moves_setWalker _ with rcu := ?_ } ?_ rfl fun x => ?_
  · intro v other
    simp [other]
  · constructor <;> simp_all [State.setWalker, Reading, Crossing, Transient, Holding]
    rintro x called' rfl
    exact absurd (called.symm.trans called') Bool.false_ne_true
  · simp [Visible, State.setWalker, here]

theorem Inv.lookup (inv : Inv cfg s 0 none ∅) (here : (s.walker w).pc = .lookup) (tgt : (s.walker w).tgt = some t)
    (hashed : s.hashed t = true) : Inv cfg (s.goto w .legit1) 0 none ∅ := by
  have ok := inv.walkers.each w
  have frame : Frame s (s.goto w .legit1) := by constructor <;> rfl
  have stores := (not_congr ok.stores).mp (by simp [here])
  have only : ∀ x, (s.walker w).tgt = some x → x = t := fun x tgt' => Option.some.inj (tgt'.symm.trans tgt)
  have called : s.rcufree t = false := inv.stages.notFree (inv.tree.alive t hashed)
  refine inv.strolls frame (moves_setWalker _) (ok.cross frame rfl rfl rfl (.inl here) (setWalker_walker _) (.inl rfl)
    (fun x _ tgt' => only x tgt' ▸ hashed) (fun x called' tgt' => ?_) (by simp) (by simp [Transient]) ?_) rfl fun x => ?_
  · rw [only x tgt', called] at called'
    exact absurd called' Bool.false_ne_true
  · simpa using stores
  · simp [Visible, State.goto, State.setWalker, here]

/-- The mark and the increment become visible with the first read_seqretry(). -/
theorem Inv.legit1 (inv : Inv cfg s 0 none ∅) (here : (s.walker w).pc = .legit1) (tgt : (s.walker w).tgt = some t) :
    Inv cfg (((s.goto w .legit2).mark t).addCount t 1) 0 none ∅ := by
  have ok := inv.walkers.each w
  have frame : Frame s (((s.goto w .legit2).mark t).addCount t 1) := by constructor <;> rfl
  have crossing : Crossing (s.walker w).pc := .inl here
  have stores := (not_congr ok.stores).mp (by simp [here])
  have only : ∀ x, (s.walker w).tgt = some x → x = t := fun x tgt' => Option.some.inj (tgt'.symm.trans tgt)
  refine inv.walks frame (((moves_setWalker _).mark t).addCount t 1)
    (ok.cross frame rfl rfl rfl (.inr crossing) (setWalker_walker _) (.inr (.inr (.inl rfl)))
      (fun x => ok.found x crossing) (fun x called => ok.waits x called crossing) (by simp) (fun x _ _ tgt' vacant => ?_) ?_)
    (fun x => ?_) fun x _ => ?_
  · exact .inl (only x tgt' ▸ mark_marks t (only x tgt' ▸ vacant))
  · simpa using stores
  · by_cases same : x = t
    · subst same
      simp [Visible, State.addCount, State.mark, State.goto, State.setWalker, here, tgt]
    · have other : ¬ t = x := fun same' => same same'.symm
      simp [Visible, State.addCount, State.mark, State.goto, State.setWalker, here, tgt, same, other]
  · exact addCount_le t (by simp) x

/-- Or they wait in the store buffer. -/
theorem Inv.buffer (inv : Inv cfg s 0 none ∅) (here : (s.walker w).pc = .legit1) (tgt : (s.walker w).tgt = some t) :
    Inv cfg (s.setWalker w { s.walker w with pc := .drain, stHeld := s.vacant t, stCnt := true }) 0 none ∅ := by
  have ok := inv.walkers.each w
  have frame : Frame s (s.setWalker w { s.walker w with pc := .drain, stHeld := s.vacant t, stCnt := true }) := by
    constructor <;> rfl
  have crossing : Crossing (s.walker w).pc := .inl here
  have only : ∀ x, (s.walker w).tgt = some x → x = t := fun x tgt' => Option.some.inj (tgt'.symm.trans tgt)
  refine inv.strolls frame (moves_setWalker _) (ok.cross frame rfl rfl rfl (.inr crossing) (setWalker_walker _) (.inr (.inl rfl))
    (fun x => ok.found x crossing) (fun x called => ok.waits x called crossing) (by simp)
    (fun x _ _ tgt' vacant => .inr (only x tgt' ▸ vacant)) (by simp)) rfl fun x => ?_
  simp [Visible, State.setWalker, here]

theorem Inv.drainHeld (inv : Inv cfg s 0 none ∅) (here : (s.walker w).pc = .drain) (tgt : (s.walker w).tgt = some t) :
    Inv cfg { s.setWalker w { s.walker w with
      pc := if (s.walker w).stCnt then .drain else .legit2, stHeld := false } with
      held := Function.update s.held t true } 0 none ∅ := by
  have ok := inv.walkers.each w
  have frame : Frame s { s.setWalker w { s.walker w with
      pc := if (s.walker w).stCnt then .drain else .legit2, stHeld := false } with
      held := Function.update s.held t true } := by constructor <;> rfl
  have moves : Moves w s { s.setWalker w { s.walker w with
      pc := if (s.walker w).stCnt then .drain else .legit2, stHeld := false } with
      held := Function.update s.held t true } :=
    { moves_setWalker _ with
      held := fun x held => by by_cases same : x = t <;> simp [same, held] }
  have crossing : Crossing (s.walker w).pc := .inr (.inl here)
  have only : ∀ x, (s.walker w).tgt = some x → x = t := fun x tgt' => Option.some.inj (tgt'.symm.trans tgt)
  refine inv.strolls frame moves (ok.cross frame rfl rfl rfl (.inr crossing) (setWalker_walker _) ?_
    (fun x => ok.found x crossing) (fun x called => ok.waits x called crossing) ?_
    (fun x _ _ tgt' _ => .inl (by simp [only x tgt'])) ?_) rfl fun x => ?_
  · cases (s.walker w).stCnt <;> simp [Crossing]
  · cases (s.walker w).stCnt <;> simp
  · cases (s.walker w).stCnt <;> simp
  · cases left : (s.walker w).stCnt <;> simp [Visible, State.setWalker, here, left]

theorem Inv.drainCnt (inv : Inv cfg s 0 none ∅) (here : (s.walker w).pc = .drain) (tgt : (s.walker w).tgt = some t)
    (buffered : (s.walker w).stCnt = true) : Inv cfg ((s.setWalker w { s.walker w with
      pc := if (s.walker w).stHeld then .drain else .legit2, stCnt := false }).addCount t 1) 0 none ∅ := by
  have ok := inv.walkers.each w
  have frame : Frame s ((s.setWalker w { s.walker w with
      pc := if (s.walker w).stHeld then .drain else .legit2, stCnt := false }).addCount t 1) := by constructor <;> rfl
  have crossing : Crossing (s.walker w).pc := .inr (.inl here)
  refine inv.walks frame ((moves_setWalker _).addCount t 1) (ok.cross frame rfl rfl rfl (.inr crossing) (setWalker_walker _) ?_
    (fun x => ok.found x crossing) (fun x called => ok.waits x called crossing) ?_
    (fun x _ => ok.marked x (.inl here)) ?_) (fun x => ?_) fun x _ => ?_
  · cases (s.walker w).stHeld <;> simp [Crossing]
  · cases (s.walker w).stHeld <;> simp
  · cases (s.walker w).stHeld <;> simp
  · by_cases same : x = t
    · subst same
      cases left : (s.walker w).stHeld <;>
        simp [Visible, State.addCount, State.setWalker, here, tgt, buffered, left]
    · have other : ¬ t = x := fun same' => same same'.symm
      simp [Visible, State.addCount, State.setWalker, here, tgt, same, other]
  · exact addCount_le t (by simp) x

theorem Inv.legit2Lock (inv : Inv cfg s 0 none ∅) (here : (s.walker w).pc = .legit2) (other : s.seq ≠ (s.walker w).seq) :
    Inv cfg (s.goto w .lock) 0 none ∅ := by
  have ok := inv.walkers.each w
  have frame : Frame s (s.goto w .lock) := by constructor <;> rfl
  have crossing : Crossing (s.walker w).pc := .inr (.inr (.inl here))
  have stores := (not_congr ok.stores).mp (by simp [here])
  refine inv.strolls frame (moves_setWalker _) (ok.cross frame rfl rfl rfl (.inr crossing) (setWalker_walker _)
    (.inr (.inr (.inr rfl))) (fun x => ok.found x crossing) (fun x called => ok.waits x called crossing) (fun _ => other)
    (fun x _ same => absurd same other) (by simpa using stores)) rfl fun x => ?_
  simp [Visible, State.goto, State.setWalker, here]

/-- Nobody took mount_lock since the walk began, so the mount is in the hash and the mark is there. -/
theorem Inv.legit2Use (inv : Inv cfg s 0 none ∅) (here : (s.walker w).pc = .legit2) (same : s.seq = (s.walker w).seq) :
    Inv cfg ((s.goto w .use).rcuOut w) 0 none ∅ := by
  have ok := inv.walkers.each w
  have stores := (not_congr ok.stores).mp (by simp [here])
  have buffer : (s.walker w).stHeld ≠ true := fun buffered => stores (.inl buffered)
  refine inv.strolls (by constructor <;> rfl) (moves_setWalker _).rcuOut (ok.hold le_rfl (setWalker_walker _) (.inr rfl)
    (by simp [State.rcuOut]) (by simp [here]) (by simp [here]) fun x tgt => ?_) rfl fun x => ?_
  · exact ⟨inv.tree.alive x (ok.found x (.inr (.inr (.inl here))) same tgt),
      fun vacant => (ok.marked x (.inr (.inl here)) same tgt vacant).resolve_right buffer⟩
  · simp [Visible, State.rcuOut, State.goto, State.setWalker, here]

theorem Inv.lock (inv : Inv cfg s 0 none ∅) (here : (s.walker w).pc = .lock) (tgt : (s.walker w).tgt = some t)
    (alive : s.doomed t = false) : Inv cfg (({ s.goto w .put with seq := s.seq + 1 }.mark t).rcuOut w) 0 none ∅ := by
  have ok := inv.walkers.each w
  have only : ∀ x, (s.walker w).tgt = some x → x = t := fun x tgt' => Option.some.inj (tgt'.symm.trans tgt)
  refine inv.strolls (by constructor <;> rfl) ((moves_setWalker _).locked.mark t).rcuOut (ok.hold (Nat.le_succ _)
    (setWalker_walker _) (.inl rfl) (by simp [State.rcuOut]) (by simp [here]) (by simp [here]) fun x tgt' => ?_) rfl fun x => ?_
  · obtain rfl := only x tgt'
    exact ⟨alive, fun vacant => mark_marks _ vacant⟩
  · simp [Visible, State.rcuOut, State.mark, State.goto, State.setWalker, here]

/-- The increment on a doomed mount is taken back. -/
theorem Inv.lockDoomed (inv : Inv cfg s 0 none ∅) (here : (s.walker w).pc = .lock) (tgt : (s.walker w).tgt = some t)
    (doomed : s.doomed t = true) : Inv cfg (({ s.goto w .ref with seq := s.seq + 1 }.addCount t (-1)).rcuOut w) 0 none ∅ := by
  have ok := inv.walkers.each w
  refine inv.walks (by constructor <;> rfl) ((moves_setWalker _).locked.addCount t (-1)).rcuOut (ok.leave (Nat.le_succ _)
    (setWalker_walker _) (.inr rfl) (by simp [State.rcuOut]) (by simp [here]) (by simp [here]) ok.answers) (fun x => ?_)
    fun x up => ?_
  · by_cases same : x = t
    · subst same
      simp [Visible, State.rcuOut, State.addCount, State.goto, State.setWalker, here, tgt]
    · have other : ¬ t = x := fun same' => same same'.symm
      simp [Visible, State.rcuOut, State.addCount, State.goto, State.setWalker, here, tgt, same, other]
  · have other : x ≠ t := fun same => by simp [same, doomed] at up
    simp [State.rcuOut, State.addCount, State.goto, State.setWalker, other]

/-- lookup_mnt() takes its reference under mount_lock. -/
theorem Inv.ref (inv : Inv cfg s 0 none ∅) (here : (s.walker w).pc = .ref) (tgt : (s.walker w).tgt = some t)
    (alive : s.doomed t = false) : Inv cfg (({ s.goto w .use with seq := s.seq + 1 }.mark t).addCount t 1) 0 none ∅ := by
  have ok := inv.walkers.each w
  have only : ∀ x, (s.walker w).tgt = some x → x = t := fun x tgt' => Option.some.inj (tgt'.symm.trans tgt)
  refine inv.walks (by constructor <;> rfl) (((moves_setWalker _).locked.mark t).addCount t 1) (ok.hold (Nat.le_succ _)
    (setWalker_walker _) (.inr rfl) (inv.outside here) (by simp [here]) (by simp [here]) fun x tgt' => ?_) (fun x => ?_)
    fun x _ => ?_
  · obtain rfl := only x tgt'
    exact ⟨alive, fun vacant => mark_marks _ vacant⟩
  · by_cases same : x = t
    · subst same
      simp [Visible, State.addCount, State.mark, State.goto, State.setWalker, here, tgt]
    · have other : ¬ t = x := fun same' => same same'.symm
      simp [Visible, State.addCount, State.mark, State.goto, State.setWalker, here, tgt, same, other]
  · exact addCount_le t (by simp) x

/-- The walker puts its reference, which it has in its hands until then. -/
theorem Inv.gives [Fintype M] [DecidableEq H] (wf : cfg.WellFormed) (inv : Inv cfg s 0 none ∅)
    (holds : Holding (s.walker w).pc) (tgt : (s.walker w).tgt = some t) {res : Option Result} (out : pc = .idle ∨ pc = .ref)
    (good : res ≠ some .beneath ∧ res ≠ some .hang) :
    Inv cfg ((s.setWalker w { s.walker w with pc := pc, res := res }).put cfg t (.walker w)) 0 none ∅ := by
  have ok := inv.walkers.each w
  have begun : (s.walker w).pc ≠ .idle := by rcases holds with here | here <;> simp [here]
  have empty : (s.walker w).pc ≠ .drain := by rcases holds with here | here <;> simp [here]
  have outside : w ∉ s.rcu := by
    rw [ok.rcu]
    rcases holds with here | here <;> simp [Reading, Crossing, here]
  have given : Inv cfg (s.setWalker w { s.walker w with pc := pc, res := res }) (one t) none ∅ := by
    refine inv.walks (by constructor <;> rfl) (moves_setWalker _) (ok.leave le_rfl (setWalker_walker _) out outside begun empty good)
      (fun x => ?_) fun x _ => le_rfl
    have unseen : ¬ Visible (s.setWalker w { s.walker w with pc := pc, res := res }) w x := by
      rcases out with rfl | rfl <;> simp [Visible, State.setWalker]
    rw [if_neg unseen]
    by_cases same : x = t
    · subst same
      rw [if_pos (.of_holding holds tgt), one_self]
      simp [State.setWalker]
    · rw [if_neg fun seen => same (Option.some.inj (seen.1.symm.trans tgt)), one_other same]
      simp [State.setWalker]
  exact given.put wf (ok.kept t holds tgt).1

theorem Inv.walk [Fintype M] [DecidableEq H] (wf : cfg.WellFormed) (inv : Inv cfg s 0 none ∅)
    (step : s.Walk cfg w after) : Inv cfg after 0 none ∅ := by
  have ok := inv.walkers.each w
  cases step with
  | start here more quiet file below => exact inv.start here file below _
  | lookupGone here => exact inv.walk_rcu (.inl here) (some .enoent) (by simp) (.inl rfl)
  | lookupFound here src tgt there found => exact inv.lookup here tgt found.1
  | lookupBeneath here src tgt there missed same =>
    refine absurd (inv.found (by simp [here]) src tgt ?_) missed
    exact (ok.looks _ here same tgt).resolve_left (by simp [there])
  | lookupRef here => exact inv.walk_rcu (.inl here) _ ok.answers (.inr rfl)
  | legit1Ref here => exact inv.walk_rcu (.inr here) _ ok.answers (.inr rfl)
  | legit1 here tgt => exact inv.legit1 here tgt
  | legit1Stores here tgt => exact inv.buffer here tgt
  | drainHeld here tgt => exact inv.drainHeld here tgt
  | drainCnt here tgt buffered => exact inv.drainCnt here tgt buffered
  | legit2Use here same => exact inv.legit2Use here same
  | legit2Lock here other => exact inv.legit2Lock here other
  | lockDoomed here tgt doomed => exact inv.lockDoomed here tgt doomed
  | lock here tgt alive => exact inv.lock here tgt alive
  | put here tgt => exact inv.gives wf (.inl here) tgt (.inr rfl) ok.answers
  | use here tgt => exact inv.gives wf (.inr here) tgt (.inl rfl) (by simp)
  | refClosed here => exact inv.answers here .ebadf (by simp)
  | refGone here => exact inv.answers here .enoent (by simp)
  | refBeneath here quiet src tgt file there missed =>
    have found := inv.found (by simp [here]) src tgt
    obtain ⟨t', p', tgt', src', parent⟩ := ok.aim (by simp [here])
    obtain rfl := Option.some.inj (tgt.symm.trans tgt')
    obtain rfl := Option.some.inj (src.symm.trans src')
    exact absurd (found (inv.tree.covers _ _ parent (inv.live_of_ext file) there (by simp))) missed
  | refHangs here quiet src tgt file there found doomed =>
    have alive := inv.tree.alive _ found.1
    simp [doomed] at alive
  | ref here quiet src tgt file there found alive => exact inv.ref here tgt alive

end LinuxTla.MntVacant
