import LinuxTla.MountWalk.Model

/-! The sequential walk: it has one answer, reads nothing of the tree but the hash and the
three pointers of a mount, and stays below its root. -/

namespace LinuxTla.MountWalk

variable {M E K S W : Type} [Fintype M] [LinearOrder M] [LinearOrder E]
  {cfg : Config M E K S W} {mt mt' : Tree M E} {root pos next next' : Pos M E} {p q x : M} {d c : E}

theorem mem_mountsAt : x ∈ Tree.mountsAt mt p d ↔
    (mt x).alive = true ∧ (mt x).hashed = true ∧ (mt x).parent = p ∧ (mt x).mp = d ∧ x ≠ p := by
  simp [Tree.mountsAt]

theorem lookupMnt_some (found : Tree.lookupMnt mt p d = some q) :
    (mt q).alive = true ∧ (mt q).hashed = true ∧ (mt q).parent = p ∧ (mt q).mp = d ∧ q ≠ p := by
  rw [Tree.lookupMnt] at found
  split_ifs at found with some'
  rw [← Option.some.inj found]
  exact mem_mountsAt.mp (Finset.min'_mem _ some')

theorem lookupMnt_linked (found : Tree.lookupMnt mt p d = some q) : Tree.HasParent mt q := by
  obtain ⟨_, _, parent, _, other⟩ := lookupMnt_some found
  rw [Tree.HasParent, parent]
  exact other.symm

/-- What the sequential walk can see of the tree. -/
structure SameTree (mt mt' : Tree M E) : Prop where
  lookup : ∀ p d, Tree.lookupMnt mt' p d = Tree.lookupMnt mt p d
  parent : ∀ x, (mt' x).parent = (mt x).parent
  mp : ∀ x, (mt' x).mp = (mt x).mp
  root : ∀ x, (mt' x).root = (mt x).root

theorem SameTree.refl (mt : Tree M E) : SameTree mt mt := ⟨fun _ _ => rfl, fun _ => rfl, fun _ => rfl, fun _ => rfl⟩

theorem SameTree.symm (same : SameTree mt mt') : SameTree mt' mt :=
  ⟨fun p d => (same.lookup p d).symm, fun x => (same.parent x).symm, fun x => (same.mp x).symm, fun x => (same.root x).symm⟩

theorem SameTree.trans {last : Tree M E} (first : SameTree mt mt') (second : SameTree mt' last) : SameTree mt last :=
  ⟨fun p d => (second.lookup p d).trans (first.lookup p d), fun x => (second.parent x).trans (first.parent x),
    fun x => (second.mp x).trans (first.mp x), fun x => (second.root x).trans (first.root x)⟩

theorem SameTree.of_hashed (hashed : ∀ x, (mt' x).alive = true ∧ (mt' x).hashed = true ↔ (mt x).alive = true ∧ (mt x).hashed = true)
    (parent : ∀ x, (mt' x).parent = (mt x).parent) (mp : ∀ x, (mt' x).mp = (mt x).mp)
    (root : ∀ x, (mt' x).root = (mt x).root) : SameTree mt mt' where
  lookup p d := by
    have same : Tree.mountsAt mt' p d = Tree.mountsAt mt p d := by
      ext x
      simp only [mem_mountsAt, ← and_assoc, hashed, parent, mp]
    unfold Tree.lookupMnt
    simp only [same]
  parent := parent
  mp := mp
  root := root

theorem SameTree.linked (same : SameTree mt mt') : Tree.HasParent mt' x ↔ Tree.HasParent mt x := by
  rw [Tree.HasParent, Tree.HasParent, same.parent]

theorem SameTree.cross (same : SameTree mt mt') (cross : Cross mt pos next) : Cross mt' pos next := by
  induction cross with
  | here none => exact .here ((same.lookup _ _).trans none)
  | across found _ ih => exact .across ((same.lookup _ _).trans found) (by rw [same.root]; exact ih)

theorem SameTree.climb {answer : Option (Pos M E)} (same : SameTree mt mt') (climb : Climb mt root x answer) :
    Climb mt' root x answer := by
  induction climb with
  | top loose => exact .top fun linked => loose (same.linked.mp linked)
  | @root m linked here => exact .root (same.linked.mpr linked) (by rw [same.parent, same.mp]; exact here)
  | @found m linked other inside =>
    have found : Climb mt' root m (some ⟨(mt' m).parent, (mt' m).mp⟩) :=
      .found (same.linked.mpr linked) (by rw [same.parent, same.mp]; exact other)
        (by rw [same.parent, same.mp, same.root]; exact inside)
    rwa [same.parent, same.mp] at found
  | @up m answer linked other stacked _ ih =>
    exact .up (same.linked.mpr linked) (by rw [same.parent, same.mp]; exact other)
      (by rw [same.parent, same.mp, same.root]; exact stacked) (by rw [same.parent]; exact ih)

theorem SameTree.dotDot {how : Up} (same : SameTree mt mt') (up : DotDot cfg mt root pos how next) :
    DotDot cfg mt' root pos how next := by
  cases up with
  | root here => exact .root here
  | top other edge none => exact .top other (edge.trans (same.root _).symm) (same.climb none)
  | climb other edge found => exact .climb other (edge.trans (same.root _).symm) (same.climb found)
  | plain other inside => exact .plain other (by rw [same.root]; exact inside)

variable [Fintype E] [DecidableEq K]

theorem SameTree.resolve {prog : List (Comp K)} {r : Result M E} (same : SameTree mt mt')
    (walk : Resolve cfg mt root prog pos r) : Resolve cfg mt' root prog pos r := by
  induction walk with
  | nil => exact .nil
  | up up _ ih => exact .up (same.dotDot up) ih
  | missing missing => exact .missing missing
  | negative found negative => exact .negative found negative
  | down found positive cross _ ih => exact .down found positive (same.cross cross) ih

/-! ### One answer -/

omit [Fintype E] in
theorem Cross.unique (cross : Cross mt pos next) (cross' : Cross mt pos next') : next = next' := by
  induction cross with
  | here none =>
    cases cross' with
    | here => rfl
    | across found => cases none.symm.trans found
  | across found _ ih =>
    cases cross' with
    | here none => cases none.symm.trans found
    | across found' rest =>
      cases found.symm.trans found'
      exact ih rest

omit [Fintype M] [LinearOrder M] [LinearOrder E] [Fintype E] in
theorem Climb.unique {answer answer' : Option (Pos M E)} (climb : Climb mt root x answer) (climb' : Climb mt root x answer') :
    answer = answer' := by
  induction climb with
  | top loose =>
    cases climb' with
    | top => rfl
    | root linked | found linked | up linked => exact absurd linked loose
  | root linked here =>
    cases climb' with
    | top loose => exact absurd linked loose
    | root => rfl
    | found _ other | up _ other => exact absurd here other
  | found linked other inside =>
    cases climb' with
    | top loose => exact absurd linked loose
    | root _ here => exact absurd here other
    | found => rfl
    | up _ _ stacked => exact absurd stacked inside
  | up linked other stacked _ ih =>
    cases climb' with
    | top loose => exact absurd linked loose
    | root _ here => exact absurd here other
    | found _ _ inside => exact absurd stacked inside
    | up _ _ _ rest => exact ih rest

omit [DecidableEq K] [Fintype M] [LinearOrder M] [LinearOrder E] [Fintype E] in
theorem DotDot.unique {how how' : Up} (up : DotDot cfg mt root pos how next) (up' : DotDot cfg mt root pos how' next') :
    next = next' := by
  cases up with
  | root here =>
    cases up' with
    | root => rfl
    | top => rfl
    | climb other | plain other => exact absurd here other
  | top other edge none =>
    cases up' with
    | root => rfl
    | top => rfl
    | climb _ _ found => cases none.unique found
    | plain _ inside => exact absurd edge inside
  | climb other edge found =>
    cases up' with
    | root here => exact absurd here other
    | top _ _ none => cases none.unique found
    | climb _ _ found' =>
      cases found.unique found'
      rfl
    | plain _ inside => exact absurd edge inside
  | plain other inside =>
    cases up' with
    | root here => exact absurd here other
    | top _ edge | climb _ edge => exact absurd edge inside
    | plain => rfl

theorem Resolve.unique {prog : List (Comp K)} {r r' : Result M E} (walk : Resolve cfg mt root prog pos r)
    (walk' : Resolve cfg mt root prog pos r') : r = r' := by
  induction walk with
  | nil =>
    cases walk'
    rfl
  | up up _ ih =>
    cases walk' with
    | up up' rest =>
      cases up.unique up'
      exact ih rest
  | missing missing =>
    cases walk' with
    | missing => rfl
    | negative => rfl
    | down found => cases missing.symm.trans found
  | negative found negative =>
    cases walk' with
    | missing => rfl
    | negative => rfl
    | down found' positive =>
      cases found.symm.trans found'
      cases negative.symm.trans positive
  | down found positive cross _ ih =>
    cases walk' with
    | missing missing => cases missing.symm.trans found
    | negative found' negative =>
      cases found.symm.trans found'
      cases negative.symm.trans positive
    | down found' _ cross' rest =>
      cases found.symm.trans found'
      cases cross.unique cross'
      exact ih rest

/-! ### Below the root -/

/-- The root mount is neither hashed nor on anything. -/
structure Grounded (mt : Tree M E) (x : M) : Prop where
  unhashed : (mt x).hashed = false
  loose : ¬ Tree.HasParent mt x

omit [Fintype M] [LinearOrder M] in
theorem child_some {n : K} (found : child cfg d n = some c) : cfg.dparent c = d ∧ c ≠ d := by
  rw [child] at found
  split_ifs at found with some'
  rw [← Option.some.inj found]
  have inside := Finset.mem_of_mem_filter _ (Finset.min'_mem _ some')
  simpa [children] using inside

omit [Fintype M] [LinearOrder M] in
theorem Under.down {n : K} (under : Under cfg mt root pos) (found : child cfg pos.d n = some c) :
    Under cfg mt root ⟨pos.mnt, c⟩ := by
  obtain ⟨parent, other⟩ := child_some found
  cases under with
  | here same under =>
    refine .here same ?_
    by_cases here : c = root.d
    · dsimp only
      rw [here]
      exact .here
    · refine .up here ?_ ?_
      · rw [parent]
        exact other.symm
      · rw [parent]
        exact under
  | up other linked rest => exact .up other linked rest

omit [Fintype M] [LinearOrder M] [LinearOrder E] [Fintype E] [DecidableEq K] in
theorem UnderD.leave {a : E} (under : UnderD cfg a d) (other : d ≠ a) : UnderD cfg a (cfg.dparent d) := by
  cases under with
  | here => exact absurd rfl other
  | up _ _ rest => exact rest

omit [Fintype M] [LinearOrder M] [LinearOrder E] [Fintype E] [DecidableEq K] in
theorem UnderD.of_parent {a : E} (under : UnderD cfg a (cfg.dparent d)) : UnderD cfg a d := by
  by_cases here : d = a
  · rw [here]
    exact .here
  · by_cases top : cfg.dparent d = d
    · rwa [top] at under
    · exact .up here top under

omit [Fintype M] [LinearOrder M] [LinearOrder E] [Fintype E] [DecidableEq K] in
theorem UnderD.eq_of_top {a : E} (under : UnderD cfg a d) (top : cfg.dparent d = d) : d = a := by
  cases under with
  | here => rfl
  | up _ linked => exact absurd top linked

omit [Fintype M] [LinearOrder M] [LinearOrder E] [Fintype E] [DecidableEq K] in
theorem UnderD.trans {a b : E} (first : UnderD cfg a b) (second : UnderD cfg b d) : UnderD cfg a d := by
  induction second with
  | here => exact first
  | up _ _ _ ih => exact ih.of_parent

omit [Fintype M] [LinearOrder M] [LinearOrder E] [Fintype E] [DecidableEq K] in
theorem Under.leave (under : Under cfg mt root pos) (other : pos ≠ root) : Under cfg mt root ⟨pos.mnt, cfg.dparent pos.d⟩ := by
  cases under with
  | here same under =>
    exact .here same (under.leave fun here => other (Pos.ext same here))
  | up other linked rest => exact .up other linked rest

omit [Fintype E] [DecidableEq K] in
theorem Under.cross (under : Under cfg mt root pos) (ground : Grounded mt root.mnt) (cross : Cross mt pos next) :
    Under cfg mt root next := by
  induction cross with
  | here => exact under
  | @across m d o _ found _ ih =>
    obtain ⟨_, hashed, parent, mp, _⟩ := lookupMnt_some found
    refine ih (.up ?_ (lookupMnt_linked found) ?_)
    · dsimp only
      rintro rfl
      cases hashed.symm.trans ground.unhashed
    · dsimp only
      rw [parent, mp]
      exact under

omit [Fintype M] [LinearOrder M] [LinearOrder E] [Fintype E] [DecidableEq K] in
/-- Where the climb ends is below the root and not the root. -/
theorem Under.climb (ground : Grounded mt root.mnt) {answer : Option (Pos M E)} (climb : Climb mt root x answer)
    (under : Under cfg mt root ⟨x, d⟩) (found : answer = some next) : Under cfg mt root next ∧ next ≠ root := by
  induction climb generalizing d with
  | top | root => cases found
  | found linked other =>
    cases found
    cases under with
    | here same =>
      dsimp only at same
      rw [same] at linked
      exact absurd linked ground.loose
    | up _ _ rest => exact ⟨rest, other⟩
  | up linked _ _ _ ih =>
    cases under with
    | here same =>
      dsimp only at same
      rw [same] at linked
      exact absurd linked ground.loose
    | up _ _ rest => exact ih rest found

omit [Fintype M] [LinearOrder M] [LinearOrder E] [Fintype E] [DecidableEq K] in
theorem Under.dotDot {how : Up} (under : Under cfg mt root pos) (ground : Grounded mt root.mnt)
    (up : DotDot cfg mt root pos how next) : Under cfg mt root next := by
  cases up with
  | root | top => exact under
  | climb _ _ found =>
    obtain ⟨there, other⟩ := Under.climb (d := pos.d) ground found under rfl
    exact there.leave other
  | plain other => exact under.leave other

theorem Resolve.under {prog : List (Comp K)} {r : Result M E} (ground : Grounded mt root.mnt)
    (walk : Resolve cfg mt root prog pos r) (under : Under cfg mt root pos) (ok : r = .ok next) : Under cfg mt root next := by
  induction walk with
  | nil =>
    cases ok
    exact under
  | up up _ ih => exact ih (under.dotDot ground up) ok
  | missing | negative => cases ok
  | down found _ cross _ ih => exact ih ((under.down found).cross ground cross) ok

end LinuxTla.MountWalk
