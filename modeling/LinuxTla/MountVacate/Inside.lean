import LinuxTla.MountVacate.Model
import LinuxTla.MountWalk.Refused

/-! path_connected() holds a walker inside the mount, whatever its loads return. -/

namespace LinuxTla.MountVacate

open MountWalk (Pos Up UnderD)

variable {M E K S W : Type} {cfg : Config M E K S W} {s after : State M E K S W} {a d : E}
  {w : W} {how : Up} {src : Pos M E} {sb : S} {r1 r3 r4 : E}

/-- The filesystems are the trees of a finite forest, and knullfs is another one. -/
structure Config.WellFormed (cfg : Config M E K S W) : Prop where
  rooted : ∀ w, (cfg.root w).mnt = cfg.rootMnt
  top : ∀ sb, cfg.dparent (cfg.sbRoot sb) = cfg.sbRoot sb
  home : ∀ sb, cfg.dsb (cfg.sbRoot sb) = sb
  parent : ∀ d, cfg.dsb (cfg.dparent d) = cfg.dsb d
  forest : ∀ d, UnderD cfg.toConfig (cfg.sbRoot (cfg.dsb d)) d
  null : cfg.nullSb ≠ cfg.rootSb ∧ cfg.nullSb ≠ cfg.newSb
  newRoot : cfg.dsb cfg.newRoot = cfg.newSb
  positive : cfg.negative cfg.newRoot = false ∧ ∀ sb, cfg.negative (cfg.sbRoot sb) = false

theorem Config.WellFormed.walk (formed : cfg.WellFormed) : cfg.toConfig.WellFormed := ⟨formed.rooted, formed.top⟩

theorem Config.WellFormed.nullRoot (formed : cfg.WellFormed) : cfg.newRoot ≠ cfg.nullRoot := by
  intro same
  have home := formed.home cfg.nullSb
  rw [← Config.nullRoot, ← same, formed.newRoot] at home
  exact formed.null.2 home.symm

/-! ### The forest -/

theorem UnderD.dsb (formed : cfg.WellFormed) (under : UnderD cfg.toConfig a d) : cfg.dsb d = cfg.dsb a := by
  induction under with
  | here => rfl
  | up _ _ _ ih => rw [← formed.parent, ih]

/-- A dentry below its superblock's root is not below itself. -/
theorem UnderD.no_loop (formed : cfg.WellFormed) (under : UnderD cfg.toConfig (cfg.sbRoot sb) d) (linked : cfg.dparent d ≠ d) :
    ¬ UnderD cfg.toConfig d (cfg.dparent d) := by
  induction under with
  | here => exact absurd (formed.top sb) linked
  | @up d _ _ _ ih =>
    intro loop
    have higher : UnderD cfg.toConfig d (cfg.dparent (cfg.dparent d)) := loop.leave linked
    refine ih (fun top => ?_) (.trans (.up linked.symm linked .here) higher)
    exact linked (loop.eq_of_top top)

/-! ### No ".." leaves the mount -/

theorem connected_of_trusts (moves : how ≠ .stay) (trusts : ¬ Fails cfg s w how src sb r3 r4) :
    PathConnectedObs cfg sb r3 r4 (cfg.dparent src.d) :=
  not_not.mp fun no => trusts (.inr (.inl ⟨moves, no⟩))

/-- Whatever the loads return, they do not let the walker out. -/
theorem Loads.inside (loads : Loads cfg s w how src sb r1 r3 r4) (formed : cfg.WellFormed) (fix : cfg.fixVacantConnected = true)
    (trusts : ¬ Fails cfg s w how src sb r3 r4) : ¬ Escaped cfg s how src := by
  rintro ⟨moves, -, outside, outside'⟩
  obtain ⟨same, way⟩ := connected_of_trusts moves trusts
  have same : cfg.dsb (cfg.dparent src.d) = sb := not_not.mp fun other => same ⟨fix, other⟩
  obtain top | under := way
  · have below := formed.forest (cfg.dparent src.d)
    rw [same, ← top] at below
    obtain now | ⟨⟨stale, -⟩, early⟩ := loads.third
    · exact outside (now ▸ below)
    · exact outside' ⟨stale.2.1, early ▸ below⟩
  · obtain now | ⟨⟨stale, -⟩, early⟩ := loads.fourth
    · exact outside (now ▸ under)
    · exact outside' ⟨stale.2.1, early ▸ under⟩

variable [Fintype M] [LinearOrder M] [Fintype E] [LinearOrder E] [DecidableEq K] [DecidableEq W]

theorem never_escapes (formed : cfg.WellFormed) (fix : cfg.fixVacantConnected = true) : (spec cfg).Invariant NoVacantEscape := by
  refine .of_step (fun s start => start.vesc) fun s after inside step => ?_
  cases step with
  | rcu _ step =>
    cases step with
    | up _ loads trusts => exact fun escaped => escaped.elim inside (loads.inside formed fix trusts)
    | init | goes | validated | refused | upAgain | upEagain => exact inside
  | mounter step => cases step <;> exact inside
  | changer step => cases step <;> exact inside
  | ref | settled => exact inside

end LinuxTla.MountVacate
