import LinuxTla.Lib.Transition

/-! `CorePattern.tla`: a sysctl write of core_pattern while coredump_parse() reads it, in two
pieces each, or each as a whole under core_pattern_lock. `none` says that an action is not
enabled. -/

namespace LinuxTla.CorePattern

open Lib

/-- The first byte picks the mode, the rest is consumed later. -/
structure Pattern (M P : Type) where
  mode : M
  path : P

inductive Phase
  | idle | mid | done
deriving DecidableEq, Repr

/-- `Old` is what is stored, `New` what the sysctl writes. -/
structure Config (M P : Type) where
  fixSnapshot : Bool
  old : Pattern M P
  new : Pattern M P

/-- What coredump_parse() has not read yet is `none`. -/
structure State (M P : Type) where
  pattern : Pattern M P
  writer : Phase
  reader : Phase
  seenMode : Option M
  seenPath : Option P

variable {M P : Type} (cfg : Config M P) (s : State M P)

/-- Whole under the lock, or the mode first. -/
def writerStart : Option (State M P) :=
  if s.writer = .idle then
    some (if cfg.fixSnapshot then { s with pattern := cfg.new, writer := .done }
      else { s with pattern := { s.pattern with mode := cfg.new.mode }, writer := .mid })
  else none

def writerFinish : Option (State M P) :=
  if s.writer = .mid then some { s with pattern := { s.pattern with path := cfg.new.path }, writer := .done } else none

/-- A snapshot, or the mode first. -/
def readerStart : Option (State M P) :=
  if s.reader = .idle then
    some (if cfg.fixSnapshot then { s with seenMode := some s.pattern.mode, seenPath := some s.pattern.path, reader := .done }
      else { s with seenMode := some s.pattern.mode, reader := .mid })
  else none

def readerFinish : Option (State M P) :=
  if s.reader = .mid then some { s with seenPath := some s.pattern.path, reader := .done } else none

inductive Action
  | writerStart | writerFinish | readerStart | readerFinish
deriving DecidableEq, Repr

def perform : Action → Option (State M P)
  | .writerStart => writerStart cfg s
  | .writerFinish => writerFinish cfg s
  | .readerStart => readerStart cfg s
  | .readerFinish => readerFinish s

def init : State M P := ⟨cfg.old, .idle, .idle, none, none⟩

def spec : System (State M P) := ⟨fun s => s = init cfg, fun s t => ∃ action, perform cfg s action = some t⟩

/-- The dump is parsed from a pattern that was published as a whole. -/
def ConsistentParse : Prop :=
  s.reader = .done → ∃ whole, (whole = cfg.old ∨ whole = cfg.new) ∧ s.seenMode = some whole.mode ∧ s.seenPath = some whole.path

variable {cfg : Config M P} {s t : State M P}

/-! ### A mode and a path that were stored -/

/-- What is stored and what was read comes from one of the two patterns, piece by piece. -/
structure Pieces (cfg : Config M P) (s : State M P) : Prop where
  mode : s.pattern.mode = cfg.old.mode ∨ s.pattern.mode = cfg.new.mode
  path : s.pattern.path = cfg.old.path ∨ s.pattern.path = cfg.new.path
  whole : cfg.fixSnapshot = true → s.pattern = cfg.old ∨ s.pattern = cfg.new
  undivided : cfg.fixSnapshot = true → s.writer ≠ .mid ∧ s.reader ≠ .mid
  seenMode : s.reader ≠ .idle → ∃ m, s.seenMode = some m ∧ (m = cfg.old.mode ∨ m = cfg.new.mode)
  seenPath : s.reader = .done → ∃ p, s.seenPath = some p ∧ (p = cfg.old.path ∨ p = cfg.new.path)
  snapshot : cfg.fixSnapshot = true → ConsistentParse cfg s

theorem Pieces.perform {action : Action} (pieces : Pieces cfg s) (done : perform cfg s action = some t) : Pieces cfg t := by
  obtain ⟨mode, path, whole, undivided, seenMode, seenPath, snapshot⟩ := pieces
  cases action
  all_goals
    obtain ⟨here, next⟩ := Option.ite_none_right_eq_some.mp done
    obtain rfl := Option.some.inj next
  case writerStart =>
    by_cases fix : cfg.fixSnapshot = true
    · rw [if_pos fix]
      exact ⟨.inr rfl, .inr rfl, fun _ => .inr rfl, fun _ => ⟨Phase.noConfusion, (undivided fix).2⟩, seenMode, seenPath, snapshot⟩
    · rw [if_neg fix]
      exact ⟨.inr rfl, path, fun on => (fix on).elim, fun on => (fix on).elim, seenMode, seenPath, snapshot⟩
  case writerFinish =>
    exact ⟨mode, .inr rfl, fun on => ((undivided on).1 here).elim, fun on => ((undivided on).1 here).elim, seenMode, seenPath, snapshot⟩
  case readerStart =>
    by_cases fix : cfg.fixSnapshot = true
    · rw [if_pos fix]
      refine ⟨mode, path, whole, fun _ => ⟨(undivided fix).1, Phase.noConfusion⟩, fun _ => ⟨_, rfl, mode⟩, fun _ => ⟨_, rfl, path⟩,
        fun _ _ => ⟨s.pattern, whole fix, rfl, rfl⟩⟩
    · rw [if_neg fix]
      refine ⟨mode, path, whole, fun on => (fix on).elim, fun _ => ⟨_, rfl, mode⟩, fun ended => ?_, fun on => (fix on).elim⟩
      cases ended
  case readerFinish =>
    exact ⟨mode, path, whole, fun on => ((undivided on).2 here).elim, fun _ => seenMode (by rw [here]; decide), fun _ => ⟨_, rfl, path⟩,
      fun on => ((undivided on).2 here).elim⟩

theorem pieces_invariant : (spec cfg).Invariant (Pieces cfg) := by
  apply System.Invariant.of_step
  · rintro s rfl
    refine ⟨.inl rfl, .inl rfl, fun _ => .inl rfl, fun _ => ⟨Phase.noConfusion, Phase.noConfusion⟩, fun read => absurd rfl read, fun ended => ?_,
      fun _ ended => ?_⟩
    · cases ended
    · cases ended
  · rintro s t pieces ⟨action, done⟩
    exact pieces.perform done

/-- Where the two patterns agree in one piece every mixture is one of them. -/
theorem Pieces.consistent (pieces : Pieces cfg s)
    (safe : cfg.fixSnapshot = true ∨ cfg.old.mode = cfg.new.mode ∨ cfg.old.path = cfg.new.path) : ConsistentParse cfg s := by
  obtain fix | same | same := safe
  · exact pieces.snapshot fix
  · intro ended
    obtain ⟨m, seen, mode⟩ := pieces.seenMode (by rw [ended]; decide)
    obtain ⟨p, seen', path⟩ := pieces.seenPath ended
    rw [seen, seen']
    obtain rfl : m = cfg.old.mode := mode.elim id fun new => new.trans same.symm
    obtain rfl | rfl := path
    · exact ⟨cfg.old, .inl rfl, rfl, rfl⟩
    · exact ⟨cfg.new, .inr rfl, congrArg some same, rfl⟩
  · intro ended
    obtain ⟨m, seen, mode⟩ := pieces.seenMode (by rw [ended]; decide)
    obtain ⟨p, seen', path⟩ := pieces.seenPath ended
    rw [seen, seen']
    obtain rfl : p = cfg.old.path := path.elim id fun new => new.trans same.symm
    obtain rfl | rfl := mode
    · exact ⟨cfg.old, .inl rfl, rfl, rfl⟩
    · exact ⟨cfg.new, .inr rfl, rfl, congrArg some same⟩

/-- The reader takes the old mode, the writer stores both pieces, the reader takes the new path. -/
theorem torn (bare : cfg.fixSnapshot = false) :
    (spec cfg).Reachable ⟨cfg.new, .done, .done, some cfg.old.mode, some cfg.new.path⟩ := by
  have reads : perform cfg (init cfg) .readerStart = some ⟨cfg.old, .idle, .mid, some cfg.old.mode, none⟩ := by
    simp [perform, readerStart, init, bare]
  have writes : perform cfg ⟨cfg.old, .idle, .mid, some cfg.old.mode, none⟩ .writerStart =
      some ⟨⟨cfg.new.mode, cfg.old.path⟩, .mid, .mid, some cfg.old.mode, none⟩ := by
    simp [perform, writerStart, bare]
  have run : (spec cfg).Reachable (init cfg) := .init rfl
  have run := run.next ⟨.readerStart, reads⟩
  have run := run.next ⟨.writerStart, writes⟩
  have run := run.next ⟨.writerFinish, rfl⟩
  exact run.next ⟨.readerFinish, rfl⟩

/-- The parse is consistent in every interleaving exactly with the snapshot, or where the two
patterns share a piece. -/
theorem consistent_parse_iff : (spec cfg).Invariant (ConsistentParse cfg) ↔
    cfg.fixSnapshot = true ∨ cfg.old.mode = cfg.new.mode ∨ cfg.old.path = cfg.new.path := by
  refine ⟨fun consistent => ?_, fun safe => pieces_invariant.mono fun s pieces => pieces.consistent safe⟩
  by_contra mixes
  obtain ⟨bare, modes, paths⟩ : ¬ cfg.fixSnapshot = true ∧ cfg.old.mode ≠ cfg.new.mode ∧ cfg.old.path ≠ cfg.new.path := by
    rwa [not_or, not_or] at mixes
  obtain ⟨whole, published, mode, path⟩ := consistent _ (torn (Bool.eq_false_of_not_eq_true bare)) rfl
  obtain rfl | rfl := published
  · exact paths (Option.some.inj path).symm
  · exact modes (Option.some.inj mode)

end LinuxTla.CorePattern
