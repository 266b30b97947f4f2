import LinuxTla.Lib.Counts
import LinuxTla.Lib.Sums
import LinuxTla.MntVacant.Model
import Mathlib.Tactic.Common

/-! What holds at every moment of `MntVacant.tla`, also half way through a put that has a
reference in its hands or still has to free what it found dead. -/

namespace LinuxTla.MntVacant

open Lib

variable {M S H W : Type} [Fintype M] [LinearOrder M] [Fintype S] [DecidableEq S] [Fintype H] [DecidableEq H]
  [Fintype W] [DecidableEq W] (cfg : Config M S H) (s : State M S H W)

/-- No two superblocks pin the same mount. -/
def Config.Alone : Prop := ∀ b b' m, cfg.pin b = some m → cfg.pin b' = some m → b = b'

def State.Live (m : M) : Prop := s.vacant m = false ∧ s.doomed m = false

/-! ### Who holds what -/

def pinned (m : M) : ℕ :=
  (Finset.univ.filter fun b => s.sbact b = true ∧ cfg.pin b = some m).card + if m ∈ s.pins then 1 else 0

/-- The references that keep a mount from its last put. -/
def outer (m : M) : ℕ := s.uhead.count m + s.ext m + pinned cfg s m

def owed (m : M) : ℕ := ∑ t, (s.vq t).count m

/-- The reference a parent has on a stand-in. -/
def parentRef (m : M) : ℕ := if cfg.noref = false ∧ s.vacant m = true ∧ s.hashed m = true then 1 else 0

def refs (m : M) : ℕ := outer cfg s m + wrefs s m + owed s m + parentRef cfg s m

/-! ### The invariant -/

/-- A mount is in the hash as long as its parent can be reached and its mountpoint is there.
`busy` is in its last put. -/
structure Tree (busy : Option M) : Prop where
  parent : ∀ m, s.parent m = if s.hashed m then cfg.parent m else none
  top : ∀ m, s.hashed m = true → cfg.parent m ≠ none
  alive : ∀ m, s.hashed m = true → s.doomed m = false
  below : ∀ c p, s.hashed c = true → cfg.parent c = some p → s.Live p
  covers : ∀ c p, cfg.parent c = some p → s.Live p → s.mpgone c = false → busy ≠ some p → s.hashed c = true

/-- The instance list a mount belongs on. -/
def place (m : M) : Inst :=
  if s.doomed m then .none else if s.vacant m then (if cfg.noref = true ∧ s.hashed m = false then .none else .null) else .fs

/-- Who is going to free what is dead: its cleanup, the cleanup of its parent, or with `loose`
the operation in progress. -/
structure Stages (loose : Finset M) : Prop where
  inst : ∀ m, s.inst m = place cfg s m
  freed : ∀ m, s.freed m = true → s.rcufree m = true
  rcufree : ∀ m, s.rcufree m = true → s.doomed m = true ∧ s.oldroot m = false
  oldroot : ∀ m, s.oldroot m = true → s.vacant m = true
  unique : ∀ it ∈ s.tw, ∀ it' ∈ s.tw, it.m = it'.m → it = it'
  release : ∀ it ∈ s.tw, it.kind = .release → s.oldroot it.m = true ∧ it.step ≠ .free
  cleanup : ∀ it ∈ s.tw, it.kind = .cleanup →
    s.vacant it.m = false ∧ s.doomed it.m = true ∧ s.rcufree it.m = false ∧ it.step ≠ .handoff
  pending : ∀ m, s.oldroot m = true → ∃ it ∈ s.tw, it.m = m
  stuck : ∀ c p, c ∈ s.stuck p → cfg.noref = true ∧ s.vacant c = true ∧ s.doomed c = true ∧ s.oldroot c = false ∧
    s.rcufree c = false ∧ (∀ q, c ∈ s.stuck q → q = p) ∧ ∃ it ∈ s.tw, it.m = p ∧ it.step = .stuck
  left : ∀ m ∈ loose, s.doomed m = true ∧ s.oldroot m = false ∧ s.rcufree m = false ∧ (∀ it ∈ s.tw, it.m ≠ m) ∧
    ∀ p, m ∉ s.stuck p
  ends : ∀ m, s.doomed m = true → s.oldroot m = false → s.rcufree m = false →
    m ∈ loose ∨ (∃ it ∈ s.tw, it.m = m) ∨ ∃ p, m ∈ s.stuck p

/-- The filesystem of a mount is up until the cleanup gets to it, and carries the mount's mark. -/
structure Releases : Prop where
  sbact : ∀ m, s.sbact (cfg.sb m) = true ↔
    s.Live m ∨ ∃ it ∈ s.tw, it.m = m ∧ (it.step = .stuck ∨ it.step = .sb)
  conn : ∀ m x, s.conn m = some x → x = some (cfg.sb m) ∧ s.sbact (cfg.sb m) = true
  watched : ∀ m, s.watched (some (cfg.sb m)) = if s.conn m = none then 0 else 1
  unwatched : ∀ x, (∀ m, x ≠ some (cfg.sb m)) → s.watched x = 0
  releases : ∀ m, s.releases m = if s.sbact (cfg.sb m) then 0 else 1

/-- The counts, when `hand` references are in somebody's hands and `busy` is in its last put. -/
structure Ledger (hand : M → ℕ) (busy : Option M) : Prop where
  least : ∀ m, ((refs cfg s m + hand m : ℕ) : ℤ) ≤ s.count m
  exact : ∀ m, s.vacant m = true ∨ s.doomed m = true ∨ cfg.Alone → s.count m = (refs cfg s m + hand m : ℕ)
  ext : ∀ m, s.ext m = (Finset.univ.filter fun h => cfg.holderMnt h = m ∧ s.hdone h = false).card
  final : ∀ m, s.vacant m = true ∨ s.doomed m = true → outer cfg s m = 0
  unowed : ∀ m, s.doomed m = true → owed s m = 0
  noref : cfg.noref = true → ∀ t, s.vq t = []
  alive : ∀ m, s.doomed m = false → (s.vacant m = true → s.hashed m = false) → busy ≠ some m → 1 ≤ s.count m
  pins : ∀ m ∈ s.pins, ∃ b, cfg.pin b = some m ∧ s.sbact b = false

/-- In RCU mode. -/
def Reading (pc : WLabel) : Prop := pc = .lookup ∨ Crossing pc

/-- The walk has legitimized its mount. -/
def Holding (pc : WLabel) : Prop := pc = .put ∨ pc = .use

/-- What the walker found still stands unless mount_lock was taken since. -/
structure WalkerOK (w : W) : Prop where
  rcu : w ∈ s.rcu ↔ Reading (s.walker w).pc
  seq : (s.walker w).seq ≤ s.seq
  aim : (s.walker w).pc ≠ .idle →
    ∃ t p, (s.walker w).tgt = some t ∧ (s.walker w).src = some p ∧ cfg.parent t = some p
  looks : ∀ t, (s.walker w).pc = .lookup → s.seq = (s.walker w).seq → (s.walker w).tgt = some t →
    s.mpgone t = true ∨ s.hashed t = true
  found : ∀ t, Crossing (s.walker w).pc → s.seq = (s.walker w).seq → (s.walker w).tgt = some t → s.hashed t = true
  lock : (s.walker w).pc = .lock → s.seq ≠ (s.walker w).seq
  marked : ∀ t, Transient (s.walker w).pc → s.seq = (s.walker w).seq → (s.walker w).tgt = some t →
    s.vacant t = true → s.held t = true ∨ (s.walker w).stHeld = true
  stores : (s.walker w).pc = .drain ↔ (s.walker w).stHeld = true ∨ (s.walker w).stCnt = true
  kept : ∀ t, Holding (s.walker w).pc → (s.walker w).tgt = some t →
    s.doomed t = false ∧ (s.vacant t = true → s.held t = true)
  waits : ∀ m, s.rcufree m = true → Crossing (s.walker w).pc → (s.walker w).tgt = some m → w ∈ s.freewait m
  waitsSrc : ∀ m, s.rcufree m = true → Reading (s.walker w).pc → (s.walker w).src = some m → w ∈ s.freewait m
  answers : (s.walker w).res ≠ some .beneath ∧ (s.walker w).res ≠ some .hang

structure Walkers : Prop where
  each : ∀ w, WalkerOK cfg s w
  gone : ∀ m, s.freed m = true → s.freewait m = ∅

structure Clean : Prop where
  negative : s.negative = false
  warn : s.warn = ∅
  hung : s.hung = false
  frees : ∀ m, s.frees m = if s.rcufree m then 1 else 0

structure Inv (hand : M → ℕ) (busy : Option M) (loose : Finset M) : Prop where
  tree : Tree cfg s busy
  stages : Stages cfg s loose
  releases : Releases cfg s
  ledger : Ledger cfg s hand busy
  walkers : Walkers cfg s
  clean : Clean s

end LinuxTla.MntVacant
