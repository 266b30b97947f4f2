import LinuxTla.Lib.Sums
import Mathlib.Logic.Function.Basic
import Mathlib.Algebra.BigOperators.Group.List.Basic
import Mathlib.Algebra.Ring.Int.Defs

/-! Shared memory behind one FIFO store buffer per task. What a store does to the
memory is the model's; here is what the buffers do and what they conserve. -/

namespace LinuxTla.Lib

/-- What everybody sees and what each task still has to publish. -/
structure Memory (V E T : Type*) where
  vis : V
  buf : T → List E

namespace Memory

variable {V E T : Type*} [DecidableEq T] (apply : V → E → V) (m : Memory V E T) (t : T)

def push (es : List E) : Memory V E T := { m with buf := Function.update m.buf t (m.buf t ++ es) }

/-- Everything `t` has stored becomes visible, `extra` after it. -/
def drained (extra : List E) : Memory V E T where
  vis := (m.buf t ++ extra).foldl apply m.vis
  buf := Function.update m.buf t []

/-- The oldest store of `t` becomes visible. -/
def flush : Memory V E T where
  vis := (m.buf t).head?.elim m.vis (apply m.vis)
  buf := Function.update m.buf t (m.buf t).tail

variable {apply m t} {u : T} {es : List E}

@[simp] theorem push_vis : (m.push t es).vis = m.vis := rfl

@[simp] theorem push_buf : (m.push t es).buf t = m.buf t ++ es := by simp [push]

@[simp] theorem push_buf_other (other : u ≠ t) : (m.push t es).buf u = m.buf u := by simp [push, other]

@[simp] theorem drained_vis : (m.drained apply t es).vis = (m.buf t ++ es).foldl apply m.vis := rfl

@[simp] theorem drained_buf : (m.drained apply t es).buf t = [] := by simp [drained]

@[simp] theorem drained_buf_other (other : u ≠ t) : (m.drained apply t es).buf u = m.buf u := by simp [drained, other]

theorem flush_vis {e : E} {rest : List E} (entry : m.buf t = e :: rest) : (m.flush apply t).vis = apply m.vis e := by
  simp [flush, entry]

@[simp] theorem flush_buf : (m.flush apply t).buf t = (m.buf t).tail := by simp [flush]

@[simp] theorem flush_buf_other (other : u ≠ t) : (m.flush apply t).buf u = m.buf u := by simp [flush, other]

/-! ### Conservation

A quantity every store changes by its weight is changed by nothing else. -/

section Total

variable {measure : V → ℤ} {weight : E → ℤ} (additive : ∀ v e, measure (apply v e) = measure v + weight e)

/-- What is visible of a quantity and what is still buffered. -/
def total (measure : V → ℤ) (weight : E → ℤ) (tasks : Finset T) (m : Memory V E T) : ℤ :=
  measure m.vis + ∑ t ∈ tasks, ((m.buf t).map weight).sum

include additive in
omit [DecidableEq T] in
theorem measure_foldl (v : V) (es : List E) : measure (es.foldl apply v) = measure v + (es.map weight).sum := by
  induction es generalizing v with
  | nil => simp
  | cons e es ih =>
    rw [List.foldl_cons, ih, additive, List.map_cons, List.sum_cons]
    omega

theorem total_push {tasks : Finset T} (member : t ∈ tasks) :
    (m.push t es).total measure weight tasks = m.total measure weight tasks + (es.map weight).sum := by
  have change := sum_change (f := fun u => (((m.push t es).buf u).map weight).sum)
    (g := fun u => ((m.buf u).map weight).sum) member fun u _ other => by simp [other]
  simp only [push_buf, List.map_append, List.sum_append] at change
  simp only [total, push_vis, change]
  omega

include additive in
theorem total_drained {tasks : Finset T} (member : t ∈ tasks) :
    (m.drained apply t es).total measure weight tasks = m.total measure weight tasks + (es.map weight).sum := by
  have change := sum_change (f := fun u => (((m.drained apply t es).buf u).map weight).sum)
    (g := fun u => ((m.buf u).map weight).sum) member fun u _ other => by simp [other]
  have visible := measure_foldl additive m.vis (m.buf t ++ es)
  simp only [drained_buf, List.map_nil, List.sum_nil] at change
  simp only [List.map_append, List.sum_append] at visible
  simp only [total, drained_vis, change, visible]
  omega

include additive in
theorem total_flush {tasks : Finset T} (member : t ∈ tasks) :
    (m.flush apply t).total measure weight tasks = m.total measure weight tasks := by
  have change := sum_change (f := fun u => (((m.flush apply t).buf u).map weight).sum)
    (g := fun u => ((m.buf u).map weight).sum) member fun u _ other => by simp [other]
  simp only [flush_buf] at change
  cases entry : m.buf t with
  | nil =>
    simp only [entry, List.tail_nil, List.map_nil, List.sum_nil] at change
    have visible : (m.flush apply t).vis = m.vis := by simp [flush, entry]
    simp only [total, visible, change]
    omega
  | cons e rest =>
    simp only [entry, List.tail_cons, List.map_cons, List.sum_cons] at change
    simp only [total, flush_vis entry, change, additive]
    omega

end Total

end Memory

end LinuxTla.Lib
