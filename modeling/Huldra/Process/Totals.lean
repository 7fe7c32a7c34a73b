import Huldra.Process.System
import Mathlib.Algebra.Order.Ring.Nat

/-!
# Totals — sums over the events of a history, process by process

What is shown of each process by itself, that two sums over its own events agree, is true of the
sums over all events.  A measure of the state grows along a history by what each event adds to it.
-/

namespace Huldra
namespace Process

/-! ## Sums by key -/

section Keyed

variable {α κ : Type} [DecidableEq κ] (key : α → κ)

theorem sum_filter_add (k : κ) (n : α → Nat) (l : List α) :
    ((l.filter fun a => decide (key a = k)).map n).sum +
        ((l.filter fun a => !decide (key a = k)).map n).sum = (l.map n).sum := by
  induction l with
  | nil => rfl
  | cons a rest ih =>
      by_cases h : key a = k
      · simp only [List.filter_cons, h, decide_true, Bool.not_true, if_true, Bool.false_eq_true,
          if_false, List.map_cons, List.sum_cons]
        omega
      · simp only [List.filter_cons, h, decide_false, Bool.not_false, if_true, Bool.false_eq_true,
          if_false, List.map_cons, List.sum_cons]
        omega

/-- Sums that agree on the members of every key agree. -/
theorem sum_eq_of_keys {m n : α → Nat} : ∀ (l : List α),
    (∀ k, ((l.filter fun a => decide (key a = k)).map m).sum =
      ((l.filter fun a => decide (key a = k)).map n).sum) → (l.map m).sum = (l.map n).sum
  | [], _ => rfl
  | a :: rest, h => by
      -- The members of the first key, and those of the other keys, which are fewer.
      have hothers := sum_eq_of_keys (m := m) (n := n)
        ((a :: rest).filter fun b => !decide (key b = key a)) fun k => by
          by_cases hk : k = key a
          · subst hk
            have hnone : ((a :: rest).filter fun b => !decide (key b = key a)).filter
                (fun b => decide (key b = key a)) = [] := by
              rw [List.filter_filter, List.filter_eq_nil_iff]
              intro b _
              simp
            rw [hnone]
            rfl
          · have hsame : ((a :: rest).filter fun b => !decide (key b = key a)).filter
                (fun b => decide (key b = k)) = (a :: rest).filter fun b => decide (key b = k) := by
              rw [List.filter_filter]
              refine List.filter_congr fun b _ => ?_
              by_cases hb : key b = k
              · simp [hb, hk]
              · simp [hb]
            rw [hsame]
            exact h k
      rw [← sum_filter_add key (key a) m, ← sum_filter_add key (key a) n, h (key a), hothers]
termination_by l => l.length
decreasing_by
  simp only [List.filter_cons, decide_true, Bool.not_true, Bool.false_eq_true, if_false]
  exact Nat.lt_succ_of_le (List.length_filter_le _ _)

end Keyed

namespace System

variable {I : Interface} {S : System I}

/-- A sum over the events of one process. -/
def totalOf (pid : Nat) (n : Event S → Nat) (h : History S) : Nat :=
  ((h.filter fun e => decide (e.pid = pid)).map n).sum

def total (n : Event S → Nat) (h : History S) : Nat :=
  (h.map n).sum

@[simp] theorem totalOf_nil (pid : Nat) (n : Event S → Nat) : totalOf pid n [] = 0 := rfl

@[simp] theorem totalOf_cons_self (n : Event S → Nat) (e : Event S) (pre : History S) :
    totalOf e.pid n (e :: pre) = n e + totalOf e.pid n pre := by
  simp [totalOf]

theorem totalOf_cons_of_ne {pid : Nat} (n : Event S → Nat) {e : Event S} (pre : History S)
    (h : e.pid ≠ pid) : totalOf pid n (e :: pre) = totalOf pid n pre := by
  simp [totalOf, h]

theorem total_eq_of_totalOf {m n : Event S → Nat} {h : History S}
    (hsame : ∀ pid, totalOf pid m h = totalOf pid n h) : total m h = total n h :=
  sum_eq_of_keys (fun e : Event S => e.pid) h hsame

/-- What an event adds to a measure of the state. -/
def added (measure : S.State → Nat) (e : Event S) : Nat :=
  measure e.after - measure e.before

/-- A measure that no event diminishes has grown by what the events have added. -/
theorem measure_stateAfter {measure : S.State → Nat} {h : History S}
    (hgrows : Throughout (fun _ e => measure e.before ≤ measure e.after) h)
    (hlegal : Throughout Legal h) :
    measure (stateAfter h) = measure S.init + total (added measure) h := by
  induction h with
  | nil => rfl
  | cons e pre ih =>
      have hpre := ih hgrows.tail hlegal.tail
      have hle := hgrows.head
      rw [hlegal.head.before_eq] at hle
      rw [total, List.map_cons, List.sum_cons, added, hlegal.head.before_eq]
      change measure e.after = _
      rw [total] at hpre
      omega

end System

end Process
end Huldra
