import Mathlib.Data.List.Basic

/-!
# Log — a log that grows, and readers that lag behind it

The newest entry of a log comes first.  An abstract state accepts an entry or not, and moves by
it; a reader that has seen a suffix of the log is in the state that this suffix leads to.  Where
that state accepts nothing more, the reader has seen the whole log.
-/

namespace Huldra
namespace Process
namespace Log

variable {S E : Type} (accepts : S → E → Prop) (advance : S → E → S) (start : S)

/-- The state that the entries lead to, the oldest first. -/
def after : List E → S
  | [] => start
  | e :: older => advance (after older) e

/-- Each entry was accepted in the state of the older ones. -/
def Accepted : List E → Prop
  | [] => True
  | e :: older => accepts (after advance start older) e ∧ Accepted older

variable {accepts advance start} {log older : List E}

@[simp] theorem after_nil : after advance start [] = start := rfl

@[simp] theorem after_cons (e : E) (older : List E) :
    after advance start (e :: older) = advance (after advance start older) e := rfl

theorem Accepted.of_suffix (h : Accepted accepts advance start log) (hs : older <:+ log) :
    Accepted accepts advance start older := by
  induction log with
  | nil =>
      rw [List.suffix_nil.1 hs]
      trivial
  | cons e log ih =>
      rcases List.suffix_cons_iff.1 hs with rfl | hs
      · exact h
      · exact ih h.2 hs

/-- A proper suffix goes on with an entry of the log. -/
theorem eq_or_next (hs : older <:+ log) : older = log ∨ ∃ e, (e :: older) <:+ log := by
  induction log with
  | nil => exact Or.inl (List.suffix_nil.1 hs)
  | cons e log ih =>
      rcases List.suffix_cons_iff.1 hs with rfl | hs
      · exact Or.inl rfl
      · rcases ih hs with rfl | ⟨e', hs'⟩
        · exact Or.inr ⟨e, List.suffix_rfl⟩
        · exact Or.inr ⟨e', hs'.trans (List.suffix_cons e log)⟩

theorem eq_of_length {a b : List E} (ha : a <:+ log) (hb : b <:+ log)
    (hlength : a.length = b.length) : a = b :=
  (List.suffix_of_suffix_length_le ha hb (Nat.le_of_eq hlength)).eq_of_length hlength

/-- A reader whose state accepts nothing more has seen the whole log. -/
theorem Accepted.eq_of_final (h : Accepted accepts advance start log) (hs : older <:+ log)
    (hfinal : ∀ e, ¬ accepts (after advance start older) e) : older = log := by
  rcases eq_or_next hs with hall | ⟨e, hnext⟩
  · exact hall
  · exact absurd (h.of_suffix hnext).1 (hfinal e)

/-- What every accepted entry keeps holds in the end. -/
theorem Accepted.invariant {Inv : S → Prop} (hstart : Inv start)
    (hstep : ∀ s e, Inv s → accepts s e → Inv (advance s e)) :
    ∀ {log : List E}, Accepted accepts advance start log → Inv (after advance start log) := by
  intro log
  induction log with
  | nil =>
      intro _
      exact hstart
  | cons e log ih =>
      intro h
      exact hstep _ e (ih h.2) h.1

end Log
end Process
end Huldra
