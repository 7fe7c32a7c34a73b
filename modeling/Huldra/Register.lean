import Mathlib.Data.List.Basic

/-!
# Register — values under keys, explained by the writes to them

The writes are a log, the newest first.  Of those to one key two are remembered: the first says
since when there is a value, the last says what it is.  Where every write renders this span anew, a
reader sees the span of its key at all times.
-/

namespace Huldra
namespace Register

variable {K V W : Type} [DecidableEq K] (keyOf : W → K)

/-- The first and the last of the writes to a key. -/
def span (key : K) (log : List W) : Option (W × W) :=
  let writes := log.filter fun w => keyOf w = key
  writes.getLast?.bind fun first => writes.head?.map fun last => (first, last)

/-- Every key reads as its span is rendered. -/
def Renders (render : W → W → V) (read : K → Option V) (log : List W) : Prop :=
  ∀ key, read key = (span keyOf key log).map fun s => render s.1 s.2

variable {keyOf} {render : W → W → V} {read read' : K → Option V} {log : List W} {w : W}

theorem span_cons_of_ne {key : K} (h : keyOf w ≠ key) (log : List W) :
    span keyOf key (w :: log) = span keyOf key log := by
  simp [span, h]

/-- A write is the last one; it is the first one too where there was none. -/
theorem span_cons_self (w : W) (log : List W) :
    span keyOf (keyOf w) (w :: log) =
      some (((span keyOf (keyOf w) log).map (·.1)).getD w, w) := by
  simp only [span, List.filter_cons, decide_true, if_true, List.head?_cons]
  cases hwrites : log.filter fun w' => keyOf w' = keyOf w with
  | nil => rfl
  | cons last older =>
      rw [List.getLast?_cons_cons]
      cases hfirst : (last :: older).getLast? with
      | none => exact absurd (List.getLast?_eq_none_iff.1 hfirst) (List.cons_ne_nil last older)
      | some first => rfl

namespace Renders

theorem nil (h : ∀ key, read key = none) : Renders keyOf render read [] :=
  fun key => h key

theorem congr (h : Renders keyOf render read log) (hsame : ∀ key, read' key = read key) :
    Renders keyOf render read' log :=
  fun key => (hsame key).trans (h key)

/-- One write: the key is rendered since its first write, and no other key is touched. -/
theorem write (h : Renders keyOf render read log)
    (hother : ∀ key, keyOf w ≠ key → read' key = read key)
    (hnew : read (keyOf w) = none → read' (keyOf w) = some (render w w))
    (hold : ∀ first last, read (keyOf w) = some (render first last) →
      read' (keyOf w) = some (render first w)) :
    Renders keyOf render read' (w :: log) := by
  intro key
  by_cases hkey : keyOf w = key
  · subst hkey
    have hread := h (keyOf w)
    rw [span_cons_self]
    cases hspan : span keyOf (keyOf w) log with
    | none =>
        rw [hspan] at hread
        exact hnew hread
    | some s =>
        rw [hspan] at hread
        exact hold s.1 s.2 hread
  · rw [span_cons_of_ne hkey, hother key hkey]
    exact h key

/-- Writes one after the other. -/
theorem foldl {S : Type} (read : S → K → Option V) {step : S → W → S}
    (hstep : ∀ s w log, Renders keyOf render (read s) log →
      Renders keyOf render (read (step s w)) (w :: log)) :
    ∀ (writes : List W) (s : S) (log : List W), Renders keyOf render (read s) log →
      Renders keyOf render (read (writes.foldl step s)) (writes.reverse ++ log) := by
  intro writes
  induction writes with
  | nil =>
      intro s log h
      exact h
  | cons w writes ih =>
      intro s log h
      rw [List.foldl_cons, List.reverse_cons, List.append_assoc]
      exact ih (step s w) (w :: log) (hstep s w log h)

end Renders

end Register
end Huldra
