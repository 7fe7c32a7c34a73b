import Mathlib.Data.List.Forall2

/-!
# Raising — computations that return a value or raise

What is known of the parts of a computation in `Except` that came to its end.
-/

namespace Huldra
namespace Raising

variable {ε α β : Type}

theorem bind_ok {x : Except ε α} {f : α → Except ε β} {b : β} (h : (x >>= f) = .ok b) :
    ∃ a, x = .ok a ∧ f a = .ok b := by
  cases x with
  | error e => cases h
  | ok a => exact ⟨a, rfl, h⟩

/-- All items of a list are read, each into its own result, or none is. -/
theorem mapM_ok_iff {f : α → Except ε β} {items : List α} {results : List β} :
    items.mapM f = .ok results ↔
      List.Forall₂ (fun item result => f item = .ok result) items results := by
  constructor
  · induction items generalizing results with
    | nil =>
        intro h
        cases h
        exact .nil
    | cons item rest ih =>
        intro h
        rw [List.mapM_cons] at h
        rcases bind_ok h with ⟨result, hresult, h⟩
        rcases bind_ok h with ⟨others, hothers, h⟩
        cases h
        exact .cons hresult (ih hothers)
  · intro h
    induction h with
    | nil => rfl
    | cons hresult _ ih =>
        rw [List.mapM_cons, hresult, ih]
        rfl

/-! ## Computations that come to their end -/

theorem exists_map {x : Except ε α} {f : α → β} :
    (∃ b, x.map f = .ok b) ↔ ∃ a, x = .ok a := by
  cases x with
  | error e => simp [Except.map]
  | ok a => simp [Except.map]

theorem exists_bind {x : Except ε α} {f : α → Except ε β} :
    (∃ b, (x >>= f) = .ok b) ↔ ∃ a, x = .ok a ∧ ∃ b, f a = .ok b := by
  constructor
  · rintro ⟨b, h⟩
    rcases bind_ok h with ⟨a, ha, hb⟩
    exact ⟨a, ha, b, hb⟩
  · rintro ⟨a, rfl, b, hb⟩
    exact ⟨b, hb⟩

/-- A list is read if all its items are. -/
theorem exists_mapM {f : α → Except ε β} {items : List α} :
    (∃ results, items.mapM f = .ok results) ↔ ∀ item ∈ items, ∃ result, f item = .ok result := by
  induction items with
  | nil => exact iff_of_true ⟨[], rfl⟩ fun item hmem => by cases hmem
  | cons item items ih =>
      rw [List.mapM_cons, exists_bind, List.forall_mem_cons, ← ih]
      constructor
      · rintro ⟨result, hresult, hrest⟩
        rcases exists_bind.1 hrest with ⟨results, hresults, _⟩
        exact ⟨⟨result, hresult⟩, results, hresults⟩
      · rintro ⟨⟨result, hresult⟩, results, hresults⟩
        exact ⟨result, hresult, exists_bind.2 ⟨results, hresults, _, rfl⟩⟩

end Raising
end Huldra
