import Mathlib.Data.List.Dedup
import Mathlib.Data.Finset.Card
import Mathlib.Tactic.Common

/-!
# Paging — a list that is read page by page

A reader asks for pages of one size, and is shown a prefix of each of them.  The pages after the
first one start where the first one was seen to end, however much it shows when it is looked at
again.  What was shown is the list itself exactly if nothing was shown twice and there is enough of
it: two counts decide what would otherwise take a comparison of the lists.
-/

namespace Huldra
namespace Paging

variable {α : Type} {list shown rest : List α} {start size : Nat}

/-- A page shows a prefix of its slice of the list. -/
def Shows (list : List α) (size start : Nat) (shown : List α) : Prop :=
  shown <+: (list.drop start).take size

/-- A page shows all of its slice. -/
def Fills (list : List α) (size start : Nat) (shown : List α) : Prop :=
  shown = (list.drop start).take size

/-- Pages of one size, one after the other, each of which is as `P` says of its place. -/
inductive Follows (P : Nat → List α → Prop) (size : Nat) : Nat → List (List α) → Prop where
  | nil (start : Nat) : Follows P size start []
  | cons {start : Nat} {shown : List α} {pages : List (List α)} :
      P start shown → Follows P size (start + size) pages → Follows P size start (shown :: pages)

/-- The places of the pages are the multiples of their size. -/
theorem follows_of_range {P : Nat → List α → Prop} {pages : List (List α)} {number : Nat} :
    ∀ {first : Nat}, List.Forall₂ (fun i shown => P (start + i * size) shown)
        (List.range' first number) pages →
      Follows P size (start + first * size) pages := by
  induction number generalizing pages with
  | zero =>
      intro first h
      cases h
      exact .nil _
  | succ number ih =>
      intro first h
      rw [List.range'_succ] at h
      cases h with
      | cons hshown hrest =>
          have hnext : start + (first + 1) * size = start + first * size + size := by
            rw [Nat.succ_mul, Nat.add_assoc]
          exact .cons hshown (hnext ▸ ih hrest)

/-! ## In order -/

theorem take_append_rest (list : List α) (start size : Nat) :
    (list.drop start).take size ++ list.drop (start + size) = list.drop start := by
  calc (list.drop start).take size ++ list.drop (start + size)
      = (list.drop start).take size ++ (list.drop start).drop size := by rw [List.drop_drop]
    _ = list.drop start := List.take_append_drop size _

theorem Shows.append_rest (h : Shows list size start shown) :
    shown ++ list.drop (start + shown.length) = list.drop start := by
  have hprefix : shown <+: list.drop start := h.trans (List.take_prefix size _)
  calc shown ++ list.drop (start + shown.length)
      = (list.drop start).take shown.length ++ list.drop (start + shown.length) := by
        rw [← List.prefix_iff_eq_take.1 hprefix]
    _ = list.drop start := take_append_rest list start shown.length

/-- What pages show one after the other stands in the list in this order. -/
theorem Follows.sublist {pages : List (List α)} (h : Follows (Shows list size) size start pages) :
    pages.flatten.Sublist (list.drop start) := by
  induction h with
  | nil start => exact List.nil_sublist _
  | @cons start shown pages hshown _ ih =>
      rw [List.flatten_cons, ← take_append_rest list start size]
      exact hshown.sublist.append ih

/-- Of two parts a list that has nothing of the first one stands in the second. -/
theorem sublist_of_disjoint {first second : List α} (h : rest.Sublist (first ++ second))
    (hdisjoint : first.Disjoint rest) : rest.Sublist second := by
  rcases List.sublist_append_iff.1 h with ⟨head, tail, rfl, hhead, htail⟩
  cases head with
  | nil => exact htail
  | cons a head =>
      have hmem : a ∈ first := hhead.subset List.mem_cons_self
      exact (hdisjoint hmem (List.mem_append_left _ List.mem_cons_self)).elim

/-- The first page may show more or less than was seen of it when the others were planned: as long
as nothing is shown twice, all stands in the list in this order. -/
theorem Shows.append_sublist (h : Shows list size start shown) {seen : Nat}
    (hrest : rest.Sublist (list.drop (start + seen))) (hnodup : (shown ++ rest).Nodup) :
    (shown ++ rest).Sublist (list.drop start) := by
  rw [← h.append_rest]
  refine List.Sublist.append (List.Sublist.refl shown) ?_
  by_cases hless : shown.length ≤ seen
  · -- It shows no more than was planned with: a gap is left before the rest.
    have hgap : list.drop (start + seen) =
        (list.drop (start + shown.length)).drop (seen - shown.length) := by
      rw [List.drop_drop]
      congr 1
      omega
    rw [hgap] at hrest
    exact hrest.trans (List.drop_sublist _ _)
  · -- It shows more: what it has beyond the plan is shown by no other page.
    have hbeyond : list.drop (start + seen) =
        shown.drop seen ++ list.drop (start + shown.length) := by
      calc list.drop (start + seen)
          = (shown ++ list.drop (start + shown.length)).drop seen := by
            rw [h.append_rest, List.drop_drop]
        _ = shown.drop seen ++ list.drop (start + shown.length) :=
            List.drop_append_of_le_length (by omega)
    rw [hbeyond] at hrest
    refine sublist_of_disjoint hrest ?_
    intro a ha hin
    exact (List.nodup_append'.1 hnodup).2.2 (List.mem_of_mem_drop ha) hin

/-! ## Two counts -/

section Counts

variable [DecidableEq α]

theorem nodup_iff_card : shown.Nodup ↔ shown.length = shown.toFinset.card := by
  constructor
  · intro hnodup
    exact (List.toFinset_card_of_nodup hnodup).symm
  · intro hcard
    rw [List.card_toFinset] at hcard
    have hdedup := (List.dedup_sublist shown).eq_of_length hcard.symm
    exact List.dedup_eq_self.1 hdedup

/-- Two counts decide whether the pages, of which the first was seen to hold `seen`, show all of a
list without repetitions from its place `start` on. -/
theorem counts_decide (hnodup : list.Nodup) {seen : Nat} {pages : List (List α)}
    (hfirst : Shows list size start shown)
    (hpages : Follows (Shows list size) size (start + seen) pages) :
    ((shown ++ pages.flatten).length = (shown ++ pages.flatten).toFinset.card ∧
      list.length - start ≤ (shown ++ pages.flatten).toFinset.card) ↔
        shown ++ pages.flatten = list.drop start := by
  constructor
  · rintro ⟨honce, henough⟩
    have hsublist := hfirst.append_sublist hpages.sublist (nodup_iff_card.2 honce)
    refine hsublist.eq_of_length_le ?_
    rw [List.length_drop]
    omega
  · intro hall
    have hrest : (shown ++ pages.flatten).Nodup :=
      hall ▸ hnodup.sublist (List.drop_sublist start list)
    have honce := nodup_iff_card.1 hrest
    refine ⟨honce, ?_⟩
    calc list.length - start
        = (shown ++ pages.flatten).length := by rw [hall, List.length_drop]
      _ ≤ (shown ++ pages.flatten).toFinset.card := Nat.le_of_eq honce

end Counts

/-! ## Full pages -/

theorem Fills.shows (h : Fills list size start shown) : Shows list size start shown := by
  rw [Shows, ← h]

/-- Full pages show the list as far as they go. -/
theorem Follows.flatten {pages : List (List α)} (h : Follows (Fills list size) size start pages) :
    pages.flatten = (list.drop start).take (pages.length * size) := by
  induction h with
  | nil start => simp
  | @cons start shown pages hshown _ ih =>
      calc (shown :: pages).flatten
          = (list.drop start).take size ++
              ((list.drop start).drop size).take (pages.length * size) := by
            rw [List.flatten_cons, ih, hshown, List.drop_drop]
        _ = (list.drop start).take (size + pages.length * size) := List.take_add.symm
        _ = (list.drop start).take ((shown :: pages).length * size) := by
            rw [List.length_cons, Nat.succ_mul, Nat.add_comm]

/-- So many pages reach the end. -/
theorem le_ceil_mul (remaining : Nat) (hsize : 0 < size) :
    remaining ≤ (remaining + size - 1) / size * size := by
  have hdiv := Nat.div_add_mod (remaining + size - 1) size
  have hmod := Nat.mod_lt (remaining + size - 1) hsize
  rw [Nat.mul_comm] at hdiv
  omega

/-- A first page and as many full pages after it as are needed show all of the list. -/
theorem append_flatten_of_full {pages : List (List α)} (hfirst : Shows list size start shown)
    (hfull : Follows (Fills list size) size (start + shown.length) pages)
    (henough : list.length - (start + shown.length) ≤ pages.length * size) :
    shown ++ pages.flatten = list.drop start := by
  calc shown ++ pages.flatten
      = shown ++ list.drop (start + shown.length) := by
        rw [hfull.flatten, List.take_of_length_le]
        rw [List.length_drop]
        exact henough
    _ = list.drop start := hfirst.append_rest

end Paging
end Huldra
