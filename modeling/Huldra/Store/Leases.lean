import Huldra.Models
import Mathlib.Logic.Function.Basic
import Mathlib.Data.List.Nodup

/-!
# Leases — the `leases` table and its transactions

A lease is a row under a name.  Acquiring overwrites a row that is the owner's own or has expired,
renewing extends a row that still names the owner, releasing deletes it.  All three decide by the
owner token alone.
-/

namespace Huldra

structure LeaseRow where
  ownerToken : OwnerToken
  acquiredAt : Int
  expiresAt : Int
  deriving DecidableEq, Repr

/-- The table: at most one row for each name. -/
abbrev Leases := LeaseName → Option LeaseRow

/-- One entry of the argument of `renew_leases_if_owned`. -/
structure LeaseRenewal where
  name : LeaseName
  ownerToken : OwnerToken
  timeoutSeconds : Int
  deriving DecidableEq, Repr

namespace Leases

/-- The row names this owner. -/
def ownedBy (leases : Leases) (name : LeaseName) (ownerToken : OwnerToken) : Bool :=
  match leases name with
  | some row => row.ownerToken = ownerToken
  | none => false

/-- Another owner's row that has not expired. -/
def heldAgainst (leases : Leases) (name : LeaseName) (ownerToken : OwnerToken) (current : Int) :
    Bool :=
  match leases name with
  | some existing => existing.ownerToken ≠ ownerToken && current < existing.expiresAt
  | none => false

def acquireLease (leases : Leases) (name : LeaseName) (ownerToken : OwnerToken)
    (timeoutSeconds : Int) (current : Int) : Bool × Leases :=
  if leases.heldAgainst name ownerToken current then (false, leases)
  else
    (true, Function.update leases name
      (some
        { ownerToken := ownerToken
          acquiredAt := current
          expiresAt := current + seconds timeoutSeconds }))

/-- `UPDATE leases SET expires_at=? WHERE name=? AND owner_token=?` -/
def extend (leases : Leases) (name : LeaseName) (ownerToken : OwnerToken) (expiresAt : Int) :
    Leases :=
  match leases name with
  | some row =>
      if row.ownerToken = ownerToken then
        Function.update leases name (some { row with expiresAt := expiresAt })
      else leases
  | none => leases

def renewLeasesIfOwned (leases : Leases) (renewals : List LeaseRenewal) (current : Int) :
    Except Exn Bool × Leases :=
  if (renewals.map LeaseRenewal.name).Nodup then
    if renewals.all fun r => leases.ownedBy r.name r.ownerToken then
      (.ok true, renewals.foldl
        (fun l r => l.extend r.name r.ownerToken (current + seconds r.timeoutSeconds)) leases)
    else (.ok false, leases)
  else (.error (.valueError "lease names must be unique"), leases)

def releaseLease (leases : Leases) (name : LeaseName) (ownerToken : OwnerToken) : Leases :=
  if leases.ownedBy name ownerToken then Function.update leases name none else leases

/-! ## What the transactions do to one row -/

theorem ownedBy_iff {leases : Leases} {name : LeaseName} {owner : OwnerToken} :
    leases.ownedBy name owner = true ↔
      ∃ row, leases name = some row ∧ row.ownerToken = owner := by
  cases h : leases name with
  | none => simp [ownedBy, h]
  | some row => simp [ownedBy, h]

theorem not_heldAgainst_iff {leases : Leases} {name : LeaseName} {owner : OwnerToken}
    {current : Int} :
    leases.heldAgainst name owner current = false ↔
      ∀ row, leases name = some row → row.ownerToken = owner ∨ row.expiresAt ≤ current := by
  cases h : leases name with
  | none => simp [heldAgainst, h]
  | some row =>
      simp only [heldAgainst, h, Option.some.injEq, forall_eq', Bool.and_eq_false_iff,
        decide_eq_false_iff_not, not_not, Int.not_lt]

/-- The row a successful acquisition writes. -/
theorem acquireLease_cases (leases : Leases) (name : LeaseName) (owner : OwnerToken)
    (timeout current : Int) :
    (leases.acquireLease name owner timeout current = (false, leases) ∧
      leases.heldAgainst name owner current = true) ∨
    (leases.acquireLease name owner timeout current =
        (true, Function.update leases name (some ⟨owner, current, current + seconds timeout⟩)) ∧
      leases.heldAgainst name owner current = false) := by
  cases h : leases.heldAgainst name owner current with
  | true => exact Or.inl ⟨by simp [acquireLease, h], rfl⟩
  | false => exact Or.inr ⟨by simp [acquireLease, h], rfl⟩

theorem extend_of_ne {leases : Leases} {name n : LeaseName} (h : n ≠ name) (owner : OwnerToken)
    (expires : Int) : leases.extend name owner expires n = leases n := by
  cases hrow : leases name with
  | none => simp [extend, hrow]
  | some row =>
      by_cases howner : row.ownerToken = owner
      · simp [extend, hrow, howner, Function.update_of_ne h]
      · simp [extend, hrow, howner]

theorem extend_self {leases : Leases} {name : LeaseName} {owner : OwnerToken} {row : LeaseRow}
    (hrow : leases name = some row) (howner : row.ownerToken = owner) (expires : Int) :
    leases.extend name owner expires name = some { row with expiresAt := expires } := by
  simp [extend, hrow, howner]

theorem ownedBy_extend_of_ne {leases : Leases} {name n : LeaseName} (h : n ≠ name)
    (owner owner' : OwnerToken) (expires : Int) :
    (leases.extend name owner expires).ownedBy n owner' = leases.ownedBy n owner' := by
  simp [ownedBy, extend_of_ne h]

private theorem foldl_extend_of_not_mem (current : Int) (renewals : List LeaseRenewal)
    (n : LeaseName) : ∀ leases : Leases, n ∉ renewals.map LeaseRenewal.name →
      renewals.foldl
        (fun l r => l.extend r.name r.ownerToken (current + seconds r.timeoutSeconds)) leases n =
      leases n := by
  induction renewals with
  | nil =>
      intro leases _
      rfl
  | cons r rest ih =>
      intro leases hn
      simp only [List.map_cons, List.mem_cons, not_or] at hn
      have hrest := ih (leases.extend r.name r.ownerToken (current + seconds r.timeoutSeconds)) hn.2
      simpa [extend_of_ne hn.1] using hrest

private theorem foldl_extend_of_mem (current : Int) (renewals : List LeaseRenewal) :
    ∀ leases : Leases, (renewals.map LeaseRenewal.name).Nodup →
      (∀ r ∈ renewals, leases.ownedBy r.name r.ownerToken = true) → ∀ r ∈ renewals,
        renewals.foldl
          (fun l r => l.extend r.name r.ownerToken (current + seconds r.timeoutSeconds)) leases
          r.name =
        (leases r.name).map fun row =>
          { row with expiresAt := current + seconds r.timeoutSeconds } := by
  induction renewals with
  | nil =>
      intro leases _ _ r hr
      cases hr
  | cons a rest ih =>
      intro leases hnodup howned r hr
      have hparts : a.name ∉ rest.map LeaseRenewal.name ∧
          (rest.map LeaseRenewal.name).Nodup := List.nodup_cons.1 hnodup
      rcases List.mem_cons.1 hr with rfl | hmem
      · rcases ownedBy_iff.1 (howned r (by simp)) with ⟨row, hrow, howner⟩
        have hkeep := foldl_extend_of_not_mem current rest r.name
          (leases.extend r.name r.ownerToken (current + seconds r.timeoutSeconds)) hparts.1
        simpa [extend_self hrow howner, hrow] using hkeep
      · have hne : r.name ≠ a.name := by
          intro heq
          exact hparts.1 (heq ▸ List.mem_map_of_mem hmem)
        have hrest := ih (leases.extend a.name a.ownerToken (current + seconds a.timeoutSeconds))
          hparts.2
          (by
            intro b hb
            have hbne : b.name ≠ a.name := by
              intro heq
              exact hparts.1 (heq ▸ List.mem_map_of_mem hb)
            rw [ownedBy_extend_of_ne hbne]
            exact howned b (List.mem_cons_of_mem a hb))
          r hmem
        simpa [extend_of_ne hne] using hrest

/-- A renewal extends every listed row of the owner, or changes nothing. -/
theorem renewLeasesIfOwned_cases (leases : Leases) (renewals : List LeaseRenewal) (current : Int) :
    (∃ r, r ≠ .ok true ∧ leases.renewLeasesIfOwned renewals current = (r, leases)) ∨
    (∃ leases', leases.renewLeasesIfOwned renewals current = (.ok true, leases') ∧
      (∀ r ∈ renewals, leases.ownedBy r.name r.ownerToken = true ∧
        leases' r.name = (leases r.name).map fun row =>
          { row with expiresAt := current + seconds r.timeoutSeconds }) ∧
      ∀ n, n ∉ renewals.map LeaseRenewal.name → leases' n = leases n) := by
  by_cases hnodup : (renewals.map LeaseRenewal.name).Nodup
  · cases howned : renewals.all fun r => leases.ownedBy r.name r.ownerToken with
    | true =>
        have hall : ∀ r ∈ renewals, leases.ownedBy r.name r.ownerToken = true := by
          simpa using howned
        refine Or.inr ⟨renewals.foldl
          (fun l r => l.extend r.name r.ownerToken (current + seconds r.timeoutSeconds)) leases,
          by simp [renewLeasesIfOwned, hnodup, howned], ?_, ?_⟩
        · intro r hr
          exact ⟨hall r hr, foldl_extend_of_mem current renewals leases hnodup hall r hr⟩
        · intro n hn
          exact foldl_extend_of_not_mem current renewals n leases hn
    | false =>
        exact Or.inl ⟨.ok false, by simp, by simp [renewLeasesIfOwned, hnodup, howned]⟩
  · exact Or.inl ⟨.error (.valueError "lease names must be unique"), by simp,
      by simp [renewLeasesIfOwned, hnodup]⟩

theorem releaseLease_of_ne {leases : Leases} {name n : LeaseName} (h : n ≠ name)
    (owner : OwnerToken) : leases.releaseLease name owner n = leases n := by
  unfold releaseLease
  split
  · simp [Function.update_of_ne h]
  · rfl

theorem releaseLease_self (leases : Leases) (name : LeaseName) (owner : OwnerToken) :
    (leases.ownedBy name owner = true ∧ leases.releaseLease name owner name = none) ∨
    (leases.ownedBy name owner = false ∧ leases.releaseLease name owner name = leases name) := by
  cases h : leases.ownedBy name owner with
  | true => exact Or.inl ⟨rfl, by simp [releaseLease, h]⟩
  | false => exact Or.inr ⟨rfl, by simp [releaseLease, h]⟩

end Leases

end Huldra
