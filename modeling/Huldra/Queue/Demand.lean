import Huldra.Queue.Rows

/-!
# Demand — for whom an item is queued

An item is wanted by whoever queued it without a budget (a flag of its row) and by the budgets
that are its members.  Demand comes with an enqueue only; every other operation leaves the demand of
an item as it is or takes memberships away from it.
-/

namespace Huldra
namespace Queue

open QueueTables

/-! ## What is wanted -/

/-- The budget of this membership can still pay for the item: its deadline is ahead, and it has
capacity left or has been charged for the item's attempt already. -/
def viable (q : QueueTables) (row : QueueRow) (m : MembershipRow) (t : Int) : Bool :=
  match q.budget? m.budgetId with
  | none => false
  | some budget =>
      budget.deadlineAt.all (t < ·) &&
        (budget.requestsStarted < budget.maxRequests ||
          (m.firstAttemptNumber ≤ row.attemptsTotal && row.attemptsTotal ≤ m.lastChargedAttempt))

/-- Somebody wants the item without a budget, or with one that can still pay for it. -/
def demanded (q : QueueTables) (row : QueueRow) (t : Int) : Bool :=
  row.unbudgetedDemand ||
    q.memberships.any fun m => m.requestId = row.requestId && viable q row m t

/-- What the row itself says of its demand. -/
def demandOf (row : QueueRow) : Uuid × Bool × Option Uuid :=
  (row.requestId, row.unbudgetedDemand, row.upstreamBudgetId)

/-- The key of a membership. -/
def key (m : MembershipRow) : Uuid × Uuid :=
  (m.requestId, m.budgetId)

/-- The primary budget of a row is one of its members. -/
def Backed (q : QueueTables) : Prop :=
  ∀ row ∈ q.items, ∀ budgetId, row.upstreamBudgetId = some budgetId →
    (row.requestId, budgetId) ∈ q.memberships.map key

/-- What every run keeps of the tables. -/
structure Ledger (next : Uuid) (q : QueueTables) : Prop where
  nodup : (q.items.map (·.requestId)).Nodup
  fresh : ∀ row ∈ q.items, row.requestId < next
  attached : ∀ m ∈ q.memberships, ∃ row ∈ q.items, row.requestId = m.requestId
  backed : Backed q

/-- Nobody wants the item. -/
structure Bare (requestId : Uuid) (q : QueueTables) : Prop where
  rows : ∀ row ∈ q.items, row.requestId = requestId → row.unbudgetedDemand = false
  memberships : ∀ m ∈ q.memberships, m.requestId ≠ requestId

theorem Bare.not_demanded {requestId : Uuid} {q : QueueTables} (h : Bare requestId q)
    {row : QueueRow} (hmem : row ∈ q.items) (hid : row.requestId = requestId) (t : Int) :
    demanded q row t = false := by
  have hnone : ∀ m ∈ q.memberships, m.requestId ≠ row.requestId := by
    simpa [hid] using h.memberships
  simp only [demanded, h.rows row hmem hid, Bool.false_or, List.any_eq_false]
  intro m hm
  simp [hnone m hm]

/-! ## The verdict of a reservation -/

/-- The budgets that are left when the invalid ones are gone. -/
def validIn (invalid : List (Uuid × String)) (budgetIds : List Uuid) : List Uuid :=
  budgetIds.filter fun budgetId => !invalid.any fun entry => entry.1 = budgetId

theorem mem_validIn {invalid : List (Uuid × String)} {budgetIds : List Uuid} {budgetId : Uuid} :
    budgetId ∈ validIn invalid budgetIds ↔
      budgetId ∈ budgetIds ∧ budgetId ∉ invalid.map Prod.fst := by
  have hany : (!invalid.any fun entry => entry.1 = budgetId) = true ↔
      budgetId ∉ invalid.map Prod.fst := by
    simp only [Bool.not_eq_true', List.any_eq_false, decide_eq_true_eq, List.mem_map, not_exists,
      not_and]
  rw [validIn, List.mem_filter, hany]

/-- Every budget that has an error is listed with it. -/
theorem mem_upstreamBudgetErrors {q : QueueTables} {budgetIds : List Uuid} {current : Int}
    {enforce : Bool} {budgetId : Uuid} {error : String} :
    (budgetId, error) ∈ q.upstreamBudgetErrors budgetIds current enforce ↔
      budgetId ∈ budgetIds ∧ q.budgetError budgetId current enforce = some error := by
  simp only [upstreamBudgetErrors, List.mem_filterMap, List.mem_eraseDups, Option.map_eq_some_iff,
    Prod.mk.injEq]
  constructor
  · rintro ⟨b, hb, e, he, rfl, rfl⟩
    exact ⟨hb, he⟩
  · rintro ⟨hb, he⟩
    exact ⟨budgetId, hb, error, he, rfl, rfl⟩

/-- What a reservation charges has nothing wrong with it. -/
theorem budgetError_of_validUncharged {q : QueueTables} {state : BudgetAttemptState}
    {current : Int} {budgetId : Uuid}
    (h : budgetId ∈ validIn (q.invalidForReservation state current) state.unchargedBudgetIds) :
    q.budgetError budgetId current true = none := by
  rcases mem_validIn.1 h with ⟨huncharged, hvalid⟩
  by_contra hsome
  rcases Option.ne_none_iff_exists'.1 hsome with ⟨error, herror⟩
  -- An error would have put the budget among the invalid ones, under the deadlines or the limits.
  refine hvalid ?_
  simp only [invalidForReservation, List.map_append, List.mem_append]
  by_cases hlisted : budgetId ∈ (q.upstreamBudgetErrors
      (state.activeBudgetIds ++ state.futureBudgetIds) current false).map Prod.fst
  · exact Or.inl hlisted
  · refine Or.inr (List.mem_map.2 ⟨(budgetId, error), List.mem_filter.2 ⟨?_, ?_⟩, rfl⟩)
    · exact mem_upstreamBudgetErrors.2 ⟨List.mem_append_left _ huncharged, herror⟩
    · simpa only [Bool.not_eq_true', List.any_eq_false, decide_eq_true_eq, List.mem_map,
        not_exists, not_and] using hlisted

@[simp] theorem detachInvalid_budgets (q : QueueTables) (requestId : Uuid)
    (invalid : List (Uuid × String)) : (q.detachInvalid requestId invalid).budgets = q.budgets := by
  unfold detachInvalid
  split
  · rfl
  · rfl

/-- Everything a reservation can do: put the item off, refuse it, or charge what is valid. -/
theorem reserve_cases (q : QueueTables) (requestId : Uuid) (current : Int) :
    let state := q.budgetAttemptState requestId
    let invalid := q.invalidForReservation state current
    let left := q.detachInvalid requestId invalid
    let charged := validIn invalid state.unchargedBudgetIds
    (state.unbudgetedDemand = false ∧ validIn invalid state.activeBudgetIds = [] ∧
        validIn invalid state.futureBudgetIds ≠ [] ∧
        q.reserveQueueItemUpstreamRequest requestId current = (some "budget_deferred", left)) ∨
      (state.unbudgetedDemand = false ∧ validIn invalid state.activeBudgetIds = [] ∧
        validIn invalid state.futureBudgetIds = [] ∧
        q.reserveQueueItemUpstreamRequest requestId current =
          (some (preferredBudgetError invalid), left)) ∨
      ((state.unbudgetedDemand = true ∨ validIn invalid state.activeBudgetIds ≠ []) ∧
        q.reserveQueueItemUpstreamRequest requestId current =
          (none, (left.reserveUpstreamBudgets charged current).2.closeBudgetGate requestId
            state.attemptNumber charged)) := by
  intro state invalid left charged
  have hnone :
      charged.findSome? (fun budgetId => left.budgetError budgetId current true) = none := by
    refine List.findSome?_eq_none_iff.2 fun budgetId hmem => ?_
    have hfree := budgetError_of_validUncharged hmem
    simpa [budgetError, budget?, left] using hfree
  by_cases hactive : state.unbudgetedDemand = false ∧ validIn invalid state.activeBudgetIds = []
  · have htest : (!state.unbudgetedDemand &&
        (validIn invalid state.activeBudgetIds).isEmpty) = true := by
      simp [hactive.1, hactive.2]
    by_cases hfuture : validIn invalid state.futureBudgetIds = []
    · refine Or.inr (Or.inl ⟨hactive.1, hactive.2, hfuture, ?_⟩)
      have hnot : (!(validIn invalid state.futureBudgetIds).isEmpty) ≠ true := by
        simp [hfuture]
      exact (if_pos htest).trans (if_neg hnot)
    · refine Or.inl ⟨hactive.1, hactive.2, hfuture, ?_⟩
      have hsome : (!(validIn invalid state.futureBudgetIds).isEmpty) = true := by
        simp [hfuture]
      exact (if_pos htest).trans (if_pos hsome)
  · have hwanted : state.unbudgetedDemand = true ∨ validIn invalid state.activeBudgetIds ≠ [] := by
      by_cases hunbudgeted : state.unbudgetedDemand = true
      · exact Or.inl hunbudgeted
      · exact Or.inr fun hnil => hactive ⟨by simpa using hunbudgeted, hnil⟩
    refine Or.inr (Or.inr ⟨hwanted, ?_⟩)
    have htest : (!state.unbudgetedDemand &&
        (validIn invalid state.activeBudgetIds).isEmpty) ≠ true := by
      rcases hwanted with hwanted | hwanted
      · simp [hwanted]
      · simp [hwanted]
    refine (if_neg htest).trans ?_
    have hcharge : left.reserveUpstreamBudgets charged current =
        (none, (left.reserveUpstreamBudgets charged current).2) := by
      simp only [reserveUpstreamBudgets, hnone]
    split
    case h_1 error q' hres =>
      have hreserved : left.reserveUpstreamBudgets charged current = (some error, q') := hres
      rw [hcharge] at hreserved
      cases hreserved
    case h_2 q' hres =>
      have hreserved : left.reserveUpstreamBudgets charged current = (none, q') := hres
      rw [hreserved]
      rfl

/-- Everything a check of the deadlines can do. -/
theorem checkDeadlines_cases (q : QueueTables) (requestId : Uuid) (current : Int) :
    let state := q.budgetAttemptState requestId
    let invalid := q.upstreamBudgetErrors (state.activeBudgetIds ++ state.futureBudgetIds) current
      false
    let left := q.detachInvalid requestId invalid
    ((state.unbudgetedDemand = true ∨ validIn invalid state.activeBudgetIds ≠ []) ∧
        q.checkQueueItemUpstreamRequestDeadlines requestId current = (none, left)) ∨
      q.checkQueueItemUpstreamRequestDeadlines requestId current =
          (some "budget_deferred", left) ∨
      (state.unbudgetedDemand = false ∧ validIn invalid state.activeBudgetIds = [] ∧
        validIn invalid state.futureBudgetIds = [] ∧
        q.checkQueueItemUpstreamRequestDeadlines requestId current =
          (some (preferredBudgetError invalid), left)) := by
  intro state invalid left
  by_cases htest : (state.unbudgetedDemand ||
      !(validIn invalid state.activeBudgetIds).isEmpty) = true
  · refine Or.inl ⟨?_, if_pos htest⟩
    simpa using htest
  · have hunwanted : state.unbudgetedDemand = false ∧
        validIn invalid state.activeBudgetIds = [] := by
      simpa using htest
    by_cases hfuture : (!(validIn invalid state.futureBudgetIds).isEmpty) = true
    · exact Or.inr (Or.inl ((if_neg htest).trans (if_pos hfuture)))
    · refine Or.inr (Or.inr ⟨hunwanted.1, hunwanted.2, by simpa using hfuture, ?_⟩)
      exact (if_neg htest).trans (if_neg hfuture)

/-! ## Operations that bring no demand -/

/-- The demand is the same, or memberships are gone. -/
structure Narrowed (q q' : QueueTables) : Prop where
  rows : q'.items.map (fun row => (row.requestId, row.unbudgetedDemand)) =
    q.items.map fun row => (row.requestId, row.unbudgetedDemand)
  keys : ∀ k ∈ q'.memberships.map key, k ∈ q.memberships.map key
  backed : Backed q → Backed q'

namespace Narrowed

variable {q q' q'' : QueueTables}

theorem of_same (hitems : q'.items.map demandOf = q.items.map demandOf)
    (hkeys : q'.memberships.map key = q.memberships.map key) : Narrowed q q' where
  rows := by
    have h := congrArg (List.map fun d : Uuid × Bool × Option Uuid => (d.1, d.2.1)) hitems
    simpa [List.map_map, Function.comp_def, demandOf] using h
  keys := by simp [hkeys]
  backed := by
    intro hbacked row' hrow' budgetId hbudget
    have hmem : demandOf row' ∈ q.items.map demandOf := by
      rw [← hitems]
      exact List.mem_map_of_mem hrow'
    rcases List.mem_map.1 hmem with ⟨row, hrow, hdemand⟩
    simp only [demandOf, Prod.mk.injEq] at hdemand
    rw [hkeys, ← hdemand.1]
    exact hbacked row hrow budgetId (by rw [hdemand.2.2, hbudget])

theorem refl (q : QueueTables) : Narrowed q q :=
  of_same rfl rfl

theorem trans (h : Narrowed q q') (h' : Narrowed q' q'') : Narrowed q q'' :=
  ⟨h'.rows.trans h.rows, fun k hk => h.keys k (h'.keys k hk), fun hb => h'.backed (h.backed hb)⟩

theorem ids (h : Narrowed q q') : q'.items.map (·.requestId) = q.items.map (·.requestId) := by
  have hrows := congrArg (List.map Prod.fst) h.rows
  simpa [List.map_map, Function.comp_def] using hrows

/-- Where a row of the new table comes from. -/
theorem row_of_mem (h : Narrowed q q') {row' : QueueRow} (hmem : row' ∈ q'.items) :
    ∃ row ∈ q.items, row.requestId = row'.requestId ∧
      row.unbudgetedDemand = row'.unbudgetedDemand := by
  have hmem' : (row'.requestId, row'.unbudgetedDemand) ∈
      q.items.map fun row => (row.requestId, row.unbudgetedDemand) := by
    rw [← h.rows]
    exact List.mem_map_of_mem hmem
  rcases List.mem_map.1 hmem' with ⟨row, hrow, heq⟩
  exact ⟨row, hrow, congrArg Prod.fst heq, congrArg Prod.snd heq⟩

theorem membership_of_mem (h : Narrowed q q') {m' : MembershipRow} (hmem : m' ∈ q'.memberships) :
    ∃ m ∈ q.memberships, key m = key m' := by
  rcases List.mem_map.1 (h.keys _ (List.mem_map_of_mem hmem)) with ⟨m, hm, hkey⟩
  exact ⟨m, hm, hkey⟩

theorem bare {requestId : Uuid} (h : Narrowed q q') (hbare : Bare requestId q) :
    Bare requestId q' where
  rows := by
    intro row' hrow' hid
    rcases h.row_of_mem hrow' with ⟨row, hrow, hid', hunbudgeted⟩
    rw [← hunbudgeted]
    exact hbare.rows row hrow (hid'.trans hid)
  memberships := by
    intro m' hm' hid
    rcases h.membership_of_mem hm' with ⟨m, hm, hkey⟩
    exact hbare.memberships m hm ((congrArg Prod.fst hkey).trans hid)

theorem ledger {next next' : Uuid} (h : Narrowed q q') (hnext : next ≤ next')
    (hledger : Ledger next q) : Ledger next' q' where
  nodup := by
    rw [h.ids]
    exact hledger.nodup
  fresh := by
    intro row' hrow'
    rcases h.row_of_mem hrow' with ⟨row, hrow, hid, _⟩
    rw [← hid]
    exact Nat.lt_of_lt_of_le (hledger.fresh row hrow) hnext
  attached := by
    intro m' hm'
    rcases h.membership_of_mem hm' with ⟨m, hm, hkey⟩
    rcases hledger.attached m hm with ⟨row, hrow, hid⟩
    have hmem : row.requestId ∈ q'.items.map (·.requestId) := by
      rw [h.ids]
      exact List.mem_map_of_mem hrow
    rcases List.mem_map.1 hmem with ⟨row', hrow', hid'⟩
    exact ⟨row', hrow', hid'.trans (hid.trans (congrArg Prod.fst hkey))⟩
  backed := h.backed hledger.backed

/-- A change of rows that is none of their demand. -/
theorem updateItem {requestId : Uuid} {f : QueueRow → QueueRow}
    (hf : ∀ row ∈ q.items, row.requestId = requestId → demandOf (f row) = demandOf row) :
    Narrowed q (q.updateItem requestId f) := by
  refine of_same ?_ rfl
  simp only [QueueTables.updateItem, List.map_map]
  refine List.map_congr_left fun row hrow => ?_
  by_cases hid : row.requestId = requestId
  · simp [hid, hf row hrow hid]
  · simp [hid]

theorem wake (ids : List String) (timestamp : Int) :
    Narrowed q (q.wakeIdFetchReserved ids timestamp) := by
  refine of_same ?_ rfl
  simp only [QueueTables.wakeIdFetchReserved, List.map_map]
  refine List.map_congr_left fun row _ => ?_
  simp only [Function.comp_apply]
  split
  · rfl
  · rfl

theorem detachMemberships (requestId : Uuid) (budgetIds : List Uuid) :
    Narrowed q (q.detachMemberships requestId budgetIds) where
  rows := by
    simp only [QueueTables.detachMemberships, QueueTables.updateItem, List.map_map]
    refine List.map_congr_left fun row _ => ?_
    simp only [Function.comp_apply]
    split
    · rfl
    · rfl
  keys := by
    intro k hk
    rcases List.mem_map.1 hk with ⟨m, hm, rfl⟩
    exact List.mem_map_of_mem (List.mem_of_mem_filter hm)
  backed := by
    intro hbacked row' hrow' budgetId hbudget
    rcases List.mem_map.1 hrow' with ⟨row, hrow, rfl⟩
    by_cases hid : row.requestId = requestId
    · -- The primary budget is picked among the members that are left.
      simp only [hid, if_true, Option.map_eq_some_iff] at hbudget ⊢
      rcases hbudget with ⟨m, hhead, rfl⟩
      have hmem := List.mem_of_mem_head? hhead
      simp only [membershipsOf, List.mem_insertionSort, List.mem_filter,
        decide_eq_true_eq] at hmem
      exact List.mem_map.2 ⟨m, List.mem_filter.2 hmem.1, by simp [key, hmem.2]⟩
    · -- The members of the other items stay.
      simp only [hid, if_false] at hbudget ⊢
      rcases List.mem_map.1 (hbacked row hrow budgetId hbudget) with ⟨m, hm, hkey⟩
      have hsame : m.requestId = row.requestId := congrArg Prod.fst hkey
      have hid' : m.requestId ≠ requestId := by
        rw [hsame]
        exact hid
      exact List.mem_map.2 ⟨m, List.mem_filter.2 ⟨hm, by simp [hid']⟩, hkey⟩

theorem detachInvalid (requestId : Uuid) (invalid : List (Uuid × String)) :
    Narrowed q (q.detachInvalid requestId invalid) := by
  unfold QueueTables.detachInvalid
  split
  · exact refl q
  · exact detachMemberships requestId _

theorem reserveUpstreamBudgets (budgetIds : List Uuid) (current : Int) :
    Narrowed q (q.reserveUpstreamBudgets budgetIds current).2 := by
  unfold QueueTables.reserveUpstreamBudgets
  split
  · exact refl q
  · exact of_same rfl rfl

theorem closeBudgetGate (requestId : Uuid) (attempt : Nat) (charged : List Uuid) :
    Narrowed q (q.closeBudgetGate requestId attempt charged) := by
  have hcharge : Narrowed q { q with
      memberships := q.memberships.map fun m =>
        if m.requestId = requestId ∧ charged.contains m.budgetId = true then
          { m with lastChargedAttempt := attempt }
        else m } := by
    refine of_same rfl ?_
    simp only [List.map_map]
    refine List.map_congr_left fun m _ => ?_
    simp only [Function.comp_apply]
    split
    · rfl
    · rfl
  refine hcharge.trans (updateItem fun row _ _ => ?_)
  split
  · rfl
  · rfl

theorem reserve (requestId : Uuid) (current : Int) :
    Narrowed q (q.reserveQueueItemUpstreamRequest requestId current).2 := by
  have hdetach := detachInvalid (q := q) requestId
    (q.invalidForReservation (q.budgetAttemptState requestId) current)
  rcases reserve_cases q requestId current with ⟨_, _, _, hout⟩ | ⟨_, _, _, hout⟩ | ⟨_, hout⟩
  · rw [hout]
    exact hdetach
  · rw [hout]
    exact hdetach
  · rw [hout]
    exact (hdetach.trans (reserveUpstreamBudgets _ current)).trans (closeBudgetGate requestId _ _)

theorem checkDeadlines (requestId : Uuid) (current : Int) :
    Narrowed q (q.checkQueueItemUpstreamRequestDeadlines requestId current).2 := by
  rcases checkDeadlines_cases q requestId current with ⟨_, hout⟩ | hout | ⟨_, _, _, hout⟩ <;>
    · rw [hout]
      exact detachInvalid requestId _

theorem failItemOfBudget (requestId budgetId : Uuid) (category message : String)
    (timestamp : Int) :
    Narrowed q (q.failItemOfBudget requestId budgetId category message timestamp) := by
  have hdetach := detachMemberships (q := q) requestId [budgetId]
  unfold QueueTables.failItemOfBudget
  simp only
  split
  · exact hdetach
  · split
    · exact hdetach
    · refine hdetach.trans (updateItem fun row _ _ => ?_)
      split
      · rfl
      · rfl

theorem failItemsOfBudget (budgetId : Uuid) (category message : String) (timestamp : Int)
    (ids : List Uuid) : ∀ q : QueueTables, Narrowed q (ids.foldl (fun q requestId =>
      q.failItemOfBudget requestId budgetId category message timestamp) q) := by
  induction ids with
  | nil => exact refl
  | cons requestId ids ih =>
      intro q
      exact (failItemOfBudget requestId budgetId category message timestamp).trans (ih _)

end Narrowed

/-! ## A verdict against the item -/

/-- Without a valid budget and without other demand nothing is left of the item's demand. -/
theorem bare_of_invalid {q : QueueTables} {requestId : Uuid} {invalid : List (Uuid × String)}
    (hnodup : (q.items.map (·.requestId)).Nodup) {row : QueueRow} (hmem : row ∈ q.items)
    (hid : row.requestId = requestId)
    (hunbudgeted : (q.budgetAttemptState requestId).unbudgetedDemand = false)
    (hactive : validIn invalid (q.budgetAttemptState requestId).activeBudgetIds = [])
    (hfuture : validIn invalid (q.budgetAttemptState requestId).futureBudgetIds = []) :
    Bare requestId (q.detachInvalid requestId invalid) := by
  have hitem : q.item? requestId = some row := by
    rw [← hid]
    exact item?_of_mem hnodup hmem
  have hinvalid : ∀ m ∈ q.memberships, m.requestId = requestId →
      m.budgetId ∈ invalid.map Prod.fst := by
    intro m hm hmid
    have hmember : m ∈ q.membershipsOf requestId := by
      simp [membershipsOf, List.mem_insertionSort, hm, hmid]
    by_contra hvalid
    by_cases hfirst : m.firstAttemptNumber ≤ row.attemptsTotal
    · have hleft : m.budgetId ∈
          validIn invalid (q.budgetAttemptState requestId).activeBudgetIds := by
        refine mem_validIn.2 ⟨?_, hvalid⟩
        simp only [budgetAttemptState, hitem]
        exact List.mem_map.2 ⟨m, List.mem_filter.2 ⟨hmember, by simpa using hfirst⟩, rfl⟩
      rw [hactive] at hleft
      cases hleft
    · have hleft : m.budgetId ∈
          validIn invalid (q.budgetAttemptState requestId).futureBudgetIds := by
        refine mem_validIn.2 ⟨?_, hvalid⟩
        simp only [budgetAttemptState, hitem]
        exact List.mem_map.2 ⟨m, List.mem_filter.2 ⟨hmember, by simpa using hfirst⟩, rfl⟩
      rw [hfuture] at hleft
      cases hleft
  refine ⟨?_, ?_⟩
  · intro row' hrow' hid'
    rcases (Narrowed.detachInvalid requestId invalid).row_of_mem hrow' with
      ⟨row₀, hrow₀, hid₀, hsame⟩
    rw [← hsame, eq_of_mem_of_requestId hnodup hrow₀ hmem ((hid₀.trans hid').trans hid.symm)]
    simpa [budgetAttemptState, hitem] using hunbudgeted
  · intro m hm hmid
    unfold detachInvalid at hm
    split at hm
    · rename_i hempty
      have hlisted := hinvalid m hm hmid
      simp [List.isEmpty_iff.1 hempty] at hlisted
    · rcases List.mem_filter.1 hm with ⟨hm, hkept⟩
      have hlisted := hinvalid m hm hmid
      simp [hmid, hlisted] at hkept

/-- A verdict against the item: its budgets are gone, and nobody else wants it. -/
def Condemns (answer : Option String) : Prop :=
  ∃ error, answer = some error ∧ error ≠ "budget_deferred"

section Verdicts

variable {q : QueueTables} {requestId : Uuid} {current : Int}

theorem bare_of_reserve (hnodup : (q.items.map (·.requestId)).Nodup)
    (hrow : ∃ row ∈ q.items, row.requestId = requestId)
    (h : Condemns (q.reserveQueueItemUpstreamRequest requestId current).1) :
    Bare requestId (q.reserveQueueItemUpstreamRequest requestId current).2 := by
  rcases hrow with ⟨row, hmem, hid⟩
  rcases h with ⟨error, herror, hne⟩
  rcases reserve_cases q requestId current with ⟨_, _, _, hout⟩ |
    ⟨hunbudgeted, hactive, hfuture, hout⟩ | ⟨_, hout⟩
  · rw [hout] at herror
    exact absurd (Option.some.inj herror).symm hne
  · rw [hout]
    exact bare_of_invalid hnodup hmem hid hunbudgeted hactive hfuture
  · rw [hout] at herror
    cases herror

theorem bare_of_checkDeadlines (hnodup : (q.items.map (·.requestId)).Nodup)
    (hrow : ∃ row ∈ q.items, row.requestId = requestId)
    (h : Condemns (q.checkQueueItemUpstreamRequestDeadlines requestId current).1) :
    Bare requestId (q.checkQueueItemUpstreamRequestDeadlines requestId current).2 := by
  rcases hrow with ⟨row, hmem, hid⟩
  rcases h with ⟨error, herror, hne⟩
  rcases checkDeadlines_cases q requestId current with ⟨_, hout⟩ | hout |
    ⟨hunbudgeted, hactive, hfuture, hout⟩
  · rw [hout] at herror
    cases herror
  · rw [hout] at herror
    exact absurd (Option.some.inj herror).symm hne
  · rw [hout]
    exact bare_of_invalid hnodup hmem hid hunbudgeted hactive hfuture

end Verdicts

end Queue
end Huldra
