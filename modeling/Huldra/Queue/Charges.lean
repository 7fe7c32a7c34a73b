import Huldra.Queue.Budgets
import Huldra.Queue.Runs

/-!
# Charges — what an operation does to the memberships and the counters of budgets

A membership comes with an enqueue, and its charge with a reservation; every other operation only
takes memberships away.  A reservation that succeeds charges every open membership of the attempt
once and closes the gate, and from then on nothing of the item is open for that attempt.
-/

namespace Huldra
namespace Queue

open QueueTables

/-! ## What becomes of the memberships -/

section Members

variable {q : QueueTables}

theorem detachInvalid_memberships (requestId : Uuid) (invalid : List (Uuid × String)) :
    (q.detachInvalid requestId invalid).memberships.Sublist q.memberships := by
  unfold detachInvalid
  split
  · exact List.Sublist.refl _
  · exact List.filter_sublist

theorem failItemOfBudget_memberships (requestId budgetId : Uuid) (category message : String)
    (timestamp : Int) :
    (q.failItemOfBudget requestId budgetId category message timestamp).memberships.Sublist
      q.memberships := by
  unfold failItemOfBudget
  simp only
  split
  · exact List.filter_sublist
  · split
    · exact List.filter_sublist
    · exact List.filter_sublist

theorem failActive_memberships (budgetId : Uuid) (category message : String) (timestamp : Int) :
    (q.failActiveUpstreamBudgetItems budgetId category message timestamp).memberships.Sublist
      q.memberships := by
  have hfold : ∀ (ids : List Uuid) (q : QueueTables),
      (ids.foldl (fun q requestId =>
        q.failItemOfBudget requestId budgetId category message timestamp) q).memberships.Sublist
          q.memberships := by
    intro ids
    induction ids with
    | nil => exact fun _ => List.Sublist.refl _
    | cons id ids ih =>
        intro q
        exact (ih _).trans (failItemOfBudget_memberships id budgetId category message timestamp)
  exact hfold _ q

theorem checkDeadlines_memberships (requestId : Uuid) (current : Int) :
    (q.checkQueueItemUpstreamRequestDeadlines requestId current).2.memberships.Sublist
      q.memberships := by
  rcases checkDeadlines_cases q requestId current with ⟨_, hout⟩ | hout | ⟨_, _, _, hout⟩ <;>
    · rw [hout]
      exact detachInvalid_memberships requestId _

end Members

/-- The reservation of the item, if the operation is one. -/
def reservesFor? : Op → Option Uuid
  | .queue (.reserveQueueItemUpstreamRequest requestId) => some requestId
  | _ => none

section Operations

variable {o : Op} {t : Int} {r : Except Exn o.Res} {s s' : Store}

theorem members_queue (o : QueueOp) (t : Int) (next : Uuid) (q : QueueTables)
    (henqueues : enqueues? (.queue o) = none) (hreserves : reservesFor? (.queue o) = none) :
    (o.exec t next q).2.memberships.Sublist q.memberships := by
  have hsame : (o.exec t next q).2.memberships = q.memberships →
      (o.exec t next q).2.memberships.Sublist q.memberships := by
    intro h
    rw [h]
  cases o with
  | enqueueRequestForWork => cases henqueues
  | reserveQueueItemUpstreamRequest => cases hreserves
  | claimNextQueueItem owner timeout keys =>
      refine hsame ?_
      simp only [QueueOp.exec, QueueTables.claimNextQueueItem]
      split <;> rfl
  | releaseOrDelayQueueItem =>
      refine hsame ?_
      simp only [QueueOp.exec, QueueTables.releaseOrDelayQueueItem]
      split <;> rfl
  | acquireIdFetchReservations =>
      refine hsame ?_
      simp only [QueueOp.exec, QueueTables.acquireIdFetchReservations]
      split
      · rfl
      · split <;> rfl
  | renewIdFetchReservations =>
      refine hsame ?_
      simp only [QueueOp.exec, QueueTables.renewIdFetchReservations]
      split <;> rfl
  | releaseIdFetchReservations =>
      refine hsame ?_
      simp only [QueueOp.exec, QueueTables.releaseIdFetchReservations]
      split <;> rfl
  | checkQueueItemUpstreamRequestDeadlines requestId => exact checkDeadlines_memberships requestId t
  | failActiveUpstreamBudgetItems budgetId category message timestamp =>
      exact failActive_memberships budgetId category message timestamp
  | completeQueueItem => exact hsame rfl
  | createUpstreamRequestBudget => exact hsame rfl
  | queueItemUpstreamDeadline => exact hsame rfl
  | getQueueItem => exact hsame rfl

/-- Everything an operation can do to the memberships: take some away, reserve, or enqueue. -/
theorem members_cases (hbacked : Backed s.queue) (h : Store.Performed o t r s s') :
    s'.queue.memberships.Sublist s.queue.memberships ∨
      (∃ requestId, o = .queue (.reserveQueueItemUpstreamRequest requestId) ∧
        s'.queue = (s.queue.reserveQueueItemUpstreamRequest requestId t).2) ∨
      ∃ request cacheKey workKind budgetId timeout now, enqueues? o = some cacheKey ∧
        s'.queue = (s.queue.enqueueRequestForWork s.nextUuid request cacheKey workKind budgetId
          timeout now).2 := by
  have hsame : s'.queue.memberships = s.queue.memberships →
      s'.queue.memberships.Sublist s.queue.memberships := by
    intro h
    rw [h]
  rcases h.state with rfl | ⟨input, rfl⟩
  · exact Or.inl (hsame rfl)
  · cases o with
    | queue o =>
        cases henqueues : enqueues? (.queue o) with
        | some cacheKey =>
            cases o with
            | enqueueRequestForWork request cacheKey' workKind budgetId timeout now =>
                exact Or.inr (Or.inr ⟨request, cacheKey', workKind, budgetId, timeout, now,
                  henqueues.symm, rfl⟩)
            | _ => cases henqueues
        | none =>
            cases hreserves : reservesFor? (.queue o) with
            | some requestId =>
                cases o with
                | reserveQueueItemUpstreamRequest requestId' =>
                    exact Or.inr (Or.inl ⟨requestId', rfl, rfl⟩)
                | _ => cases hreserves
            | none => exact Or.inl (members_queue o t s.nextUuid s.queue henqueues hreserves)
    | initSchema =>
        refine Or.inl (hsame ?_)
        simp only [Store.exec]
        rcases s.initSchema_cases with heq | heq
        · rw [heq]
        · simp only [heq, Store.migrate, hbacked.backfill]
    | renewWorkerFetchOwnership requestId owner name ttl ids =>
        refine Or.inl (hsame ?_)
        simp only [Store.exec, Store.renewWorkerFetchOwnership]
        split
        · rfl
        · split
          · rfl
          · split <;> rfl
    | checkpointOaiPage c =>
        refine Or.inl (hsame ?_)
        simp only [Store.exec, Store.checkpointOaiPage]
        split <;> rfl
    | enqueueRefreshIfDue request cacheKey timeout current =>
        simp only [Store.exec, Store.enqueueRefreshIfDue]
        split
        · exact Or.inr (Or.inr ⟨request, cacheKey, _, _, timeout, current, rfl, rfl⟩)
        · split
          · exact Or.inl (List.Sublist.refl _)
          · split
            · exact Or.inl (List.Sublist.refl _)
            · split
              · split
                · split <;> exact Or.inl (List.Sublist.refl _)
                · exact Or.inr (Or.inr ⟨request, cacheKey, _, _, timeout, current, rfl, rfl⟩)
              · exact Or.inr (Or.inr ⟨request, cacheKey, _, _, timeout, current, rfl, rfl⟩)
    | _ => exact Or.inl (List.Sublist.refl _)

end Operations

/-! ## A reservation -/

/-- A membership is one of an item and a budget. -/
def Keyed (q : QueueTables) : Prop :=
  (q.memberships.map key).Nodup

/-- The attempt that a reservation of the item charges. -/
def attemptOf (q : QueueTables) (requestId : Uuid) : Nat :=
  (q.budgetAttemptState requestId).attemptNumber

/-- The membership is still to be charged for the attempt. -/
def Open (attempt : Nat) (m : MembershipRow) : Prop :=
  m.firstAttemptNumber ≤ attempt ∧ m.lastChargedAttempt < attempt

section Reservations

variable {q : QueueTables} {requestId : Uuid}

theorem attemptOf_of_mem (hnodup : (q.items.map (·.requestId)).Nodup) {row : QueueRow}
    (hrow : row ∈ q.items) : attemptOf q row.requestId = row.attemptsTotal := by
  simp [attemptOf, budgetAttemptState, item?_of_mem hnodup hrow]

theorem mem_membershipsOf {m : MembershipRow} :
    m ∈ q.membershipsOf requestId ↔ m ∈ q.memberships ∧ m.requestId = requestId := by
  simp [membershipsOf, List.mem_insertionSort, List.mem_filter]

theorem exists_of_mem_uncharged {budgetId : Uuid}
    (h : budgetId ∈ (q.budgetAttemptState requestId).unchargedBudgetIds) :
    ∃ m ∈ q.memberships, key m = (requestId, budgetId) ∧ Open (attemptOf q requestId) m := by
  cases hitem : q.item? requestId with
  | none => simp [budgetAttemptState, hitem] at h
  | some row =>
      simp only [budgetAttemptState, hitem, List.mem_map, List.mem_filter, Bool.and_eq_true,
        decide_eq_true_eq] at h
      rcases h with ⟨m, ⟨hm, hopen⟩, hbudget⟩
      rcases mem_membershipsOf.1 hm with ⟨hm, hid⟩
      refine ⟨m, hm, ?_, ?_⟩
      · rw [key, hid, hbudget]
      · rw [attemptOf, budgetAttemptState, hitem]
        exact hopen

theorem mem_uncharged (hrow : ∃ row ∈ q.items, row.requestId = requestId)
    (hnodup : (q.items.map (·.requestId)).Nodup) {m : MembershipRow} (hm : m ∈ q.memberships)
    (hid : m.requestId = requestId) (hopen : Open (attemptOf q requestId) m) :
    m.budgetId ∈ (q.budgetAttemptState requestId).unchargedBudgetIds := by
  rcases hrow with ⟨row, hrow, rfl⟩
  have hitem := item?_of_mem hnodup hrow
  rw [attemptOf_of_mem hnodup hrow] at hopen
  simp only [budgetAttemptState, hitem, List.mem_map, List.mem_filter, Bool.and_eq_true,
    decide_eq_true_eq]
  exact ⟨m, ⟨mem_membershipsOf.2 ⟨hm, hid⟩, hopen⟩, rfl⟩

/-- The budgets of an item are listed once each. -/
theorem uncharged_nodup (hkeyed : Keyed q) :
    (q.budgetAttemptState requestId).unchargedBudgetIds.Nodup := by
  have hids : ((q.membershipsOf requestId).map (·.budgetId)).Nodup := by
    have hperm := (List.perm_insertionSort
      (fun a b : MembershipRow => a.createdAt < b.createdAt ∨
        (a.createdAt = b.createdAt ∧ a.budgetId ≤ b.budgetId))
      (q.memberships.filter fun m => m.requestId = requestId)).map (·.budgetId)
    refine hperm.nodup_iff.2 (List.Nodup.of_map (fun budgetId => (requestId, budgetId)) ?_)
    rw [List.map_map]
    have hkeys : (q.memberships.filter fun m => m.requestId = requestId).map
        ((fun budgetId => (requestId, budgetId)) ∘ (·.budgetId)) =
          (q.memberships.filter fun m => m.requestId = requestId).map key := by
      refine List.map_congr_left fun m hm => ?_
      have hid : m.requestId = requestId := by simpa using (List.mem_filter.1 hm).2
      simp [key, hid]
    rw [hkeys]
    exact hkeyed.sublist (List.filter_sublist.map key)
  unfold budgetAttemptState
  split
  · exact List.nodup_nil
  · exact hids.sublist (List.filter_sublist.map _)

/-- What a reservation makes of a budget. -/
def chargeBudget (charged : List Uuid) (current : Int) (budget : BudgetRow) : BudgetRow :=
  if budget.budgetId ∈ charged then
    { budget with requestsStarted := budget.requestsStarted + 1, updatedAt := current }
  else budget

theorem reserveUpstreamBudgets_budgets {charged : List Uuid} {current : Int}
    (hfree : ∀ budgetId ∈ charged, q.budgetError budgetId current true = none)
    (hnodup : charged.Nodup) :
    (q.reserveUpstreamBudgets charged current).2.budgets =
      q.budgets.map (chargeBudget charged current) := by
  have hnone : charged.findSome? (fun budgetId => q.budgetError budgetId current true) = none :=
    List.findSome?_eq_none_iff.2 hfree
  simp only [reserveUpstreamBudgets, hnone]
  refine List.map_congr_left fun budget _ => ?_
  unfold chargeBudget
  by_cases hmem : budget.budgetId ∈ charged
  · -- A budget that is listed once is charged once.
    have hcount := List.count_eq_one_of_mem hnodup hmem
    simp [hmem, hcount]
  · simp [hmem]

/-- A reservation that succeeds. -/
structure Reserved (q q' : QueueTables) (requestId : Uuid) (current : Int) (charged : List Uuid) :
    Prop where
  nodup : charged.Nodup
  free : ∀ budgetId ∈ charged, q.budgetError budgetId current true = none
  opened : ∀ budgetId ∈ charged, ∃ m ∈ q.memberships, key m = (requestId, budgetId) ∧
    Open (attemptOf q requestId) m
  budgets : q'.budgets = q.budgets.map (chargeBudget charged current)
  members : ∀ m' ∈ q'.memberships,
    (m' ∈ q.memberships ∧ (m'.requestId = requestId → ¬ Open (attemptOf q requestId) m')) ∨
      (m'.requestId = requestId ∧ m'.budgetId ∈ charged ∧
        m'.lastChargedAttempt = attemptOf q requestId)
  keys : (q'.memberships.map key).Sublist (q.memberships.map key)
  gate : ∀ row' ∈ q'.items, row'.requestId = requestId → row'.status = .claimed →
    row'.upstreamBudgetGateClosed = true

/-- What is left after the invalid budgets of the item are gone. -/
theorem mem_detachInvalid {invalid : List (Uuid × String)} {m : MembershipRow}
    (hm : m ∈ (q.detachInvalid requestId invalid).memberships) (hid : m.requestId = requestId) :
    m.budgetId ∉ invalid.map Prod.fst := by
  unfold detachInvalid at hm
  split at hm
  · rename_i hempty
    simp [List.isEmpty_iff.1 hempty]
  · intro hlisted
    have hkept := (List.mem_filter.1 hm).2
    simp [hid, hlisted] at hkept

theorem reserved_of_success (hkeyed : Keyed q) (hnodup : (q.items.map (·.requestId)).Nodup)
    (hrow : ∃ row ∈ q.items, row.requestId = requestId) {current : Int} :
    let invalid := q.invalidForReservation (q.budgetAttemptState requestId) current
    let charged := validIn invalid (q.budgetAttemptState requestId).unchargedBudgetIds
    Reserved q (((q.detachInvalid requestId invalid).reserveUpstreamBudgets charged
      current).2.closeBudgetGate requestId (q.budgetAttemptState requestId).attemptNumber charged)
      requestId current charged := by
  intro invalid charged
  have hchargedNodup : charged.Nodup := (uncharged_nodup hkeyed).filter _
  have hfree : ∀ budgetId ∈ charged, q.budgetError budgetId current true = none :=
    fun budgetId hmem => budgetError_of_validUncharged hmem
  have hbudgets : (q.detachInvalid requestId invalid).budgets = q.budgets :=
    detachInvalid_budgets q requestId invalid
  have hleft : ∀ budgetId ∈ charged,
      (q.detachInvalid requestId invalid).budgetError budgetId current true = none := by
    intro budgetId hmem
    simpa [budgetError, budget?, hbudgets] using hfree budgetId hmem
  have hmemberships : ((q.detachInvalid requestId invalid).reserveUpstreamBudgets charged
      current).2.memberships = (q.detachInvalid requestId invalid).memberships := by
    unfold reserveUpstreamBudgets
    split <;> rfl
  refine ⟨hchargedNodup, hfree, ?_, ?_, ?_, ?_, ?_⟩
  · intro budgetId hmem
    exact exists_of_mem_uncharged (mem_validIn.1 hmem).1
  · exact (reserveUpstreamBudgets_budgets hleft hchargedNodup).trans (by rw [hbudgets])
  · intro m' hm'
    simp only [closeBudgetGate, updateItem_memberships, hmemberships, List.mem_map] at hm'
    rcases hm' with ⟨m, hm, rfl⟩
    have hold := (detachInvalid_memberships requestId invalid).subset hm
    split
    · rename_i hcharged
      exact Or.inr ⟨hcharged.1, by simpa using hcharged.2, rfl⟩
    · -- What is not charged is not open: it would be among the valid ones.
      rename_i hcharged
      refine Or.inl ⟨hold, fun hid hopen => hcharged ⟨hid, ?_⟩⟩
      have hvalid := mem_detachInvalid hm hid
      have huncharged := mem_uncharged hrow hnodup hold hid hopen
      simpa using mem_validIn.2 ⟨huncharged, hvalid⟩
  · have hkeys : ((((q.detachInvalid requestId invalid).reserveUpstreamBudgets charged
        current).2.closeBudgetGate requestId (q.budgetAttemptState requestId).attemptNumber
          charged).memberships.map key) =
            (q.detachInvalid requestId invalid).memberships.map key := by
      simp only [closeBudgetGate, updateItem_memberships, hmemberships, List.map_map]
      refine List.map_congr_left fun m _ => ?_
      simp only [Function.comp_apply]
      split <;> rfl
    rw [hkeys]
    exact (detachInvalid_memberships requestId invalid).map key
  · intro row' hrow' hid hclaimed
    rcases mem_updateItem.1 hrow' with ⟨_, hne⟩ | ⟨row, _, _, rfl⟩
    · exact absurd hid hne
    · split at hclaimed
      · rename_i hwas
        rw [if_pos hwas]
      · rename_i hwas
        exact absurd hclaimed hwas

end Reservations

/-! ## The gate -/

/-- The row of the same item; its gate is closed only if it was, for the same attempt. -/
structure GateKept (row row' : QueueRow) : Prop where
  requestId : row'.requestId = row.requestId
  gate : row'.upstreamBudgetGateClosed = true →
    row.upstreamBudgetGateClosed = true ∧ row'.attemptsTotal = row.attemptsTotal

theorem GateKept.trans {a b c : QueueRow} (h : GateKept a b) (h' : GateKept b c) :
    GateKept a c where
  requestId := h'.requestId.trans h.requestId
  gate := by
    intro hclosed
    rcases h'.gate hclosed with ⟨hwas, hsame⟩
    rcases h.gate hwas with ⟨hwas, hsame'⟩
    exact ⟨hwas, hsame.trans hsame'⟩

section Gates

variable {q : QueueTables}

theorem gateKept_detach (requestId : Uuid) (budgetIds : List Uuid) :
    Changes GateKept q (q.detachMemberships requestId budgetIds) :=
  Changes.updateItem fun _ _ _ => Or.inr ⟨rfl, fun h => ⟨h, rfl⟩⟩

theorem gateKept_detachInvalid (requestId : Uuid) (invalid : List (Uuid × String)) :
    Changes GateKept q (q.detachInvalid requestId invalid) := by
  unfold detachInvalid
  split
  · exact .of_items_eq rfl
  · exact gateKept_detach requestId _

theorem gateKept_checkDeadlines (requestId : Uuid) (current : Int) :
    Changes GateKept q (q.checkQueueItemUpstreamRequestDeadlines requestId current).2 := by
  rcases checkDeadlines_cases q requestId current with ⟨_, hout⟩ | hout | ⟨_, _, _, hout⟩ <;>
    · rw [hout]
      exact gateKept_detachInvalid requestId _

theorem gateKept_failItem (requestId budgetId : Uuid) (category message : String)
    (timestamp : Int) :
    Changes GateKept q (q.failItemOfBudget requestId budgetId category message timestamp) := by
  have hdetach : Changes GateKept q (q.detachMemberships requestId [budgetId]) :=
    gateKept_detach requestId _
  unfold failItemOfBudget
  simp only
  split
  · exact hdetach
  · split
    · exact hdetach
    · refine Changes.trans (fun _ _ _ => GateKept.trans) hdetach
        (Changes.updateItem fun row _ _ => ?_)
      split
      · exact Or.inr ⟨rfl, fun h => by cases h⟩
      · exact Or.inl rfl

theorem gateKept_failActive (budgetId : Uuid) (category message : String) (timestamp : Int) :
    Changes GateKept q (q.failActiveUpstreamBudgetItems budgetId category message timestamp) := by
  have hfold : ∀ (ids : List Uuid) (q : QueueTables), Changes GateKept q
      (ids.foldl (fun q requestId =>
        q.failItemOfBudget requestId budgetId category message timestamp) q) := by
    intro ids
    induction ids with
    | nil => exact fun _ => .of_items_eq rfl
    | cons requestId ids ih =>
        intro q
        exact Changes.trans (fun _ _ _ => GateKept.trans)
          (gateKept_failItem requestId budgetId category message timestamp) (ih _)
  exact hfold _ q

theorem Changes.gate_before {q' : QueueTables} (h : Changes GateKept q q') {row' : QueueRow}
    (hrow' : row' ∈ q'.items) (hclosed : row'.upstreamBudgetGateClosed = true) :
    ∃ row ∈ q.items, row.requestId = row'.requestId ∧ row.upstreamBudgetGateClosed = true ∧
      row'.attemptsTotal = row.attemptsTotal := by
  rcases h with ⟨change, hitems, hrows⟩
  rw [hitems] at hrow'
  rcases List.mem_map.1 hrow' with ⟨row, hrow, rfl⟩
  rcases hrows row hrow with hsame | hkept
  · rw [hsame] at hclosed ⊢
    exact ⟨row, hrow, rfl, hclosed, rfl⟩
  · rcases hkept.gate hclosed with ⟨hwas, hattempts⟩
    exact ⟨row, hrow, hkept.requestId.symm, hwas, hattempts⟩

/-- A reservation is refused, and closes no gate; or it succeeds. -/
theorem reserve_effect (hkeyed : Keyed q) (hnodup : (q.items.map (·.requestId)).Nodup)
    (requestId : Uuid) (current : Int) :
    let out := q.reserveQueueItemUpstreamRequest requestId current
    (out.1 ≠ none ∧ out.2.budgets = q.budgets ∧ out.2.memberships.Sublist q.memberships ∧
        Changes GateKept q out.2) ∨
      (out.1 = none ∧ ∃ charged, Reserved q out.2 requestId current charged) := by
  intro out
  have hrefused : ∀ error, out = (some error, q.detachInvalid requestId
      (q.invalidForReservation (q.budgetAttemptState requestId) current)) →
      out.1 ≠ none ∧ out.2.budgets = q.budgets ∧ out.2.memberships.Sublist q.memberships ∧
        Changes GateKept q out.2 := by
    intro error hout
    rw [hout]
    refine ⟨fun h => (by cases h), ?_, ?_, ?_⟩
    · exact detachInvalid_budgets q requestId _
    · exact detachInvalid_memberships requestId _
    · exact gateKept_detachInvalid requestId _
  rcases reserve_cases q requestId current with ⟨_, _, _, hout⟩ | ⟨_, _, _, hout⟩ |
    ⟨hwanted, hout⟩
  · exact Or.inl (hrefused _ hout)
  · exact Or.inl (hrefused _ hout)
  · right
    -- An item that is not there is wanted by nobody.
    have hrow : ∃ row ∈ q.items, row.requestId = requestId := by
      cases hitem : q.item? requestId with
      | none => simp [budgetAttemptState, hitem, validIn] at hwanted
      | some row => exact ⟨row, mem_of_item? hitem⟩
    change out = _ at hout
    rw [hout]
    exact ⟨rfl, _, reserved_of_success hkeyed hnodup hrow⟩

end Gates

/-! ## What every run keeps of the budgets -/

/-- How many requests the budget has paid for. -/
def startedOf (q : QueueTables) (budgetId : Uuid) : Nat :=
  match q.budget? budgetId with
  | some budget => budget.requestsStarted
  | none => 0

/-- Memberships and budgets are told apart by their keys, and no budget is overdrawn. -/
structure Funds (next : Uuid) (q : QueueTables) : Prop where
  keyed : Keyed q
  nodup : q.budgetIds.Nodup
  fresh : ∀ budgetId ∈ q.budgetIds, budgetId < next
  capped : ∀ budget ∈ q.budgets, budget.requestsStarted ≤ budget.maxRequests

section Funds

variable {q : QueueTables}

theorem keyed_insertMembership (h : Keyed q) (m : MembershipRow) :
    Keyed (q.insertMembership m) := by
  unfold insertMembership
  split
  · exact h
  · rename_i hfree
    simp only [Keyed, List.map_append, List.map_cons, List.map_nil]
    refine List.nodup_append.2 ⟨h, List.nodup_singleton _, ?_⟩
    intro k hk k' hk' heq
    rw [List.mem_singleton] at hk'
    rcases List.mem_map.1 hk with ⟨m', hm', hkey⟩
    have hsame : key m' = key m := hkey.trans (heq.trans hk')
    simp only [key, Prod.mk.injEq] at hsame
    exact hfree (List.any_eq_true.2 ⟨m', hm', by simp [hsame.1, hsame.2]⟩)

theorem keyed_of_same {q' : QueueTables} (h : Keyed q) (hsame : q'.memberships = q.memberships) :
    Keyed q' := by
  rw [Keyed, hsame]
  exact h

/-- Where the memberships come from after an enqueue. -/
theorem enqueue_memberships (fresh : Uuid) (request : ArxivRequest) (cacheKey : CacheKey)
    (workKind : QueueWorkKind) (budgetId : Option Uuid) (timeout : Timeout) (now : Int) :
    let q' := (q.enqueueRequestForWork fresh request cacheKey workKind budgetId timeout now).2
    q'.memberships = q.memberships ∨
      ∃ m, q'.memberships = (q.insertMembership m).memberships ∧ m.lastChargedAttempt = 0 ∧
        (m.requestId = fresh ∨ ∃ existing, q.pendingItem? cacheKey = some existing ∧
          m.requestId = existing.requestId ∧
            m.firstAttemptNumber = firstAttemptNumber existing) := by
  have hinsert : ∀ (q₁ : QueueTables) (m : MembershipRow), q₁.memberships = q.memberships →
      (q₁.insertMembership m).memberships = (q.insertMembership m).memberships := by
    intro q₁ m hsame
    unfold insertMembership
    rw [hsame]
    split
    · exact hsame
    · rfl
  intro q'
  rcases enqueue_cases q fresh request cacheKey workKind budgetId timeout now with
    hsame | ⟨existing, hpending, hjoin⟩ | ⟨_, hnew⟩
  · exact Or.inl (congrArg (·.memberships) hsame)
  · have hmerge : (q.mergeRequest existing request workKind timeout now).memberships =
        q.memberships := by
      unfold mergeRequest
      split <;> rfl
    have hq' : q' = q.joinPending existing request workKind budgetId timeout now := hjoin
    rw [hq', joinPending]
    cases budgetId with
    | none =>
        left
        unfold joinDemand
        simp only
        split
        · exact hmerge
        · exact hmerge
    | some budgetId =>
        exact Or.inr ⟨_, hinsert _ _ hmerge, rfl, Or.inr ⟨existing, hpending, rfl, rfl⟩⟩
  · have hq' : q' = q.insertItem (newRow fresh request cacheKey workKind budgetId now) budgetId
        now := hnew
    rw [hq']
    cases budgetId with
    | none => exact Or.inl rfl
    | some budgetId => exact Or.inr ⟨_, hinsert _ _ rfl, rfl, Or.inl rfl⟩

theorem keyed_enqueue (h : Keyed q) (fresh : Uuid) (request : ArxivRequest) (cacheKey : CacheKey)
    (workKind : QueueWorkKind) (budgetId : Option Uuid) (timeout : Timeout) (now : Int) :
    Keyed (q.enqueueRequestForWork fresh request cacheKey workKind budgetId timeout now).2 := by
  rcases enqueue_memberships fresh request cacheKey workKind budgetId timeout now with
    hsame | ⟨m, hinsert, _⟩
  · exact keyed_of_same h hsame
  · exact keyed_of_same (keyed_insertMembership h m) hinsert

theorem budget?_of_mem (hnodup : q.budgetIds.Nodup) {budget : BudgetRow} (h : budget ∈ q.budgets) :
    q.budget? budget.budgetId = some budget := by
  cases hfind : q.budget? budget.budgetId with
  | none =>
      have habsent := List.find?_eq_none.1 hfind budget h
      simp at habsent
  | some found =>
      have hid : found.budgetId = budget.budgetId := by simpa using List.find?_some hfind
      rw [List.inj_on_of_nodup_map hnodup (List.mem_of_find?_eq_some hfind) h hid]

theorem chargeBudget_budgetId (charged : List Uuid) (current : Int) (budget : BudgetRow) :
    (chargeBudget charged current budget).budgetId = budget.budgetId := by
  unfold chargeBudget
  split <;> rfl

theorem budget?_charged {q' : QueueTables} {charged : List Uuid} {current : Int}
    (h : q'.budgets = q.budgets.map (chargeBudget charged current)) (budgetId : Uuid) :
    q'.budget? budgetId = (q.budget? budgetId).map (chargeBudget charged current) := by
  have hsame : (fun budget : BudgetRow => decide (budget.budgetId = budgetId)) ∘
      chargeBudget charged current = fun budget => decide (budget.budgetId = budgetId) := by
    funext budget
    simp [chargeBudget_budgetId]
  rw [budget?, h, List.find?_map, hsame]
  rfl

/-- What has nothing wrong with it is there, and has a request left. -/
theorem exists_of_free {budgetId : Uuid} {current : Int}
    (h : q.budgetError budgetId current true = none) :
    ∃ budget, q.budget? budgetId = some budget ∧ budget.requestsStarted < budget.maxRequests := by
  unfold budgetError at h
  split at h
  · cases h
  · rename_i budget hbudget
    split at h
    · cases h
    · split at h
      · cases h
      · rename_i hlimit
        refine ⟨budget, hbudget, ?_⟩
        simpa using hlimit

end Funds

section Performed

variable {o : Op} {t : Int} {r : Except Exn o.Res} {s s' : Store}

/-- Every operation keeps the funds. -/
theorem Funds.performed (hledger : Ledger s.nextUuid s.queue) (hfunds : Funds s.nextUuid s.queue)
    (h : Store.Performed o t r s s') : Funds s'.nextUuid s'.queue := by
  have hkeyed : Keyed s'.queue := by
    rcases members_cases hledger.backed h with hsub | ⟨requestId, _, hqueue⟩ |
      ⟨request, cacheKey, workKind, budgetId, timeout, now, _, hqueue⟩
    · exact hfunds.keyed.sublist (hsub.map key)
    · rw [hqueue]
      rcases reserve_effect hfunds.keyed hledger.nodup requestId t with
        ⟨_, _, hsub, _⟩ | ⟨_, charged, hreserved⟩
      · exact hfunds.keyed.sublist (hsub.map key)
      · exact hfunds.keyed.sublist hreserved.keys
    · rw [hqueue]
      exact keyed_enqueue hfunds.keyed s.nextUuid request cacheKey workKind budgetId timeout now
  rcases h.state with rfl | ⟨input, hs'⟩
  · exact hfunds
  have hids : s'.queue.budgetIds = s.queue.budgetIds ++ openedBudgets o s.nextUuid := by
    rw [hs']
    exact budgetIds_exec o t input s
  have hopened : openedBudgets o s.nextUuid = [] ∨
      (openedBudgets o s.nextUuid = [s.nextUuid] ∧ s'.nextUuid = s.nextUuid + 1) := by
    cases o with
    | queue o =>
        cases o with
        | createUpstreamRequestBudget => exact Or.inr ⟨rfl, by rw [hs']; rfl⟩
        | _ => exact Or.inl rfl
    | _ => exact Or.inl rfl
  refine ⟨hkeyed, ?_, ?_, ?_⟩
  · rcases hopened with hnone | ⟨hone, _⟩
    · rw [hids, hnone, List.append_nil]
      exact hfunds.nodup
    · rw [hids, hone]
      refine List.nodup_append.2 ⟨hfunds.nodup, List.nodup_singleton _, ?_⟩
      intro id hid id' hid' heq
      rw [List.mem_singleton] at hid'
      have hlt := hfunds.fresh id hid
      rw [heq, hid'] at hlt
      exact Nat.lt_irrefl _ hlt
  · intro id hid
    rw [hids, List.mem_append] at hid
    rcases hid with hold | hnew
    · exact Nat.lt_of_lt_of_le (hfunds.fresh id hold) (nextUuid_le h)
    · rcases hopened with hnone | ⟨hone, hnext⟩
      · rw [hnone] at hnew
        cases hnew
      · rw [hone, List.mem_singleton] at hnew
        rw [hnew, hnext]
        exact Nat.lt_succ_self _
  · intro budget hbudget
    by_cases hreserves : ∃ requestId, o = .queue (.reserveQueueItemUpstreamRequest requestId)
    · rcases hreserves with ⟨requestId, rfl⟩
      have hqueue : s'.queue = (s.queue.reserveQueueItemUpstreamRequest requestId t).2 := by
        rw [hs']
        rfl
      rw [hqueue] at hbudget
      rcases reserve_effect hfunds.keyed hledger.nodup requestId t with
        ⟨_, hsame, _, _⟩ | ⟨_, charged, hreserved⟩
      · rw [hsame] at hbudget
        exact hfunds.capped budget hbudget
      · rw [hreserved.budgets] at hbudget
        rcases List.mem_map.1 hbudget with ⟨old, hold, rfl⟩
        unfold chargeBudget
        split
        · -- A charged budget had a request left.
          rename_i hcharged
          rcases exists_of_free (hreserved.free _ hcharged) with ⟨found, hfound, hlt⟩
          rw [budget?_of_mem hfunds.nodup hold] at hfound
          cases hfound
          exact hlt
        · exact hfunds.capped old hold
    · have hbudgets := budgets_exec o t input s fun requestId h => hreserves ⟨requestId, h⟩
      rw [hs', hbudgets, List.mem_append] at hbudget
      rcases hbudget with hold | hnew
      · exact hfunds.capped budget hold
      · unfold openedRows at hnew
        split at hnew
        · rw [List.mem_singleton] at hnew
          rw [hnew]
          exact Nat.zero_le _
        · cases hnew

end Performed

/-! ## What is settled -/

/-- Nothing of the item will be charged for this attempt any more, nor for an earlier one. -/
structure PaidUp (q : QueueTables) (requestId : Uuid) (attempt : Nat) : Prop where
  rows : ∀ row ∈ q.items, row.requestId = requestId → attempt ≤ row.attemptsTotal ∧
    (row.attemptsTotal = attempt → row.status = .claimed → row.upstreamBudgetGateClosed = true)
  members : ∀ m ∈ q.memberships, m.requestId = requestId → ¬ Open attempt m

/-- An item is put off as delayed or as failed, never as claimed. -/
def PutsOffUnclaimed : Op → Prop
  | .queue (.releaseOrDelayQueueItem _ _ _ _ status _) => status ≠ .claimed
  | _ => True

section PaidUp

variable {q : QueueTables} {requestId : Uuid} {attempt : Nat}

/-- What joins a settled item joins for later attempts. -/
theorem PaidUp.not_open_of_join (h : PaidUp q requestId attempt) {existing : QueueRow}
    (hmem : existing ∈ q.items) (hid : existing.requestId = requestId) {m : MembershipRow}
    (hfirst : m.firstAttemptNumber = firstAttemptNumber existing) : ¬ Open attempt m := by
  rcases h.rows existing hmem hid with ⟨hle, hgate⟩
  rintro ⟨hopen, _⟩
  rw [hfirst] at hopen
  simp only [firstAttemptNumber] at hopen
  split at hopen
  · rename_i hcurrent
    have hsame : existing.attemptsTotal = attempt := by omega
    have hclosed := hgate hsame hcurrent.1
    rw [hcurrent.2] at hclosed
    cases hclosed
  · omega

variable {o : Op} {t : Int} {r : Except Exn o.Res} {s s' : Store}

/-- How the row of an item that is settled moves on. -/
theorem PaidUp.row_effect {row row' : QueueRow} (hputs : PutsOffUnclaimed o)
    (h : RowEffect o t q row row') (hrow : attempt ≤ row.attemptsTotal ∧
      (row.attemptsTotal = attempt → row.status = .claimed →
        row.upstreamBudgetGateClosed = true)) :
    attempt ≤ row'.attemptsTotal ∧ (row'.attemptsTotal = attempt → row'.status = .claimed →
      row'.upstreamBudgetGateClosed = true) := by
  have hkept : row'.attemptsTotal = row.attemptsTotal → row'.status = row.status →
      (row'.upstreamBudgetGateClosed = row.upstreamBudgetGateClosed ∨
        row'.upstreamBudgetGateClosed = true) →
      attempt ≤ row'.attemptsTotal ∧ (row'.attemptsTotal = attempt → row'.status = .claimed →
        row'.upstreamBudgetGateClosed = true) := by
    intro hattempts hstatus hgate
    rw [hattempts, hstatus]
    refine ⟨hrow.1, fun hsame hclaimed => ?_⟩
    rcases hgate with hgate | hgate
    · rw [hgate]
      exact hrow.2 hsame hclaimed
    · exact hgate
  have hended : row'.attemptsTotal = row.attemptsTotal → row'.status ≠ .claimed →
      attempt ≤ row'.attemptsTotal ∧ (row'.attemptsTotal = attempt → row'.status = .claimed →
        row'.upstreamBudgetGateClosed = true) := by
    intro hattempts hstatus
    rw [hattempts]
    exact ⟨hrow.1, fun _ hclaimed => absurd hclaimed hstatus⟩
  unfold RowEffect at h
  split at h
  case h_1 =>
    -- A claim begins the next attempt.
    rcases h with ⟨_, rfl⟩
    refine ⟨Nat.le_succ_of_le hrow.1, fun hsame _ => ?_⟩
    have hlt : attempt < row.attemptsTotal + 1 := Nat.lt_succ_of_le hrow.1
    exact absurd hsame (Nat.ne_of_gt hlt)
  case h_2 =>
    rcases h with ⟨_, rfl⟩
    exact hended rfl fun hclaimed => by cases hclaimed
  case h_3 =>
    rcases h with ⟨_, _, rfl⟩
    exact hended rfl hputs
  case h_4 =>
    rcases h with ⟨_, rfl⟩
    exact hended rfl fun hclaimed => by cases hclaimed
  case h_5 =>
    rcases h with h | ⟨_, h⟩
    · exact hkept h.attempts h.status h.gate
    · refine hended h.attempts fun hclaimed => ?_
      have hfailed := congrArg Prod.fst h.standing
      rw [standing, hclaimed] at hfailed
      cases hfailed
  case h_6 => exact hkept h.2.attempts h.2.status h.2.gate
  case h_7 => exact hkept h.2.attempts h.2.status h.2.gate
  case h_8 => exact hkept h.attempts h.status (Or.inl h.gate)
  case h_9 => exact hkept h.attempts h.status (Or.inl h.gate)
  case h_10 =>
    rcases h with ⟨_, _, _, rfl⟩
    exact hrow
  case h_11 => exact h.elim

theorem mem_insertMembership {m m' : MembershipRow}
    (h : m' ∈ (q.insertMembership m).memberships) : m' ∈ q.memberships ∨ m' = m := by
  unfold insertMembership at h
  split at h
  · exact Or.inl h
  · simpa using List.mem_append.1 h

/-- What is settled stays so. -/
theorem PaidUp.performed (hledger : Ledger s.nextUuid s.queue) (hfunds : Funds s.nextUuid s.queue)
    (h : Store.Performed o t r s s') (hputs : PutsOffUnclaimed o) (hid : requestId < s.nextUuid)
    (hpaid : PaidUp s.queue requestId attempt) : PaidUp s'.queue requestId attempt := by
  refine ⟨?_, ?_⟩
  · intro row' hrow' hid'
    rcases row_before hledger h hrow' with ⟨row, hrow, hsame, rfl | heffect⟩ | hnew
    · exact hpaid.rows row' hrow hid'
    · exact PaidUp.row_effect hputs heffect (hpaid.rows row hrow (hsame.symm.trans hid'))
    · -- The identifier of a new item is not an old one.
      rw [hnew.requestId] at hid'
      exact absurd hid (by rw [← hid']; exact Nat.lt_irrefl _)
  · intro m' hm' hid' hopen
    rcases members_cases hledger.backed h with hsub | ⟨reserved, rfl, hqueue⟩ |
      ⟨request, cacheKey, workKind, budgetId, timeout, now, _, hqueue⟩
    · exact hpaid.members m' (hsub.subset hm') hid' hopen
    · rw [hqueue] at hm'
      rcases reserve_effect hfunds.keyed hledger.nodup reserved t with
        ⟨_, _, hsub, _⟩ | ⟨_, charged, hreserved⟩
      · exact hpaid.members m' (hsub.subset hm') hid' hopen
      · rcases hreserved.members m' hm' with ⟨hold, _⟩ | ⟨hitem, hcharged, hlast⟩
        · exact hpaid.members m' hold hid' hopen
        · -- What is charged now is charged for the attempt of the row, which is no earlier one.
          rcases hreserved.opened _ hcharged with ⟨m, hm, hkey, _⟩
          rcases hledger.attached m hm with ⟨row, hrow, hrid⟩
          have hmid : m.requestId = reserved := congrArg Prod.fst hkey
          have hrow' : row.requestId = reserved := hrid.trans hmid
          have hattempt : attemptOf s.queue reserved = row.attemptsTotal := by
            rw [← hrow']
            exact attemptOf_of_mem hledger.nodup hrow
          have hle := (hpaid.rows row hrow (hrow'.trans (hitem.symm.trans hid'))).1
          have hlt := hopen.2
          rw [hlast, hattempt] at hlt
          exact absurd hlt (Nat.not_lt.2 hle)
    · rw [hqueue] at hm'
      rcases enqueue_memberships s.nextUuid request cacheKey workKind budgetId timeout now with
        hsame | ⟨m, hinsert, _, hwhere⟩
      · rw [hsame] at hm'
        exact hpaid.members m' hm' hid' hopen
      · rw [hinsert] at hm'
        rcases mem_insertMembership hm' with hold | rfl
        · exact hpaid.members m' hold hid' hopen
        · rcases hwhere with hfresh | ⟨existing, hpending, hexisting, hfirst⟩
          · rw [hid'] at hfresh
            exact absurd hid (by rw [hfresh]; exact Nat.lt_irrefl _)
          · exact hpaid.not_open_of_join (mem_of_pendingItem? hpending).1
              (hexisting.symm.trans hid') hfirst hopen

/-- A reservation that succeeds settles its attempt. -/
theorem paidUp_of_reserved {q' : QueueTables} {current : Int} {charged : List Uuid}
    (hnodup : (q.items.map (·.requestId)).Nodup)
    (hreserved : Reserved q q' requestId current charged)
    (hrows : ∀ row' ∈ q'.items, ∃ row ∈ q.items, row.requestId = row'.requestId ∧
      row.attemptsTotal = row'.attemptsTotal) :
    PaidUp q' requestId (attemptOf q requestId) := by
  refine ⟨?_, ?_⟩
  · intro row' hrow' hid'
    rcases hrows row' hrow' with ⟨row, hrow, hid, hattempts⟩
    have hattempt : attemptOf q requestId = row.attemptsTotal := by
      rw [← hid', ← hid]
      exact attemptOf_of_mem hnodup hrow
    rw [hattempt, hattempts]
    exact ⟨Nat.le_refl _, fun _ hclaimed => hreserved.gate row' hrow' hid' hclaimed⟩
  · intro m' hm' hid'
    rcases hreserved.members m' hm' with ⟨_, hclosed⟩ | ⟨_, _, hlast⟩
    · exact hclosed hid'
    · rintro ⟨_, hlt⟩
      rw [hlast] at hlt
      exact Nat.lt_irrefl _ hlt

/-- A reservation keeps the attempts of every row. -/
theorem attempts_of_reserve {current : Int} {row' : QueueRow}
    (hrow' : row' ∈ (q.reserveQueueItemUpstreamRequest requestId current).2.items) :
    ∃ row ∈ q.items, row.requestId = row'.requestId ∧ row.attemptsTotal = row'.attemptsTotal := by
  rcases changes_reserve (q := q) requestId current with ⟨change, hitems, hrows⟩
  rw [hitems] at hrow'
  rcases List.mem_map.1 hrow' with ⟨row, hrow, rfl⟩
  refine ⟨row, hrow, ?_⟩
  rcases hrows row hrow with hsame | ⟨_, hkept⟩
  · rw [hsame]
    exact ⟨rfl, rfl⟩
  · exact ⟨hkept.requestId.symm, hkept.attempts.symm⟩

/-- A gate that is closed was closed before, or its attempt is paid up. -/
theorem gate_before (hledger : Ledger s.nextUuid s.queue) (hfunds : Funds s.nextUuid s.queue)
    (h : Store.Performed o t r s s') {row' : QueueRow} (hrow' : row' ∈ s'.queue.items)
    (hclosed : row'.upstreamBudgetGateClosed = true) :
    (∃ row ∈ s.queue.items, row.requestId = row'.requestId ∧
      row.upstreamBudgetGateClosed = true ∧ row'.attemptsTotal = row.attemptsTotal) ∨
        PaidUp s'.queue row'.requestId row'.attemptsTotal := by
  rcases row_before hledger h hrow' with ⟨row, hrow, hid, rfl | heffect⟩ | hnew
  · exact Or.inl ⟨row', hrow, rfl, hclosed, rfl⟩
  · have hleft : row'.upstreamBudgetGateClosed = row.upstreamBudgetGateClosed →
        row'.attemptsTotal = row.attemptsTotal → ∃ row ∈ s.queue.items,
          row.requestId = row'.requestId ∧ row.upstreamBudgetGateClosed = true ∧
            row'.attemptsTotal = row.attemptsTotal := by
      intro hgate hattempts
      exact ⟨row, hrow, hid.symm, hgate.symm.trans hclosed, hattempts⟩
    rcases h.state with rfl | ⟨input, hs'⟩
    · rw [eq_of_mem_of_requestId hledger.nodup hrow' hrow hid] at hclosed ⊢
      exact Or.inl ⟨row, hrow, rfl, hclosed, rfl⟩
    unfold RowEffect at heffect
    split at heffect
    case h_1 =>
      rcases heffect with ⟨_, rfl⟩
      cases hclosed
    case h_2 =>
      rcases heffect with ⟨_, rfl⟩
      exact Or.inl (hleft rfl rfl)
    case h_3 =>
      rcases heffect with ⟨_, _, rfl⟩
      cases hclosed
    case h_4 =>
      rcases heffect with ⟨_, rfl⟩
      cases hclosed
    case h_5 budgetId category message timestamp =>
      have hqueue : s'.queue =
          s.queue.failActiveUpstreamBudgetItems budgetId category message timestamp := by
        rw [hs']
        rfl
      rw [hqueue] at hrow'
      exact Or.inl ((gateKept_failActive budgetId category message timestamp).gate_before hrow'
        hclosed)
    case h_6 requestId =>
      have hqueue : s'.queue = (s.queue.reserveQueueItemUpstreamRequest requestId t).2 := by
        rw [hs']
        rfl
      rcases reserve_effect hfunds.keyed hledger.nodup requestId t with
        ⟨_, _, _, hchanges⟩ | ⟨_, charged, hreserved⟩
      · rw [hqueue] at hrow'
        exact Or.inl (hchanges.gate_before hrow' hclosed)
      · right
        have hsame : row'.requestId = requestId := hid.trans heffect.1
        have hattempt : attemptOf s.queue requestId = row'.attemptsTotal := by
          rw [heffect.2.attempts, ← heffect.1]
          exact attemptOf_of_mem hledger.nodup hrow
        rw [hsame, hqueue, ← hattempt]
        exact paidUp_of_reserved hledger.nodup hreserved fun _ => attempts_of_reserve
    case h_7 requestId =>
      have hqueue : s'.queue = (s.queue.checkQueueItemUpstreamRequestDeadlines requestId t).2 := by
        rw [hs']
        rfl
      rw [hqueue] at hrow'
      exact Or.inl ((gateKept_checkDeadlines requestId t).gate_before hrow' hclosed)
    case h_8 => exact Or.inl (hleft heffect.gate heffect.attempts)
    case h_9 => exact Or.inl (hleft heffect.gate heffect.attempts)
    case h_10 =>
      rcases heffect with ⟨_, _, _, rfl⟩
      exact Or.inl (hleft rfl rfl)
    case h_11 => exact heffect.elim
  · -- A new item has had no attempt that could be charged.
    right
    refine ⟨?_, ?_⟩
    · intro other hother hid
      have hsame := eq_of_mem_of_requestId (hledger.performed h).nodup hother hrow' hid
      rw [hsame]
      refine ⟨Nat.le_refl _, fun _ hclaimed => ?_⟩
      rw [hnew.status] at hclaimed
      cases hclaimed
    · rintro m _ _ ⟨_, hlt⟩
      rw [hnew.attempts] at hlt
      exact Nat.not_lt_zero _ hlt

end PaidUp

end Queue
end Huldra
