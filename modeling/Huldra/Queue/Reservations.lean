import Huldra.Store

/-!
# Reservations — exclusive holds on arXiv ids

A reservation is a lease on one id, and a call takes several of them.  A hold is granted by an
acquisition, a renewal or the fence of a worker, and lasts until its time has passed or its owner
releases it.  What one operation does to the table is said once, in three lemmas: an operation
leaves the holds of everybody else alone, a granted hold is in the table, and a live hold keeps
other owners out.
-/

namespace Huldra
namespace Queue

open QueueTables

/-! ## What leaves the table alone -/

section Frame

variable {q : QueueTables}

@[simp] theorem updateItem_reservations (requestId : Uuid) (f : QueueRow → QueueRow) :
    (q.updateItem requestId f).reservations = q.reservations := rfl

@[simp] theorem insertMembership_reservations (m : MembershipRow) :
    (q.insertMembership m).reservations = q.reservations := by
  unfold insertMembership
  split <;> rfl

@[simp] theorem wakeIdFetchReserved_reservations (ids : List String) (timestamp : Int) :
    (q.wakeIdFetchReserved ids timestamp).reservations = q.reservations := rfl

@[simp] theorem detachMemberships_reservations (requestId : Uuid) (budgetIds : List Uuid) :
    (q.detachMemberships requestId budgetIds).reservations = q.reservations := rfl

@[simp] theorem detachInvalid_reservations (requestId : Uuid) (invalid : List (Uuid × String)) :
    (q.detachInvalid requestId invalid).reservations = q.reservations := by
  unfold detachInvalid
  split <;> rfl

@[simp] theorem joinPending_reservations (existing : QueueRow) (request : ArxivRequest)
    (workKind : QueueWorkKind) (budgetId : Option Uuid) (timeout : Timeout) (now : Int) :
    (q.joinPending existing request workKind budgetId timeout now).reservations =
      q.reservations := by
  have hmerge : (q.mergeRequest existing request workKind timeout now).reservations =
      q.reservations := by
    unfold mergeRequest
    split <;> rfl
  unfold joinPending joinDemand
  split
  · split <;> simp [hmerge]
  · simp [hmerge]

@[simp] theorem enqueueRequestForWork_reservations (fresh : Uuid) (request : ArxivRequest)
    (cacheKey : CacheKey) (workKind : QueueWorkKind) (budgetId : Option Uuid)
    (timeout : Timeout) (now : Int) :
    (q.enqueueRequestForWork fresh request cacheKey workKind budgetId timeout now).2.reservations =
      q.reservations := by
  have hinsert : ∀ row, (q.insertItem row budgetId now).reservations = q.reservations := by
    intro row
    unfold insertItem
    cases budgetId <;> simp
  unfold QueueTables.enqueueRequestForWork
  split
  · rfl
  · split
    · dsimp only
      split
      · exact joinPending_reservations ..
      · rfl
    · simp only
      split <;> simp [hinsert]

@[simp] theorem claimNextQueueItem_reservations (owner : OwnerToken) (timeout : Int)
    (keys : Option (List CacheKey)) (current : Int) :
    (q.claimNextQueueItem owner timeout keys current).2.reservations = q.reservations := by
  unfold QueueTables.claimNextQueueItem
  simp only
  split <;> rfl

@[simp] theorem releaseOrDelayQueueItem_reservations (requestId : Uuid)
    (nextAttemptAt : Option Int) (category message : Option String) (status : RequestStatus)
    (timestamp : Int) :
    (q.releaseOrDelayQueueItem requestId nextAttemptAt category message status
      timestamp).2.reservations = q.reservations := by
  unfold QueueTables.releaseOrDelayQueueItem
  split <;> rfl

@[simp] theorem reserveUpstreamBudgets_reservations (budgetIds : List Uuid) (current : Int) :
    (q.reserveUpstreamBudgets budgetIds current).2.reservations = q.reservations := by
  unfold reserveUpstreamBudgets
  split <;> rfl

@[simp] theorem reserve_reservations (requestId : Uuid) (current : Int) :
    (q.reserveQueueItemUpstreamRequest requestId current).2.reservations = q.reservations := by
  unfold QueueTables.reserveQueueItemUpstreamRequest
  simp only
  split
  · split <;> simp
  · split
    case h_1 error charged hcharge =>
      have hsame := congrArg (fun out => out.2.reservations) hcharge
      simpa using hsame.symm
    case h_2 charged hcharge =>
      have hsame := congrArg (fun out => out.2.reservations) hcharge
      simpa [closeBudgetGate] using hsame.symm

@[simp] theorem checkDeadlines_reservations (requestId : Uuid) (current : Int) :
    (q.checkQueueItemUpstreamRequestDeadlines requestId current).2.reservations =
      q.reservations := by
  unfold QueueTables.checkQueueItemUpstreamRequestDeadlines
  simp only
  split
  · simp
  · split <;> simp

@[simp] theorem failItemOfBudget_reservations (requestId budgetId : Uuid)
    (category message : String) (timestamp : Int) :
    (q.failItemOfBudget requestId budgetId category message timestamp).reservations =
      q.reservations := by
  unfold failItemOfBudget
  simp only
  split
  · rfl
  · split <;> rfl

@[simp] theorem failActive_reservations (budgetId : Uuid) (category message : String)
    (timestamp : Int) :
    (q.failActiveUpstreamBudgetItems budgetId category message timestamp).reservations =
      q.reservations := by
  unfold QueueTables.failActiveUpstreamBudgetItems
  generalize (q.items.filter (q.boundToBudget budgetId)).map (·.requestId) = requestIds
  induction requestIds generalizing q with
  | nil => rfl
  | cons requestId requestIds ih => simp [ih]

@[simp] theorem backfillMemberships_reservations :
    q.backfillMemberships.reservations = q.reservations := by
  unfold backfillMemberships
  generalize q.items = items
  induction items generalizing q with
  | nil => rfl
  | cons row items ih =>
      rw [List.foldl_cons, ih]
      split <;> simp

end Frame

/-! ## One operation -/

/-- How long the answered operation lets this owner hold the id, if it grants it a hold. -/
def granted? (owner : OwnerToken) (arxivId : String) :
    (o : Op) → Except Exn o.Res → Option Int
  | .queue (.acquireIdFetchReservations _ owner' _ ttl), .ok result =>
      if owner' = owner ∧ arxivId ∈ result.acquiredIds then some ttl else none
  | .queue (.renewIdFetchReservations ids owner' ttl), .ok true =>
      if owner' = owner ∧ arxivId ∈ ids then some ttl else none
  | .renewWorkerFetchOwnership _ owner' _ ttl ids, .ok none =>
      if owner' = owner ∧ arxivId ∈ ids then some ttl else none
  | _, _ => none

/-- The operation gives up the owner's hold on the id. -/
def gaveUp (owner : OwnerToken) (arxivId : String) : Op → Bool
  | .queue (.releaseIdFetchReservations ids owner' _) => owner' = owner && ids.contains arxivId
  | _ => false

/-- The owner holds the id, at least until this time. -/
def Holds (q : QueueTables) (owner : OwnerToken) (arxivId : String) (expiresAt : Int) : Prop :=
  ∃ row ∈ q.reservations,
    row.arxivId = arxivId ∧ row.ownerToken = owner ∧ row.expiresAt = expiresAt

theorem Holds.congr {q q' : QueueTables} {owner : OwnerToken} {arxivId : String} {expiresAt : Int}
    (h : Holds q owner arxivId expiresAt) (hsame : q'.reservations = q.reservations) :
    Holds q' owner arxivId expiresAt := by
  unfold Holds
  rw [hsame]
  exact h

section Tables

variable {q : QueueTables} {ids : List String} {owner : OwnerToken} {requestId : Uuid}
  {ttl current : Int}

/-- An acquisition of ids takes all of them, or none and removes what has expired. -/
theorem acquireIdFetchReservations_cases (q : QueueTables) (ids : List String)
    (owner : OwnerToken) (requestId : Uuid) (ttl current : Int) :
    (ids = [] ∧ q.acquireIdFetchReservations ids owner requestId ttl current = (⟨[], none⟩, q)) ∨
    ((∀ row ∈ q.reservations, current < row.expiresAt → row.arxivId ∈ ids →
        row.ownerToken = owner) ∧
      q.acquireIdFetchReservations ids owner requestId ttl current =
        (⟨ids.eraseDups, none⟩,
          { q with
            reservations :=
              ((q.reservations.filter fun row => current < row.expiresAt).filter fun row =>
                !ids.eraseDups.contains row.arxivId) ++
              ids.eraseDups.map fun arxivId =>
                ⟨arxivId, owner, requestId, current, current + seconds ttl⟩ })) ∨
    (∃ row ∈ q.reservations, current < row.expiresAt ∧ row.arxivId ∈ ids ∧
        row.ownerToken ≠ owner) ∧
      ∃ blockedUntil, q.acquireIdFetchReservations ids owner requestId ttl current =
        (⟨[], some blockedUntil⟩,
          { q with reservations := q.reservations.filter fun row => current < row.expiresAt }) := by
  by_cases hempty : ids = []
  · subst hempty
    exact Or.inl ⟨rfl, rfl⟩
  · have hnonempty : ids.eraseDups.isEmpty = false := by
      cases ids with
      | nil => exact absurd rfl hempty
      | cons a l => simp [List.eraseDups_cons]
    right
    unfold QueueTables.acquireIdFetchReservations
    simp only [hnonempty, Bool.false_eq_true, if_false]
    split
    · rename_i first rest hblocking
      right
      refine ⟨?_, _, rfl⟩
      have hfirst := List.mem_map.1 (hblocking ▸ List.mem_cons_self)
      rcases hfirst with ⟨row, hrow, _⟩
      simp only [List.mem_filter, Bool.and_eq_true, decide_eq_true_eq,
        List.contains_eq_mem, List.mem_eraseDups] at hrow
      exact ⟨row, hrow.1.1, hrow.1.2, hrow.2⟩
    · rename_i hblocking
      left
      refine ⟨?_, rfl⟩
      intro row hrow hlive hmem
      rw [List.map_eq_nil_iff, List.filter_eq_nil_iff] at hblocking
      have hfree := hblocking row (List.mem_filter.2 ⟨hrow, by simpa using hlive⟩)
      simpa [hmem] using hfree

/-- Everybody else's holds, and the owner's holds on other ids, survive an acquisition. -/
theorem mem_acquireIdFetchReservations {row : ReservationRow} (hrow : row ∈ q.reservations)
    (hlive : current < row.expiresAt)
    (hother : row.ownerToken ≠ owner ∨ row.arxivId ∉
      (q.acquireIdFetchReservations ids owner requestId ttl current).1.acquiredIds) :
    row ∈ (q.acquireIdFetchReservations ids owner requestId ttl current).2.reservations := by
  have hkept : row ∈ q.reservations.filter fun row => current < row.expiresAt :=
    List.mem_filter.2 ⟨hrow, by simpa using hlive⟩
  rcases acquireIdFetchReservations_cases q ids owner requestId ttl current with
    ⟨_, heq⟩ | ⟨hfree, heq⟩ | ⟨_, blockedUntil, heq⟩
  · rw [heq]
    exact hrow
  · rw [heq] at hother ⊢
    refine List.mem_append_left _ (List.mem_filter.2 ⟨hkept, ?_⟩)
    -- A live row of another owner on one of the ids would have blocked the acquisition.
    have hmem : row.arxivId ∉ ids := by
      intro hmem
      rcases hother with hne | hnot
      · exact hne (hfree row hrow hlive hmem)
      · exact hnot (List.mem_eraseDups.2 hmem)
    simpa using hmem
  · rw [heq]
    exact hkept

/-- A live hold keeps other owners out. -/
theorem acquiredIds_of_holds {other : OwnerToken} {arxivId : String} {expiresAt : Int}
    (h : Holds q owner arxivId expiresAt) (hlive : current < expiresAt) (hother : other ≠ owner)
    (hmem : arxivId ∈ ids) :
    (q.acquireIdFetchReservations ids other requestId ttl current).1.acquiredIds = [] := by
  rcases h with ⟨row, hrow, rfl, rfl, rfl⟩
  rcases acquireIdFetchReservations_cases q ids other requestId ttl current with
    ⟨_, heq⟩ | ⟨hfree, _⟩ | ⟨_, _, heq⟩
  · rw [heq]
  · exact absurd (hfree row hrow hlive hmem).symm hother
  · rw [heq]

theorem holds_of_acquired {arxivId : String}
    (hmem : arxivId ∈
      (q.acquireIdFetchReservations ids owner requestId ttl current).1.acquiredIds) :
    Holds (q.acquireIdFetchReservations ids owner requestId ttl current).2 owner arxivId
      (current + seconds ttl) := by
  rcases acquireIdFetchReservations_cases q ids owner requestId ttl current with
    ⟨_, heq⟩ | ⟨_, heq⟩ | ⟨_, _, heq⟩
  · rw [heq] at hmem
    cases hmem
  · rw [heq] at hmem ⊢
    refine ⟨_, List.mem_append_right _ (List.mem_map.2 ⟨arxivId, hmem, rfl⟩), rfl, rfl, rfl⟩
  · rw [heq] at hmem
    cases hmem

theorem mem_of_acquired {arxivId : String}
    (hmem : arxivId ∈
      (q.acquireIdFetchReservations ids owner requestId ttl current).1.acquiredIds) :
    arxivId ∈ ids := by
  rcases acquireIdFetchReservations_cases q ids owner requestId ttl current with
    ⟨_, heq⟩ | ⟨_, heq⟩ | ⟨_, _, heq⟩
  · rw [heq] at hmem
    cases hmem
  · rw [heq] at hmem
    exact List.mem_eraseDups.1 hmem
  · rw [heq] at hmem
    cases hmem

/-- Either the owner holds all of the ids, alone, or what has expired is gone and nothing else. -/
theorem acquired_all_or_none :
    ((q.acquireIdFetchReservations ids owner requestId ttl current).1.acquiredIds =
        ids.eraseDups ∧
      (∀ arxivId ∈ ids, Holds (q.acquireIdFetchReservations ids owner requestId ttl current).2
        owner arxivId (current + seconds ttl)) ∧
      ∀ row ∈ (q.acquireIdFetchReservations ids owner requestId ttl current).2.reservations,
        row.arxivId ∈ ids → row.ownerToken = owner) ∨
    ((q.acquireIdFetchReservations ids owner requestId ttl current).1.acquiredIds = [] ∧
      (q.acquireIdFetchReservations ids owner requestId ttl current).2 =
        { q with reservations := q.reservations.filter fun row => current < row.expiresAt }) := by
  rcases acquireIdFetchReservations_cases q ids owner requestId ttl current with
    ⟨rfl, heq⟩ | ⟨_, heq⟩ | ⟨_, _, heq⟩
  · rw [heq]
    exact Or.inl ⟨rfl, fun _ h => (nomatch h), fun _ _ h => nomatch h⟩
  · have hall : (q.acquireIdFetchReservations ids owner requestId ttl current).1.acquiredIds =
        ids.eraseDups := by rw [heq]
    refine Or.inl ⟨hall, fun arxivId hmem => holds_of_acquired ?_, ?_⟩
    · rw [hall]
      exact List.mem_eraseDups.2 hmem
    · rw [heq]
      intro row hrow hmem
      rcases List.mem_append.1 hrow with hold | htaken
      · have hnot := (List.mem_filter.1 hold).2
        simp [hmem] at hnot
      · rcases List.mem_map.1 htaken with ⟨_, _, rfl⟩
        rfl
  · rw [heq]
    exact Or.inr ⟨rfl, rfl⟩

theorem reservationsOwned_iff :
    q.reservationsOwned ids owner = true ↔
      ∀ arxivId ∈ ids, ∃ row ∈ q.reservations, row.arxivId = arxivId ∧ row.ownerToken = owner := by
  simp [reservationsOwned]

/-- An extension moves the owner's holds on the ids, and no other row. -/
theorem mem_extendReservations {row : ReservationRow} (hrow : row ∈ q.reservations)
    (hother : row.ownerToken ≠ owner ∨ row.arxivId ∉ ids) :
    row ∈ (q.extendReservations ids owner ttl current).reservations := by
  refine List.mem_map.2 ⟨row, hrow, if_neg ?_⟩
  rintro ⟨howner, hmem⟩
  rcases hother with hne | hnot
  · exact hne howner
  · exact hnot (by simpa using hmem)

theorem holds_extendReservations (howned : q.reservationsOwned ids owner = true) {arxivId : String}
    (hmem : arxivId ∈ ids) :
    Holds (q.extendReservations ids owner ttl current) owner arxivId (current + seconds ttl) := by
  rcases reservationsOwned_iff.1 howned arxivId hmem with ⟨row, hrow, rfl, howner⟩
  have hextended : row.ownerToken = owner ∧ ids.contains row.arxivId = true :=
    ⟨howner, by simpa using hmem⟩
  exact ⟨_, List.mem_map.2 ⟨row, hrow, if_pos hextended⟩, rfl, howner, rfl⟩

theorem expiresAt_extendReservations {row : ReservationRow}
    (hrow : row ∈ (q.extendReservations ids owner ttl current).reservations)
    (howner : row.ownerToken = owner) (hmem : row.arxivId ∈ ids) :
    row.expiresAt = current + seconds ttl := by
  rcases List.mem_map.1 hrow with ⟨old, _, rfl⟩
  split at howner
  · rename_i hextended
    rw [if_pos hextended]
  · rename_i hkept
    rw [if_neg hkept] at hmem
    exact absurd ⟨howner, by simpa using hmem⟩ hkept

theorem renewIdFetchReservations_cases (q : QueueTables) (ids : List String) (owner : OwnerToken)
    (ttl current : Int) :
    q.renewIdFetchReservations ids owner ttl current = (false, q) ∨
    (q.reservationsOwned ids.eraseDups owner = true ∧
      q.renewIdFetchReservations ids owner ttl current =
        (true, q.extendReservations ids.eraseDups owner ttl current)) := by
  unfold QueueTables.renewIdFetchReservations
  cases howned : q.reservationsOwned ids.eraseDups owner with
  | false => exact Or.inl (by simp [howned])
  | true => exact Or.inr ⟨rfl, by simp [howned]⟩

theorem holds_of_renewed {arxivId : String}
    (h : (q.renewIdFetchReservations ids owner ttl current).1 = true) (hmem : arxivId ∈ ids) :
    Holds (q.renewIdFetchReservations ids owner ttl current).2 owner arxivId
      (current + seconds ttl) := by
  rcases renewIdFetchReservations_cases q ids owner ttl current with heq | ⟨howned, heq⟩
  · rw [heq] at h
    cases h
  · rw [heq]
    exact holds_extendReservations howned (List.mem_eraseDups.2 hmem)

/-- A release takes the owner's own holds on the ids away, and no other row. -/
theorem mem_releaseIdFetchReservations {row : ReservationRow} {timestamp : Int}
    (hrow : row ∈ q.reservations) (hother : row.ownerToken ≠ owner ∨ row.arxivId ∉ ids) :
    row ∈ (q.releaseIdFetchReservations ids owner timestamp).reservations := by
  unfold QueueTables.releaseIdFetchReservations
  simp only
  split
  · rw [wakeIdFetchReserved_reservations]
    refine List.mem_filter.2 ⟨hrow, ?_⟩
    rcases hother with hne | hnot
    · simp [hne]
    · simp [hnot]
  · exact hrow

/-- The fence extends everything it checks, or changes nothing. -/
theorem renewWorkerFetchOwnership_cases (s : Store) (requestId : Uuid) (owner : OwnerToken)
    (name : LeaseName) (ttl : Int) (ids : List String) (current : Int) :
    (∃ error, s.renewWorkerFetchOwnership requestId owner name ttl ids current =
      (some error, s)) ∨
    (s.leases.ownedBy name owner = true ∧ s.queue.claimedByOwner requestId owner = true ∧
      s.queue.reservationsOwned ids.eraseDups owner = true ∧
      s.renewWorkerFetchOwnership requestId owner name ttl ids current =
        (none,
          { s with
            leases := s.leases.extend name owner (current + seconds ttl)
            queue :=
              (s.queue.updateItem requestId fun row =>
                row.renewClaim (current + seconds ttl) current).extendReservations
                  ids.eraseDups owner ttl current })) := by
  unfold Store.renewWorkerFetchOwnership
  cases hlease : s.leases.ownedBy name owner with
  | false => exact Or.inl ⟨"lost_lease", by simp⟩
  | true =>
      cases hclaim : s.queue.claimedByOwner requestId owner with
      | false => exact Or.inl ⟨"lost_claim", by simp⟩
      | true =>
          cases hreserved : s.queue.reservationsOwned ids.eraseDups owner with
          | false => exact Or.inl ⟨"id_fetch_reserved", by simp [hreserved]⟩
          | true => exact Or.inr ⟨rfl, rfl, rfl, by simp [hreserved]⟩

theorem item?_renewClaim {expiresAt : Int} (h : q.claimedByOwner requestId owner = true) :
    ∃ row, (q.updateItem requestId fun row => row.renewClaim expiresAt current).item? requestId =
      some row ∧ row.status = .claimed ∧ row.claimedBy = some owner ∧
        row.claimedUntil = some expiresAt := by
  have hfound : ∀ row, q.item? requestId = some row →
      (q.updateItem requestId fun row => row.renewClaim expiresAt current).item? requestId =
        some (row.renewClaim expiresAt current) := by
    intro row hrow
    have hid : row.requestId = requestId := by simpa using List.find?_some hrow
    have hsame : ∀ row : QueueRow, (if row.requestId = requestId then
        row.renewClaim expiresAt current else row).requestId = row.requestId := by
      intro row
      split <;> rfl
    unfold item? updateItem at *
    rw [List.find?_map]
    simp only [Function.comp_def, hsame, hrow, Option.map_some, if_pos hid]
  unfold claimedByOwner at h
  split at h
  · rename_i row hrow
    simp only [Bool.and_eq_true, decide_eq_true_eq] at h
    exact ⟨_, hfound row hrow, h.1, h.2, rfl⟩
  · cases h

theorem holds_of_fenced {s : Store} {name : LeaseName} {arxivId : String}
    (h : (s.renewWorkerFetchOwnership requestId owner name ttl ids current).1 = none)
    (hmem : arxivId ∈ ids) :
    Holds (s.renewWorkerFetchOwnership requestId owner name ttl ids current).2.queue owner arxivId
      (current + seconds ttl) := by
  rcases renewWorkerFetchOwnership_cases s requestId owner name ttl ids current with
    ⟨error, heq⟩ | ⟨_, _, howned, heq⟩
  · rw [heq] at h
    cases h
  · rw [heq]
    exact holds_extendReservations howned (List.mem_eraseDups.2 hmem)

end Tables

/-! ## Any operation -/

section Operations

variable {s : Store} {owner : OwnerToken} {arxivId : String} {expiresAt t : Int}

/-- An operation that answers with a hold puts it into the table. -/
theorem holds_of_granted (o : Op) (input : Input) {ttl : Int}
    (h : granted? owner arxivId o (Store.exec o t input s).1 = some ttl) :
    Holds (Store.exec o t input s).2.queue owner arxivId (t + seconds ttl) := by
  unfold granted? at h
  split at h
  case h_1 ids owner' requestId ttl' result hresult =>
    rw [Option.ite_none_right_eq_some] at h
    rcases h with ⟨⟨rfl, hmem⟩, httl⟩
    cases httl
    cases hresult
    exact holds_of_acquired hmem
  case h_2 ids owner' ttl' hresult =>
    rw [Option.ite_none_right_eq_some] at h
    rcases h with ⟨⟨rfl, hmem⟩, httl⟩
    cases httl
    exact (holds_of_renewed (Except.ok.inj hresult) hmem)
  case h_3 requestId owner' name ttl' ids hresult =>
    rw [Option.ite_none_right_eq_some] at h
    rcases h with ⟨⟨rfl, hmem⟩, httl⟩
    cases httl
    exact holds_of_fenced (Except.ok.inj hresult) hmem
  case h_4 => cases h

/-- The four transactions that write the table. -/
def reserves : Op → Bool
  | .queue (.acquireIdFetchReservations ..) => true
  | .queue (.renewIdFetchReservations ..) => true
  | .queue (.releaseIdFetchReservations ..) => true
  | .renewWorkerFetchOwnership .. => true
  | _ => false

/-- Nothing else does. -/
theorem exec_reservations (o : Op) (t : Int) (input : Input) (s : Store)
    (h : reserves o = false) :
    (Store.exec o t input s).2.queue.reservations = s.queue.reservations := by
  cases o with
  | queue o =>
      cases o with
      | acquireIdFetchReservations => cases h
      | renewIdFetchReservations => cases h
      | releaseIdFetchReservations => cases h
      | completeQueueItem => rfl
      | createUpstreamRequestBudget => rfl
      | _ => simp [Store.exec, QueueOp.exec]
  | renewWorkerFetchOwnership => cases h
  | initSchema =>
      simp only [Store.exec]
      rcases s.initSchema_cases with heq | heq
      · rw [heq]
      · simp [heq, Store.migrate]
  | checkpointOaiPage c =>
      simp only [Store.exec, Store.checkpointOaiPage]
      split <;> rfl
  | enqueueRefreshIfDue request cacheKey timeout current =>
      simp only [Store.exec, Store.enqueueRefreshIfDue]
      split
      · simp
      · split
        · rfl
        · split
          · rfl
          · split
            · split
              · split <;> rfl
              · simp
            · simp
  | _ => rfl

/-- A hold that has not expired survives everything but its owner's own calls for the id. -/
theorem Holds.exec (o : Op) (input : Input) (h : Holds s.queue owner arxivId expiresAt)
    (hlive : t < expiresAt)
    (hgranted : granted? owner arxivId o (Store.exec o t input s).1 = none)
    (hkept : gaveUp owner arxivId o = false) :
    Holds (Store.exec o t input s).2.queue owner arxivId expiresAt := by
  by_cases hreserves : reserves o = false
  · exact h.congr (exec_reservations o t input s hreserves)
  · rcases h with ⟨row, hrow, rfl, rfl, rfl⟩
    suffices hstays : row ∈ (Store.exec o t input s).2.queue.reservations from
      ⟨row, hstays, rfl, rfl, rfl⟩
    unfold reserves at hreserves
    split at hreserves
    case h_1 ids other requestId ttl =>
      refine mem_acquireIdFetchReservations hrow hlive ?_
      simp only [granted?, Store.exec, QueueOp.exec, ite_eq_right_iff, reduceCtorEq, imp_false,
        not_and_or] at hgranted
      exact hgranted.imp_left Ne.symm
    case h_2 ids other ttl =>
      simp only [Store.exec, QueueOp.exec] at hgranted ⊢
      rcases renewIdFetchReservations_cases s.queue ids other ttl t with heq | ⟨_, heq⟩
      · rw [heq]
        exact hrow
      · rw [heq] at hgranted ⊢
        simp only [granted?, ite_eq_right_iff, reduceCtorEq, imp_false, not_and_or] at hgranted
        refine mem_extendReservations hrow (hgranted.imp Ne.symm ?_)
        simp
    case h_3 ids other timestamp =>
      simp only [gaveUp, Bool.and_eq_false_imp, decide_eq_true_eq] at hkept
      exact mem_releaseIdFetchReservations hrow (not_and_or.1 fun h => by
        simpa [h.2] using hkept h.1.symm)
    case h_4 requestId other name ttl ids =>
      simp only [Store.exec] at hgranted ⊢
      rcases renewWorkerFetchOwnership_cases s requestId other name ttl ids t with
        ⟨error, heq⟩ | ⟨_, _, _, heq⟩
      · rw [heq]
        exact hrow
      · rw [heq] at hgranted ⊢
        simp only [granted?, ite_eq_right_iff, reduceCtorEq, imp_false, not_and_or] at hgranted
        refine mem_extendReservations hrow (hgranted.imp Ne.symm ?_)
        simp
    case h_5 => exact absurd rfl hreserves

end Operations

/-! ## Any sequence of transactions -/

/-- A transaction, the time it reads and what it is answered from outside. -/
structure Transaction where
  op : Op
  now : Int
  input : Input := {}

namespace Transaction

def answer (c : Transaction) (s : Store) : Except Exn c.op.Res :=
  (Store.exec c.op c.now c.input s).1

def after (c : Transaction) (s : Store) : Store :=
  (Store.exec c.op c.now c.input s).2

/-- Until when the owner may count on the id once the transaction is done. -/
def heldUntil (owner : OwnerToken) (arxivId : String) (c : Transaction) (s : Store)
    (held : Option Int) : Option Int :=
  match granted? owner arxivId c.op (c.answer s) with
  | some ttl => some (c.now + seconds ttl)
  | none => if gaveUp owner arxivId c.op then none else held

end Transaction

def afterAll (transactions : List Transaction) (s : Store) : Store :=
  transactions.foldl (fun s c => c.after s) s

/-- Until when the owner may count on the id after these transactions: the time and the length of
the last hold it was granted, if it has not given it up. -/
def heldUntil (owner : OwnerToken) (arxivId : String) :
    List Transaction → Store → Option Int → Option Int
  | [], _, held => held
  | c :: rest, s, held =>
      heldUntil owner arxivId rest (c.after s) (c.heldUntil owner arxivId s held)

section Sequences

variable {owner : OwnerToken} {arxivId : String} {now : Int}

/-- One transaction keeps what the owner may count on in the table. -/
theorem holds_step {c : Transaction} {s : Store} {held : Option Int} (hclock : c.now ≤ now)
    (h : ∀ e, held = some e → now < e → Holds s.queue owner arxivId e) :
    ∀ e, c.heldUntil owner arxivId s held = some e → now < e →
      Holds (c.after s).queue owner arxivId e := by
  intro e he hlive
  unfold Transaction.heldUntil at he
  split at he
  · rename_i ttl hgranted
    cases he
    exact holds_of_granted c.op c.input hgranted
  · rename_i hgranted
    split at he
    · cases he
    · rename_i hkept
      have hholds := h e he hlive
      exact hholds.exec c.op c.input (by omega) hgranted (by simpa using hkept)

theorem holds_of_heldUntil (transactions : List Transaction) : ∀ {s : Store} {held : Option Int},
    (∀ c ∈ transactions, c.now ≤ now) →
    (∀ e, held = some e → now < e → Holds s.queue owner arxivId e) →
    ∀ e, heldUntil owner arxivId transactions s held = some e → now < e →
      Holds (afterAll transactions s).queue owner arxivId e := by
  induction transactions with
  | nil =>
      intro s held _ h
      exact h
  | cons c rest ih =>
      intro s held hclock h
      exact ih (fun c' hc' => hclock c' (List.mem_cons_of_mem c hc'))
        (holds_step (hclock c List.mem_cons_self) h)

end Sequences

/-- After any transactions, an acquisition takes all of its ids or none, and none that another
owner was granted and has not given up; a renewal or a fence that fails changes nothing, and a
fence that succeeds extends the lease, the claim and the reservations alike. -/
theorem reservations_exclusive (s₀ s : Store) (earlier : List Transaction) (now : Int)
    (hs : s = afterAll earlier s₀) (hclock : ∀ c ∈ earlier, c.now ≤ now) (ids : List String)
    (owner : OwnerToken) (requestId : Uuid) (name : LeaseName) (ttl : Int) :
    (((s.queue.acquireIdFetchReservations ids owner requestId ttl now).1.acquiredIds =
          ids.eraseDups ∧
        (∀ arxivId ∈ ids, Holds (s.queue.acquireIdFetchReservations ids owner requestId ttl now).2
          owner arxivId (now + seconds ttl)) ∧
        ∀ row ∈ (s.queue.acquireIdFetchReservations ids owner requestId ttl now).2.reservations,
          row.arxivId ∈ ids → row.ownerToken = owner) ∨
      ((s.queue.acquireIdFetchReservations ids owner requestId ttl now).1.acquiredIds = [] ∧
        (s.queue.acquireIdFetchReservations ids owner requestId ttl now).2 =
          { s.queue with
            reservations := s.queue.reservations.filter fun row => now < row.expiresAt })) ∧
    (∀ other arxivId expiresAt, other ≠ owner →
      heldUntil other arxivId earlier s₀ none = some expiresAt → now < expiresAt →
        arxivId ∉ (s.queue.acquireIdFetchReservations ids owner requestId ttl now).1.acquiredIds) ∧
    ((s.queue.renewIdFetchReservations ids owner ttl now).1 = false →
      (s.queue.renewIdFetchReservations ids owner ttl now).2 = s.queue) ∧
    (∀ error, (s.renewWorkerFetchOwnership requestId owner name ttl ids now).1 = some error →
      (s.renewWorkerFetchOwnership requestId owner name ttl ids now).2 = s) ∧
    ((s.renewWorkerFetchOwnership requestId owner name ttl ids now).1 = none →
      (∃ row, (s.renewWorkerFetchOwnership requestId owner name ttl ids now).2.leases name =
          some row ∧ row.ownerToken = owner ∧ row.expiresAt = now + seconds ttl) ∧
      (∃ row, (s.renewWorkerFetchOwnership requestId owner name ttl ids now).2.queue.item?
          requestId = some row ∧ row.status = .claimed ∧ row.claimedBy = some owner ∧
            row.claimedUntil = some (now + seconds ttl)) ∧
      (∀ arxivId ∈ ids, Holds (s.renewWorkerFetchOwnership requestId owner name ttl ids now).2.queue
        owner arxivId (now + seconds ttl)) ∧
      ∀ row ∈ (s.renewWorkerFetchOwnership requestId owner name ttl ids now).2.queue.reservations,
        row.ownerToken = owner → row.arxivId ∈ ids → row.expiresAt = now + seconds ttl) := by
  refine ⟨?_, ?_, ?_, ?_, ?_⟩
  · exact acquired_all_or_none
  · intro other arxivId expiresAt hother hheld hlive hmem
    have hnone : ∀ e, (none : Option Int) = some e → now < e → Holds s₀.queue other arxivId e :=
      fun _ h => nomatch h
    have hholds := holds_of_heldUntil earlier hclock hnone expiresAt hheld hlive
    rw [← hs] at hholds
    rw [acquiredIds_of_holds hholds hlive hother.symm (mem_of_acquired hmem)] at hmem
    cases hmem
  · intro hfailed
    rcases renewIdFetchReservations_cases s.queue ids owner ttl now with heq | ⟨_, heq⟩
    · rw [heq]
    · rw [heq] at hfailed
      cases hfailed
  · intro error herror
    rcases renewWorkerFetchOwnership_cases s requestId owner name ttl ids now with
      ⟨_, heq⟩ | ⟨_, _, _, heq⟩
    · rw [heq]
    · rw [heq] at herror
      cases herror
  · intro hfenced
    rcases renewWorkerFetchOwnership_cases s requestId owner name ttl ids now with
      ⟨_, heq⟩ | ⟨hlease, hclaim, _, heq⟩
    · rw [heq] at hfenced
      cases hfenced
    · refine ⟨?_, ?_, fun arxivId hmem => holds_of_fenced hfenced hmem, ?_⟩
      · rcases Leases.ownedBy_iff.1 hlease with ⟨row, hrow, howner⟩
        rw [heq]
        exact ⟨_, Leases.extend_self hrow howner _, howner, rfl⟩
      · rw [heq]
        exact item?_renewClaim hclaim
      · rw [heq]
        intro row hrow howner hmem
        exact expiresAt_extendReservations hrow howner (List.mem_eraseDups.2 hmem)

/-- One worker has reserved two ids for a minute. -/
def reservedPair : List Transaction :=
  [{ op := .queue (.acquireIdFetchReservations ["2401.00001", "2401.00002"] (.worker 0) 0 60)
     now := 0 }]

/-- Half a minute later another worker does not get a set that shares one of them. -/
theorem reservations_exclusive_overlap :
    "2401.00002" ∉ ((afterAll reservedPair {}).queue.acquireIdFetchReservations
      ["2401.00002", "2401.00003"] (.worker 1) 1 60 (seconds 30)).1.acquiredIds := by
  have hclock : ∀ c ∈ reservedPair, c.now ≤ seconds 30 := by decide
  have hexclusive := (reservations_exclusive {} _ reservedPair (seconds 30) rfl hclock
    ["2401.00002", "2401.00003"] (.worker 1) 1 .upstreamFetch 60).2.1
  exact hexclusive (.worker 0) "2401.00002" (seconds 60) (by decide) (by decide +kernel) (by decide)

end Queue
end Huldra
