import Huldra.Store

/-!
# Rows — what one operation can make of a row of the queue

Every invariant of the queue looks at its rows one at a time.  Here each operation of the store is
inverted once: the new table is the old one with every row kept or changed in the way of that
operation, and at most one row more.
-/

namespace Huldra

namespace QueueTables

variable {q : QueueTables}

/-! ## Lookup and update -/

theorem mem_of_item? {requestId : Uuid} {row : QueueRow} (h : q.item? requestId = some row) :
    row ∈ q.items ∧ row.requestId = requestId := by
  refine ⟨List.mem_of_find?_eq_some h, ?_⟩
  simpa using List.find?_some h

theorem eq_of_mem_of_requestId (hnodup : (q.items.map (·.requestId)).Nodup) {row row' : QueueRow}
    (h : row ∈ q.items) (h' : row' ∈ q.items) (hid : row.requestId = row'.requestId) :
    row = row' :=
  List.inj_on_of_nodup_map hnodup h h' hid

theorem item?_of_mem (hnodup : (q.items.map (·.requestId)).Nodup) {row : QueueRow}
    (h : row ∈ q.items) : q.item? row.requestId = some row := by
  cases hfind : q.item? row.requestId with
  | none =>
      have habsent := List.find?_eq_none.1 hfind row h
      simp at habsent
  | some found =>
      rcases mem_of_item? hfind with ⟨hmem, hid⟩
      rw [eq_of_mem_of_requestId hnodup hmem h hid]

@[simp] theorem updateItem_budgets (requestId : Uuid) (f : QueueRow → QueueRow) :
    (q.updateItem requestId f).budgets = q.budgets := rfl

@[simp] theorem updateItem_memberships (requestId : Uuid) (f : QueueRow → QueueRow) :
    (q.updateItem requestId f).memberships = q.memberships := rfl

@[simp] theorem insertMembership_items (m : MembershipRow) :
    (q.insertMembership m).items = q.items := by
  unfold insertMembership
  split <;> rfl

@[simp] theorem insertMembership_budgets (m : MembershipRow) :
    (q.insertMembership m).budgets = q.budgets := by
  unfold insertMembership
  split <;> rfl

/-- What the fill-in of every primary budget keeps, the migration keeps. -/
theorem backfill_induction {P : QueueTables → Prop} (h : P q)
    (hstep : ∀ q', P q' → ∀ row ∈ q.items, ∀ budgetId, row.upstreamBudgetId = some budgetId →
      P (q'.insertMembership
        { requestId := row.requestId
          budgetId := budgetId
          createdAt := row.createdAt
          firstAttemptNumber := 1
          lastChargedAttempt := row.attemptsTotal })) :
    P q.backfillMemberships := by
  unfold backfillMemberships
  refine List.foldlRecOn _ _ h ?_
  intro q' hq' row hrow
  split
  · exact hq'
  · rename_i budgetId hbudget
    exact hstep q' hq' row hrow budgetId hbudget

@[simp] theorem backfillMemberships_items : q.backfillMemberships.items = q.items :=
  backfill_induction (P := fun q' => q'.items = q.items) rfl
    fun _ h _ _ _ _ => (insertMembership_items _).trans h

/-- The pending row that is found is pending, and none is left out. -/
theorem mem_of_pendingItem? {cacheKey : CacheKey} {row : QueueRow}
    (h : q.pendingItem? cacheKey = some row) :
    row ∈ q.items ∧ row.cacheKey = cacheKey ∧ row.status.pending = true := by
  have hmem := List.mem_of_mem_head? h
  rw [List.mem_insertionSort] at hmem
  simpa using hmem

theorem not_pending_of_pendingItem? {cacheKey : CacheKey} (h : q.pendingItem? cacheKey = none)
    {row : QueueRow} (hmem : row ∈ q.items) (hkey : row.cacheKey = cacheKey) :
    row.status.pending = false := by
  have hnil := List.head?_eq_none_iff.1 h
  by_contra hpending
  have hsorted : row ∈ ((q.items.filter fun row => row.cacheKey = cacheKey && row.status.pending
      ).insertionSort fun a b => a.createdAt ≤ b.createdAt) := by
    rw [List.mem_insertionSort]
    simpa [hmem, hkey] using hpending
  rw [hnil] at hsorted
  cases hsorted

/-- What a claim picks was claimable. -/
theorem claimNextQueueItem_cases (owner : OwnerToken) (timeout : Int)
    (cacheKeys : Option (List CacheKey)) (current : Int) :
    q.claimNextQueueItem owner timeout cacheKeys current = (none, q) ∨
      ∃ row ∈ q.items, claimable row current = true ∧
        q.claimNextQueueItem owner timeout cacheKeys current =
          (some (row.claim owner (current + seconds timeout) current).toQueueItem,
            q.updateItem row.requestId fun row =>
              row.claim owner (current + seconds timeout) current) := by
  unfold claimNextQueueItem
  simp only
  split
  case h_1 => exact Or.inl rfl
  case h_2 row rest hordered =>
    right
    have hmem : row ∈ ((q.items.filter fun row =>
        claimable row current && cacheKeys.all fun keys => keys.contains row.cacheKey
        ).insertionSort fun a b =>
          b.priority < a.priority ∨ (a.priority = b.priority ∧ a.createdAt ≤ b.createdAt)) := by
      rw [hordered]
      exact List.mem_cons_self
    rw [List.mem_insertionSort, List.mem_filter, Bool.and_eq_true] at hmem
    exact ⟨row, hmem.1, hmem.2.1, rfl⟩

end QueueTables

namespace Queue

open QueueTables

/-! ## What becomes of a row -/

/-- What a claim is about: the status, who holds it and until when, and when to try again. -/
def standing (row : QueueRow) : RequestStatus × Option OwnerToken × Option Int × Option Int :=
  (row.status, row.claimedBy, row.claimedUntil, row.nextAttemptAt)

/-- What is asked for: the request, how urgently, and for what kind of work. -/
def asked (row : QueueRow) : ArxivRequest × Int × QueueWorkKind :=
  (row.request, row.priority, row.workKind)

/-- The row is as urgent as its request, which has been through JSON: its timeout is no `inf`. -/
structure Written (row : QueueRow) : Prop where
  priority : row.priority = row.request.priority
  timeout : row.request.timeoutSeconds ≠ some ⊤

theorem Written.of_asked {row row' : QueueRow} (h : Written row) (hasked : asked row' = asked row) :
    Written row' := by
  simp only [asked, Prod.mk.injEq] at hasked
  rcases hasked with ⟨hrequest, hpriority, _⟩
  exact ⟨by rw [hpriority, hrequest, h.priority], by rw [hrequest]; exact h.timeout⟩

/-- The row keeps its place in the queue; its budget gate may be closed. -/
structure Kept (row row' : QueueRow) : Prop where
  requestId : row'.requestId = row.requestId
  cacheKey : row'.cacheKey = row.cacheKey
  attempts : row'.attemptsTotal = row.attemptsTotal
  asked : asked row' = asked row
  standing : standing row' = standing row
  category : row'.errorCategory = row.errorCategory
  gate : row'.upstreamBudgetGateClosed = row.upstreamBudgetGateClosed ∨
    row'.upstreamBudgetGateClosed = true

/-- The row keeps its place in the queue, and may be asked for more. -/
structure Joined (row row' : QueueRow) : Prop where
  requestId : row'.requestId = row.requestId
  cacheKey : row'.cacheKey = row.cacheKey
  attempts : row'.attemptsTotal = row.attemptsTotal
  asked : asked row' = asked row ∨
    (Written row' ∧ (row'.workKind = row.workKind ∨ row'.workKind = .refreshCompleted))
  standing : standing row' = standing row
  category : row'.errorCategory = row.errorCategory
  gate : row'.upstreamBudgetGateClosed = row.upstreamBudgetGateClosed

/-- The row has failed for want of a budget. -/
structure OutOfBudget (row row' : QueueRow) : Prop where
  requestId : row'.requestId = row.requestId
  cacheKey : row'.cacheKey = row.cacheKey
  attempts : row'.attemptsTotal = row.attemptsTotal
  asked : asked row' = asked row
  standing : standing row' = (.failed, none, none, none)

namespace Kept

theorem refl (row : QueueRow) : Kept row row :=
  ⟨rfl, rfl, rfl, rfl, rfl, rfl, Or.inl rfl⟩

theorem trans {a b c : QueueRow} (h : Kept a b) (h' : Kept b c) : Kept a c where
  requestId := h'.requestId.trans h.requestId
  cacheKey := h'.cacheKey.trans h.cacheKey
  attempts := h'.attempts.trans h.attempts
  asked := h'.asked.trans h.asked
  standing := h'.standing.trans h.standing
  category := h'.category.trans h.category
  gate := by
    rcases h'.gate with hsame | hclosed
    · rcases h.gate with hsame' | hclosed'
      · exact Or.inl (hsame.trans hsame')
      · exact Or.inr (hsame.trans hclosed')
    · exact Or.inr hclosed

theorem status {row row' : QueueRow} (h : Kept row row') : row'.status = row.status :=
  congrArg Prod.fst h.standing

end Kept

namespace Joined

theorem trans {a b c : QueueRow} (h : Joined a b) (h' : Joined b c) : Joined a c where
  requestId := h'.requestId.trans h.requestId
  cacheKey := h'.cacheKey.trans h.cacheKey
  attempts := h'.attempts.trans h.attempts
  asked := by
    rcases h'.asked with hsame | ⟨hwritten, hkind⟩
    · rcases h.asked with hsame' | ⟨hwritten', hkind'⟩
      · exact Or.inl (hsame.trans hsame')
      · have hkind : c.workKind = b.workKind := congrArg (fun asked => asked.2.2) hsame
        right
        refine ⟨hwritten'.of_asked hsame, ?_⟩
        rw [hkind]
        exact hkind'
    · right
      refine ⟨hwritten, ?_⟩
      rcases hkind with hkind | hkind
      · rw [hkind]
        rcases h.asked with hsame' | ⟨_, hkind'⟩
        · exact Or.inl (congrArg (fun asked => asked.2.2) hsame')
        · exact hkind'
      · exact Or.inr hkind
  standing := h'.standing.trans h.standing
  category := h'.category.trans h.category
  gate := h'.gate.trans h.gate

theorem status {row row' : QueueRow} (h : Joined row row') : row'.status = row.status :=
  congrArg Prod.fst h.standing

end Joined

/-- A row the budgets are taken from: it stays, or it fails while it was pending. -/
def BudgetTaken (row row' : QueueRow) : Prop :=
  Kept row row' ∨ (row.status.pending = true ∧ OutOfBudget row row')

theorem BudgetTaken.trans {a b c : QueueRow} (h : BudgetTaken a b) (h' : BudgetTaken b c) :
    BudgetTaken a c := by
  rcases h with h | ⟨hpending, h⟩
  · rcases h' with h' | ⟨hpending', h'⟩
    · exact Or.inl (h.trans h')
    · refine Or.inr ⟨by rw [← h.status]; exact hpending', ?_⟩
      exact ⟨h'.requestId.trans h.requestId, h'.cacheKey.trans h.cacheKey,
        h'.attempts.trans h.attempts, h'.asked.trans h.asked, h'.standing⟩
  · rcases h' with h' | ⟨_, h'⟩
    · exact Or.inr ⟨hpending, h'.requestId.trans h.requestId, h'.cacheKey.trans h.cacheKey,
        h'.attempts.trans h.attempts, h'.asked.trans h.asked, h'.standing.trans h.standing⟩
    · exact Or.inr ⟨hpending, h'.requestId.trans h.requestId, h'.cacheKey.trans h.cacheKey,
        h'.attempts.trans h.attempts, h'.asked.trans h.asked, h'.standing⟩

/-- How an operation at time `t` on the tables `q` changes a row, where it does. -/
def RowEffect (o : Op) (t : Int) (q : QueueTables) (row row' : QueueRow) : Prop :=
  match o with
  | .queue (.claimNextQueueItem owner timeout _) =>
      claimable row t = true ∧ row' = row.claim owner (t + seconds timeout) t
  | .queue (.completeQueueItem requestId timestamp) =>
      row.requestId = requestId ∧ row' = row.complete timestamp
  | .queue (.releaseOrDelayQueueItem requestId nextAttemptAt category message status timestamp) =>
      row.requestId = requestId ∧ q.violatesPendingIndex requestId status = false ∧
        row' = row.releaseOrDelay nextAttemptAt category message status timestamp
  | .queue (.releaseIdFetchReservations _ _ timestamp) =>
      row.status = .delayed ∧ row' = row.wake timestamp
  | .queue (.failActiveUpstreamBudgetItems ..) => BudgetTaken row row'
  | .queue (.reserveQueueItemUpstreamRequest requestId)
  | .queue (.checkQueueItemUpstreamRequestDeadlines requestId) =>
      row.requestId = requestId ∧ Kept row row'
  | .queue (.enqueueRequestForWork ..) | .enqueueRefreshIfDue .. => Joined row row'
  | .renewWorkerFetchOwnership requestId owner _ ttl _ =>
      row.requestId = requestId ∧ row.status = .claimed ∧ row.claimedBy = some owner ∧
        row' = row.renewClaim (t + seconds ttl) t
  | _ => False

theorem BudgetTaken.requestId {row row' : QueueRow} (h : BudgetTaken row row') :
    row'.requestId = row.requestId := by
  rcases h with h | ⟨_, h⟩
  · exact h.requestId
  · exact h.requestId

/-- A row stays the row of its item. -/
theorem RowEffect.requestId {o : Op} {t : Int} {q : QueueTables} {row row' : QueueRow}
    (h : RowEffect o t q row row') : row'.requestId = row.requestId := by
  unfold RowEffect at h
  split at h
  case h_1 => rw [h.2]; rfl
  case h_2 => rw [h.2]; rfl
  case h_3 => rw [h.2.2]; rfl
  case h_4 => rw [h.2]; rfl
  case h_5 => exact h.requestId
  case h_6 => exact h.2.requestId
  case h_7 => exact h.2.requestId
  case h_8 => exact h.requestId
  case h_9 => exact h.requestId
  case h_10 => rw [h.2.2.2]; rfl
  case h_11 => exact h.elim

/-! ## Changes of a whole table -/

/-- Every row stays as it is or changes by `R`, and no row comes or goes. -/
def Changes (R : QueueRow → QueueRow → Prop) (q q' : QueueTables) : Prop :=
  ∃ change : QueueRow → QueueRow, q'.items = q.items.map change ∧
    ∀ row ∈ q.items, change row = row ∨ R row (change row)

namespace Changes

variable {R : QueueRow → QueueRow → Prop} {q q' q'' : QueueTables}

theorem of_items_eq (h : q'.items = q.items) : Changes R q q' :=
  ⟨id, by rw [h, List.map_id], fun _ _ => Or.inl rfl⟩

theorem trans (hR : ∀ a b c, R a b → R b c → R a c) (h : Changes R q q')
    (h' : Changes R q' q'') : Changes R q q'' := by
  rcases h with ⟨f, hf, hrows⟩
  rcases h' with ⟨g, hg, hrows'⟩
  refine ⟨g ∘ f, by rw [hg, hf, List.map_map], ?_⟩
  intro row hmem
  have hmem' : f row ∈ q'.items := by
    rw [hf]
    exact List.mem_map_of_mem hmem
  rcases hrows row hmem with hsame | hchange
  · rcases hrows' _ hmem' with hsame' | hchange'
    · exact Or.inl (hsame'.trans hsame)
    · rw [hsame] at hchange'
      exact Or.inr (by simpa [hsame] using hchange')
  · rcases hrows' _ hmem' with hsame' | hchange'
    · exact Or.inr (by simpa [hsame'] using hchange)
    · exact Or.inr (hR _ _ _ hchange hchange')

theorem updateItem {requestId : Uuid} {f : QueueRow → QueueRow}
    (h : ∀ row ∈ q.items, row.requestId = requestId → f row = row ∨ R row (f row)) :
    Changes R q (q.updateItem requestId f) := by
  refine ⟨fun row => if row.requestId = requestId then f row else row, rfl, ?_⟩
  intro row hmem
  by_cases hid : row.requestId = requestId
  · simpa [hid] using h row hmem hid
  · exact Or.inl (by simp [hid])

theorem insertMembership (h : Changes R q q') (m : MembershipRow) :
    Changes R q (q'.insertMembership m) := by
  rcases h with ⟨change, hitems, hrows⟩
  exact ⟨change, by rw [insertMembership_items, hitems], hrows⟩

end Changes

/-- Only the row of this item changes, and it keeps its place. -/
def KeptAt (requestId : Uuid) (row row' : QueueRow) : Prop :=
  row.requestId = requestId ∧ Kept row row'

theorem KeptAt.trans {requestId : Uuid} (a b c : QueueRow) (h : KeptAt requestId a b)
    (h' : KeptAt requestId b c) : KeptAt requestId a c :=
  ⟨h.1, h.2.trans h'.2⟩

section Effects

variable {q : QueueTables}

theorem changes_detachMemberships (requestId : Uuid) (budgetIds : List Uuid) :
    Changes (KeptAt requestId) q (q.detachMemberships requestId budgetIds) :=
  Changes.updateItem fun _ _ hid => Or.inr ⟨hid, rfl, rfl, rfl, rfl, rfl, rfl, Or.inl rfl⟩

theorem changes_detachInvalid (requestId : Uuid) (invalid : List (Uuid × String)) :
    Changes (KeptAt requestId) q (q.detachInvalid requestId invalid) := by
  unfold detachInvalid
  split
  · exact .of_items_eq rfl
  · exact changes_detachMemberships requestId _

theorem changes_closeBudgetGate (requestId : Uuid) (attempt : Nat) (charged : List Uuid) :
    Changes (KeptAt requestId) q (q.closeBudgetGate requestId attempt charged) := by
  refine Changes.updateItem fun row _ hid => ?_
  split
  · exact Or.inr ⟨hid, rfl, rfl, rfl, rfl, rfl, rfl, Or.inr rfl⟩
  · exact Or.inl rfl

theorem reserveUpstreamBudgets_items (budgetIds : List Uuid) (current : Int) :
    (q.reserveUpstreamBudgets budgetIds current).2.items = q.items := by
  unfold reserveUpstreamBudgets
  split <;> rfl

theorem changes_reserve (requestId : Uuid) (current : Int) :
    Changes (KeptAt requestId) q (q.reserveQueueItemUpstreamRequest requestId current).2 := by
  unfold QueueTables.reserveQueueItemUpstreamRequest
  simp only
  split
  · split
    · exact changes_detachInvalid requestId _
    · exact changes_detachInvalid requestId _
  · split
    case h_1 error q' hreserve =>
      have hitems := congrArg (fun out => out.2.items) hreserve
      rw [reserveUpstreamBudgets_items] at hitems
      exact Changes.trans KeptAt.trans (changes_detachInvalid requestId _)
        (.of_items_eq hitems.symm)
    case h_2 q' hreserve =>
      have hitems := congrArg (fun out => out.2.items) hreserve
      rw [reserveUpstreamBudgets_items] at hitems
      exact Changes.trans KeptAt.trans (changes_detachInvalid requestId _)
        (Changes.trans KeptAt.trans (.of_items_eq hitems.symm)
          (changes_closeBudgetGate requestId _ _))

theorem changes_checkDeadlines (requestId : Uuid) (current : Int) :
    Changes (KeptAt requestId) q
      (q.checkQueueItemUpstreamRequestDeadlines requestId current).2 := by
  unfold QueueTables.checkQueueItemUpstreamRequestDeadlines
  simp only
  split
  · exact changes_detachInvalid requestId _
  · split
    · exact changes_detachInvalid requestId _
    · exact changes_detachInvalid requestId _

theorem changes_failItemOfBudget (requestId budgetId : Uuid) (category message : String)
    (timestamp : Int) :
    Changes BudgetTaken q (q.failItemOfBudget requestId budgetId category message timestamp) := by
  have hdetach : Changes BudgetTaken q (q.detachMemberships requestId [budgetId]) := by
    rcases changes_detachMemberships (q := q) requestId [budgetId] with ⟨f, hf, hrows⟩
    exact ⟨f, hf, fun row hmem => (hrows row hmem).imp id fun h => Or.inl h.2⟩
  unfold failItemOfBudget
  simp only
  split
  · exact hdetach
  · split
    · exact hdetach
    · refine Changes.trans (fun _ _ _ => BudgetTaken.trans) hdetach
        (Changes.updateItem fun row _ _ => ?_)
      split
      · rename_i hpending
        exact Or.inr (Or.inr ⟨hpending, rfl, rfl, rfl, rfl, rfl⟩)
      · exact Or.inl rfl

theorem changes_failActive (budgetId : Uuid) (category message : String) (timestamp : Int) :
    Changes BudgetTaken q
      (q.failActiveUpstreamBudgetItems budgetId category message timestamp) := by
  have hfold : ∀ (ids : List Uuid) (q : QueueTables), Changes BudgetTaken q
      (ids.foldl (fun q requestId =>
        q.failItemOfBudget requestId budgetId category message timestamp) q) := by
    intro ids
    induction ids with
    | nil =>
        intro q
        exact .of_items_eq rfl
    | cons requestId ids ih =>
        intro q
        exact Changes.trans (fun _ _ _ => BudgetTaken.trans)
          (changes_failItemOfBudget requestId budgetId category message timestamp) (ih _)
  exact hfold _ q

/-- A replacement keeps the kind of work, or makes it a refresh. -/
theorem joinRequest_kind {existing : QueueRow} {request replacement : ArxivRequest}
    {workKind kind : QueueWorkKind} {timeout : Timeout}
    (h : joinRequest existing request workKind timeout = some (replacement, kind)) :
    kind = existing.workKind ∨ kind = .refreshCompleted := by
  unfold joinRequest at h
  by_cases hrefresh : workKind = .refreshCompleted
  · by_cases hexisting : existing.workKind ≠ .refreshCompleted
    · simp only [if_pos hrefresh, if_pos hexisting, Option.map_eq_some_iff, Prod.mk.injEq] at h
      rcases h with ⟨_, _, _, rfl⟩
      exact Or.inr rfl
    · simp only [if_pos hrefresh, if_neg hexisting] at h
      split at h <;>
      · simp only [Option.map_eq_some_iff, Prod.mk.injEq] at h
        rcases h with ⟨_, _, _, rfl⟩
        exact Or.inl rfl
  · simp only [if_neg hrefresh, Option.map_eq_some_iff, Prod.mk.injEq] at h
    rcases h with ⟨_, _, _, rfl⟩
    exact Or.inl rfl

theorem changes_mergeRequest {existing : QueueRow} (request : ArxivRequest)
    (workKind : QueueWorkKind) (timeout : Timeout) (now : Int)
    (hexisting : ∀ row ∈ q.items, row.requestId = existing.requestId →
      row.workKind = existing.workKind) :
    Changes Joined q (q.mergeRequest existing request workKind timeout now) := by
  unfold mergeRequest
  split
  case h_1 replacement kind hjoin =>
    refine Changes.updateItem fun row hmem hid => Or.inr ⟨rfl, rfl, rfl, ?_, rfl, rfl, rfl⟩
    right
    refine ⟨⟨rfl, replacement.timeoutSeconds_stored⟩, ?_⟩
    rw [hexisting row hmem hid]
    exact joinRequest_kind hjoin
  · exact .of_items_eq rfl

theorem changes_joinDemand (existing : QueueRow) (budgetId : Option Uuid) (now : Int) :
    Changes Joined q (q.joinDemand existing budgetId now) := by
  cases budgetId with
  | none =>
      unfold joinDemand
      simp only
      split
      · exact .of_items_eq rfl
      · exact Changes.updateItem fun _ _ _ =>
          Or.inr ⟨rfl, rfl, rfl, Or.inl rfl, rfl, rfl, rfl⟩
  | some budgetId =>
      refine Changes.insertMembership ?_ _
      exact Changes.updateItem fun _ _ _ => Or.inr ⟨rfl, rfl, rfl, Or.inl rfl, rfl, rfl, rfl⟩

/-- A join changes the request, the priority and the budgets of the row it joins. -/
theorem changes_joinPending {existing : QueueRow} (request : ArxivRequest)
    (workKind : QueueWorkKind) (budgetId : Option Uuid) (timeout : Timeout) (now : Int)
    (hexisting : ∀ row ∈ q.items, row.requestId = existing.requestId →
      row.workKind = existing.workKind) :
    Changes Joined q (q.joinPending existing request workKind budgetId timeout now) :=
  Changes.trans (fun _ _ _ => Joined.trans) (changes_mergeRequest request workKind _ _ hexisting)
    (changes_joinDemand existing budgetId now)

/-- A join adds no row. -/
theorem joinPending_length (existing : QueueRow) (request : ArxivRequest)
    (workKind : QueueWorkKind) (budgetId : Option Uuid) (timeout : Timeout) (now : Int) :
    (q.joinPending existing request workKind budgetId timeout now).items.length =
      q.items.length := by
  have hmerge : (q.mergeRequest existing request workKind timeout now).items.length =
      q.items.length := by
    unfold mergeRequest
    split
    · exact List.length_map _
    · rfl
  rcases changes_joinDemand (q := q.mergeRequest existing request workKind timeout now) existing
    budgetId now with ⟨change, hitems, _⟩
  simp [joinPending, hitems, hmerge]

end Effects

/-- A row that was not there before. -/
structure Newcomer (next : Uuid) (q : QueueTables) (row : QueueRow) : Prop where
  requestId : row.requestId = next
  status : row.status = .queued
  claimedBy : row.claimedBy = none
  attempts : row.attemptsTotal = 0
  written : Written row
  alone : ∀ other ∈ q.items, other.cacheKey = row.cacheKey → other.status.pending = false

/-- What an operation makes of the rows of the queue. -/
structure ItemsEffect (o : Op) (t : Int) (next : Uuid) (q q' : QueueTables)
    (change : QueueRow → QueueRow) (new : List QueueRow) : Prop where
  items : q'.items = q.items.map change ++ new
  rows : ∀ row ∈ q.items, change row = row ∨ RowEffect o t q row (change row)
  new : new = [] ∨ ∃ row, new = [row] ∧ Newcomer next q row

/-! ## The inversion -/

section Inversion

variable {o : Op} {t : Int} {next : Uuid} {q q' : QueueTables}

theorem itemsEffect_of_changes {R : QueueRow → QueueRow → Prop} (h : Changes R q q')
    (hR : ∀ row row', R row row' → RowEffect o t q row row') :
    ∃ change new, ItemsEffect o t next q q' change new := by
  rcases h with ⟨change, hitems, hrows⟩
  exact ⟨change, [], by rw [hitems, List.append_nil],
    fun row hmem => (hrows row hmem).imp id (hR row _), Or.inl rfl⟩

theorem itemsEffect_of_same (h : q'.items = q.items) :
    ∃ change new, ItemsEffect o t next q q' change new :=
  itemsEffect_of_changes (R := fun _ _ => False) (.of_items_eq h) fun _ _ h => h.elim

theorem itemsEffect_enqueue (hnodup : (q.items.map (·.requestId)).Nodup)
    (request : ArxivRequest) (cacheKey : CacheKey) (workKind : QueueWorkKind)
    (budgetId : Option Uuid) (timeout : Timeout) (now : Int)
    (hjoined : ∀ row row', Joined row row' → RowEffect o t q row row') :
    ∃ change new, ItemsEffect o t next q
      (q.enqueueRequestForWork next request cacheKey workKind budgetId timeout now).2
      change new := by
  unfold QueueTables.enqueueRequestForWork
  split
  · exact itemsEffect_of_same rfl
  · split
    case h_1 existing hpending =>
      dsimp only
      split
      · refine itemsEffect_of_changes (changes_joinPending request workKind budgetId _ _ ?_) hjoined
        intro row hmem hid
        rw [eq_of_mem_of_requestId hnodup hmem (mem_of_pendingItem? hpending).1 hid]
      · exact itemsEffect_of_same rfl
    case h_2 hnone =>
      have hitems : ∀ q'' : QueueTables, q''.items = q.items ++
            [newRow next request cacheKey workKind budgetId now] →
          ∃ change new, ItemsEffect o t next q q'' change new := by
        intro q'' hq
        refine ⟨id, [newRow next request cacheKey workKind budgetId now], ?_, ?_, ?_⟩
        · rw [hq, List.map_id]
        · exact fun _ _ => Or.inl rfl
        · refine Or.inr ⟨_, rfl, rfl, rfl, rfl, rfl, ⟨rfl, request.timeoutSeconds_stored⟩, ?_⟩
          intro other hmem hkey
          exact not_pending_of_pendingItem? hnone hmem hkey
      have hinsert : (q.insertItem (newRow next request cacheKey workKind budgetId now) budgetId
          now).items = q.items ++ [newRow next request cacheKey workKind budgetId now] := by
        unfold insertItem
        cases budgetId with
        | none => rfl
        | some budgetId => exact insertMembership_items _
      simp only
      split
      · exact hitems _ hinsert
      · exact hitems _ hinsert

theorem acquireIds_items (ids : List String) (owner : OwnerToken) (requestId : Uuid)
    (ttl current : Int) :
    (q.acquireIdFetchReservations ids owner requestId ttl current).2.items = q.items := by
  unfold QueueTables.acquireIdFetchReservations
  simp only
  split
  · rfl
  · split
    · rfl
    · rfl

/-- The item is put off until one of these ids is free. -/
structure WaitsFor (ids : List String) (row : QueueRow) : Prop where
  status : row.status = .delayed
  category : row.errorCategory = some "id_fetch_reserved"
  waits : ∃ value ∈ row.request.idList, Keys.normalizeArxivId value ∈ ids

theorem changes_releaseIds (ids : List String) (owner : OwnerToken) (timestamp : Int) :
    Changes (fun row row' => WaitsFor ids row ∧ row' = row.wake timestamp) q
      (q.releaseIdFetchReservations ids owner timestamp) := by
  unfold QueueTables.releaseIdFetchReservations
  simp only
  split
  · refine ⟨_, rfl, ?_⟩
    intro row _
    split
    · rename_i hwoken
      refine Or.inr ⟨⟨hwoken.1, hwoken.2.1, ?_⟩, rfl⟩
      simpa using hwoken.2.2
    · exact Or.inl rfl
  · exact .of_items_eq rfl

theorem itemsEffect_queue (hnodup : (q.items.map (·.requestId)).Nodup) (o : QueueOp) :
    ∃ change new, ItemsEffect (.queue o) t next q (o.exec t next q).2 change new := by
  cases o with
  | enqueueRequestForWork request cacheKey workKind budgetId timeout now =>
      exact itemsEffect_enqueue hnodup request cacheKey workKind budgetId timeout now fun _ _ h => h
  | claimNextQueueItem owner timeout keys =>
      rcases claimNextQueueItem_cases (q := q) owner timeout keys t with
        hnone | ⟨row, hmem, hclaimable, hclaim⟩
      · exact itemsEffect_of_same (by simp [QueueOp.exec, hnone])
      · simp only [QueueOp.exec, hclaim]
        refine itemsEffect_of_changes (Changes.updateItem (R := fun row row' =>
          claimable row t = true ∧ row' = row.claim owner (t + seconds timeout) t) ?_)
          fun _ _ h => h
        intro row' hmem' hid
        rw [eq_of_mem_of_requestId hnodup hmem' hmem hid]
        exact Or.inr ⟨hclaimable, rfl⟩
  | completeQueueItem requestId timestamp =>
      exact itemsEffect_of_changes (Changes.updateItem fun row _ hid => Or.inr ⟨hid, rfl⟩)
        fun _ _ h => h
  | releaseOrDelayQueueItem requestId nextAttemptAt category message status timestamp =>
      simp only [QueueOp.exec, QueueTables.releaseOrDelayQueueItem]
      split
      · exact itemsEffect_of_same rfl
      · rename_i hviolates
        have hfree : q.violatesPendingIndex requestId status = false := by
          simpa using hviolates
        exact itemsEffect_of_changes (Changes.updateItem fun row _ hid =>
          Or.inr ⟨hid, hfree, rfl⟩) fun _ _ h => h
  | acquireIdFetchReservations ids owner requestId ttl =>
      exact itemsEffect_of_same (acquireIds_items ids owner requestId ttl t)
  | renewIdFetchReservations ids owner ttl =>
      refine itemsEffect_of_same ?_
      simp only [QueueOp.exec, QueueTables.renewIdFetchReservations]
      split
      · rfl
      · rfl
  | releaseIdFetchReservations ids owner timestamp =>
      exact itemsEffect_of_changes (changes_releaseIds ids owner timestamp)
        fun _ _ h => ⟨h.1.status, h.2⟩
  | createUpstreamRequestBudget maxRequests deadlineAt timestamp => exact itemsEffect_of_same rfl
  | reserveQueueItemUpstreamRequest requestId =>
      exact itemsEffect_of_changes (changes_reserve requestId t) fun _ _ h => h
  | checkQueueItemUpstreamRequestDeadlines requestId =>
      exact itemsEffect_of_changes (changes_checkDeadlines requestId t) fun _ _ h => h
  | queueItemUpstreamDeadline requestId => exact itemsEffect_of_same rfl
  | getQueueItem requestId => exact itemsEffect_of_same rfl
  | failActiveUpstreamBudgetItems budgetId category message timestamp =>
      exact itemsEffect_of_changes (changes_failActive budgetId category message timestamp)
        fun _ _ h => h

theorem itemsEffect_fence {s : Store} (hnodup : (s.queue.items.map (·.requestId)).Nodup)
    (requestId : Uuid) (owner : OwnerToken) (name : LeaseName) (ttl : Int) (ids : List String) :
    ∃ change new, ItemsEffect (.renewWorkerFetchOwnership requestId owner name ttl ids) t next
      s.queue (s.renewWorkerFetchOwnership requestId owner name ttl ids t).2.queue change new := by
  unfold Store.renewWorkerFetchOwnership
  simp only
  split
  · exact itemsEffect_of_same rfl
  · split
    · exact itemsEffect_of_same rfl
    · rename_i hclaimed
      split
      · exact itemsEffect_of_same rfl
      · refine itemsEffect_of_changes (R := fun row row' => row.requestId = requestId ∧
          row.status = .claimed ∧ row.claimedBy = some owner ∧
            row' = row.renewClaim (t + seconds ttl) t) ?_ fun _ _ h => h
        have hupdate : Changes (fun row row' => row.requestId = requestId ∧
            row.status = .claimed ∧ row.claimedBy = some owner ∧
              row' = row.renewClaim (t + seconds ttl) t) s.queue
            (s.queue.updateItem requestId fun row => row.renewClaim (t + seconds ttl) t) := by
          refine Changes.updateItem fun row hmem hid => Or.inr ⟨hid, ?_⟩
          have hfound := item?_of_mem hnodup hmem
          rw [hid] at hfound
          simpa [claimedByOwner, hfound] using hclaimed
        rcases hupdate with ⟨change, hitems, hrows⟩
        exact ⟨change, hitems, hrows⟩

theorem itemsEffect_refresh {s : Store} (hnodup : (s.queue.items.map (·.requestId)).Nodup)
    (request : ArxivRequest) (cacheKey : CacheKey) (timeout : Timeout) (current : Int) :
    ∃ change new, ItemsEffect (.enqueueRefreshIfDue request cacheKey timeout current) t s.nextUuid
      s.queue (s.enqueueRefreshIfDue request cacheKey timeout current).2.queue change new := by
  have henqueue : ∃ change new,
      ItemsEffect (.enqueueRefreshIfDue request cacheKey timeout current) t s.nextUuid s.queue
        (s.queue.enqueueRequestForWork s.nextUuid request cacheKey .refreshCompleted none timeout
          current).2 change new :=
    itemsEffect_enqueue hnodup request cacheKey .refreshCompleted none timeout current
      fun _ _ h => h
  unfold Store.enqueueRefreshIfDue
  simp only
  split
  · exact henqueue
  · split
    · exact itemsEffect_of_same rfl
    · split
      · exact itemsEffect_of_same rfl
      · split
        · split
          · refine itemsEffect_of_same ?_
            split
            · rfl
            · rfl
          · exact henqueue
        · exact henqueue

/-- What any operation makes of the rows, whether it answers or raises. -/
theorem itemsEffect_of_performed {s s' : Store} {r : Except Exn o.Res}
    (hnodup : (s.queue.items.map (·.requestId)).Nodup) (h : Store.Performed o t r s s') :
    ∃ change new, ItemsEffect o t s.nextUuid s.queue s'.queue change new := by
  rcases h.state with rfl | ⟨input, rfl⟩
  · exact itemsEffect_of_same rfl
  · cases o with
    | queue o => exact itemsEffect_queue hnodup o
    | initSchema =>
        refine itemsEffect_of_same ?_
        simp only [Store.exec]
        rcases s.initSchema_cases with heq | heq
        · rw [heq]
        · rw [heq]
          exact backfillMemberships_items
    | renewWorkerFetchOwnership requestId owner name ttl ids =>
        exact itemsEffect_fence hnodup requestId owner name ttl ids
    | enqueueRefreshIfDue request cacheKey timeout current =>
        exact itemsEffect_refresh hnodup request cacheKey timeout current
    | checkpointOaiPage c =>
        refine itemsEffect_of_same ?_
        simp only [Store.exec, Store.checkpointOaiPage]
        split
        · rfl
        · rfl
    | _ => exact itemsEffect_of_same rfl

end Inversion

end Queue
end Huldra
