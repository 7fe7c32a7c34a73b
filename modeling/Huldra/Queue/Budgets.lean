import Huldra.Queue.Ledger

/-!
# Budgets — the rows that memberships refer to

A budget is opened once and only a collection takes it away: every operation of the store keeps the
identifiers of the budgets, and opening a budget adds the next one.  A membership is made only of a
budget that exists.
-/

namespace Huldra

namespace QueueTables

def budgetIds (q : QueueTables) : List Uuid :=
  q.budgets.map (·.budgetId)

variable {q : QueueTables}

theorem budget?_isSome_iff {budgetId : Uuid} :
    (q.budget? budgetId).isSome = true ↔ budgetId ∈ q.budgetIds := by
  simp [budget?, budgetIds, List.find?_isSome]

theorem budgetIds_of_same {q' : QueueTables} (h : q'.budgets = q.budgets) :
    q'.budgetIds = q.budgetIds := by
  rw [budgetIds, h, budgetIds]

@[simp] theorem backfillMemberships_budgets : q.backfillMemberships.budgets = q.budgets :=
  backfill_induction (P := fun q' => q'.budgets = q.budgets) rfl
    fun _ h _ _ _ _ => (insertMembership_budgets _).trans h

@[simp] theorem mergeRequest_budgets (existing : QueueRow) (request : ArxivRequest)
    (workKind : QueueWorkKind) (timeout : Timeout) (now : Int) :
    (q.mergeRequest existing request workKind timeout now).budgets = q.budgets := by
  unfold mergeRequest
  split <;> rfl

@[simp] theorem joinDemand_budgets (existing : QueueRow) (budgetId : Option Uuid) (now : Int) :
    (q.joinDemand existing budgetId now).budgets = q.budgets := by
  unfold joinDemand
  split
  · split <;> rfl
  · exact insertMembership_budgets _

@[simp] theorem insertItem_budgets (row : QueueRow) (budgetId : Option Uuid) (now : Int) :
    (q.insertItem row budgetId now).budgets = q.budgets := by
  unfold insertItem
  split
  · rfl
  · exact insertMembership_budgets _

@[simp] theorem enqueue_budgets (fresh : Uuid) (request : ArxivRequest) (cacheKey : CacheKey)
    (workKind : QueueWorkKind) (budgetId : Option Uuid) (timeout : Timeout) (now : Int) :
    (q.enqueueRequestForWork fresh request cacheKey workKind budgetId timeout now).2.budgets =
      q.budgets := by
  rcases Queue.enqueue_cases q fresh request cacheKey workKind budgetId timeout now with
    hsame | ⟨existing, _, hjoin⟩ | ⟨_, hinsert⟩
  · rw [hsame]
  · rw [hjoin, joinPending, joinDemand_budgets, mergeRequest_budgets]
  · rw [hinsert, insertItem_budgets]

/-- An enqueue for a budget that is not there fails and changes nothing. -/
theorem enqueue_of_missing {budgetId : Uuid} (h : budgetId ∉ q.budgetIds) (fresh : Uuid)
    (request : ArxivRequest) (cacheKey : CacheKey) (workKind : QueueWorkKind) (timeout : Timeout)
    (now : Int) :
    q.enqueueRequestForWork fresh request cacheKey workKind (some budgetId) timeout now =
      (.error .integrityError, q) := by
  have hnone : (q.budget? budgetId).isNone = true := by
    rw [← budget?_isSome_iff] at h
    simpa using h
  simp [enqueueRequestForWork, hnone]

/-- An enqueue for a budget that is there violates no foreign key. -/
theorem enqueue_of_present {budgetId : Option Uuid} (h : ∀ b ∈ budgetId, b ∈ q.budgetIds)
    (fresh : Uuid) (request : ArxivRequest) (cacheKey : CacheKey) (workKind : QueueWorkKind)
    (timeout : Timeout) (now : Int) :
    (q.enqueueRequestForWork fresh request cacheKey workKind budgetId timeout now).1 ≠
      .error .integrityError := by
  have hsome : (budgetId.any fun b => (q.budget? b).isNone) = false := by
    cases budgetId with
    | none => rfl
    | some b =>
        have hb := budget?_isSome_iff.2 (h b rfl)
        simpa using hb
  unfold enqueueRequestForWork
  rw [hsome]
  simp only [Bool.false_eq_true, if_false]
  split
  · split <;> simp
  · split <;> simp

theorem failItemOfBudget_budgets (requestId budgetId : Uuid) (category message : String)
    (timestamp : Int) :
    (q.failItemOfBudget requestId budgetId category message timestamp).budgets = q.budgets := by
  unfold failItemOfBudget
  dsimp only
  split
  · rfl
  · split <;> rfl

theorem failActive_budgets (budgetId : Uuid) (category message : String) (timestamp : Int) :
    (q.failActiveUpstreamBudgetItems budgetId category message timestamp).budgets = q.budgets := by
  have hfold : ∀ (ids : List Uuid) (q : QueueTables),
      (ids.foldl (fun q requestId =>
        q.failItemOfBudget requestId budgetId category message timestamp) q).budgets =
          q.budgets := by
    intro ids
    induction ids with
    | nil => exact fun _ => rfl
    | cons id ids ih =>
        intro q
        rw [List.foldl_cons, ih]
        exact failItemOfBudget_budgets ..
  exact hfold _ q

theorem reserve_budgetIds (requestId : Uuid) (current : Int) :
    (q.reserveQueueItemUpstreamRequest requestId current).2.budgetIds = q.budgetIds := by
  have hcharge : ∀ (q : QueueTables) (ids : List Uuid),
      (q.reserveUpstreamBudgets ids current).2.budgetIds = q.budgetIds := by
    intro q ids
    unfold reserveUpstreamBudgets
    split
    · rfl
    · simp only [budgetIds, List.map_map]
      refine List.map_congr_left fun budget _ => ?_
      simp only [Function.comp_apply]
      split <;> rfl
  rcases Queue.reserve_cases q requestId current with
    ⟨_, _, _, hout⟩ | ⟨_, _, _, hout⟩ | ⟨_, hout⟩
  · rw [hout]
    exact budgetIds_of_same (Queue.detachInvalid_budgets ..)
  · rw [hout]
    exact budgetIds_of_same (Queue.detachInvalid_budgets ..)
  · rw [hout]
    exact (hcharge _ _).trans (budgetIds_of_same (Queue.detachInvalid_budgets ..))

theorem checkDeadlines_budgets (requestId : Uuid) (current : Int) :
    (q.checkQueueItemUpstreamRequestDeadlines requestId current).2.budgets = q.budgets := by
  unfold checkQueueItemUpstreamRequestDeadlines
  dsimp only
  split
  · exact Queue.detachInvalid_budgets ..
  · split <;> exact Queue.detachInvalid_budgets ..

theorem release_budgets (ids : List String) (owner : OwnerToken) (timestamp : Int) :
    (q.releaseIdFetchReservations ids owner timestamp).budgets = q.budgets := by
  unfold releaseIdFetchReservations
  dsimp only
  split <;> rfl

end QueueTables

namespace Queue

open QueueTables

/-! ## What an operation does to the budgets -/

/-- The budget that an operation opens, given the next identifier. -/
def openedBudgets : Op → Uuid → List Uuid
  | .queue (.createUpstreamRequestBudget ..), next => [next]
  | _, _ => []

/-- The row of the budget that an operation opens. -/
def openedRows : Op → Uuid → List BudgetRow
  | .queue (.createUpstreamRequestBudget maxRequests deadlineAt timestamp), next =>
      [{ budgetId := next
         maxRequests := maxRequests
         deadlineAt := deadlineAt
         createdAt := timestamp
         updatedAt := timestamp }]
  | _, _ => []

theorem map_openedRows (o : Op) (next : Uuid) :
    (openedRows o next).map (·.budgetId) = openedBudgets o next := by
  unfold openedRows openedBudgets
  split <;> rfl

theorem budgets_queue (o : QueueOp) (t : Int) (next : Uuid) (q : QueueTables)
    (hreserves : ∀ requestId, o ≠ .reserveQueueItemUpstreamRequest requestId) :
    (o.exec t next q).2.budgets = q.budgets ++ openedRows (.queue o) next := by
  -- All but one of the others leave the rows themselves alone.
  have hsame : (o.exec t next q).2.budgets = q.budgets → openedRows (.queue o) next = [] →
      (o.exec t next q).2.budgets = q.budgets ++ openedRows (.queue o) next := by
    intro hbudgets hnone
    rw [hnone, List.append_nil]
    exact hbudgets
  cases o with
  | createUpstreamRequestBudget maxRequests deadlineAt timestamp => rfl
  | reserveQueueItemUpstreamRequest requestId => exact absurd rfl (hreserves requestId)
  | enqueueRequestForWork => exact hsame (enqueue_budgets ..) rfl
  | checkQueueItemUpstreamRequestDeadlines => exact hsame (checkDeadlines_budgets ..) rfl
  | failActiveUpstreamBudgetItems => exact hsame (failActive_budgets ..) rfl
  | releaseIdFetchReservations => exact hsame (release_budgets ..) rfl
  | claimNextQueueItem owner timeout keys =>
      refine hsame ?_ rfl
      simp only [QueueOp.exec, QueueTables.claimNextQueueItem]
      split <;> rfl
  | releaseOrDelayQueueItem =>
      refine hsame ?_ rfl
      simp only [QueueOp.exec, QueueTables.releaseOrDelayQueueItem]
      split <;> rfl
  | acquireIdFetchReservations =>
      refine hsame ?_ rfl
      simp only [QueueOp.exec, QueueTables.acquireIdFetchReservations]
      split
      · rfl
      · split <;> rfl
  | renewIdFetchReservations =>
      refine hsame ?_ rfl
      simp only [QueueOp.exec, QueueTables.renewIdFetchReservations]
      split <;> rfl
  | completeQueueItem => exact hsame rfl rfl
  | queueItemUpstreamDeadline => exact hsame rfl rfl
  | getQueueItem => exact hsame rfl rfl

/-- Only a reservation changes the row of a budget; one operation adds a row. -/
theorem budgets_exec (o : Op) (t : Int) (input : Input) (s : Store)
    (hreserves : ∀ requestId, o ≠ .queue (.reserveQueueItemUpstreamRequest requestId)) :
    (Store.exec o t input s).2.queue.budgets = s.queue.budgets ++ openedRows o s.nextUuid := by
  have hsame : (Store.exec o t input s).2.queue.budgets = s.queue.budgets →
      openedRows o s.nextUuid = [] → (Store.exec o t input s).2.queue.budgets =
        s.queue.budgets ++ openedRows o s.nextUuid := by
    intro hbudgets hnone
    rw [hnone, List.append_nil]
    exact hbudgets
  cases o with
  | queue o =>
      exact budgets_queue o t s.nextUuid s.queue fun requestId h => hreserves requestId (by rw [h])
  | initSchema =>
      refine hsame ?_ rfl
      simp only [Store.exec]
      rcases s.initSchema_cases with heq | heq
      · rw [heq]
      · rw [heq]
        exact backfillMemberships_budgets
  | renewWorkerFetchOwnership requestId owner name ttl ids =>
      refine hsame ?_ rfl
      simp only [Store.exec, Store.renewWorkerFetchOwnership]
      split
      · rfl
      · split
        · rfl
        · split <;> rfl
  | checkpointOaiPage c =>
      refine hsame ?_ rfl
      simp only [Store.exec, Store.checkpointOaiPage]
      split <;> rfl
  | enqueueRefreshIfDue request cacheKey timeout current =>
      refine hsame ?_ rfl
      simp only [Store.exec, Store.enqueueRefreshIfDue]
      split
      · exact enqueue_budgets ..
      · split
        · rfl
        · split
          · rfl
          · split
            · split
              · split <;> rfl
              · exact enqueue_budgets ..
            · exact enqueue_budgets ..
  | clock o => exact hsame rfl rfl
  | lease o => exact hsame rfl rfl
  | rate o => exact hsame rfl rfl
  | library o => exact hsame rfl rfl
  | oai o => exact hsame rfl rfl
  | upstream o => exact hsame rfl rfl

/-- No operation of the store takes a budget away, and one opens the next. -/
theorem budgetIds_exec (o : Op) (t : Int) (input : Input) (s : Store) :
    (Store.exec o t input s).2.queue.budgetIds =
      s.queue.budgetIds ++ openedBudgets o s.nextUuid := by
  by_cases hreserves : ∃ requestId, o = .queue (.reserveQueueItemUpstreamRequest requestId)
  · rcases hreserves with ⟨requestId, rfl⟩
    exact (reserve_budgetIds requestId t).trans (List.append_nil _).symm
  · have hbudgets := budgets_exec o t input s fun requestId h => hreserves ⟨requestId, h⟩
    rw [budgetIds, hbudgets, List.map_append, map_openedRows, budgetIds]

/-! ## Memberships of budgets that exist -/

/-- Every membership is one of a budget that is there. -/
def Funded (q : QueueTables) : Prop :=
  ∀ k ∈ q.memberships.map key, k.2 ∈ q.budgetIds

theorem mem_keys_joinDemand {q : QueueTables} {existing : QueueRow} {budgetId : Option Uuid}
    {now : Int} {k : Uuid × Uuid}
    (h : k ∈ (q.joinDemand existing budgetId now).memberships.map key) :
    k ∈ q.memberships.map key ∨ ∃ b ∈ budgetId, k.2 = b := by
  cases budgetId with
  | none =>
      unfold joinDemand at h
      dsimp only at h
      split at h <;> exact Or.inl h
  | some b =>
      unfold joinDemand at h
      rcases (mem_keys_insertMembership _ k).1 h with hk | rfl
      · exact Or.inl hk
      · exact Or.inr ⟨b, rfl, rfl⟩

theorem Funded.exec {s : Store} (h : Funded s.queue) (hbacked : Backed s.queue) (o : Op) (t : Int)
    (input : Input) : Funded (Store.exec o t input s).2.queue := by
  have hperf : Store.Performed o t (.error .unexpected) s (Store.exec o t input s).2 :=
    Or.inr ⟨.unexpected, rfl, rfl, Or.inr ⟨input, rfl⟩⟩
  intro k hk
  rw [budgetIds_exec]
  refine List.mem_append_left _ ?_
  rcases demand_cases hbacked hperf with
    hnarrowed | ⟨request, cacheKey, workKind, budgetId, timeout, now, _, _, hqueue⟩
  · exact h k (hnarrowed.keys k hk)
  · rw [hqueue] at hk
    -- What an enqueue adds is a membership of its own budget, which it has looked for.
    by_cases hmissing : ∀ b ∈ budgetId, b ∈ s.queue.budgetIds
    · rcases enqueue_cases s.queue s.nextUuid request cacheKey workKind budgetId timeout now with
        hsame | ⟨existing, _, hjoin⟩ | ⟨_, hinsert⟩
      · rw [hsame] at hk
        exact h k hk
      · rw [hjoin, joinPending] at hk
        rcases mem_keys_joinDemand hk with hk | ⟨b, hb, hkey⟩
        · exact h k ((narrowed_mergeRequest existing request workKind timeout now).keys k hk)
        · rw [hkey]
          exact hmissing b hb
      · rw [hinsert, mem_keys_insertItem] at hk
        rcases hk with hk | ⟨b, hb, rfl⟩
        · exact h k hk
        · exact hmissing b hb
    · cases budgetId with
      | none =>
          refine absurd ?_ hmissing
          intro b hb
          cases hb
      | some b =>
          have hb : b ∉ s.queue.budgetIds := fun hb => hmissing fun b' hb' => by
            cases hb'
            exact hb
          rw [enqueue_of_missing hb] at hk
          exact h k hk

/-! ## Collections -/

/-- A collection takes an item with its memberships. -/
theorem Ledger.gc {next : Uuid} {q : QueueTables} (h : Ledger next q) (cutoff : Int)
    (syncJobBudgets : List Uuid) : Ledger next (q.gc cutoff syncJobBudgets) where
  nodup := h.nodup.sublist (List.filter_sublist.map _)
  fresh row hrow := h.fresh row (List.mem_of_mem_filter hrow)
  attached m hm := by
    rcases List.any_eq_true.1 (List.mem_filter.1 hm).2 with ⟨row, hrow, hid⟩
    exact ⟨row, hrow, of_decide_eq_true hid⟩
  backed row hrow budgetId hbudget := by
    rcases List.mem_map.1 (h.backed row (List.mem_of_mem_filter hrow) budgetId hbudget) with
      ⟨m, hm, hkey⟩
    refine List.mem_map.2 ⟨m, List.mem_filter.2 ⟨hm, List.any_eq_true.2 ⟨row, hrow, ?_⟩⟩, hkey⟩
    exact decide_eq_true (congrArg Prod.fst hkey).symm

/-- The memberships that stay keep their budgets. -/
theorem Funded.gc {q : QueueTables} (h : Funded q) (cutoff : Int) (syncJobBudgets : List Uuid) :
    Funded (q.gc cutoff syncJobBudgets) := by
  intro k hk
  rcases List.mem_map.1 hk with ⟨m, hm, rfl⟩
  rcases List.mem_map.1 (h (key m) (List.mem_map_of_mem (List.mem_of_mem_filter hm))) with
    ⟨budget, hbudget, hid⟩
  refine List.mem_map.2 ⟨budget, List.mem_filter.2 ⟨hbudget, ?_⟩, hid⟩
  have hmember : ((q.gc cutoff syncJobBudgets).memberships.any fun m =>
      m.budgetId = budget.budgetId) = true :=
    List.any_eq_true.2 ⟨m, hm, decide_eq_true hid.symm⟩
  simp only [QueueTables.gc] at hmember
  rw [hmember, Bool.or_true, Bool.true_or]

end Queue
end Huldra
