import Huldra.Queue.Demand

/-!
# Ledger — what every operation keeps of the queue

Identifiers are unique and older than the next one, memberships belong to rows, primary budgets
are members.  An enqueue either joins one pending item or adds one, and brings demand to that item
alone.
-/

namespace Huldra
namespace Queue

open QueueTables

/-! ## The migration -/

/-- With every primary budget among the members there is nothing to fill in. -/
theorem Backed.backfill {q : QueueTables} (h : Backed q) : q.backfillMemberships = q := by
  refine backfill_induction (P := fun q' => q' = q) rfl ?_
  rintro q' rfl row hrow budgetId hbudget
  rcases List.mem_map.1 (h row hrow budgetId hbudget) with ⟨m, hm, hkey⟩
  simp only [key, Prod.mk.injEq] at hkey
  have htaken : (q'.memberships.any fun m =>
      m.requestId = row.requestId && m.budgetId = budgetId) = true :=
    List.any_eq_true.2 ⟨m, hm, by simp [hkey.1, hkey.2]⟩
  simp [insertMembership, htaken]

/-! ## Enqueues -/

/-- The cache key that an operation brings demand for. -/
def enqueues? : Op → Option CacheKey
  | .queue (.enqueueRequestForWork _ cacheKey _ _ _ _) => some cacheKey
  | .enqueueRefreshIfDue _ cacheKey _ _ => some cacheKey
  | _ => none

/-- The item that the operation joins, if any. -/
def joins? (o : Op) (q : QueueTables) : Option Uuid :=
  (enqueues? o).bind fun cacheKey => (q.pendingItem? cacheKey).map (·.requestId)

section Enqueues

variable {q : QueueTables}

theorem mem_updateItem {requestId : Uuid} {f : QueueRow → QueueRow} {row' : QueueRow} :
    row' ∈ (q.updateItem requestId f).items ↔
      (row' ∈ q.items ∧ row'.requestId ≠ requestId) ∨
        ∃ row ∈ q.items, row.requestId = requestId ∧ row' = f row := by
  simp only [updateItem, List.mem_map]
  constructor
  · rintro ⟨row, hrow, rfl⟩
    by_cases hid : row.requestId = requestId
    · exact Or.inr ⟨row, hrow, hid, by simp [hid]⟩
    · exact Or.inl ⟨by simpa [hid] using hrow, by simp [hid]⟩
  · rintro (⟨hrow, hne⟩ | ⟨row, hrow, hid, rfl⟩)
    · exact ⟨row', hrow, by simp [hne]⟩
    · exact ⟨row, hrow, by simp [hid]⟩

theorem mem_keys_insertMembership (m : MembershipRow) (k : Uuid × Uuid) :
    k ∈ (q.insertMembership m).memberships.map key ↔ k ∈ q.memberships.map key ∨ k = key m := by
  unfold insertMembership
  split
  · rename_i htaken
    rcases List.any_eq_true.1 htaken with ⟨m', hm', hsame⟩
    have hkey : key m' = key m := by
      simpa [key] using hsame
    constructor
    · exact Or.inl
    · rintro (hk | rfl)
      · exact hk
      · exact List.mem_map.2 ⟨m', hm', hkey⟩
  · simp [List.mem_append, eq_comm]

theorem narrowed_mergeRequest (existing : QueueRow) (request : ArxivRequest)
    (workKind : QueueWorkKind) (timeout : Timeout) (now : Int) :
    Narrowed q (q.mergeRequest existing request workKind timeout now) := by
  unfold mergeRequest
  split
  · exact Narrowed.updateItem fun _ _ _ => rfl
  · exact .refl q

/-- What a join leaves alone: every other item, and the identifiers. -/
structure JoinedAt (requestId : Uuid) (q q' : QueueTables) : Prop where
  ids : q'.items.map (·.requestId) = q.items.map (·.requestId)
  rows : ∀ row' ∈ q'.items, row'.requestId ≠ requestId → row' ∈ q.items
  keys : ∀ k ∈ q'.memberships.map key, k ∈ q.memberships.map key ∨ k.1 = requestId
  backed : Backed q → Backed q'

theorem updateItem_ids {requestId : Uuid} {f : QueueRow → QueueRow}
    (hf : ∀ row, (f row).requestId = row.requestId) :
    (q.updateItem requestId f).items.map (·.requestId) = q.items.map (·.requestId) := by
  simp only [updateItem, List.map_map]
  refine List.map_congr_left fun row _ => ?_
  simp only [Function.comp_apply]
  split
  · exact hf row
  · rfl

theorem joinedAt_joinDemand (existing : QueueRow) (budgetId : Option Uuid) (now : Int) :
    JoinedAt existing.requestId q (q.joinDemand existing budgetId now) := by
  cases budgetId with
  | none =>
      unfold joinDemand
      simp only
      split
      · exact ⟨rfl, fun _ h _ => h, fun _ hk => Or.inl hk, id⟩
      · refine ⟨updateItem_ids fun _ => rfl, ?_, fun _ hk => Or.inl hk, ?_⟩
        · intro row' hrow' hne
          rcases mem_updateItem.1 hrow' with ⟨hmem, _⟩ | ⟨row, _, hid, rfl⟩
          · exact hmem
          · exact absurd hid hne
        · intro hbacked row' hrow' b hb
          rcases mem_updateItem.1 hrow' with ⟨hmem, _⟩ | ⟨row, hmem, _, rfl⟩
          · exact hbacked row' hmem b hb
          · exact hbacked row hmem b hb
  | some budgetId =>
      let f (row : QueueRow) : QueueRow :=
        { row with
          upstreamBudgetId := row.upstreamBudgetId.or (some budgetId)
          updatedAt := now }
      let m : MembershipRow :=
        { requestId := existing.requestId
          budgetId := budgetId
          createdAt := now
          firstAttemptNumber := firstAttemptNumber existing }
      change JoinedAt existing.requestId q ((q.updateItem existing.requestId f).insertMembership m)
      refine ⟨?_, ?_, ?_, ?_⟩
      · rw [insertMembership_items]
        exact updateItem_ids fun _ => rfl
      · rw [insertMembership_items]
        intro row' hrow' hne
        rcases mem_updateItem.1 hrow' with ⟨hmem, _⟩ | ⟨row, _, hid, rfl⟩
        · exact hmem
        · exact absurd hid hne
      · intro k hk
        rcases (mem_keys_insertMembership m k).1 hk with hk | rfl
        · exact Or.inl hk
        · exact Or.inr rfl
      · intro hbacked row' hrow' b hb
        rw [insertMembership_items] at hrow'
        rw [mem_keys_insertMembership]
        rcases mem_updateItem.1 hrow' with ⟨hmem, _⟩ | ⟨row, hmem, hid, rfl⟩
        · exact Or.inl (hbacked row' hmem b hb)
        · -- The primary budget is the old one, or the one that has just joined.
          cases hold : row.upstreamBudgetId with
          | none =>
              have hnew : budgetId = b := by
                simpa [f, hold] using hb
              exact Or.inr (by simp [key, m, f, hid, hnew])
          | some old =>
              have hsame : old = b := by
                simpa [f, hold] using hb
              exact Or.inl (hbacked row hmem b (by rw [hold, hsame]))

theorem JoinedAt.bare {requestId joined : Uuid} {q' : QueueTables} (h : JoinedAt joined q q')
    (hne : requestId ≠ joined) (hbare : Bare requestId q) : Bare requestId q' where
  rows := by
    intro row' hrow' hid
    exact hbare.rows row' (h.rows row' hrow' (by rw [hid]; exact hne)) hid
  memberships := by
    intro m' hm' hid
    rcases h.keys _ (List.mem_map_of_mem hm') with hold | hjoined
    · rcases List.mem_map.1 hold with ⟨m, hm, hkey⟩
      exact hbare.memberships m hm ((congrArg Prod.fst hkey).trans hid)
    · exact hne (hid.symm.trans hjoined)

theorem JoinedAt.ledger {joined next next' : Uuid} {q' : QueueTables} (h : JoinedAt joined q q')
    (hjoined : ∃ row ∈ q.items, row.requestId = joined) (hnext : next ≤ next')
    (hledger : Ledger next q) : Ledger next' q' := by
  have hmem : ∀ id, (∃ row ∈ q.items, row.requestId = id) ↔ ∃ row ∈ q'.items,
      row.requestId = id := by
    intro id
    rw [← List.mem_map, ← List.mem_map, h.ids]
  refine ⟨by rw [h.ids]; exact hledger.nodup, ?_, ?_, h.backed hledger.backed⟩
  · intro row' hrow'
    rcases (hmem row'.requestId).2 ⟨row', hrow', rfl⟩ with ⟨row, hrow, hid⟩
    rw [← hid]
    exact Nat.lt_of_lt_of_le (hledger.fresh row hrow) hnext
  · intro m' hm'
    refine (hmem _).1 ?_
    rcases h.keys _ (List.mem_map_of_mem hm') with hold | hnew
    · rcases List.mem_map.1 hold with ⟨m, hm, hkey⟩
      rcases hledger.attached m hm with ⟨row, hrow, hid⟩
      exact ⟨row, hrow, hid.trans (congrArg Prod.fst hkey)⟩
    · rcases hjoined with ⟨row, hrow, hid⟩
      exact ⟨row, hrow, hid.trans hnew.symm⟩

variable {fresh : Uuid} (request : ArxivRequest) (cacheKey : CacheKey) (workKind : QueueWorkKind)
  (budgetId : Option Uuid) (timeout : Timeout) (now : Int)

/-- What an enqueue can do to the tables: nothing, a join of the pending item, or a new item. -/
theorem enqueue_cases (q : QueueTables) (fresh : Uuid) (request : ArxivRequest)
    (cacheKey : CacheKey) (workKind : QueueWorkKind) (budgetId : Option Uuid) (timeout : Timeout)
    (now : Int) :
    let q' := (q.enqueueRequestForWork fresh request cacheKey workKind budgetId timeout now).2
    q' = q ∨
      (∃ existing, q.pendingItem? cacheKey = some existing ∧
        q' = q.joinPending existing request workKind budgetId timeout now) ∨
      (q.pendingItem? cacheKey = none ∧
        q' = q.insertItem (newRow fresh request cacheKey workKind budgetId now) budgetId now) := by
  intro q'
  simp only [q', QueueTables.enqueueRequestForWork]
  split
  · exact Or.inl rfl
  · split
    case h_1 existing hpending =>
      split
      · exact Or.inr (Or.inl ⟨existing, hpending, rfl⟩)
      · exact Or.inl rfl
    case h_2 hnone =>
      refine Or.inr (Or.inr ⟨hnone, ?_⟩)
      split
      · rfl
      · rfl

theorem insertItem_items (row : QueueRow) :
    (q.insertItem row budgetId now).items = q.items ++ [row] := by
  unfold insertItem
  cases budgetId with
  | none => rfl
  | some budgetId => exact insertMembership_items _

theorem mem_keys_insertItem (row : QueueRow) (k : Uuid × Uuid) :
    k ∈ (q.insertItem row budgetId now).memberships.map key ↔
      k ∈ q.memberships.map key ∨ ∃ b, budgetId = some b ∧ k = (row.requestId, b) := by
  unfold insertItem
  cases budgetId with
  | none => simp
  | some budgetId => simpa [key] using mem_keys_insertMembership (q := { q with
      items := q.items ++ [row] }) _ k

theorem bare_insertItem {requestId : Uuid} (hne : requestId ≠ fresh) (hbare : Bare requestId q) :
    Bare requestId (q.insertItem (newRow fresh request cacheKey workKind budgetId now) budgetId
      now) where
  rows := by
    intro row hrow hid
    rw [insertItem_items, List.mem_append, List.mem_singleton] at hrow
    rcases hrow with hrow | rfl
    · exact hbare.rows row hrow hid
    · exact absurd hid.symm hne
  memberships := by
    intro m hm hid
    rcases (mem_keys_insertItem budgetId now _ _).1 (List.mem_map_of_mem hm) with
      hold | ⟨b, _, hnew⟩
    · rcases List.mem_map.1 hold with ⟨m₀, hm₀, hkey⟩
      exact hbare.memberships m₀ hm₀ ((congrArg Prod.fst hkey).trans hid)
    · exact hne (hid.symm.trans (congrArg Prod.fst hnew))

theorem ledger_insertItem {next : Uuid} (hnext : fresh < next) (hledger : Ledger fresh q) :
    Ledger next (q.insertItem (newRow fresh request cacheKey workKind budgetId now) budgetId
      now) where
  nodup := by
    rw [insertItem_items, List.map_append, List.nodup_append]
    refine ⟨hledger.nodup, List.nodup_singleton _, ?_⟩
    intro id hid id' hid' heq
    rcases List.mem_map.1 hid with ⟨row, hrow, rfl⟩
    have hfresh : id' = fresh := by
      simpa [newRow] using hid'
    exact absurd (hledger.fresh row hrow) (by rw [heq, hfresh]; exact Nat.lt_irrefl _)
  fresh := by
    intro row hrow
    rw [insertItem_items, List.mem_append, List.mem_singleton] at hrow
    rcases hrow with hrow | rfl
    · exact Nat.lt_trans (hledger.fresh row hrow) hnext
    · exact hnext
  attached := by
    intro m hm
    rw [insertItem_items]
    rcases (mem_keys_insertItem budgetId now _ _).1 (List.mem_map_of_mem hm) with
      hold | ⟨b, _, hnew⟩
    · rcases List.mem_map.1 hold with ⟨m₀, hm₀, hkey⟩
      rcases hledger.attached m₀ hm₀ with ⟨row, hrow, hid⟩
      exact ⟨row, List.mem_append_left _ hrow, hid.trans (congrArg Prod.fst hkey)⟩
    · exact ⟨_, List.mem_append_right _ List.mem_cons_self, (congrArg Prod.fst hnew).symm⟩
  backed := by
    intro row hrow b hb
    rw [insertItem_items, List.mem_append, List.mem_singleton] at hrow
    rw [mem_keys_insertItem]
    rcases hrow with hrow | rfl
    · exact Or.inl (hledger.backed row hrow b hb)
    · exact Or.inr ⟨b, hb, rfl⟩

theorem ledger_enqueue {next : Uuid} (hnext : fresh < next) (hledger : Ledger fresh q) :
    Ledger next
      (q.enqueueRequestForWork fresh request cacheKey workKind budgetId timeout now).2 := by
  rcases enqueue_cases q fresh request cacheKey workKind budgetId timeout now with
    hsame | ⟨existing, hpending, hjoin⟩ | ⟨_, hinsert⟩
  · rw [hsame]
    exact (Narrowed.refl q).ledger (Nat.le_of_lt hnext) hledger
  · rw [hjoin]
    have hmerge := narrowed_mergeRequest (q := q) existing request workKind timeout now
    refine (joinedAt_joinDemand existing budgetId now).ledger ?_ (Nat.le_of_lt hnext)
      (hmerge.ledger (Nat.le_refl _) hledger)
    have hmem : existing.requestId ∈ (q.mergeRequest existing request workKind timeout
        now).items.map (·.requestId) := by
      rw [hmerge.ids]
      exact List.mem_map_of_mem (mem_of_pendingItem? hpending).1
    exact List.mem_map.1 hmem
  · rw [hinsert]
    exact ledger_insertItem request cacheKey workKind budgetId now hnext hledger

/-- An enqueue brings demand to the item it joins and to the item it adds, to no other. -/
theorem bare_enqueue {requestId : Uuid} (hid : requestId < fresh)
    (hjoin : (q.pendingItem? cacheKey).map (·.requestId) ≠ some requestId)
    (hbare : Bare requestId q) :
    Bare requestId
      (q.enqueueRequestForWork fresh request cacheKey workKind budgetId timeout now).2 := by
  rcases enqueue_cases q fresh request cacheKey workKind budgetId timeout now with
    hsame | ⟨existing, hpending, hjoined⟩ | ⟨_, hinsert⟩
  · rw [hsame]
    exact hbare
  · rw [hjoined]
    have hne : requestId ≠ existing.requestId := by
      rintro rfl
      exact hjoin (by simp [hpending])
    exact (joinedAt_joinDemand existing budgetId now).bare hne
      ((narrowed_mergeRequest existing request workKind timeout now).bare hbare)
  · rw [hinsert]
    exact bare_insertItem request cacheKey workKind budgetId now (Nat.ne_of_lt hid) hbare

theorem exists_id_enqueue {requestId : Uuid} (h : ∃ row ∈ q.items, row.requestId = requestId) :
    ∃ row ∈ (q.enqueueRequestForWork fresh request cacheKey workKind budgetId timeout now).2.items,
      row.requestId = requestId := by
  rcases enqueue_cases q fresh request cacheKey workKind budgetId timeout now with
    hsame | ⟨existing, _, hjoined⟩ | ⟨_, hinsert⟩
  · rw [hsame]
    exact h
  · rw [hjoined, ← List.mem_map, joinPending, (joinedAt_joinDemand existing budgetId now).ids,
      (narrowed_mergeRequest existing request workKind timeout now).ids]
    exact List.mem_map.2 h
  · rcases h with ⟨row, hrow, hid⟩
    rw [hinsert, insertItem_items]
    exact ⟨row, List.mem_append_left _ hrow, hid⟩

end Enqueues

/-! ## Every operation -/

section Operations

variable {o : Op} {t : Int} {r : Except Exn o.Res} {s s' : Store}

theorem nextUuid_le (h : Store.Performed o t r s s') : s.nextUuid ≤ s'.nextUuid := by
  rcases h.state with rfl | ⟨input, rfl⟩
  · exact Nat.le_refl _
  · cases o with
    | clock o =>
        cases o with
        | uuid4 => exact Nat.le_succ _
        | _ => exact Nat.le_refl _
    | queue o => exact Nat.le_succ _
    | oai o => exact Nat.le_succ _
    | initSchema => exact Nat.le_of_eq s.initSchema_nextUuid.symm
    | renewWorkerFetchOwnership requestId owner name ttl ids =>
        simp only [Store.exec, Store.renewWorkerFetchOwnership]
        split
        · exact Nat.le_refl _
        · split
          · exact Nat.le_refl _
          · split
            · exact Nat.le_refl _
            · exact Nat.le_refl _
    | checkpointOaiPage c =>
        simp only [Store.exec, Store.checkpointOaiPage]
        split
        · exact Nat.le_refl _
        · exact Nat.le_refl _
    | enqueueRefreshIfDue request cacheKey timeout current =>
        simp only [Store.exec, Store.enqueueRefreshIfDue]
        split
        · exact Nat.le_succ _
        · split
          · exact Nat.le_refl _
          · split
            · exact Nat.le_refl _
            · split
              · split
                · split
                  · exact Nat.le_refl _
                  · exact Nat.le_refl _
                · exact Nat.le_succ _
              · exact Nat.le_succ _
    | _ => exact Nat.le_refl _

theorem narrowed_queue (o : QueueOp) (q : QueueTables) (next : Uuid)
    (ho : enqueues? (.queue o) = none) : Narrowed q (o.exec t next q).2 := by
  cases o with
  | enqueueRequestForWork request cacheKey workKind budgetId timeout now => cases ho
  | claimNextQueueItem owner timeout keys =>
      rcases claimNextQueueItem_cases (q := q) owner timeout keys t with
        hnone | ⟨row, _, _, hclaim⟩
      · simp only [QueueOp.exec, hnone]
        exact .refl q
      · simp only [QueueOp.exec, hclaim]
        exact .updateItem fun _ _ _ => rfl
  | completeQueueItem requestId timestamp => exact .updateItem fun _ _ _ => rfl
  | releaseOrDelayQueueItem requestId nextAttemptAt category message status timestamp =>
      simp only [QueueOp.exec, QueueTables.releaseOrDelayQueueItem]
      split
      · exact .refl q
      · exact .updateItem fun _ _ _ => rfl
  | acquireIdFetchReservations ids owner requestId ttl =>
      refine .of_same (by rw [QueueOp.exec, acquireIds_items]) ?_
      simp only [QueueOp.exec, QueueTables.acquireIdFetchReservations]
      split
      · rfl
      · split
        · rfl
        · rfl
  | renewIdFetchReservations ids owner ttl =>
      simp only [QueueOp.exec, QueueTables.renewIdFetchReservations]
      split
      · exact .of_same rfl rfl
      · exact .refl q
  | releaseIdFetchReservations ids owner timestamp =>
      simp only [QueueOp.exec, QueueTables.releaseIdFetchReservations]
      split
      · have hrows : ∀ rows, Narrowed q { q with reservations := rows } := fun _ =>
          .of_same rfl rfl
        exact (hrows _).trans (.wake _ timestamp)
      · exact .refl q
  | createUpstreamRequestBudget maxRequests deadlineAt timestamp => exact .of_same rfl rfl
  | reserveQueueItemUpstreamRequest requestId => exact .reserve requestId t
  | checkQueueItemUpstreamRequestDeadlines requestId => exact .checkDeadlines requestId t
  | queueItemUpstreamDeadline requestId => exact .refl q
  | getQueueItem requestId => exact .refl q
  | failActiveUpstreamBudgetItems budgetId category message timestamp =>
      exact .failItemsOfBudget budgetId category message timestamp _ q

/-- Everything an operation can do to demand: take some away, or enqueue. -/
theorem demand_cases (hbacked : Backed s.queue) (h : Store.Performed o t r s s') :
    Narrowed s.queue s'.queue ∨
      ∃ request cacheKey workKind budgetId timeout now, enqueues? o = some cacheKey ∧
        s'.nextUuid = s.nextUuid + 1 ∧
        s'.queue = (s.queue.enqueueRequestForWork s.nextUuid request cacheKey workKind budgetId
          timeout now).2 := by
  rcases h.state with rfl | ⟨input, rfl⟩
  · exact Or.inl (.refl _)
  · cases o with
    | queue o =>
        cases o with
        | enqueueRequestForWork request cacheKey workKind budgetId timeout now =>
            exact Or.inr ⟨request, cacheKey, workKind, budgetId, timeout, now, rfl, rfl, rfl⟩
        | _ => exact Or.inl (narrowed_queue _ s.queue s.nextUuid rfl)
    | initSchema =>
        refine Or.inl ?_
        simp only [Store.exec]
        rcases s.initSchema_cases with heq | heq
        · rw [heq]
          exact .refl _
        · simp only [heq, Store.migrate, hbacked.backfill]
          exact .refl _
    | renewWorkerFetchOwnership requestId owner name ttl ids =>
        refine Or.inl ?_
        simp only [Store.exec, Store.renewWorkerFetchOwnership]
        split
        · exact .refl _
        · split
          · exact .refl _
          · split
            · exact .refl _
            · have hclaim : Narrowed s.queue (s.queue.updateItem requestId fun row =>
                  row.renewClaim (t + seconds ttl) t) := .updateItem fun _ _ _ => rfl
              exact hclaim.trans (.of_same rfl rfl)
    | checkpointOaiPage c =>
        refine Or.inl ?_
        simp only [Store.exec, Store.checkpointOaiPage]
        split
        · exact .refl _
        · exact .refl _
    | enqueueRefreshIfDue request cacheKey timeout current =>
        simp only [Store.exec, Store.enqueueRefreshIfDue]
        split
        · exact Or.inr ⟨request, cacheKey, _, _, timeout, current, rfl, rfl, rfl⟩
        · split
          · exact Or.inl (.refl _)
          · split
            · exact Or.inl (.refl _)
            · split
              · split
                · split
                  · exact Or.inl (.refl _)
                  · exact Or.inl (.refl _)
                · exact Or.inr ⟨request, cacheKey, _, _, timeout, current, rfl, rfl, rfl⟩
              · exact Or.inr ⟨request, cacheKey, _, _, timeout, current, rfl, rfl, rfl⟩
    | _ => exact Or.inl (.refl _)

/-- The ledger holds after every operation. -/
theorem Ledger.performed (hledger : Ledger s.nextUuid s.queue) (h : Store.Performed o t r s s') :
    Ledger s'.nextUuid s'.queue := by
  rcases demand_cases hledger.backed h with
    hnarrowed | ⟨request, cacheKey, workKind, budgetId, timeout, now, _, hnext, hqueue⟩
  · exact hnarrowed.ledger (nextUuid_le h) hledger
  · rw [hqueue, hnext]
    exact ledger_enqueue request cacheKey workKind budgetId timeout now (Nat.lt_succ_self _)
      hledger

/-- Once an item is known its row stays. -/
theorem exists_id_performed {requestId : Uuid} (hledger : Ledger s.nextUuid s.queue)
    (h : Store.Performed o t r s s') (hrow : ∃ row ∈ s.queue.items, row.requestId = requestId) :
    ∃ row ∈ s'.queue.items, row.requestId = requestId := by
  rcases demand_cases hledger.backed h with
    hnarrowed | ⟨request, cacheKey, workKind, budgetId, timeout, now, _, _, hqueue⟩
  · rw [← List.mem_map, hnarrowed.ids]
    exact List.mem_map.2 hrow
  · rw [hqueue]
    exact exists_id_enqueue request cacheKey workKind budgetId timeout now hrow

/-- An item nobody wants stays so until an enqueue joins it. -/
theorem Bare.performed {requestId : Uuid} (hledger : Ledger s.nextUuid s.queue)
    (h : Store.Performed o t r s s') (hrow : ∃ row ∈ s.queue.items, row.requestId = requestId)
    (hjoin : joins? o s.queue ≠ some requestId ∨ s'.queue = s.queue)
    (hbare : Bare requestId s.queue) : Bare requestId s'.queue := by
  rcases hjoin with hjoin | hsame
  · rcases demand_cases hledger.backed h with
      hnarrowed | ⟨request, cacheKey, workKind, budgetId, timeout, now, ho, _, hqueue⟩
    · exact hnarrowed.bare hbare
    · rw [hqueue]
      rcases hrow with ⟨row, hmem, hid⟩
      have hfresh : requestId < s.nextUuid := by
        rw [← hid]
        exact hledger.fresh row hmem
      refine bare_enqueue request cacheKey workKind budgetId timeout now hfresh ?_ hbare
      simpa [joins?, ho] using hjoin
  · rw [hsame]
    exact hbare

end Operations

end Queue
end Huldra
