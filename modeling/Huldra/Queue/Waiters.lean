import Huldra.Queue.Merge
import Huldra.Queue.Reservations

/-!
# Waiters — items that wait for ids another worker has reserved

A worker that finds an id reserved delays its item until the reservation ends.  The failed
acquisition and the delay are two transactions; the release in between wakes nobody.  An item that
is delayed under a reservation which outlasts the delay is not forgotten: the release of the id
wakes it, and nothing else takes the reservation away.
-/

namespace Huldra
namespace Queue

open QueueTables Process.System

variable {d : Deployment}

/-! ## Waiting items -/

/-- The requested ids, under the names they are reserved by. -/
def requestedIds (row : QueueRow) : List String :=
  row.request.idList.map Keys.normalizeArxivId

/-- The item is delayed until then because of a reservation. -/
def WaitsUntil (row : QueueRow) (wakeAt : Int) : Prop :=
  row.status = .delayed ∧ row.errorCategory = some "id_fetch_reserved" ∧
    row.nextAttemptAt = some wakeAt

/-- Somebody other than `owner` holds one of the ids, and not only until `now`. -/
def HeldByOther (q : QueueTables) (ids : List String) (owner : OwnerToken) (now : Int) : Prop :=
  ∃ reservation ∈ q.reservations, reservation.arxivId ∈ ids ∧ reservation.ownerToken ≠ owner ∧
    now < reservation.expiresAt

/-- The item that the event delays because of a reservation, and until when. -/
def delayedItem (e : Event (fleet d)) : Option (Uuid × Option Int) :=
  match e.action with
  | .op (.queue (.releaseOrDelayQueueItem requestId nextAttemptAt category message status
      timestamp)) _ =>
      let delayed := (e.before.queue.item? requestId).map fun row =>
        row.releaseOrDelay nextAttemptAt category message status timestamp
      if status = .delayed ∧ category = some "id_fetch_reserved" ∧
          e.after.queue.item? requestId = delayed then
        some (requestId, nextAttemptAt)
      else none
  | _ => none

/-- The worker that has delayed the item last. -/
def delayedBy : History (fleet d) → Uuid → Option OwnerToken
  | [], _ => none
  | e :: pre, requestId =>
      if (delayedItem e).any fun item => item.1 = requestId then some (.worker e.pid)
      else delayedBy pre requestId

/-! ## The condition on the steps -/

/-- Ids that an owner reserves, or goes on reserving, for some time. -/
structure Reserving where
  arxivIds : List String
  ownerToken : OwnerToken
  ttlSeconds : Int

def reservesAnew : Op → Option Reserving
  | .queue (.acquireIdFetchReservations ids owner _ ttl) => some ⟨ids, owner, ttl⟩
  | .queue (.renewIdFetchReservations ids owner ttl) => some ⟨ids, owner, ttl⟩
  | .renewWorkerFetchOwnership _ owner _ ttl ids => some ⟨ids, owner, ttl⟩
  | _ => none

/-- The request of a refresh, and the key it is made for. -/
def refreshes : Op → Option (ArxivRequest × CacheKey)
  | .queue (.enqueueRequestForWork request cacheKey .refreshCompleted _ _ _) =>
      some (request, cacheKey)
  | .enqueueRefreshIfDue request cacheKey _ _ => some (request, cacheKey)
  | _ => none

/-- What of an operation the event is, if it is one. -/
def operated {α : Type} (f : Op → Option α) (e : Event (fleet d)) : Option α :=
  match e.action with
  | .op o _ => f o
  | _ => none

/-- An item is delayed while another worker's reservation of one of its ids is there, and will be
for as long. -/
def DelaysReserved (e : Event (fleet d)) : Prop :=
  ∀ item ∈ delayedItem e, ∀ wakeAt ∈ item.2, e.time < wakeAt →
    ∀ row ∈ e.before.queue.items, row.requestId = item.1 →
      ∃ reservation ∈ e.before.queue.reservations, reservation.arxivId ∈ requestedIds row ∧
        reservation.ownerToken ≠ .worker e.pid ∧ wakeAt ≤ reservation.expiresAt

/-- No reservation that an item waits for is made to end before the item's delay does. -/
def HoldsOn (e : Event (fleet d)) : Prop :=
  ∀ anew ∈ operated reservesAnew e, ∀ row ∈ e.before.queue.items,
    ∀ wakeAt ∈ row.nextAttemptAt, WaitsUntil row wakeAt → e.time < wakeAt →
      ∀ reservation ∈ e.before.queue.reservations, reservation.ownerToken = anew.ownerToken →
        reservation.arxivId ∈ anew.arxivIds → reservation.arxivId ∈ requestedIds row →
          wakeAt ≤ reservation.expiresAt → wakeAt ≤ e.time + seconds anew.ttlSeconds

/-- No refresh joins a waiting item with other ids. -/
def JoinsAlike (e : Event (fleet d)) : Prop :=
  ∀ call ∈ operated refreshes e, ∀ row ∈ e.before.queue.items, row.cacheKey = call.2 →
    ∀ wakeAt ∈ row.nextAttemptAt, WaitsUntil row wakeAt → e.time < wakeAt →
      call.1.idList.map Keys.normalizeArxivId = requestedIds row

structure WaitersKept (e : Event (fleet d)) : Prop where
  delay : DelaysReserved e
  hold : HoldsOn e
  join : JoinsAlike e

instance (row : QueueRow) (wakeAt : Int) : Decidable (WaitsUntil row wakeAt) :=
  inferInstanceAs (Decidable (_ ∧ _))

instance (e : Event (fleet d)) : Decidable (DelaysReserved e) := by
  unfold DelaysReserved
  infer_instance

instance (e : Event (fleet d)) : Decidable (HoldsOn e) := by
  unfold HoldsOn
  infer_instance

instance (e : Event (fleet d)) : Decidable (JoinsAlike e) := by
  unfold JoinsAlike
  infer_instance

instance (e : Event (fleet d)) : Decidable (WaitersKept e) :=
  decidable_of_iff (DelaysReserved e ∧ HoldsOn e ∧ JoinsAlike e)
    ⟨fun ⟨hdelay, hhold, hjoin⟩ => ⟨hdelay, hhold, hjoin⟩, fun h => ⟨h.delay, h.hold, h.join⟩⟩

/-! ## What an operation leaves of a wait -/

section Operations

variable {q : QueueTables} {s : Store} {o : Op} {t : Int}

/-- The request of a joined row asks for the ids it did, or for those of a refresh. -/
theorem idList_joinRequest {existing : QueueRow} {request replacement : ArxivRequest}
    {workKind kind : QueueWorkKind} {timeout : Timeout}
    (h : joinRequest existing request workKind timeout = some (replacement, kind)) :
    replacement.idList = existing.request.idList ∨
      (workKind = .refreshCompleted ∧ replacement.idList = request.idList) := by
  -- The timeout and the priority are written over a request that has been chosen before.
  have hchosen : ∀ (chosen : Option ArxivRequest) (kind' : QueueWorkKind) (timeout' : Timeout)
      (priority : Int),
      ((if (chosen.getD existing.request).timeoutSeconds ≠ some timeout' ∨
            (chosen.getD existing.request).priority ≠ priority then
          some { chosen.getD existing.request with
            timeoutSeconds := some timeout', priority := priority }
        else chosen).map fun r => (r, kind')) = some (replacement, kind) →
      replacement.idList = (chosen.getD existing.request).idList := by
    intro chosen kind' timeout' priority h
    rcases Option.map_eq_some_iff.1 h with ⟨r, hr, heq⟩
    cases heq
    split at hr
    · cases hr
      rfl
    · rw [hr]
      rfl
  unfold joinRequest at h
  by_cases hrefresh : workKind = .refreshCompleted
  · rw [if_pos hrefresh] at h
    by_cases hexisting : existing.workKind ≠ .refreshCompleted
    · rw [if_pos hexisting] at h
      exact Or.inr ⟨hrefresh, hchosen _ _ _ _ h⟩
    · rw [if_neg hexisting] at h
      by_cases hsooner : request.refreshIntervalSeconds < existing.request.refreshIntervalSeconds
      · rw [if_pos hsooner] at h
        exact Or.inl (hchosen _ _ _ _ h)
      · rw [if_neg hsooner] at h
        exact Or.inl (hchosen _ _ _ _ h)
  · rw [if_neg hrefresh] at h
    exact Or.inl (hchosen _ _ _ _ h)

/-- What a call for work makes of the ids of a row. -/
structure IdsJoined (request : ArxivRequest) (key : CacheKey) (workKind : QueueWorkKind)
    (row row' : QueueRow) : Prop where
  requestId : row'.requestId = row.requestId
  cacheKey : row'.cacheKey = row.cacheKey
  idList : row'.request.idList = row.request.idList ∨
    (workKind = .refreshCompleted ∧ row.cacheKey = key ∧ row'.request.idList = request.idList)

theorem IdsJoined.trans {request : ArxivRequest} {cacheKey : CacheKey} {workKind : QueueWorkKind}
    (a b c : QueueRow) (h : IdsJoined request cacheKey workKind a b)
    (h' : IdsJoined request cacheKey workKind b c) : IdsJoined request cacheKey workKind a c where
  requestId := h'.requestId.trans h.requestId
  cacheKey := h'.cacheKey.trans h.cacheKey
  idList := by
    rcases h'.idList with hsame | ⟨hkind, hkey, hids⟩
    · rw [hsame]
      exact h.idList
    · exact Or.inr ⟨hkind, h.cacheKey ▸ hkey, hids⟩

theorem changes_idList_joinPending {existing : QueueRow} {cacheKey : CacheKey}
    (request : ArxivRequest) (workKind : QueueWorkKind) (budgetId : Option Uuid)
    (timeout : Timeout) (now : Int) (hkey : existing.cacheKey = cacheKey)
    (hexisting : ∀ row ∈ q.items, row.requestId = existing.requestId → row = existing) :
    Changes (IdsJoined request cacheKey workKind) q
      (q.joinPending existing request workKind budgetId timeout now) := by
  have hmerge : Changes (IdsJoined request cacheKey workKind) q
      (q.mergeRequest existing request workKind timeout now) := by
    unfold mergeRequest
    split
    · rename_i replacement kind hjoin
      refine Changes.updateItem fun row hmem hid => Or.inr ⟨rfl, rfl, ?_⟩
      rw [hexisting row hmem hid]
      exact (idList_joinRequest hjoin).imp id fun h => ⟨h.1, hkey, h.2⟩
    · exact .of_items_eq rfl
  refine Changes.trans IdsJoined.trans hmerge ?_
  cases budgetId with
  | none =>
      unfold joinPending joinDemand
      dsimp only
      split
      · exact .of_items_eq rfl
      · exact Changes.updateItem fun _ _ _ => Or.inr ⟨rfl, rfl, Or.inl rfl⟩
  | some budgetId =>
      refine Changes.insertMembership ?_ _
      exact Changes.updateItem fun _ _ _ => Or.inr ⟨rfl, rfl, Or.inl rfl⟩

theorem idList_enqueue (hnodup : (q.items.map (·.requestId)).Nodup) {fresh : Uuid}
    (request : ArxivRequest) (cacheKey : CacheKey) (workKind : QueueWorkKind)
    (budgetId : Option Uuid) (timeout : Timeout) (now : Int) {row' : QueueRow}
    (h : row' ∈ (q.enqueueRequestForWork fresh request cacheKey workKind budgetId timeout
      now).2.items) :
    row'.status = .queued ∨ ∃ row ∈ q.items, row' = row ∨
      IdsJoined request cacheKey workKind row row' := by
  unfold QueueTables.enqueueRequestForWork at h
  split at h
  · exact Or.inr ⟨row', h, Or.inl rfl⟩
  · split at h
    · rename_i existing hpending
      dsimp only at h
      split at h
      case isFalse => exact Or.inr ⟨row', h, Or.inl rfl⟩
      rcases mem_of_pendingItem? hpending with ⟨hmem, hkey, _⟩
      rcases changes_idList_joinPending (q := q) request workKind budgetId timeout now hkey
        (fun row hrow hid => eq_of_mem_of_requestId hnodup hrow hmem hid) with
        ⟨change, hitems, hrows⟩
      rw [hitems] at h
      rcases List.mem_map.1 h with ⟨row, hrow, rfl⟩
      exact Or.inr ⟨row, hrow, hrows row hrow⟩
    · have hold : ∀ q' : QueueTables, q'.items = q.items ++
          [newRow fresh request cacheKey workKind budgetId now] → row' ∈ q'.items →
          row'.status = .queued ∨ ∃ row ∈ q.items, row' = row ∨
            IdsJoined request cacheKey workKind row row' := by
        intro q' hq' hrow'
        rw [hq'] at hrow'
        rcases List.mem_append.1 hrow' with hrow | hnew
        · exact Or.inr ⟨row', hrow, Or.inl rfl⟩
        · rw [List.mem_singleton.1 hnew]
          exact Or.inl rfl
      have hinsert : (q.insertItem (newRow fresh request cacheKey workKind budgetId now) budgetId
          now).items = q.items ++ [newRow fresh request cacheKey workKind budgetId now] := by
        unfold insertItem
        cases budgetId with
        | none => rfl
        | some budgetId => exact insertMembership_items _
      dsimp only at h
      split at h
      · exact hold _ hinsert h
      · exact hold _ hinsert h

theorem idList_refresh (hnodup : (s.queue.items.map (·.requestId)).Nodup)
    (request : ArxivRequest) (cacheKey : CacheKey) (timeout : Timeout) (current : Int)
    {row' : QueueRow}
    (h : row' ∈ (s.enqueueRefreshIfDue request cacheKey timeout current).2.queue.items) :
    row'.status = .queued ∨ ∃ row ∈ s.queue.items, row' = row ∨
      IdsJoined request cacheKey .refreshCompleted row row' := by
  have hsame : row' ∈ s.queue.items → row'.status = .queued ∨ ∃ row ∈ s.queue.items, row' = row ∨
      IdsJoined request cacheKey .refreshCompleted row row' :=
    fun hmem => Or.inr ⟨row', hmem, Or.inl rfl⟩
  unfold Store.enqueueRefreshIfDue at h
  dsimp only at h
  split at h
  · exact idList_enqueue hnodup request cacheKey .refreshCompleted none timeout current h
  · split at h
    · exact hsame h
    · split at h
      · exact hsame h
      · split at h
        · split at h
          · split at h
            · exact hsame h
            · exact hsame h
          · exact idList_enqueue hnodup request cacheKey .refreshCompleted none timeout current h
        · exact idList_enqueue hnodup request cacheKey .refreshCompleted none timeout current h

/-- A joined row asks for the ids it did, or for those of the refresh that has joined it. -/
theorem requestedIds_of_joined (hnodup : (s.queue.items.map (·.requestId)).Nodup)
    {r : Except Exn o.Res} {s' : Store} (h : Store.Performed o t r s s') {row row' : QueueRow}
    (hrow : row ∈ s.queue.items) (hrow' : row' ∈ s'.queue.items)
    (hid : row'.requestId = row.requestId) (hstatus : row'.status ≠ .queued)
    (henqueue : (∃ request cacheKey kind budgetId timeout now,
        o = .queue (.enqueueRequestForWork request cacheKey kind budgetId timeout now)) ∨
      ∃ request cacheKey timeout current,
        o = .enqueueRefreshIfDue request cacheKey timeout current) :
    requestedIds row' = requestedIds row ∨ ∃ request cacheKey,
      refreshes o = some (request, cacheKey) ∧ row.cacheKey = cacheKey ∧
        requestedIds row' = request.idList.map Keys.normalizeArxivId := by
  -- The row that `row'` comes from is `row`, which has its identifier.
  have hfrom : ∀ {request : ArxivRequest} {cacheKey : CacheKey} {kind : QueueWorkKind},
      (row'.status = .queued ∨ ∃ old ∈ s.queue.items, row' = old ∨
        IdsJoined request cacheKey kind old row') →
      requestedIds row' = requestedIds row ∨ (kind = .refreshCompleted ∧
        row.cacheKey = cacheKey ∧
          requestedIds row' = request.idList.map Keys.normalizeArxivId) := by
    intro request cacheKey kind hcases
    rcases hcases with hqueued | ⟨old, hold, heq | hjoined⟩
    · exact absurd hqueued hstatus
    · have hsame : old = row := eq_of_mem_of_requestId hnodup hold hrow (heq ▸ hid)
      exact Or.inl (by rw [heq, hsame])
    · have hsame : old = row :=
        eq_of_mem_of_requestId hnodup hold hrow (hjoined.requestId.symm.trans hid)
      rcases hjoined.idList with hids | ⟨hkind, hkey, hids⟩
      · exact Or.inl (by unfold requestedIds; rw [hids, hsame])
      · exact Or.inr ⟨hkind, hsame ▸ hkey, by unfold requestedIds; rw [hids]⟩
  rcases h.state with rfl | ⟨input, rfl⟩
  · exact Or.inl (by rw [eq_of_mem_of_requestId hnodup hrow' hrow hid])
  · rcases henqueue with ⟨request, cacheKey, kind, budgetId, timeout, now, rfl⟩ |
      ⟨request, cacheKey, timeout, current, rfl⟩
    · rcases hfrom (idList_enqueue hnodup request cacheKey kind budgetId timeout now hrow') with
        hsame | ⟨rfl, hkey, hids⟩
      · exact Or.inl hsame
      · exact Or.inr ⟨request, cacheKey, rfl, hkey, hids⟩
    · rcases hfrom (idList_refresh hnodup request cacheKey timeout current hrow') with
        hsame | ⟨_, hkey, hids⟩
      · exact Or.inl hsame
      · exact Or.inr ⟨request, cacheKey, rfl, hkey, hids⟩

/-- A row that kept its place waits as it did. -/
theorem waitsUntil_of_standing {row row' : QueueRow} {wakeAt : Int}
    (hstanding : standing row' = standing row) (hcategory : row'.errorCategory = row.errorCategory)
    (h : WaitsUntil row' wakeAt) : WaitsUntil row wakeAt := by
  simp only [standing, Prod.mk.injEq] at hstanding
  exact ⟨hstanding.1 ▸ h.1, hcategory ▸ h.2.1, hstanding.2.2.2 ▸ h.2.2⟩

theorem requestedIds_of_asked {row row' : QueueRow} (h : asked row' = asked row) :
    requestedIds row' = requestedIds row := by
  simp only [asked, Prod.mk.injEq] at h
  unfold requestedIds
  rw [h.1]

/-- An item that waits after an operation has been delayed by it, or has waited before. -/
theorem waits_cases (hnodup : (s.queue.items.map (·.requestId)).Nodup) {r : Except Exn o.Res}
    {s' : Store} (h : Store.Performed o t r s s') {row' : QueueRow} {wakeAt : Int}
    (hrow' : row' ∈ s'.queue.items) (hwaits : WaitsUntil row' wakeAt) :
    ∃ row ∈ s.queue.items, row'.requestId = row.requestId ∧
      ((∃ category message timestamp, category = some "id_fetch_reserved" ∧
          o = .queue (.releaseOrDelayQueueItem row.requestId (some wakeAt) category message
            .delayed timestamp) ∧
          row' = row.releaseOrDelay (some wakeAt) category message .delayed timestamp) ∨
        (WaitsUntil row wakeAt ∧ (requestedIds row' = requestedIds row ∨
          ∃ request cacheKey, refreshes o = some (request, cacheKey) ∧ row.cacheKey = cacheKey ∧
            requestedIds row' = request.idList.map Keys.normalizeArxivId))) := by
  rcases itemsEffect_of_performed hnodup h with ⟨change, new, hitems, hrows, hnew⟩
  have hrow := hrow'
  rw [hitems] at hrow
  have hstatus : row'.status ≠ .queued := by
    rw [hwaits.1]
    decide
  rcases List.mem_append.1 hrow with hold | hnewrow
  · rcases List.mem_map.1 hold with ⟨row, hmem, heq⟩
    rcases hrows row hmem with hsame | heffect
    · rw [hsame] at heq
      subst heq
      exact ⟨row, hmem, rfl, Or.inr ⟨hwaits, Or.inl rfl⟩⟩
    · rw [heq] at heffect
      have hid := heffect.requestId
      refine ⟨row, hmem, hid, ?_⟩
      have hkept : Kept row row' → WaitsUntil row wakeAt ∧
          requestedIds row' = requestedIds row := fun hkept =>
        ⟨waitsUntil_of_standing hkept.standing hkept.category hwaits,
          requestedIds_of_asked hkept.asked⟩
      unfold RowEffect at heffect
      split at heffect
      case h_1 =>
        rw [heffect.2] at hwaits
        cases hwaits.1
      case h_2 =>
        rw [heffect.2] at hwaits
        cases hwaits.1
      case h_3 requestId nextAttemptAt category message status timestamp =>
        rcases heffect with ⟨rfl, _, hrow⟩
        rw [hrow] at hwaits
        have hstatus' : status = .delayed := hwaits.1
        have hcategory : category = some "id_fetch_reserved" := hwaits.2.1
        have hnext : nextAttemptAt = some wakeAt := hwaits.2.2
        subst hstatus' hnext
        exact Or.inl ⟨category, message, timestamp, hcategory, rfl, hrow⟩
      case h_4 =>
        rw [heffect.2] at hwaits
        cases hwaits.1
      case h_5 =>
        rcases heffect with hkept' | ⟨_, hout⟩
        · exact Or.inr ⟨(hkept hkept').1, Or.inl (hkept hkept').2⟩
        · have hfailed : row'.status = .failed := congrArg Prod.fst hout.standing
          rw [hwaits.1] at hfailed
          cases hfailed
      case h_6 => exact Or.inr ⟨(hkept heffect.2).1, Or.inl (hkept heffect.2).2⟩
      case h_7 => exact Or.inr ⟨(hkept heffect.2).1, Or.inl (hkept heffect.2).2⟩
      case h_8 =>
        refine Or.inr ⟨waitsUntil_of_standing heffect.standing heffect.category hwaits, ?_⟩
        exact requestedIds_of_joined hnodup h hmem hrow' hid hstatus
          (Or.inl ⟨_, _, _, _, _, _, rfl⟩)
      case h_9 =>
        refine Or.inr ⟨waitsUntil_of_standing heffect.standing heffect.category hwaits, ?_⟩
        exact requestedIds_of_joined hnodup h hmem hrow' hid hstatus (Or.inr ⟨_, _, _, _, rfl⟩)
      case h_10 =>
        have hclaimed : row'.status = .claimed := by
          rw [heffect.2.2.2]
          exact heffect.2.1
        rw [hwaits.1] at hclaimed
        cases hclaimed
      case h_11 => exact heffect.elim
  · rcases hnew with rfl | ⟨newcomer, rfl, hnewcomer⟩
    · cases hnewrow
    · rw [List.mem_singleton.1 hnewrow] at hstatus
      exact absurd hnewcomer.status hstatus

/-- A reservation that has not ended stays, unless its owner reserves the id anew or releases it. -/
theorem reservation_cases {r : Except Exn o.Res} {s' : Store} (h : Store.Performed o t r s s')
    {reservation : ReservationRow} (hmem : reservation ∈ s.queue.reservations)
    (hlive : t < reservation.expiresAt) :
    (∃ kept ∈ s'.queue.reservations, kept.arxivId = reservation.arxivId ∧
        kept.ownerToken = reservation.ownerToken ∧
        (kept.expiresAt = reservation.expiresAt ∨ ∃ ids ttl,
          reservesAnew o = some ⟨ids, reservation.ownerToken, ttl⟩ ∧
            reservation.arxivId ∈ ids ∧ kept.expiresAt = t + seconds ttl)) ∨
      ∃ ids timestamp, o = .queue (.releaseIdFetchReservations ids reservation.ownerToken
          timestamp) ∧
        reservation.arxivId ∈ ids ∧
        s'.queue = s.queue.releaseIdFetchReservations ids reservation.ownerToken timestamp := by
  rcases h.state with rfl | ⟨input, rfl⟩
  · exact Or.inl ⟨reservation, hmem, rfl, rfl, Or.inl rfl⟩
  · have hholds : Holds s.queue reservation.ownerToken reservation.arxivId reservation.expiresAt :=
      ⟨reservation, hmem, rfl, rfl, rfl⟩
    cases hgranted : granted? reservation.ownerToken reservation.arxivId o
        (Store.exec o t input s).1 with
    | some ttl =>
        left
        rcases holds_of_granted o input hgranted with ⟨kept, hkept, hid, howner, hexpires⟩
        refine ⟨kept, hkept, hid, howner, Or.inr ?_⟩
        unfold granted? at hgranted
        split at hgranted
        case h_1 ids owner requestId ttl' result hresult =>
          rw [Option.ite_none_right_eq_some] at hgranted
          rcases hgranted with ⟨⟨rfl, hids⟩, httl⟩
          cases httl
          cases hresult
          exact ⟨ids, ttl, rfl, mem_of_acquired hids, hexpires⟩
        case h_2 ids owner ttl' _ =>
          rw [Option.ite_none_right_eq_some] at hgranted
          rcases hgranted with ⟨⟨rfl, hids⟩, httl⟩
          cases httl
          exact ⟨ids, ttl, rfl, hids, hexpires⟩
        case h_3 requestId owner name ttl' ids _ =>
          rw [Option.ite_none_right_eq_some] at hgranted
          rcases hgranted with ⟨⟨rfl, hids⟩, httl⟩
          cases httl
          exact ⟨ids, ttl, rfl, hids, hexpires⟩
        case h_4 => cases hgranted
    | none =>
        cases hgave : gaveUp reservation.ownerToken reservation.arxivId o with
        | false =>
            left
            rcases hholds.exec o input hlive hgranted hgave with
              ⟨kept, hkept, hid, howner, hexpires⟩
            exact ⟨kept, hkept, hid, howner, Or.inl hexpires⟩
        | true =>
            right
            unfold gaveUp at hgave
            split at hgave
            · rename_i ids owner timestamp
              simp only [Bool.and_eq_true, decide_eq_true_eq, List.contains_eq_mem] at hgave
              rcases hgave with ⟨rfl, hids⟩
              exact ⟨ids, timestamp, rfl, hids, rfl⟩
            · cases hgave

/-- A release that takes a reservation away wakes every item that waits for the id. -/
theorem not_waits_of_released {ids : List String} {owner : OwnerToken} {timestamp : Int}
    {reservation : ReservationRow} (hmem : reservation ∈ q.reservations)
    (howner : reservation.ownerToken = owner) (hids : reservation.arxivId ∈ ids) {row : QueueRow}
    (hrow : row ∈ (q.releaseIdFetchReservations ids owner timestamp).items)
    (hasks : reservation.arxivId ∈ requestedIds row) (wakeAt : Int) : ¬WaitsUntil row wakeAt := by
  intro hwaits
  have hreleased : (q.reservations.any fun row =>
      row.ownerToken = owner && ids.eraseDups.contains row.arxivId) = true := by
    refine List.any_eq_true.2 ⟨reservation, hmem, ?_⟩
    simp [howner, hids]
  unfold QueueTables.releaseIdFetchReservations at hrow
  simp only [hreleased, if_true] at hrow
  rcases List.mem_map.1 hrow with ⟨old, _, heq⟩
  split at heq
  · rw [← heq] at hwaits
    cases hwaits.1
  · rename_i hasleep
    subst heq
    refine hasleep ⟨hwaits.1, hwaits.2.1, List.any_eq_true.2 ?_⟩
    rcases List.mem_map.1 hasks with ⟨value, hvalue, hnormal⟩
    refine ⟨value, hvalue, ?_⟩
    simp [hnormal, hids]

end Operations

/-! ## Runs -/

/-- Every item that still waits does so for an id that another worker has reserved for as long. -/
def Guarded (h : History (fleet d)) : Prop :=
  ∀ row ∈ (stateAfter h).queue.items, ∀ wakeAt, WaitsUntil row wakeAt → lastTime h < wakeAt →
    ∃ owner, delayedBy h row.requestId = some owner ∧
      ∃ reservation ∈ (stateAfter h).queue.reservations,
        reservation.arxivId ∈ requestedIds row ∧ reservation.ownerToken ≠ owner ∧
          wakeAt ≤ reservation.expiresAt

/-- The delay of an item leaves the reservations and the requested ids alone. -/
theorem delayed_row {pre : History (fleet d)} {e : Event (fleet d)} {requestId : Uuid}
    {next : Option Int} (hlegal : Legal pre e)
    (hnodup : (e.before.queue.items.map (·.requestId)).Nodup)
    (hnodup' : (e.after.queue.items.map (·.requestId)).Nodup)
    (hdelayed : delayedItem e = some (requestId, next)) {row row' : QueueRow}
    (hrow : row ∈ e.before.queue.items) (hid : row.requestId = requestId)
    (hrow' : row' ∈ e.after.queue.items) (hid' : row'.requestId = requestId) :
    row'.nextAttemptAt = next ∧ requestedIds row' = requestedIds row ∧
      e.after.queue.reservations = e.before.queue.reservations := by
  unfold delayedItem at hdelayed
  split at hdelayed
  · rename_i id nextAttemptAt category message status timestamp r ha
    dsimp only at hdelayed
    split at hdelayed
    · rename_i heffect
      have hwhat : id = requestId ∧ nextAttemptAt = next := by simpa using hdelayed
      rcases hwhat with ⟨rfl, rfl⟩
      have hbefore := item?_of_mem hnodup hrow
      have hafter := item?_of_mem hnodup' hrow'
      rw [hid] at hbefore
      rw [hid', heffect.2.2, hbefore, Option.map_some, Option.some.injEq] at hafter
      refine ⟨by rw [← hafter]; rfl, by rw [← hafter]; rfl, ?_⟩
      have hperf : Store.Performed (.queue (.releaseOrDelayQueueItem id nextAttemptAt category
          message status timestamp)) e.time r e.before e.after := hlegal.executed ha
      rcases hperf.state with hsame | ⟨input, hexec⟩
      · rw [hsame]
      · rw [hexec]
        exact exec_reservations _ e.time input e.before rfl
    · cases hdelayed
  · cases hdelayed

theorem guarded_op {pre : History (fleet d)} {e : Event (fleet d)} {o : Op}
    {r : Except Exn o.Res} (ha : e.action = .op o r) (hlegal : Legal pre e)
    (hnodup : (e.before.queue.items.map (·.requestId)).Nodup)
    (hnodup' : (e.after.queue.items.map (·.requestId)).Nodup) (hkept : WaitersKept e)
    (ih : Guarded pre) : Guarded (e :: pre) := by
  intro row' hrow' wakeAt hwaits hfuture
  have hperf : Store.Performed o e.time r e.before e.after := hlegal.executed ha
  rcases waits_cases hnodup hperf hrow' hwaits with ⟨row, hrow, hid, hcases⟩
  by_cases hdelays : ∃ next, delayedItem e = some (row'.requestId, next)
  · -- The event delays the item: the reservation is there at that moment.
    rcases hdelays with ⟨next, hdelayed⟩
    rcases delayed_row hlegal hnodup hnodup' hdelayed hrow hid.symm hrow' rfl with
      ⟨hnext, hids, hreservations⟩
    have hwake : next = some wakeAt := hnext.symm.trans hwaits.2.2
    subst hwake
    rcases hkept.delay _ hdelayed wakeAt rfl hfuture row hrow hid.symm with
      ⟨reservation, hmem, hasked, howner, hlong⟩
    refine ⟨.worker e.pid, by simp [delayedBy, hdelayed], reservation, ?_, ?_, howner, hlong⟩
    · change reservation ∈ e.after.queue.reservations
      rw [hreservations]
      exact hmem
    · rw [hids]
      exact hasked
  · rcases hcases with ⟨category, message, timestamp, rfl, rfl, hrow''⟩ | ⟨hwaited, hids⟩
    · refine absurd ⟨some wakeAt, ?_⟩ hdelays
      have hbefore := item?_of_mem hnodup hrow
      have hafter := item?_of_mem hnodup' hrow'
      rw [hid] at hafter
      unfold delayedItem
      rw [ha]
      simp [hbefore, hafter, hrow'', QueueRow.releaseOrDelay]
    · -- It has waited before, and its reservation is still there.
      have hearlier : lastTime pre < wakeAt := lt_of_le_of_lt hlegal.time_le hfuture
      have hsame : requestedIds row' = requestedIds row := by
        rcases hids with hids | ⟨request, cacheKey, hrefresh, hkey, hids⟩
        · exact hids
        · rw [hids]
          exact hkept.join (request, cacheKey) (by simpa [operated, ha] using hrefresh) row
            hrow hkey wakeAt hwaited.2.2 hwaited hfuture
      have hbefore := hrow
      rw [hlegal.before_eq] at hbefore
      rcases ih row hbefore wakeAt hwaited hearlier with
        ⟨owner, hby, reservation, hmem, hasked, howner, hlong⟩
      rw [← hlegal.before_eq] at hmem
      have hnot : ((delayedItem e).any fun item => item.1 = row'.requestId) = false := by
        cases hitem : delayedItem e with
        | none => rfl
        | some item =>
            rw [Option.any_some, decide_eq_false_iff_not]
            intro heq
            exact hdelays ⟨item.2, by rw [hitem, ← heq]⟩
      have hstill : delayedBy (e :: pre) row'.requestId = some owner := by
        simp only [delayedBy, hnot, Bool.false_eq_true, if_false]
        rw [hid]
        exact hby
      refine ⟨owner, hstill, ?_⟩
      rcases reservation_cases hperf hmem (lt_of_lt_of_le hfuture hlong) with
        ⟨kept, hkept', hkid, hkowner, hexpires⟩ | ⟨ids, timestamp, rfl, hreleased, hqueue⟩
      · refine ⟨kept, hkept', ?_, hkowner ▸ howner, ?_⟩
        · rw [hsame, hkid]
          exact hasked
        · rcases hexpires with heq | ⟨ids, ttl, hanew, hmem', heq⟩
          · rw [heq]
            exact hlong
          · rw [heq]
            exact hkept.hold ⟨ids, _, ttl⟩ (by simpa [operated, ha] using hanew) row hrow wakeAt
              hwaited.2.2 hwaited hfuture reservation hmem rfl hmem' hasked hlong
      · change row' ∈ e.after.queue.items at hrow'
        rw [hqueue] at hrow'
        exact absurd hwaits (not_waits_of_released hmem rfl hreleased hrow' (hsame ▸ hasked) wakeAt)

/-- What a run keeps, for the induction. -/
theorem guarded_of_kept {h : History (fleet d)} (hlegal : Throughout Legal h)
    (hkept : Throughout (fun _ e => WaitersKept e) h) :
    Ledger (stateAfter h).nextUuid (stateAfter h).queue ∧ Guarded h := by
  induction h with
  | nil =>
      refine ⟨⟨List.nodup_nil, fun _ h => (nomatch h), fun _ h => (nomatch h),
        fun _ h => (nomatch h)⟩, fun _ h => nomatch h⟩
  | cons e pre ih =>
      rcases ih hlegal.tail hkept.tail with ⟨hledger, hguarded⟩
      have hstay : e.after = stateAfter pre → Ledger (stateAfter (e :: pre)).nextUuid
          (stateAfter (e :: pre)).queue := by
        intro hsame
        simpa only [stateAfter, hsame] using hledger
      have hquiet : e.after = stateAfter pre → delayedItem e = none → Guarded (e :: pre) := by
        intro hsame hnone row hrow wakeAt hwaits hfuture
        have hafter : stateAfter (e :: pre) = stateAfter pre := hsame
        rw [hafter] at hrow ⊢
        rcases hguarded row hrow wakeAt hwaits
          (lt_of_le_of_lt hlegal.head.time_le hfuture) with ⟨owner, hby, hheld⟩
        exact ⟨owner, by simpa [delayedBy, hnone] using hby, hheld⟩
      cases ha : e.action with
      | start c =>
          have hsame := (hlegal.head.after_eq_of_start ha).trans hlegal.head.before_eq
          exact ⟨hstay hsame, hquiet hsame (by simp [delayedItem, ha])⟩
      | crash =>
          have hsame := (hlegal.head.after_eq_of_crash ha).trans hlegal.head.before_eq
          exact ⟨hstay hsame, hquiet hsame (by simp [delayedItem, ha])⟩
      | op o r =>
          have hperf : Store.Performed o e.time r (stateAfter pre) e.after := by
            have h := hlegal.head.executed ha
            rw [hlegal.head.before_eq] at h
            exact h
          have hledger' := hledger.performed hperf
          refine ⟨hledger', guarded_op ha hlegal.head ?_ hledger'.nodup hkept.head hguarded⟩
          rw [hlegal.head.before_eq]
          exact hledger.nodup

/-- An item that is delayed for a reservation and whose time has not come has a requested id that
is reserved now by somebody other than the worker that has delayed it. -/
def WaitersHeld (c : Config (fleet d)) : Prop :=
  ∀ row ∈ c.state.queue.items, ∀ wakeAt, WaitsUntil row wakeAt → c.now < wakeAt →
    ∃ owner, delayedBy c.history row.requestId = some owner ∧
      HeldByOther c.state.queue (requestedIds row) owner c.now

/-- In every run whose steps meet the condition the items wait for reservations that are there. -/
theorem id_waiters_held (d : Deployment) (sched : List (Config.Choice (fleet d)))
    (hkept : Throughout (fun _ e => WaitersKept e) (Config.after (fleet d) sched).history) :
    WaitersHeld (Config.after (fleet d) sched) := by
  have hexplained := Config.explained_after (fleet d) sched
  intro row hrow wakeAt hwaits hfuture
  rw [hexplained.state_eq] at hrow ⊢
  rcases (guarded_of_kept hexplained.legal hkept).2 row hrow wakeAt hwaits
    (lt_of_le_of_lt hexplained.time_le hfuture) with
    ⟨owner, hby, reservation, hmem, hasked, howner, hlong⟩
  exact ⟨owner, hby, reservation, hmem, hasked, howner, lt_of_lt_of_le hfuture hlong⟩

/-- Two readers ask for lists of papers that overlap. -/
def onePaper : ArxivRequest :=
  { clientId := "reader", idList := ["2401.00001"] }

def twoPapers : ArxivRequest :=
  { clientId := "reader", idList := ["2401.00001", "2401.00002"] }

/-- One worker has reserved the paper they share, another finds that out. -/
def overlappingLists : List (Config.Choice (fleet {})) :=
  .start 0 (.enqueueRequestForWork onePaper (Keys.requestCacheKey onePaper) .fetchMissing none) ::
      runs 0 2 ++
    .start 0 (.enqueueRequestForWork twoPapers (Keys.requestCacheKey twoPapers) .fetchMissing
      none) :: runs 0 2 ++
    .start 1 (.runOnce none) :: runs 1 5 ++
    .start 2 (.runOnce none) :: runs 2 5

/-- It delays its item, which then waits for the reservation. -/
theorem id_waiters_held_overlapping :
    ∃ row ∈ (Config.after (fleet {}) (overlappingLists ++ runs 2 2)).state.queue.items,
      WaitsUntil row (seconds 300) ∧
        HeldByOther (Config.after (fleet {}) (overlappingLists ++ runs 2 2)).state.queue
          (requestedIds row) (.worker 2) 0 := by
  -- The schedule is kept out of sight, or the elaborator runs it.
  generalize hsched : overlappingLists ++ runs 2 2 = sched
  have hkept : Throughout (fun _ e => WaitersKept e) (Config.after (fleet {}) sched).history := by
    subst hsched
    decide +kernel
  have hwaiting : ∃ row ∈ (Config.after (fleet {}) sched).state.queue.items,
      WaitsUntil row (seconds 300) ∧ (Config.after (fleet {}) sched).now = 0 ∧
        delayedBy (Config.after (fleet {}) sched).history row.requestId = some (.worker 2) := by
    subst hsched
    decide +kernel
  clear hsched
  rcases hwaiting with ⟨row, hrow, hwaits, hnow, hby⟩
  have hheld := id_waiters_held {} sched hkept row hrow (seconds 300) hwaits
  rw [hnow, hby] at hheld
  rcases hheld (by decide) with ⟨owner, howner, hother⟩
  cases howner
  exact ⟨row, hrow, hwaits, hother⟩

/-- The first worker fetches the paper in vain and releases it. -/
def fetchesInVain : List (Config.Choice (fleet {})) :=
  runs 1 21 ++
    .run 1 { fetch := .error (.nonRetryableFetchError "HTTP 400" (some 400)) } :: runs 1 12

/-- Only then the second worker writes the delay. -/
def releasedBefore : List (Config.Choice (fleet {})) :=
  overlappingLists ++ fetchesInVain ++ runs 2 2

/-- The item waits for a reservation that is no longer there. -/
theorem id_waiter_forgotten : ¬ WaitersHeld (Config.after (fleet {}) releasedBefore) := by
  generalize hsched : releasedBefore = sched
  intro hheld
  have hforgotten : ∃ row ∈ (Config.after (fleet {}) sched).state.queue.items,
      ∃ wakeAt ∈ row.nextAttemptAt, WaitsUntil row wakeAt ∧
        (Config.after (fleet {}) sched).now < wakeAt ∧
          (Config.after (fleet {}) sched).state.queue.reservations = [] := by
    subst hsched
    decide +kernel
  rcases hforgotten with ⟨row, hrow, wakeAt, _, hwaits, hfuture, hnone⟩
  rcases hheld row hrow wakeAt hwaits hfuture with ⟨_, _, reservation, hmem, _⟩
  rw [hnone] at hmem
  cases hmem

end Queue
end Huldra
