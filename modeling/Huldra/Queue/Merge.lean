import Huldra.Clients
import Huldra.Queue.Ledger
import Mathlib

/-!
# Merge — what joining makes of a queue item

A join rewrites the request of the row, or patches one field of it, depending on what the row was
asked for before.  What it comes to is a merge in a semilattice: `Wanted` is what a row is asked
for, `Wanted.merge` adds one call to it, and `wanted_join` says that a join is that merge.  The
order of the calls then does not matter.

A timeout of `inf` is the exception.  It is the longest there is, but JSON does not hold it, and the
row that took it over is read back as one that asks for the default.
-/

namespace Huldra
namespace Queue

open QueueTables
open Process.System (Config Event History Throughout Legal stateAfter)

/-! ## Maxima of folds -/

section Folds

variable {α β : Type} [LinearOrder β]

/-- The maximum of a fold is reached, and bounds everything that was folded in. -/
theorem isGreatest_foldl_max (f : α → β) (l : List α) : ∀ b : β,
    IsGreatest {x | x = b ∨ ∃ a ∈ l, f a = x} (l.foldl (fun m a => max m (f a)) b) := by
  induction l with
  | nil =>
      intro b
      simp
  | cons a l ih =>
      intro b
      rcases ih (max b (f a)) with ⟨hmem, hbound⟩
      refine ⟨?_, ?_⟩
      · rcases hmem with hmem | ⟨c, hc, hmem⟩
        · rcases max_choice b (f a) with hb | ha
          · exact Or.inl (hmem.trans hb)
          · exact Or.inr ⟨a, List.mem_cons_self, (hmem.trans ha).symm⟩
        · exact Or.inr ⟨c, List.mem_cons_of_mem _ hc, hmem⟩
      · rintro x (rfl | ⟨c, hc, rfl⟩)
        · exact (le_max_left x (f a)).trans (hbound (Or.inl rfl))
        · rcases List.mem_cons.1 hc with rfl | hc
          · exact (le_max_right b (f c)).trans (hbound (Or.inl rfl))
          · exact hbound (Or.inr ⟨c, hc, rfl⟩)

theorem isLeast_foldl_min (f : α → β) (l : List α) (b : β) :
    IsLeast {x | x = b ∨ ∃ a ∈ l, f a = x} (l.foldl (fun m a => min m (f a)) b) :=
  isGreatest_foldl_max (β := βᵒᵈ) f l b

end Folds

/-! ## The semilattice -/

/-- What is asked for in all: the highest priority, the longest timeout, the shortest refresh
interval (`⊤` where no refresh is asked for), demand without a budget, and the budgets. -/
@[ext]
structure Wanted where
  priority : Int
  timeout : Timeout
  interval : WithTop Nat
  unbudgeted : Bool
  budgets : Set Uuid

namespace Wanted

def merge (a b : Wanted) : Wanted :=
  { priority := max a.priority b.priority
    timeout := max a.timeout b.timeout
    interval := min a.interval b.interval
    unbudgeted := a.unbudgeted || b.unbudgeted
    budgets := a.budgets ∪ b.budgets }

theorem merge_right_comm (a b c : Wanted) : (a.merge b).merge c = (a.merge c).merge b := by
  simp only [merge, mk.injEq]
  exact ⟨max_right_comm _ _ _, max_right_comm _ _ _, min_right_comm _ _ _,
    Bool.or_right_comm _ _ _, Set.union_right_comm _ _ _⟩

/-- Everything in the list is merged in. -/
def mergeAll (a : Wanted) (l : List Wanted) : Wanted :=
  l.foldl merge a

theorem mergeAll_perm {l l' : List Wanted} (h : l.Perm l') (a : Wanted) :
    a.mergeAll l = a.mergeAll l' := by
  refine h.foldl_eq' ?_ a
  intro x _ y _ z
  exact merge_right_comm z x y

theorem mergeAll_cons (a b : Wanted) (l : List Wanted) :
    a.mergeAll (b :: l) = (a.merge b).mergeAll l := rfl

theorem priority_mergeAll (l : List Wanted) : ∀ a : Wanted,
    (a.mergeAll l).priority = l.foldl (fun m b => max m b.priority) a.priority := by
  induction l with
  | nil => exact fun _ => rfl
  | cons b l ih => exact fun a => ih (a.merge b)

theorem timeout_mergeAll (l : List Wanted) : ∀ a : Wanted,
    (a.mergeAll l).timeout = l.foldl (fun m b => max m b.timeout) a.timeout := by
  induction l with
  | nil => exact fun _ => rfl
  | cons b l ih => exact fun a => ih (a.merge b)

theorem interval_mergeAll (l : List Wanted) : ∀ a : Wanted,
    (a.mergeAll l).interval = l.foldl (fun m b => min m b.interval) a.interval := by
  induction l with
  | nil => exact fun _ => rfl
  | cons b l ih => exact fun a => ih (a.merge b)

theorem isGreatest_priority (a : Wanted) (l : List Wanted) :
    IsGreatest {p | p = a.priority ∨ ∃ b ∈ l, b.priority = p} (a.mergeAll l).priority := by
  rw [priority_mergeAll]
  exact isGreatest_foldl_max _ l _

theorem isGreatest_timeout (a : Wanted) (l : List Wanted) :
    IsGreatest {t | t = a.timeout ∨ ∃ b ∈ l, b.timeout = t} (a.mergeAll l).timeout := by
  rw [timeout_mergeAll]
  exact isGreatest_foldl_max _ l _

theorem isLeast_interval (a : Wanted) (l : List Wanted) :
    IsLeast {n | n = a.interval ∨ ∃ b ∈ l, b.interval = n} (a.mergeAll l).interval := by
  rw [interval_mergeAll]
  exact isLeast_foldl_min _ l _

theorem unbudgeted_mergeAll (l : List Wanted) : ∀ a : Wanted,
    (a.mergeAll l).unbudgeted = true ↔
      a.unbudgeted = true ∨ ∃ b ∈ l, b.unbudgeted = true := by
  induction l with
  | nil => simp [mergeAll]
  | cons b l ih =>
      intro a
      rw [mergeAll_cons, ih]
      simp [merge, or_assoc]

theorem mem_budgets_mergeAll (budgetId : Uuid) (l : List Wanted) : ∀ a : Wanted,
    budgetId ∈ (a.mergeAll l).budgets ↔
      budgetId ∈ a.budgets ∨ ∃ b ∈ l, budgetId ∈ b.budgets := by
  induction l with
  | nil => simp [mergeAll]
  | cons b l ih =>
      intro a
      rw [mergeAll_cons, ih]
      simp [merge, or_assoc]

end Wanted

/-! ## One join -/

/-- An `enqueue` call for a cache key: what it asks for, the clock it read, and the identifier it
would give to a new item. -/
structure EnqueueCall where
  request : ArxivRequest
  workKind : QueueWorkKind
  upstreamBudgetId : Option Uuid
  now : Int
  fresh : Uuid

variable {q q' : QueueTables} {cacheKey : CacheKey} {defaultTimeout : Timeout}

/-- The refresh interval a request of this kind asks for. -/
def interval (kind : QueueWorkKind) (request : ArxivRequest) : WithTop Nat :=
  if kind = .refreshCompleted then request.refreshIntervalSeconds else ⊤

theorem interval_eq_coe {kind : QueueWorkKind} {request : ArxivRequest} {n : Nat} :
    interval kind request = n ↔
      kind = .refreshCompleted ∧ request.refreshIntervalSeconds = n := by
  unfold interval
  split
  · rename_i hkind
    simp [hkind]
  · rename_i hkind
    simp [hkind]

theorem interval_of_refresh {kind : QueueWorkKind} (h : kind = .refreshCompleted)
    (request : ArxivRequest) : interval kind request = request.refreshIntervalSeconds :=
  interval_eq_coe.2 ⟨h, rfl⟩

/-- The transaction of the call. -/
def EnqueueCall.run (c : EnqueueCall) (cacheKey : CacheKey) (defaultTimeout : Timeout)
    (q : QueueTables) : Except Exn (QueueItem × Bool) × QueueTables :=
  q.enqueueRequestForWork c.fresh c.request cacheKey c.workKind c.upstreamBudgetId defaultTimeout
    c.now

/-- What the call leaves of the queue, if it joined a pending item. -/
def EnqueueCall.join? (c : EnqueueCall) (cacheKey : CacheKey) (defaultTimeout : Timeout)
    (q : QueueTables) : Option QueueTables :=
  match c.run cacheKey defaultTimeout q with
  | (.ok (_, true), joined) => some joined
  | _ => none

/-- What the call asks for. -/
def EnqueueCall.wanted (c : EnqueueCall) (defaultTimeout : Timeout) : Wanted :=
  { priority := c.request.priority
    timeout := c.request.timeoutSeconds.getD defaultTimeout
    interval := interval c.workKind c.request
    unbudgeted := c.upstreamBudgetId.isNone
    budgets := {budgetId | c.upstreamBudgetId = some budgetId} }

/-- What a row of the queue is asked for. -/
def wanted (q : QueueTables) (row : QueueRow) (defaultTimeout : Timeout) : Wanted :=
  { priority := row.priority
    timeout := row.request.timeoutSeconds.getD defaultTimeout
    interval := interval row.workKind row.request
    unbudgeted := row.unbudgetedDemand
    budgets := {budgetId | (row.requestId, budgetId) ∈ q.memberships.map key} }

/-- The request and the kind of work that a join decides on. -/
def joinedRequest (existing : QueueRow) (c : EnqueueCall) (defaultTimeout : Timeout) :
    ArxivRequest × QueueWorkKind :=
  (joinRequest existing c.request c.workKind defaultTimeout).getD
    (existing.request, existing.workKind)

/-- The replaced request, or the patched one, asks for the merge of both. -/
theorem joinedRequest_spec (existing : QueueRow) (c : EnqueueCall) (defaultTimeout : Timeout) :
    (joinedRequest existing c defaultTimeout).1.priority =
        max existing.request.priority c.request.priority ∧
      (joinedRequest existing c defaultTimeout).1.timeoutSeconds.getD defaultTimeout =
        max (existing.request.timeoutSeconds.getD defaultTimeout)
          (c.request.timeoutSeconds.getD defaultTimeout) ∧
      interval (joinedRequest existing c defaultTimeout).2
          (joinedRequest existing c defaultTimeout).1 =
        min (interval existing.workKind existing.request) (interval c.workKind c.request) := by
  -- Where nothing is patched, the timeout and the priority are the merged ones already.
  have hkept : ∀ {r : ArxivRequest} {timeout : Timeout} {priority : Int},
      ¬(r.timeoutSeconds ≠ some timeout ∨ r.priority ≠ priority) →
        r.priority = priority ∧ r.timeoutSeconds.getD defaultTimeout = timeout := by
    intro r timeout priority h
    rw [not_or, not_not, not_not] at h
    exact ⟨h.2, congrArg (Option.getD · defaultTimeout) h.1⟩
  unfold joinedRequest joinRequest interval
  by_cases hrefresh : c.workKind = .refreshCompleted
  · by_cases hexisting : existing.workKind ≠ .refreshCompleted
    · -- The row is promoted: its request is replaced as a whole.
      simp only [if_pos hrefresh, if_pos hexisting, if_neg hexisting, Option.getD_some]
      split
      · exact ⟨rfl, rfl, by simp⟩
      · rename_i hsame
        exact ⟨(hkept hsame).1, (hkept hsame).2, by simp⟩
    · simp only [if_pos hrefresh, if_neg hexisting, if_pos (not_not.1 hexisting)]
      by_cases hshorter : c.request.refreshIntervalSeconds < existing.request.refreshIntervalSeconds
      · have hmin := min_eq_right (WithTop.coe_le_coe.2 hshorter.le)
        simp only [if_pos hshorter, Option.getD_some]
        split
        · exact ⟨rfl, rfl, (if_pos (not_not.1 hexisting)).trans hmin.symm⟩
        · rename_i hsame
          exact ⟨(hkept hsame).1, (hkept hsame).2, (if_pos (not_not.1 hexisting)).trans hmin.symm⟩
      · have hmin := min_eq_left (WithTop.coe_le_coe.2 (not_lt.1 hshorter))
        simp only [if_neg hshorter, Option.getD_none]
        split
        · exact ⟨rfl, rfl, (if_pos (not_not.1 hexisting)).trans hmin.symm⟩
        · rename_i hsame
          exact ⟨(hkept hsame).1, (hkept hsame).2, (if_pos (not_not.1 hexisting)).trans hmin.symm⟩
  · simp only [if_neg hrefresh, Option.getD_none, min_top_right]
    split
    · exact ⟨rfl, rfl, rfl⟩
    · rename_i hsame
      exact ⟨(hkept hsame).1, (hkept hsame).2, rfl⟩

/-- Where `inf` is not asked for, or is the default, the stored request asks for the same. -/
theorem timeout_stored {request : ArxivRequest} (h : request.timeoutSeconds = some ⊤ →
    defaultTimeout = ⊤) :
    request.stored.timeoutSeconds.getD defaultTimeout =
      request.timeoutSeconds.getD defaultTimeout := by
  unfold ArxivRequest.stored
  cases htimeout : request.timeoutSeconds with
  | none => rfl
  | some timeout =>
      by_cases htop : timeout = ⊤
      · rw [htop, h (by rw [htimeout, htop])]
        rfl
      · rw [Option.filter_some, if_pos (by simpa using htop)]

/-- The request that a row holds has been stored before. -/
theorem Written.stored {row : QueueRow} (h : Written row) : row.request.stored = row.request := by
  have hkept : row.request.timeoutSeconds.filter (· ≠ ⊤) = row.request.timeoutSeconds := by
    cases htimeout : row.request.timeoutSeconds with
    | none => rfl
    | some timeout =>
        have hfinite : timeout ≠ ⊤ := fun htop => h.timeout (htimeout.trans (congrArg some htop))
        rw [Option.filter_some, if_pos (by simpa using hfinite)]
  unfold ArxivRequest.stored
  rw [hkept]

/-- A join decides on `inf` only where it is asked for. -/
theorem joinedRequest_endless {existing : QueueRow} (hwritten : Written existing) {c : EnqueueCall}
    (hfinite : c.request.timeoutSeconds = some ⊤ → defaultTimeout = ⊤)
    (h : (joinedRequest existing c defaultTimeout).1.timeoutSeconds = some ⊤) :
    defaultTimeout = ⊤ := by
  have hmax := (joinedRequest_spec existing c defaultTimeout).2.1
  rw [h, Option.getD_some] at hmax
  have hasks : ∀ {timeout : Option Timeout}, (timeout = some ⊤ → defaultTimeout = ⊤) →
      timeout.getD defaultTimeout = ⊤ → defaultTimeout = ⊤ := by
    intro timeout hendless htop
    cases timeout with
    | none => exact htop
    | some timeout => exact hendless (congrArg some htop)
  rcases max_choice (existing.request.timeoutSeconds.getD defaultTimeout)
    (c.request.timeoutSeconds.getD defaultTimeout) with hrow | hcall
  · exact hasks (fun hendless => absurd hendless hwritten.timeout) (hrow.symm.trans hmax.symm)
  · exact hasks hfinite (hcall.symm.trans hmax.symm)

/-- The pending row of a key is found again after an update that leaves it pending. -/
theorem pendingItem?_updateItem {row : QueueRow} (hpending : q.pendingItem? cacheKey = some row)
    {requestId : Uuid} (hid : row.requestId = requestId) {f : QueueRow → QueueRow}
    (hf : ∀ row, (f row).cacheKey = row.cacheKey ∧ (f row).status = row.status ∧
      (f row).createdAt = row.createdAt) :
    (q.updateItem requestId f).pendingItem? cacheKey = some (f row) := by
  have hrow : ∀ row : QueueRow,
      (if row.requestId = requestId then f row else row).cacheKey = row.cacheKey ∧
        (if row.requestId = requestId then f row else row).status = row.status ∧
        (if row.requestId = requestId then f row else row).createdAt = row.createdAt := by
    intro row
    split
    · exact hf row
    · exact ⟨rfl, rfl, rfl⟩
  have hsorted := List.map_insertionSort (r := fun a b : QueueRow => a.createdAt ≤ b.createdAt)
    (s := fun a b : QueueRow => a.createdAt ≤ b.createdAt)
    (fun row => if row.requestId = requestId then f row else row)
    (q.items.filter fun row => row.cacheKey = cacheKey && row.status.pending)
    (fun a _ b _ => by rw [(hrow a).2.2, (hrow b).2.2])
  unfold pendingItem? updateItem at *
  simp only [List.filter_map, Function.comp_def, (hrow _).1, (hrow _).2.1]
  rw [← hsorted, List.head?_map, hpending, Option.map_some, if_pos hid]

theorem pendingItem?_congr {q' : QueueTables} (h : q'.items = q.items) (cacheKey : CacheKey) :
    q'.pendingItem? cacheKey = q.pendingItem? cacheKey := by
  unfold pendingItem?
  rw [h]

/-- The first half of a join: the pending row holds the request that was decided on. -/
theorem mergeRequest_pending (defaultTimeout : Timeout) {existing : QueueRow}
    (hpending : q.pendingItem? cacheKey = some existing) (hwritten : Written existing)
    (c : EnqueueCall) :
    ∃ row, (q.mergeRequest existing c.request c.workKind defaultTimeout c.now).pendingItem?
        cacheKey = some row ∧
      row.request = (joinedRequest existing c defaultTimeout).1.stored ∧
      row.workKind = (joinedRequest existing c defaultTimeout).2 ∧ Written row ∧
      row.unbudgetedDemand = existing.unbudgetedDemand ∧ Joined existing row := by
  unfold mergeRequest joinedRequest
  split
  case h_1 replacement kind hjoin =>
    have hrow : Written { existing with
        workKind := kind, request := replacement.stored, priority := replacement.priority,
        updatedAt := c.now } := ⟨rfl, replacement.timeoutSeconds_stored⟩
    refine ⟨_, pendingItem?_updateItem hpending rfl fun _ => ⟨rfl, rfl, rfl⟩, ?_⟩
    rw [hjoin]
    exact ⟨rfl, rfl, hrow, rfl, rfl, rfl, rfl, Or.inr ⟨hrow, joinRequest_kind hjoin⟩, rfl, rfl,
      rfl⟩
  case h_2 hjoin =>
    rw [hjoin]
    exact ⟨existing, hpending, hwritten.stored.symm, rfl, hwritten, rfl, rfl, rfl, rfl, Or.inl rfl,
      rfl, rfl, rfl⟩

theorem mergeRequest_memberships (existing : QueueRow) (c : EnqueueCall) :
    (q.mergeRequest existing c.request c.workKind defaultTimeout c.now).memberships =
      q.memberships := by
  unfold mergeRequest
  split <;> rfl

/-- The second half: the demand is noted, with a membership where it has a budget. -/
theorem joinDemand_pending {existing row : QueueRow} (hid : row.requestId = existing.requestId)
    (hunbudgeted : row.unbudgetedDemand = existing.unbudgetedDemand)
    (hpending : q.pendingItem? cacheKey = some row) (budgetId : Option Uuid) (now : Int) :
    ∃ row', (q.joinDemand existing budgetId now).pendingItem? cacheKey = some row' ∧
      asked row' = asked row ∧ row'.unbudgetedDemand = (row.unbudgetedDemand || budgetId.isNone) ∧
      Joined row row' ∧
      ∀ b, (row'.requestId, b) ∈ (q.joinDemand existing budgetId now).memberships.map key ↔
        (row.requestId, b) ∈ q.memberships.map key ∨ budgetId = some b := by
  cases budgetId with
  | none =>
      unfold joinDemand
      simp only
      split
      · rename_i hdemand
        refine ⟨row, hpending, rfl, ?_, ⟨rfl, rfl, rfl, Or.inl rfl, rfl, rfl, rfl⟩, by simp⟩
        rw [hunbudgeted, hdemand]
        rfl
      · refine ⟨_, pendingItem?_updateItem hpending hid fun _ => ⟨rfl, rfl, rfl⟩, ?_⟩
        exact ⟨rfl, by simp, ⟨rfl, rfl, rfl, Or.inl rfl, rfl, rfl, rfl⟩, by simp⟩
  | some budgetId =>
      unfold joinDemand
      simp only
      refine ⟨_, (pendingItem?_congr (insertMembership_items _) _).trans
        (pendingItem?_updateItem hpending hid fun _ => ⟨rfl, rfl, rfl⟩), ?_⟩
      refine ⟨rfl, by simp, ⟨rfl, rfl, rfl, Or.inl rfl, rfl, rfl, rfl⟩, ?_⟩
      intro b
      rw [mem_keys_insertMembership, updateItem_memberships]
      refine or_congr_right ?_
      simp [key, hid, eq_comm]

/-- A call that joins has joined the pending item of its key. -/
theorem join?_eq_some {existing : QueueRow} (hpending : q.pendingItem? cacheKey = some existing)
    {c : EnqueueCall} (hjoin : c.join? cacheKey defaultTimeout q = some q') :
    q' = q.joinPending existing c.request c.workKind c.upstreamBudgetId defaultTimeout c.now := by
  unfold EnqueueCall.join? EnqueueCall.run QueueTables.enqueueRequestForWork at hjoin
  rw [hpending] at hjoin
  dsimp only at hjoin
  by_cases hbudget : c.upstreamBudgetId.any fun budgetId => (q.budget? budgetId).isNone
  · rw [if_pos hbudget] at hjoin
    cases hjoin
  · rw [if_neg hbudget] at hjoin
    split at hjoin
    · rename_i hreads
      split at hreads
      · cases hreads
        exact (Option.some.inj hjoin).symm
      · cases hreads
    · cases hjoin

/-- The pending row after a join, with the request that was decided on. -/
theorem joined_pending {existing : QueueRow} (hpending : q.pendingItem? cacheKey = some existing)
    (hwritten : Written existing) {c : EnqueueCall}
    (hjoin : c.join? cacheKey defaultTimeout q = some q') :
    ∃ row, q'.pendingItem? cacheKey = some row ∧ Written row ∧ Joined existing row ∧
      row.request = (joinedRequest existing c defaultTimeout).1.stored ∧
      row.workKind = (joinedRequest existing c defaultTimeout).2 ∧
      row.unbudgetedDemand = (existing.unbudgetedDemand || c.upstreamBudgetId.isNone) ∧
      ∀ budgetId, (row.requestId, budgetId) ∈ q'.memberships.map key ↔
        (existing.requestId, budgetId) ∈ q.memberships.map key ∨
          c.upstreamBudgetId = some budgetId := by
  rcases mergeRequest_pending defaultTimeout hpending hwritten c with
    ⟨merged, hmerged, hrequest, hkind, hmergedWritten, hunbudgeted, hjoined⟩
  rcases joinDemand_pending hjoined.requestId hunbudgeted hmerged c.upstreamBudgetId c.now with
    ⟨row, hrow, hasked, hdemand, hjoined', hkeys⟩
  rw [join?_eq_some hpending hjoin]
  refine ⟨row, hrow, hmergedWritten.of_asked hasked, hjoined.trans hjoined', ?_, ?_, ?_, ?_⟩
  · exact (congrArg (fun asked => asked.1) hasked).trans hrequest
  · exact (congrArg (fun asked => asked.2.2) hasked).trans hkind
  · rw [hdemand, hunbudgeted]
  · intro budgetId
    refine (hkeys budgetId).trans (or_congr_left ?_)
    rw [mergeRequest_memberships, hjoined.requestId]

/-- A join is a merge, unless `inf` is asked for and is not the default. -/
theorem wanted_join {existing : QueueRow} (hpending : q.pendingItem? cacheKey = some existing)
    (hwritten : Written existing) {c : EnqueueCall}
    (hfinite : c.request.timeoutSeconds = some ⊤ → defaultTimeout = ⊤)
    (hjoin : c.join? cacheKey defaultTimeout q = some q') :
    ∃ row, q'.pendingItem? cacheKey = some row ∧
      wanted q' row defaultTimeout =
        (wanted q existing defaultTimeout).merge (c.wanted defaultTimeout) ∧
      Written row ∧ Joined existing row := by
  rcases joined_pending hpending hwritten hjoin with
    ⟨row, hrow, hrowWritten, hjoined, hrequest, hkind, hdemand, hkeys⟩
  rcases joinedRequest_spec existing c defaultTimeout with ⟨hmax, htimeout, hinterval⟩
  refine ⟨row, hrow, ?_, hrowWritten, hjoined⟩
  apply Wanted.ext
  · simp only [wanted, Wanted.merge, EnqueueCall.wanted]
    rw [hrowWritten.priority, hwritten.priority, hrequest]
    exact hmax
  · calc row.request.timeoutSeconds.getD defaultTimeout
        = (joinedRequest existing c defaultTimeout).1.stored.timeoutSeconds.getD
            defaultTimeout := by rw [hrequest]
      _ = (joinedRequest existing c defaultTimeout).1.timeoutSeconds.getD defaultTimeout :=
          timeout_stored (joinedRequest_endless hwritten hfinite)
      _ = max (existing.request.timeoutSeconds.getD defaultTimeout)
            (c.request.timeoutSeconds.getD defaultTimeout) := htimeout
  · simp only [wanted, Wanted.merge, EnqueueCall.wanted]
    rw [hrequest, hkind]
    exact hinterval
  · exact hdemand
  · ext budgetId
    exact hkeys budgetId

/-! ## Any number of joins -/

/-- The calls, one after the other, if all of them join. -/
def joinAll (cacheKey : CacheKey) (defaultTimeout : Timeout) (calls : List EnqueueCall)
    (q : QueueTables) : Option QueueTables :=
  calls.foldlM (fun q c => c.join? cacheKey defaultTimeout q) q

theorem joinAll_cons (c : EnqueueCall) (calls : List EnqueueCall) :
    joinAll cacheKey defaultTimeout (c :: calls) q =
      (c.join? cacheKey defaultTimeout q).bind (joinAll cacheKey defaultTimeout calls) := rfl

/-- Whatever is asked for, the row that was joined stays pending, and keeps its place. -/
theorem joinAll_pending (calls : List EnqueueCall) : ∀ {q : QueueTables} {existing : QueueRow},
    q.pendingItem? cacheKey = some existing → Written existing →
    joinAll cacheKey defaultTimeout calls q = some q' →
    ∃ row, q'.pendingItem? cacheKey = some row ∧ Written row ∧ Joined existing row := by
  induction calls with
  | nil =>
      intro q existing hpending hwritten hjoin
      cases hjoin
      exact ⟨existing, hpending, hwritten, rfl, rfl, rfl, Or.inl rfl, rfl, rfl, rfl⟩
  | cons c calls ih =>
      intro q existing hpending hwritten hjoin
      rw [joinAll_cons, Option.bind_eq_some_iff] at hjoin
      rcases hjoin with ⟨joined, hfirst, hrest⟩
      rcases joined_pending hpending hwritten hfirst with ⟨row, hrow, hrowWritten, hjoined, _⟩
      rcases ih hrow hrowWritten hrest with ⟨row', hrow', hrowWritten', hjoined'⟩
      exact ⟨row', hrow', hrowWritten', hjoined.trans hjoined'⟩

/-- All that is asked for is merged into the row. -/
theorem wanted_joins (calls : List EnqueueCall) : ∀ {q : QueueTables} {existing : QueueRow},
    q.pendingItem? cacheKey = some existing → Written existing →
    (∀ c ∈ calls, c.request.timeoutSeconds = some ⊤ → defaultTimeout = ⊤) →
    joinAll cacheKey defaultTimeout calls q = some q' →
    ∃ row, q'.pendingItem? cacheKey = some row ∧
      wanted q' row defaultTimeout = (wanted q existing defaultTimeout).mergeAll
        (calls.map fun c => c.wanted defaultTimeout) ∧
      Joined existing row := by
  induction calls with
  | nil =>
      intro q existing hpending _ _ hjoin
      cases hjoin
      exact ⟨existing, hpending, rfl, rfl, rfl, rfl, Or.inl rfl, rfl, rfl, rfl⟩
  | cons c calls ih =>
      intro q existing hpending hwritten hfinite hjoin
      rw [joinAll_cons, Option.bind_eq_some_iff] at hjoin
      rcases hjoin with ⟨joined, hfirst, hrest⟩
      rcases wanted_join hpending hwritten (hfinite c List.mem_cons_self) hfirst with
        ⟨row, hrow, hwanted, hrowWritten, hjoined⟩
      rcases ih hrow hrowWritten (fun c' hc' => hfinite c' (List.mem_cons_of_mem _ hc')) hrest with
        ⟨row', hrow', hwanted', hjoined'⟩
      refine ⟨row', hrow', ?_, hjoined.trans hjoined'⟩
      rw [List.map_cons, Wanted.mergeAll_cons, ← hwanted]
      exact hwanted'

theorem budgets_joinPending (existing : QueueRow) (c : EnqueueCall) :
    (q.joinPending existing c.request c.workKind c.upstreamBudgetId defaultTimeout
      c.now).budgets = q.budgets := by
  have hmerge : (q.mergeRequest existing c.request c.workKind defaultTimeout c.now).budgets =
      q.budgets := by
    unfold mergeRequest
    split <;> rfl
  unfold joinPending joinDemand
  split
  · split <;> exact hmerge
  · rw [insertMembership_budgets]
    exact hmerge

/-! ## Calls that join -/

/-- The call finds the budget it names. -/
def EnqueueCall.Funded (c : EnqueueCall) (q : QueueTables) : Prop :=
  ∀ budgetId, c.upstreamBudgetId = some budgetId → (q.budget? budgetId).isSome = true

/-- All requests of the queue can be read back. -/
def Readable (q : QueueTables) : Prop :=
  ∀ row ∈ q.items, readsBack row.request = true

theorem readsBack_iff {request : ArxivRequest} (hdefault : 0 < defaultTimeout) :
    readsBack request = true ↔ 0 < request.timeoutSeconds.getD defaultTimeout := by
  unfold readsBack
  cases request.timeoutSeconds with
  | none => simp [hdefault]
  | some timeout => simp

theorem readsBack_stored {request : ArxivRequest} (h : readsBack request = true) :
    readsBack request.stored = true := by
  unfold readsBack ArxivRequest.stored at *
  cases htimeout : request.timeoutSeconds with
  | none => rfl
  | some timeout =>
      rw [htimeout] at h
      rw [Option.filter_some]
      split
      · exact h
      · rfl

/-- What a join decides on can be read back, where both requests can. -/
theorem joinedRequest_reads (hdefault : 0 < defaultTimeout) {existing : QueueRow} {c : EnqueueCall}
    (hexisting : readsBack existing.request = true) :
    readsBack (joinedRequest existing c defaultTimeout).1 = true := by
  rw [readsBack_iff hdefault] at hexisting ⊢
  rw [(joinedRequest_spec existing c defaultTimeout).2.1]
  exact lt_max_of_lt_left hexisting

theorem readable_mergeRequest (hdefault : 0 < defaultTimeout) {existing : QueueRow}
    (hexisting : readsBack existing.request = true) (c : EnqueueCall) (h : Readable q) :
    Readable (q.mergeRequest existing c.request c.workKind defaultTimeout c.now) := by
  have hreads := joinedRequest_reads hdefault (c := c) hexisting
  unfold joinedRequest at hreads
  unfold mergeRequest
  split
  case h_1 replacement kind hjoin =>
    rw [hjoin] at hreads
    intro row hrow
    rcases List.mem_map.1 hrow with ⟨old, hold, rfl⟩
    split
    · exact readsBack_stored hreads
    · exact h old hold
  case h_2 => exact h

theorem readable_joinDemand (existing : QueueRow) (budgetId : Option Uuid) (now : Int)
    (h : Readable q) : Readable (q.joinDemand existing budgetId now) := by
  have hupdate : ∀ {f : QueueRow → QueueRow}, (∀ row, (f row).request = row.request) →
      Readable (q.updateItem existing.requestId f) := by
    intro f hf row hrow
    rcases List.mem_map.1 hrow with ⟨old, hold, rfl⟩
    split
    · rw [hf]
      exact h old hold
    · exact h old hold
  unfold joinDemand
  split
  · split
    · exact h
    · exact hupdate fun _ => rfl
  · intro row hrow
    rw [insertMembership_items] at hrow
    refine hupdate ?_ row hrow
    exact fun _ => rfl

/-- A call that finds a pending item and its budget joins, where the default is a timeout too. -/
theorem join?_isSome (hdefault : 0 < defaultTimeout) (h : Readable q) {existing : QueueRow}
    (hpending : q.pendingItem? cacheKey = some existing) {c : EnqueueCall} (hfunded : c.Funded q) :
    ∃ joined, c.join? cacheKey defaultTimeout q = some joined ∧ Readable joined ∧
      joined.budgets = q.budgets := by
  have hexisting := h existing (mem_of_pendingItem? hpending).1
  have hjoined : Readable (q.joinPending existing c.request c.workKind c.upstreamBudgetId
      defaultTimeout c.now) :=
    readable_joinDemand existing _ _ (readable_mergeRequest hdefault hexisting c h)
  have hbudget : ¬(c.upstreamBudgetId.any fun budgetId => (q.budget? budgetId).isNone) = true := by
    intro hany
    rcases (Option.any_eq_true_iff_get _ _).1 hany with ⟨hsome, hnone⟩
    have hfound := hfunded _ (Option.some_get hsome).symm
    rw [Option.isNone_iff_eq_none] at hnone
    rw [hnone] at hfound
    cases hfound
  have hread : readsBack (((q.joinPending existing c.request c.workKind c.upstreamBudgetId
      defaultTimeout c.now).item? existing.requestId).getD existing).request = true := by
    cases hitem : (q.joinPending existing c.request c.workKind c.upstreamBudgetId defaultTimeout
        c.now).item? existing.requestId with
    | none => exact hexisting
    | some row => exact hjoined row (List.mem_of_find?_eq_some hitem)
  refine ⟨_, ?_, hjoined, budgets_joinPending existing c⟩
  unfold EnqueueCall.join? EnqueueCall.run QueueTables.enqueueRequestForWork
  rw [if_neg hbudget, hpending]
  dsimp only
  rw [if_pos hread]

/-- Calls that find their budgets join, one after the other, in whatever order they come. -/
theorem joinAll_isSome (hdefault : 0 < defaultTimeout) (calls : List EnqueueCall) :
    ∀ {q : QueueTables} {existing : QueueRow}, q.pendingItem? cacheKey = some existing →
      Written existing → Readable q → (∀ c ∈ calls, c.Funded q) →
      (joinAll cacheKey defaultTimeout calls q).isSome = true := by
  induction calls with
  | nil => exact fun _ _ _ _ => rfl
  | cons c calls ih =>
      intro q existing hpending hwritten hreads hfunded
      rcases join?_isSome hdefault hreads hpending (hfunded c List.mem_cons_self) with
        ⟨joined, hjoin, hreads', hbudgets⟩
      rcases joined_pending hpending hwritten hjoin with ⟨row, hrow, hrowWritten, _⟩
      rw [joinAll_cons, hjoin]
      refine ih hrow hrowWritten hreads' fun c' hc' budgetId hbudget => ?_
      have hfound := hfunded c' (List.mem_cons_of_mem _ hc') budgetId hbudget
      unfold budget? at hfound ⊢
      rw [hbudgets]
      exact hfound

/-! ## The rows are written -/

/-- Every row holds a request that has been through JSON, and is as urgent as it. -/
def AllWritten (q : QueueTables) : Prop :=
  ∀ row ∈ q.items, Written row

theorem Joined.written {row row' : QueueRow} (h : Joined row row') (hrow : Written row) :
    Written row' := by
  rcases h.asked with hasked | ⟨hwritten, _⟩
  · exact hrow.of_asked hasked
  · exact hwritten

theorem RowEffect.written {o : Op} {t : Int} {row row' : QueueRow}
    (h : RowEffect o t q row row') (hrow : Written row) : Written row' := by
  unfold RowEffect at h
  split at h
  case h_1 => rw [h.2]; exact hrow.of_asked rfl
  case h_2 => rw [h.2]; exact hrow.of_asked rfl
  case h_3 => rw [h.2.2]; exact hrow.of_asked rfl
  case h_4 => rw [h.2]; exact hrow.of_asked rfl
  case h_5 => exact h.elim (fun h => hrow.of_asked h.asked) fun h => hrow.of_asked h.2.asked
  case h_6 => exact hrow.of_asked h.2.asked
  case h_7 => exact hrow.of_asked h.2.asked
  case h_8 => exact h.written hrow
  case h_9 => exact h.written hrow
  case h_10 => rw [h.2.2.2]; exact hrow.of_asked rfl
  case h_11 => exact h.elim

theorem AllWritten.performed {o : Op} {t : Int} {r : Except Exn o.Res} {s s' : Store}
    (hnodup : (s.queue.items.map (·.requestId)).Nodup) (h : Store.Performed o t r s s')
    (hq : AllWritten s.queue) : AllWritten s'.queue := by
  rcases itemsEffect_of_performed hnodup h with ⟨change, new, heffect⟩
  intro row' hrow'
  rw [heffect.items, List.mem_append] at hrow'
  rcases hrow' with hold | hnew
  · rcases List.mem_map.1 hold with ⟨row, hrow, rfl⟩
    rcases heffect.rows row hrow with hsame | hchange
    · rw [hsame]
      exact hq row hrow
    · exact hchange.written (hq row hrow)
  · rcases heffect.new with hnone | ⟨newcomer, hsingle, hfresh⟩
    · rw [hnone] at hnew
      cases hnew
    · rw [hsingle, List.mem_singleton] at hnew
      rw [hnew]
      exact hfresh.written

theorem written_after (d : Deployment) (sched : List (Config.Choice (fleet d))) :
    AllWritten (Config.after (fleet d) sched).state.queue := by
  have hstart : Ledger 0 ({} : QueueTables) ∧ AllWritten ({} : QueueTables) :=
    ⟨⟨List.nodup_nil, fun _ h => (nomatch h), fun _ h => (nomatch h), fun _ h => (nomatch h)⟩,
      fun _ h => nomatch h⟩
  have hkept := @Config.state_after huldra (fleet d)
    (fun s => Ledger s.nextUuid s.queue ∧ AllWritten s.queue) hstart
    (fun o t input s ⟨hledger, hwritten⟩ =>
      have hperf : Store.Performed o t (.error .unexpected) s (Store.exec o t input s).2 :=
        Or.inr ⟨.unexpected, rfl, rfl, Or.inr ⟨input, rfl⟩⟩
      ⟨hledger.performed hperf, hwritten.performed hledger.nodup hperf⟩) sched
  exact hkept.2

/-- A refresh call that finds pending work joins it like any other. -/
theorem enqueueRefreshIfDue_join (s : Store) {existing : QueueRow} (request : ArxivRequest)
    (current : Int) (hpending : s.queue.pendingItem? cacheKey = some existing) :
    (s.enqueueRefreshIfDue request cacheKey defaultTimeout current).2.queue =
      (EnqueueCall.run ⟨request, .refreshCompleted, none, current, s.nextUuid⟩ cacheKey
        defaultTimeout s.queue).2 := by
  unfold Store.enqueueRefreshIfDue EnqueueCall.run
  simp [hpending]

/-! ## The merge of all calls -/

/-- The row is the merge of the item that was pending and of the calls that joined it: it asks for
the highest priority, the longest timeout and the shortest refresh interval of them all, for a
refresh where one of them does, and for the demand of all; it keeps its place in the queue; and any
other order of the calls makes the same of it. -/
structure Merged (calls : List EnqueueCall) (cacheKey : CacheKey) (defaultTimeout : Timeout)
    (q : QueueTables) (existing : QueueRow) (q' : QueueTables) (row : QueueRow) : Prop where
  requestId : row.requestId = existing.requestId
  priority : IsGreatest {p | p = existing.priority ∨ ∃ c ∈ calls, c.request.priority = p}
    row.priority
  timeout : IsGreatest {t | t = existing.request.timeoutSeconds.getD defaultTimeout ∨
      ∃ c ∈ calls, c.request.timeoutSeconds.getD defaultTimeout = t}
    (row.request.timeoutSeconds.getD defaultTimeout)
  workKind : row.workKind = .refreshCompleted ↔
    existing.workKind = .refreshCompleted ∨ ∃ c ∈ calls, c.workKind = .refreshCompleted
  interval : row.workKind = .refreshCompleted →
    IsLeast {n | (existing.workKind = .refreshCompleted ∧
          existing.request.refreshIntervalSeconds = n) ∨
        ∃ c ∈ calls, c.workKind = .refreshCompleted ∧ c.request.refreshIntervalSeconds = n}
      row.request.refreshIntervalSeconds
  unbudgetedDemand : row.unbudgetedDemand = true ↔
    existing.unbudgetedDemand = true ∨ ∃ c ∈ calls, c.upstreamBudgetId = none
  budgets : ∀ budgetId, (row.requestId, budgetId) ∈ q'.memberships.map key ↔
    (existing.requestId, budgetId) ∈ q.memberships.map key ∨
      ∃ c ∈ calls, c.upstreamBudgetId = some budgetId
  standing : standing row = standing existing
  attemptsTotal : row.attemptsTotal = existing.attemptsTotal
  reordered : ∀ calls' q'', calls.Perm calls' →
    joinAll cacheKey defaultTimeout calls' q = some q'' →
    ∃ row', q''.pendingItem? cacheKey = some row' ∧
      wanted q'' row' defaultTimeout = wanted q' row defaultTimeout

/-- A row cannot hold the `inf` of a call. -/
theorem Merged.finite {calls : List EnqueueCall} {existing row : QueueRow}
    (h : Merged calls cacheKey defaultTimeout q existing q' row) (hwritten : Written row) :
    (∀ c ∈ calls, c.request.timeoutSeconds ≠ some ⊤) ∨ defaultTimeout = ⊤ := by
  rw [or_iff_not_imp_right]
  intro hdefault c hc hendless
  have hlongest : ⊤ ≤ row.request.timeoutSeconds.getD defaultTimeout :=
    h.timeout.2 (Or.inr ⟨c, hc, by rw [hendless]; rfl⟩)
  cases htimeout : row.request.timeoutSeconds with
  | none =>
      rw [htimeout] at hlongest
      exact hdefault (top_le_iff.1 hlongest)
  | some timeout =>
      rw [htimeout] at hlongest
      exact hwritten.timeout (htimeout.trans (congrArg some (top_le_iff.1 hlongest)))

/-- Without an `inf` the calls are merged. -/
theorem merged_of_finite {calls : List EnqueueCall} {existing : QueueRow}
    (hpending : q.pendingItem? cacheKey = some existing) (hwritten : Written existing)
    (hfinite : ∀ c ∈ calls, c.request.timeoutSeconds = some ⊤ → defaultTimeout = ⊤)
    (hjoin : joinAll cacheKey defaultTimeout calls q = some q') :
    ∃ row, q'.pendingItem? cacheKey = some row ∧
      Merged calls cacheKey defaultTimeout q existing q' row := by
  rcases wanted_joins calls hpending hwritten hfinite hjoin with ⟨row, hrow, hwanted, hjoined⟩
  have hleast : IsLeast {n | n = interval existing.workKind existing.request ∨
      ∃ c ∈ calls, interval c.workKind c.request = n} (interval row.workKind row.request) := by
    have hleast := Wanted.isLeast_interval (wanted q existing defaultTimeout)
      (calls.map fun c => c.wanted defaultTimeout)
    rw [← hwanted] at hleast
    simpa [wanted, EnqueueCall.wanted] using hleast
  refine ⟨row, hrow, hjoined.requestId, ?_, ?_, ?_, ?_, ?_, ?_, hjoined.standing,
    hjoined.attempts, ?_⟩
  · have hgreatest := Wanted.isGreatest_priority (wanted q existing defaultTimeout)
      (calls.map fun c => c.wanted defaultTimeout)
    rw [← hwanted] at hgreatest
    simpa [wanted, EnqueueCall.wanted] using hgreatest
  · have hgreatest := Wanted.isGreatest_timeout (wanted q existing defaultTimeout)
      (calls.map fun c => c.wanted defaultTimeout)
    rw [← hwanted] at hgreatest
    simpa [wanted, EnqueueCall.wanted] using hgreatest
  · constructor
    · intro hkind
      rw [interval_of_refresh hkind] at hleast
      rcases hleast.1 with hexisting | ⟨c, hc, hcall⟩
      · exact Or.inl (interval_eq_coe.1 hexisting.symm).1
      · exact Or.inr ⟨c, hc, (interval_eq_coe.1 hcall).1⟩
    · intro hsome
      -- Some refresh bounds the interval of the row, which is then none of a fetch.
      have hbound : ∃ n : Nat, interval row.workKind row.request ≤ (n : WithTop Nat) := by
        rcases hsome with hexisting | ⟨c, hc, hcall⟩
        · exact ⟨_, hleast.2 (Or.inl (interval_of_refresh hexisting _).symm)⟩
        · exact ⟨_, hleast.2 (Or.inr ⟨c, hc, interval_of_refresh hcall _⟩)⟩
      rcases hbound with ⟨n, hn⟩
      by_contra hkind
      have htop : interval row.workKind row.request = ⊤ := if_neg hkind
      rw [htop, top_le_iff] at hn
      exact WithTop.coe_ne_top hn
  · intro hkind
    rw [interval_of_refresh hkind] at hleast
    refine ⟨?_, ?_⟩
    · rcases hleast.1 with hexisting | ⟨c, hc, hcall⟩
      · exact Or.inl (interval_eq_coe.1 hexisting.symm)
      · exact Or.inr ⟨c, hc, interval_eq_coe.1 hcall⟩
    · rintro n (⟨hexisting, rfl⟩ | ⟨c, hc, hcall, rfl⟩)
      · exact WithTop.coe_le_coe.1 (hleast.2 (Or.inl (interval_of_refresh hexisting _).symm))
      · exact WithTop.coe_le_coe.1 (hleast.2 (Or.inr ⟨c, hc, interval_of_refresh hcall _⟩))
  · have hor := Wanted.unbudgeted_mergeAll (calls.map fun c => c.wanted defaultTimeout)
      (wanted q existing defaultTimeout)
    rw [← hwanted] at hor
    simpa [wanted, EnqueueCall.wanted] using hor
  · intro budgetId
    have hmem := Wanted.mem_budgets_mergeAll budgetId
      (calls.map fun c => c.wanted defaultTimeout) (wanted q existing defaultTimeout)
    rw [← hwanted] at hmem
    simpa [wanted, EnqueueCall.wanted] using hmem
  · intro calls' q'' hperm hjoin'
    have hfinite' : ∀ c ∈ calls', c.request.timeoutSeconds = some ⊤ → defaultTimeout = ⊤ :=
      fun c hc => hfinite c (hperm.mem_iff.2 hc)
    rcases wanted_joins calls' hpending hwritten hfinite' hjoin' with ⟨row', hrow', hwanted', _⟩
    refine ⟨row', hrow', ?_⟩
    calc wanted q'' row' defaultTimeout
        = (wanted q existing defaultTimeout).mergeAll
            (calls'.map fun c => c.wanted defaultTimeout) := hwanted'
      _ = (wanted q existing defaultTimeout).mergeAll
            (calls.map fun c => c.wanted defaultTimeout) :=
              Wanted.mergeAll_perm (hperm.symm.map _) _
      _ = wanted q' row defaultTimeout := hwanted.symm

/-- Whatever state is reached and whatever calls join a pending item, they are merged in it exactly
where none of them waits for `inf` seconds, or all do by default. -/
theorem joins_merge_iff (d : Deployment) (defaultTimeout : Timeout)
    (sched : List (Config.Choice (fleet d))) (calls : List EnqueueCall) {existing : QueueRow}
    (hpending : (Config.after (fleet d) sched).state.queue.pendingItem? cacheKey = some existing)
    (hjoin : joinAll cacheKey defaultTimeout calls (Config.after (fleet d) sched).state.queue =
      some q') :
    (∃ row, q'.pendingItem? cacheKey = some row ∧
        Merged calls cacheKey defaultTimeout (Config.after (fleet d) sched).state.queue existing q'
          row) ↔
      (∀ c ∈ calls, c.request.timeoutSeconds ≠ some ⊤) ∨ defaultTimeout = ⊤ := by
  have hwritten := written_after d sched existing (mem_of_pendingItem? hpending).1
  constructor
  · rintro ⟨row, hrow, hmerged⟩
    rcases joinAll_pending calls hpending hwritten hjoin with ⟨row', hrow', hrowWritten, _⟩
    cases hrow.symm.trans hrow'
    exact hmerged.finite hrowWritten
  · intro hfinite
    refine merged_of_finite hpending hwritten ?_ hjoin
    intro c hc hendless
    rcases hfinite with hnone | hdefault
    · exact absurd hendless (hnone c hc)
    · exact hdefault

/-- A search is waiting to be fetched. -/
def queuedSearch : ArxivRequest :=
  { clientId := "reader", searchQuery := some "cat:cs.AI", priority := 5 }

def searchQueued : List (Config.Choice (fleet {})) :=
  .start 0 (.enqueueRequestForWork queuedSearch (Keys.requestCacheKey queuedSearch) .fetchMissing
      none) ::
    .run 0 {} :: .run 0 {} :: []

/-- A more urgent reader asks for a refresh of it. -/
def urgentRefresh : EnqueueCall :=
  { request := { queuedSearch with priority := 9, refreshIntervalSeconds := 60 }
    workKind := .refreshCompleted
    upstreamBudgetId := none
    now := 1
    fresh := 1 }

/-- A patient reader asks for it without an end of the wait. -/
def endlessRead : EnqueueCall :=
  { request := { queuedSearch with timeoutSeconds := some ⊤ }
    workKind := .fetchMissing
    upstreamBudgetId := none
    now := 1
    fresh := 1 }

/-- The calls join the search that is waiting. -/
theorem searchQueued_joins {sched : List (Config.Choice (fleet {}))} (hsched : searchQueued = sched)
    (calls : List EnqueueCall) (hunbudgeted : ∀ c ∈ calls, c.upstreamBudgetId = none) :
    ∃ existing q', (Config.after (fleet {}) sched).state.queue.pendingItem?
        (Keys.requestCacheKey queuedSearch) = some existing ∧
      joinAll (Keys.requestCacheKey queuedSearch) 30 calls
        (Config.after (fleet {}) sched).state.queue = some q' := by
  have hsome : ((Config.after (fleet {}) sched).state.queue.pendingItem?
      (Keys.requestCacheKey queuedSearch)).isSome = true := by
    subst hsched
    decide +kernel
  have hreads : Readable (Config.after (fleet {}) sched).state.queue := by
    subst hsched
    unfold Readable
    decide +kernel
  rcases Option.isSome_iff_exists.1 hsome with ⟨existing, hpending⟩
  have hwritten := written_after {} sched existing (mem_of_pendingItem? hpending).1
  have hfunded : ∀ c ∈ calls, c.Funded (Config.after (fleet {}) sched).state.queue := by
    intro c hc budgetId hbudget
    rw [hunbudgeted c hc] at hbudget
    cases hbudget
  have hdefault : (0 : Timeout) < 30 := by decide
  have hjoin := joinAll_isSome hdefault calls hpending hwritten hreads hfunded
  rcases Option.isSome_iff_exists.1 hjoin with ⟨q', hjoin⟩
  exact ⟨existing, q', hpending, hjoin⟩

theorem joins_merge_refresh_iff :
    ∃ existing q', (Config.after (fleet {}) searchQueued).state.queue.pendingItem?
        (Keys.requestCacheKey queuedSearch) = some existing ∧
      joinAll (Keys.requestCacheKey queuedSearch) 30 [urgentRefresh]
        (Config.after (fleet {}) searchQueued).state.queue = some q' ∧
      ∃ row, q'.pendingItem? (Keys.requestCacheKey queuedSearch) = some row ∧
        9 ≤ row.priority ∧ row.workKind = .refreshCompleted := by
  -- The schedule is kept out of sight, or the elaborator runs it.
  generalize hsched : searchQueued = sched
  rcases searchQueued_joins hsched [urgentRefresh] (by decide) with
    ⟨existing, q', hpending, hjoin⟩
  have hfinite : ∀ c ∈ [urgentRefresh], c.request.timeoutSeconds ≠ some ⊤ := by decide
  rcases (joins_merge_iff {} 30 sched [urgentRefresh] hpending hjoin).2 (Or.inl hfinite) with
    ⟨row, hrow, hmerged⟩
  refine ⟨existing, q', hpending, hjoin, row, hrow, ?_, ?_⟩
  · exact hmerged.priority.2 (Or.inr ⟨urgentRefresh, List.mem_singleton_self _, rfl⟩)
  · exact hmerged.workKind.2 (Or.inr ⟨urgentRefresh, List.mem_singleton_self _, rfl⟩)

/-- The wait without an end comes to nothing: the row asks for the default. -/
theorem endless_read_not_merged :
    ∃ existing q', (Config.after (fleet {}) searchQueued).state.queue.pendingItem?
        (Keys.requestCacheKey queuedSearch) = some existing ∧
      joinAll (Keys.requestCacheKey queuedSearch) 30 [endlessRead]
        (Config.after (fleet {}) searchQueued).state.queue = some q' ∧
      ¬∃ row, q'.pendingItem? (Keys.requestCacheKey queuedSearch) = some row ∧
        Merged [endlessRead] (Keys.requestCacheKey queuedSearch) 30
          (Config.after (fleet {}) searchQueued).state.queue existing q' row := by
  generalize hsched : searchQueued = sched
  rcases searchQueued_joins hsched [endlessRead] (by decide) with
    ⟨existing, q', hpending, hjoin⟩
  have hwritten := written_after {} sched existing (mem_of_pendingItem? hpending).1
  refine ⟨existing, q', hpending, hjoin, ?_⟩
  rintro ⟨row, hrow, hmerged⟩
  rcases joinAll_pending [endlessRead] hpending hwritten hjoin with ⟨row', hrow', hrowWritten, _⟩
  cases hrow.symm.trans hrow'
  rcases hmerged.finite hrowWritten with hfinite | hdefault
  · exact hfinite endlessRead (List.mem_singleton_self _) rfl
  · exact absurd hdefault (by decide)

end Queue
end Huldra
