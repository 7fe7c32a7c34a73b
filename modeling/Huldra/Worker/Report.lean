import Huldra.Harvest.Routine
import Huldra.Process.Trace
import Huldra.Queue.Runs

/-!
# Report — a pass tells what it has done

The result that `run_once` returns is all that its callers see of a pass.  Here the operations of a
pass leave marks: what it claimed, read and fetched, what it recorded of the request, what became of
the queue item, and which id reservations it let go.  Whatever happens meanwhile, the result is the
one that tells these deeds, and no item changes its status but as a mark says.
-/

namespace Huldra
namespace Worker

open Process (Prog)
open Process.Prog (Traced)
open Process.System (Config Event History Throughout Legal stateAfter)

/-! ## Marks -/

inductive Mark where
  | claimed (item : QueueItem)
  | read (entry : CacheEntry)
  | asked (call : FetchCall)
  | answered (fetched : FetchResult)
  | refused (e : Exn)
  | recorded (write : LibraryTables.CompletedCacheWrite)
  | failed (write : LibraryTables.CacheFailureWrite)
  | completed (requestId : Uuid)
  | released (requestId : Uuid) (nextAttemptAt : Option Int) (errorCategory : Option String)
      (status : RequestStatus)
  | freed (arxivIds : List String)
  | budgetFailed (budgetId : Uuid)
  /-- An operation on the store raised; it may have had its effect. -/
  | raised (e : Exn)

/-- The mark that an operation leaves by its answer. -/
def mark : (o : Op) → Except Exn o.Res → List Mark
  | .queue (.claimNextQueueItem ..), .ok (some item) => [.claimed item]
  | .queue (.completeQueueItem requestId _), .ok _ => [.completed requestId]
  | .queue (.releaseOrDelayQueueItem requestId nextAttemptAt category _ status _), .ok _ =>
      [.released requestId nextAttemptAt category status]
  | .queue (.releaseIdFetchReservations arxivIds _ _), .ok _ => [.freed arxivIds]
  | .queue (.failActiveUpstreamBudgetItems budgetId ..), .ok _ => [.budgetFailed budgetId]
  | .library (.getCacheEntry _), .ok (some entry) => [.read entry]
  | .library (.recordCompletedCacheEntry write), .ok _ => [.recorded write]
  | .library (.recordCacheFailure write), .ok _ => [.failed write]
  | .upstream (.fetchBegin call), .ok _ => [.asked call]
  | .upstream (.fetchBegin call), .error e => [.asked call, .refused e]
  | .upstream .fetchEnd, .ok fetched => [.answered fetched]
  | .upstream .fetchEnd, .error e => [.refused e]
  | .queue _, .error e | .library _, .error e => [.raised e]
  | .initSchema, .error e | .renewWorkerFetchOwnership .., .error e => [.raised e]
  | .enqueueRefreshIfDue .., .error e => [.raised e]
  | _, _ => []

/-- The mark is of more than a look, or than letting reservations go. -/
def Mark.deed : Mark → Bool
  | .read _ | .freed _ => false
  | _ => true

attribute [simp] Mark.deed

def deeds (trace : List Mark) : List Mark :=
  trace.filter Mark.deed

@[simp] theorem deeds_append (trace rest : List Mark) :
    deeds (trace ++ rest) = deeds trace ++ deeds rest :=
  List.filter_append trace rest

@[simp] theorem deeds_nil : deeds [] = [] := rfl

@[simp] theorem deeds_cons (m : Mark) (trace : List Mark) :
    deeds (m :: trace) = if m.deed = true then m :: deeds trace else deeds trace :=
  List.filter_cons

/-! ## What a result tells -/

/-- The failure is recorded for the item, with this category and this many upstream requests. -/
structure Fails (item : QueueItem) (category : String) (count : Nat)
    (write : LibraryTables.CacheFailureWrite) : Prop where
  cacheKey : write.cacheKey = item.cacheKey
  request : write.request = item.request
  category : write.errorCategory = category
  count : write.upstreamRequestCount = count

/-- The papers are recorded as the item's result, with this many upstream requests. -/
structure Records (item : QueueItem) (count : Nat) (write : LibraryTables.CompletedCacheWrite) :
    Prop where
  cacheKey : write.cacheKey = item.cacheKey
  request : write.request = item.request
  count : write.upstreamRequestCount = count

/-- The fetch is made for the item and its claim. -/
def AsksFor (item : QueueItem) (call : FetchCall) : Prop :=
  call.requestId = item.requestId ∧ call.attempt = item.attemptsTotal

/-- What the result of a pass on an item tells of its trace. -/
inductive Tells (item : QueueItem) : WorkerPassResult → List Mark → Prop
  /-- The cache had it: the item is completed, and nothing else done. -/
  | hit {trace : List Mark} (entry : CacheEntry) (hread : .read entry ∈ trace)
      (hdeeds : deeds trace = [.completed item.requestId]) :
      Tells item { result item .cacheHit with papersTotal := entry.resultCount } trace
  /-- The store had every paper. -/
  | composed {trace : List Mark} (write : LibraryTables.CompletedCacheWrite)
      (hwrite : Records item 0 write)
      (hdeeds : deeds trace = [.recorded write, .completed item.requestId]) :
      Tells item { result item .cacheHit with papersTotal := write.papers.length } trace
  /-- The item is put off before anything is fetched. -/
  | putOff {trace : List Mark} {status : WorkerPassStatus}
      (hstatus : status = .blocked ∨ status = .coolingDown) (nextAttempt : Int)
      {cooldownUntil : Option Int} (hcooldown : ∀ t ∈ cooldownUntil, t = nextAttempt)
      (category message : Option String)
      (hdeeds : deeds trace = [.released item.requestId (some nextAttempt) category .delayed]) :
      Tells item
        { result item status with
          cooldownUntil := cooldownUntil
          errorCategory := category
          errorMessage := message } trace
  /-- The claim or the lease is lost: the item is left alone. -/
  | lost {trace : List Mark} {status : WorkerPassStatus}
      (hstatus : status = .lostLease ∨ status = .lostClaim) (category message : Option String)
      (hdeeds : deeds trace = []) :
      Tells item
        { result item status with errorCategory := category, errorMessage := message } trace
  | budgetExceeded {trace : List Mark} (category message : String)
      (write : LibraryTables.CacheFailureWrite) (hwrite : Fails item category 0 write)
      (hdeeds : deeds trace =
        [.failed write, .released item.requestId none (some category) .failed]) :
      Tells item
        { result item .budgetExceeded with
          errorCategory := some category
          errorMessage := some message } trace
  | rateLimited {trace : List Mark} (call : FetchCall) (hcall : AsksFor item call)
      (retryAfter : Option Int) (message : String) (statusCode cooldownUntil : Int)
      (write : LibraryTables.CacheFailureWrite) (hwrite : Fails item "rate_limited" 1 write)
      (hcooldown : write.cooldownUntil = some cooldownUntil)
      (hdeeds : deeds trace =
        [.asked call, .refused (.rateLimitedError retryAfter message statusCode), .failed write,
          .released item.requestId (some cooldownUntil) (some "rate_limited") .delayed]) :
      Tells item
        { result item .rateLimited with
          cooldownUntil := some cooldownUntil
          retryAfterSeconds := retryAfter
          errorCategory := some "rate_limited"
          errorMessage := some message } trace
  | transientFailure {trace : List Mark} (call : FetchCall) (hcall : AsksFor item call)
      (message : String) (statusCode : Option Int) (nextAttempt : Int)
      (write : LibraryTables.CacheFailureWrite) (hwrite : Fails item "transient" 1 write)
      (hdeeds : deeds trace =
        [.asked call, .refused (.transientFetchError message statusCode), .failed write,
          .released item.requestId (some nextAttempt) (some "transient") .delayed]) :
      Tells item
        { result item .transientFailure with
          cooldownUntil := some nextAttempt
          errorCategory := some "transient"
          errorMessage := some message } trace
  /-- The response was final, or left requested ids out. -/
  | failed {trace : List Mark} (call : FetchCall) (hcall : AsksFor item call)
      {response : Mark} (message : String)
      (hresponse : (∃ statusCode,
          response = .refused (.nonRetryableFetchError message statusCode)) ∨
        ∃ fetched, response = .answered fetched)
      (write : LibraryTables.CacheFailureWrite) (hwrite : Fails item "non_retryable" 1 write)
      (hdeeds : deeds trace =
        [.asked call, response, .failed write,
          .released item.requestId none (some "non_retryable") .failed]) :
      Tells item
        { result item .failed with
          errorCategory := some "non_retryable"
          errorMessage := some message } trace
  | completed {trace : List Mark} (call : FetchCall) (hcall : AsksFor item call)
      (fetched : FetchResult) (write : LibraryTables.CompletedCacheWrite)
      (hwrite : Records item 1 write)
      (hstatus : write.upstreamStatus = fetched.upstreamStatus)
      (hdeeds : deeds trace =
        [.asked call, .answered fetched, .recorded write, .completed item.requestId]) :
      Tells item { result item .completed with papersTotal := write.papers.length } trace

/-- What was only looked at before is not told. -/
theorem Tells.after {item : QueueItem} {r : WorkerPassResult} {before trace : List Mark}
    (h : Tells item r trace) (hbefore : deeds before = []) : Tells item r (before ++ trace) := by
  have hdeeds : deeds (before ++ trace) = deeds trace := by
    rw [deeds_append, hbefore, List.nil_append]
  cases h with
  | hit entry hread hd =>
      exact .hit entry (List.mem_append_right before hread) (hdeeds.trans hd)
  | composed write hwrite hd => exact .composed write hwrite (hdeeds.trans hd)
  | putOff hstatus nextAttempt hcooldown category message hd =>
      exact .putOff hstatus nextAttempt hcooldown category message (hdeeds.trans hd)
  | lost hstatus category message hd => exact .lost hstatus category message (hdeeds.trans hd)
  | budgetExceeded category message write hwrite hd =>
      exact .budgetExceeded category message write hwrite (hdeeds.trans hd)
  | rateLimited call hcall retryAfter message statusCode cooldown write hwrite hcooldown hd =>
      exact .rateLimited call hcall retryAfter message statusCode cooldown write hwrite hcooldown
        (hdeeds.trans hd)
  | transientFailure call hcall message statusCode nextAttempt write hwrite hd =>
      exact .transientFailure call hcall message statusCode nextAttempt write hwrite
        (hdeeds.trans hd)
  | failed call hcall message hresponse write hwrite hd =>
      exact .failed call hcall message hresponse write hwrite (hdeeds.trans hd)
  | completed call hcall fetched write hwrite hstatus hd =>
      exact .completed call hcall fetched write hwrite hstatus (hdeeds.trans hd)

/-! ## Programs and their traces -/

/-- No client writes papers, OAI records or deletions of its own accord. -/
def Indirect : Op → Prop
  | .library (.upsertPapers ..) | .library (.upsertOaiRecords ..)
  | .library (.markPaperDeleted ..) => False
  | _ => True

abbrev Marked {β : Type} (p : Program β) (Q : β → List Mark → Prop) : Prop :=
  Traced Indirect mark p Q fun _ _ => True

/-- The program leaves no mark. -/
abbrev Unmarked {β : Type} (p : Program β) : Prop :=
  Marked p fun _ trace => trace = []

/-- The program does no deed. -/
abbrev Deedless {β : Type} (p : Program β) : Prop :=
  Marked p fun _ trace => deeds trace = []

/-- The operation leaves no mark, whatever it answers. -/
def Silent (o : Op) : Prop :=
  Indirect o ∧ ∀ r, mark o r = []

section Programs

variable {β γ : Type} {w : WorkerConfig} {item : QueueItem}

theorem Marked.mono {p : Program β} {Q Q' : β → List Mark → Prop} (h : Marked p Q)
    (hQ : ∀ b trace, Q b trace → Q' b trace) : Marked p Q' :=
  Traced.mono h hQ fun _ _ h => h

theorem Marked.bind {p : Program β} {f : β → Program γ} {S : β → List Mark → Prop}
    {Q : γ → List Mark → Prop} (hp : Marked p S)
    (hf : ∀ b trace, S b trace → Marked (f b) fun c rest => Q c (trace ++ rest)) :
    Marked (p >>= f) Q :=
  Traced.bind (Marked.mono hp hf)

/-- What follows a program that leaves no mark. -/
theorem Marked.after {p : Program β} {f : β → Program γ} {Q : γ → List Mark → Prop}
    (hp : Unmarked p) (hf : ∀ b, Marked (f b) Q) : Marked (p >>= f) Q := by
  refine hp.bind ?_
  rintro b _ rfl
  exact hf b

theorem Unmarked.bind {p : Program β} {f : β → Program γ} (hp : Unmarked p)
    (hf : ∀ b, Unmarked (f b)) :
    Unmarked (p >>= f) :=
  Marked.after hp hf

theorem Unmarked.deedless {p : Program β} (hp : Unmarked p) : Deedless p :=
  hp.mono fun _ _ htrace => by rw [htrace]; rfl

theorem Deedless.bind {p : Program β} {f : β → Program γ} (hp : Deedless p)
    (hf : ∀ b, Deedless (f b)) :
    Deedless (p >>= f) :=
  Marked.bind hp fun b trace htrace => (hf b).mono fun _ rest hrest => by simp [htrace, hrest]

/-! ### Programs that leave no mark, and programs that do no deed -/

theorem silent_of_limiting {o : Op} (h : Limiting o) : Silent o := by
  unfold Limiting at h
  split at h <;> first | exact ⟨trivial, fun r => by cases r <;> rfl⟩ | exact h.elim

theorem silent_of_harvesting {o : Op} (h : Harvest.Harvesting o) : Silent o := by
  unfold Harvest.Harvesting at h
  split at h <;> first | exact ⟨trivial, fun r => by cases r <;> rfl⟩ | exact h.elim

theorem unmarked_of_silent {p : Program β} (h : p.AllOps Silent) : Unmarked p :=
  Traced.mono (Traced.silent h) (fun _ _ htrace => htrace) fun _ _ _ => trivial

theorem unmarked_limiting {p : Program β} (h : p.AllOps Limiting) : Unmarked p :=
  unmarked_of_silent (h.mono fun _ => silent_of_limiting)

theorem unmarked_utcNow : Unmarked utcNow :=
  unmarked_limiting limiting_utcNow

theorem unmarked_releaseLease : Unmarked (releaseLease Limiter.leaseName w.ownerToken) :=
  unmarked_limiting (limiting_releaseLease _)

/-- A single operation that leaves no mark when it answers. -/
theorem unmarked_call {o : Op} (ho : Indirect o) (hmark : ∀ r, mark o (.ok r) = []) :
    Unmarked (perform o) :=
  Traced.call ho hmark fun _ => trivial

/-- A single operation, whatever it leaves. -/
theorem marked_asked {o : Op} (ho : Indirect o) : Marked (perform o) fun _ _ => True :=
  Traced.call ho (fun _ => trivial) fun _ => trivial

/-- Reservations are let go, and that is no deed. -/
theorem deedless_releaseIdFetchReservations (ids : List String) :
    Deedless (releaseIdFetchReservations ids w.ownerToken) := by
  unfold releaseIdFetchReservations
  split
  · exact (rfl : deeds [] = [])
  · exact .after unmarked_utcNow fun _ => Traced.call trivial (fun _ => rfl) fun _ => trivial

theorem deedless_releaseIdPlan (plan : Option IdListFetchPlan) :
    Deedless (releaseIdPlan w plan) := by
  cases plan with
  | none => exact (rfl : deeds [] = [])
  | some plan => exact deedless_releaseIdFetchReservations _

theorem unmarked_getPapersByIds (ids : List String) : Unmarked (getPapersByIds ids) := by
  unfold getPapersByIds
  split
  · rfl
  · exact unmarked_call trivial fun _ => rfl

theorem unmarked_planIdListFetch : Unmarked (planIdListFetch w item) := by
  unfold planIdListFetch
  split
  · rfl
  · refine .bind (unmarked_getPapersByIds _) fun papersById => ?_
    dsimp only
    split
    · rfl
    · refine .bind (unmarked_call trivial fun _ => rfl) fun reservations => ?_
      split
      · rfl
      · rfl

theorem unmarked_renewIdFetchReservations (ids : List String) (ttl : Int) :
    Unmarked (renewIdFetchReservations ids w.ownerToken ttl) := by
  unfold renewIdFetchReservations
  split
  · rfl
  · exact unmarked_call trivial fun _ => rfl

/-- The ids that are stored by now are let go. -/
theorem deedless_revalidate (plan : IdListFetchPlan) (ttl : Int) :
    Deedless (revalidateIdListFetchPlan w item plan ttl) := by
  unfold revalidateIdListFetchPlan
  split
  · exact (rfl : deeds [] = [])
  · refine .bind (unmarked_getPapersByIds _).deedless fun papersById => ?_
    refine .bind (deedless_releaseIdFetchReservations _) fun _ => ?_
    dsimp only
    split
    · exact (rfl : deeds [] = [])
    · split
      · refine .after (unmarked_renewIdFetchReservations _ ttl) fun renewed => ?_
        split
        · exact .after unmarked_utcNow fun _ => (rfl : deeds [] = [])
        · exact (rfl : deeds [] = [])
      · refine .after (rfl : Unmarked (pure false)) fun renewed => ?_
        split
        · exact .after unmarked_utcNow fun _ => (rfl : deeds [] = [])
        · exact (rfl : deeds [] = [])

theorem unmarked_fence (plan : Option IdListFetchPlan) (ttl : Int) :
    Unmarked (fence w item plan ttl) :=
  unmarked_call trivial fun _ => rfl

/-! ### Marks, one by one -/

theorem marked_completeQueueItem : Marked (completeQueueItem item.requestId)
    fun _ trace => trace = [.completed item.requestId] :=
  .after unmarked_utcNow fun _ => .call trivial (fun _ => rfl) fun _ => trivial

theorem marked_release (nextAttemptAt : Option Int) (category message : Option String)
    (status : RequestStatus) :
    Marked (releaseOrDelayQueueItem item.requestId nextAttemptAt category message status)
      fun _ trace => trace = [.released item.requestId nextAttemptAt category status] :=
  .after unmarked_utcNow fun _ => .call trivial (fun _ => rfl) fun _ => trivial

theorem marked_recordCacheFailure (category message : String) (status : CacheStatus)
    (cooldownUntil upstreamStatus : Option Int) (count : Nat) :
    Marked (recordCacheFailure item.cacheKey item.request category message status cooldownUntil
      upstreamStatus count) fun _ trace => ∃ write, trace = [.failed write] ∧
        Fails item category count write ∧ write.cooldownUntil = cooldownUntil :=
  .after unmarked_utcNow fun _ =>
    .call trivial (fun _ => ⟨_, rfl, ⟨rfl, rfl, rfl, rfl⟩, rfl⟩) fun _ => trivial

theorem marked_recordCompletedCacheEntry (papers : List ArxivPaper) (total : Option Nat)
    (upstreamStatus : Int) (count : Nat) :
    Marked (recordCompletedCacheEntry item.cacheKey item.request papers total upstreamStatus count)
      fun _ trace => ∃ write, trace = [.recorded write] ∧ Records item count write ∧
        write.papers = papers ∧ write.upstreamStatus = upstreamStatus :=
  .after unmarked_utcNow fun _ => .after unmarked_utcNow fun _ =>
    .call trivial (fun _ => ⟨_, rfl, ⟨rfl, rfl, rfl⟩, rfl, rfl⟩) fun _ => trivial

/-- The cache is looked at, and what it gives was read there. -/
def Looked (cached : Option CacheEntry) (trace : List Mark) : Prop :=
  deeds trace = [] ∧ ∀ entry, cached = some entry → .read entry ∈ trace

theorem marked_getReadableCompletedCache :
    Marked (getReadableCompletedCache item.cacheKey) Looked := by
  have hread : Marked (getCacheEntry item.cacheKey) fun entry trace =>
      trace = (entry.map Mark.read).toList := by
    refine .call trivial (fun entry => ?_) fun _ => trivial
    cases entry <;> rfl
  refine hread.bind ?_
  rintro entry _ rfl
  cases entry with
  | none => exact ⟨rfl, fun entry h => by cases h⟩
  | some entry =>
      have hlooked : ∀ cached, (cached = none ∨ cached = some entry) →
          Looked cached [.read entry] := by
        rintro cached (rfl | rfl)
        · exact ⟨rfl, fun entry h => by cases h⟩
        · exact ⟨rfl, fun entry h => by cases h; exact List.mem_cons_self⟩
      dsimp only
      split
      · exact hlooked none (.inl rfl)
      · have hcheck : Unmarked (completedCacheIntegrityFailure item.cacheKey entry) := by
          refine .bind (unmarked_call trivial fun _ => rfl) fun _ =>
            .bind (unmarked_call trivial fun _ => rfl) fun _ =>
            .bind (unmarked_call trivial fun _ => rfl) fun _ => ?_
          split
          · rfl
          · split
            · rfl
            · split
              · rfl
              · rfl
        refine .after hcheck fun reason => ?_
        cases reason with
        | none => exact hlooked (some entry) (.inr rfl)
        | some reason =>
            exact .after (unmarked_call trivial fun _ => rfl) fun _ =>
              hlooked none (.inl rfl)

theorem marked_recordCachedIdList (plan : IdListFetchPlan) :
    Marked (recordCachedIdList item plan) fun papersTotal trace => ∃ write,
      trace = [.recorded write] ∧ Records item 0 write ∧ papersTotal = write.papers.length := by
  unfold recordCachedIdList
  split
  · trivial
  · refine (marked_recordCompletedCacheEntry _ _ _ _).bind ?_
    rintro _ _ ⟨write, rfl, hwrite, hpapers, _⟩
    exact ⟨write, rfl, hwrite, by rw [hpapers]⟩

/-! ## The stages of a pass -/

/-- What follows the last deed of a pass. -/
theorem marked_ending {p : Program Unit} (hp : Deedless p) {r : WorkerPassResult}
    {Q : WorkerPassResult → List Mark → Prop} (hQ : ∀ rest, deeds rest = [] → Q r rest) :
    Marked (do
      p
      pure r) Q := by
  refine Marked.bind hp fun _ rest hrest => ?_
  show Q r (rest ++ [])
  rw [List.append_nil]
  exact hQ rest hrest

/-- The item is put off before the fetch. -/
theorem marked_putOff {p : Program Unit} (hp : Deedless p) {status : WorkerPassStatus}
    (hstatus : status = .blocked ∨ status = .coolingDown) (nextAttempt : Int)
    {cooldownUntil : Option Int} (hcooldown : ∀ t ∈ cooldownUntil, t = nextAttempt)
    (category message message' : Option String) :
    Marked (do
      releaseOrDelayQueueItem item.requestId (some nextAttempt) category message .delayed
      p
      pure
        { result item status with
          cooldownUntil := cooldownUntil
          errorCategory := category
          errorMessage := message' }) (Tells item) := by
  refine (marked_release _ _ _ _).bind ?_
  rintro _ _ rfl
  exact marked_ending hp fun rest hrest =>
    .putOff hstatus nextAttempt hcooldown category message' (by simp [hrest])

theorem marked_deferBudgetedItem (plan : Option IdListFetchPlan) :
    Marked (deferBudgetedItem w item plan) (Tells item) :=
  .after unmarked_releaseLease fun _ => .after unmarked_utcNow fun nextAttempt =>
    marked_putOff (deedless_releaseIdPlan plan) (.inl rfl) nextAttempt
      (fun _ ht => (Option.some.inj ht).symm) _ _ _

theorem marked_endBudgetedItem (plan : Option IdListFetchPlan) (budgetError : String) :
    Marked (endBudgetedItem w item plan budgetError) (Tells item) := by
  unfold endBudgetedItem
  split
  · exact marked_deferBudgetedItem plan
  · refine .after unmarked_releaseLease fun _ => (marked_recordCacheFailure _ _ _ _ _ _).bind ?_
    rintro _ _ ⟨write, rfl, hwrite, _⟩
    refine (marked_release _ _ _ _).bind ?_
    rintro _ _ rfl
    exact marked_ending (deedless_releaseIdPlan plan) fun rest hrest =>
      .budgetExceeded _ _ write hwrite (by simp [hrest])

theorem marked_fetchOwnershipFailure (plan : Option IdListFetchPlan) (reason : String) :
    Marked (fetchOwnershipFailure w item plan reason) (Tells item) := by
  refine .after unmarked_releaseLease fun _ => ?_
  split
  · exact .after unmarked_utcNow fun _ =>
      marked_putOff (deedless_releaseIdPlan plan) (.inl rfl) _
        (fun _ ht => (Option.some.inj ht).symm) _ _ _
  · refine marked_ending (deedless_releaseIdPlan plan) fun rest hrest => .lost ?_ _ _ hrest
    split
    · exact .inl rfl
    · exact .inr rfl

/-- The gate ends the pass with a result that tells its deeds, or has only looked. -/
def GateTells (item : QueueItem) (gate : Option IdListFetchPlan × Option WorkerPassResult)
    (trace : List Mark) : Prop :=
  (∀ r, gate.2 = some r → Tells item r trace) ∧ (gate.2 = none → deeds trace = [])

theorem Tells.gate {r : WorkerPassResult} {trace : List Mark} (h : Tells item r trace)
    (plan : Option IdListFetchPlan) : GateTells item (plan, some r) trace :=
  ⟨fun _ hr => Option.some.inj hr ▸ h, fun hnone => by cases hnone⟩

/-- A result of the gate. -/
theorem marked_gateEnds {p : Program WorkerPassResult} (hp : Marked p (Tells item))
    (plan : Option IdListFetchPlan) :
    Marked (do
      let r ← p
      pure (plan, some r)) (GateTells item) := by
  refine Marked.bind hp fun r trace htells => ?_
  show GateTells item (plan, some r) (trace ++ [])
  rw [List.append_nil]
  exact htells.gate plan

theorem marked_closeGate (plan : Option IdListFetchPlan) (ttl : Int) :
    Marked (closeGate w item plan ttl) (GateTells item) := by
  refine .after (unmarked_fence plan ttl) fun reason => ?_
  cases reason with
  | some reason => exact marked_gateEnds (marked_fetchOwnershipFailure plan reason) plan
  | none => exact ⟨fun r hr => (by cases hr), fun _ => rfl⟩

theorem GateTells.after {gate : Option IdListFetchPlan × Option WorkerPassResult}
    {before trace : List Mark} (h : GateTells item gate trace) (hbefore : deeds before = []) :
    GateTells item gate (before ++ trace) :=
  ⟨fun r hr => (h.1 r hr).after hbefore, fun hnone => by rw [deeds_append, hbefore, h.2 hnone]; rfl⟩

/-- The gate's look at a plan: the ids are reserved again, or nothing is left to fetch. -/
theorem marked_gatePlan (plan : IdListFetchPlan) (ttl : Int) :
    Marked (gatePlan w item plan ttl) (GateTells item) := by
  refine Marked.bind (deedless_revalidate plan ttl) fun plan' before hbefore => ?_
  refine Marked.mono (Q := GateTells item) ?_ fun _ _ htells => htells.after hbefore
  cases plan'.blockedUntil with
  | some blockedUntil =>
      refine .after unmarked_releaseLease fun _ => (marked_release _ _ _ _).bind ?_
      rintro _ _ rfl
      exact Marked.bind (deedless_releaseIdPlan (some plan')) fun _ rest hrest => Tells.gate
        (.putOff (.inl rfl) blockedUntil (fun _ ht => (Option.some.inj ht).symm) _ none
          (by simp [hrest])) _
  | none =>
      dsimp only
      split
      · refine .after unmarked_releaseLease fun _ => (marked_recordCachedIdList plan').bind ?_
        rintro papersTotal _ ⟨write, rfl, hwrite, rfl⟩
        refine marked_completeQueueItem.bind ?_
        rintro _ _ rfl
        exact Marked.bind (deedless_releaseIdPlan (some plan')) fun _ rest hrest =>
          Tells.gate (.composed write hwrite (by simp [hrest])) _
      · exact marked_closeGate (some plan') ttl

theorem marked_gateFetchOwnership (plan : Option IdListFetchPlan) (ttl : Int) :
    Marked (gateFetchOwnership w item plan ttl) (GateTells item) := by
  refine .after (unmarked_fence plan ttl) fun reason => ?_
  cases reason with
  | some reason => exact marked_gateEnds (marked_fetchOwnershipFailure plan reason) plan
  | none =>
      refine marked_getReadableCompletedCache.bind fun cached trace hlooked => ?_
      dsimp only
      split
      · rename_i entry hentry
        -- The cache has been filled meanwhile.
        have hread : .read entry ∈ trace := hlooked.2 entry (Option.filter_eq_some_iff.1 hentry).1
        refine .after unmarked_releaseLease fun _ => marked_completeQueueItem.bind ?_
        rintro _ _ rfl
        refine Marked.bind (deedless_releaseIdPlan plan) fun _ rest hrest => Tells.gate ?_ plan
        exact .hit entry (List.mem_append_left _ hread) (by simp [hlooked.1, hrest])
      · cases plan with
        | some plan =>
            exact (marked_gatePlan plan ttl).mono fun _ _ htells => htells.after hlooked.1
        | none =>
            exact (marked_closeGate none ttl).mono fun _ _ htells => htells.after hlooked.1

/-- The gate, and what follows when it lets the pass through. -/
theorem marked_gated {plan : Option IdListFetchPlan} {ttl : Int}
    {f : Option IdListFetchPlan × Option WorkerPassResult → Program WorkerPassResult}
    (hret : ∀ gate r, gate.2 = some r → f gate = pure r)
    (hf : ∀ gate, gate.2 = none → Marked (f gate) (Tells item)) :
    Marked (gateFetchOwnership w item plan ttl >>= f) (Tells item) := by
  refine (marked_gateFetchOwnership plan ttl).bind fun gate trace hgate => ?_
  cases hends : gate.2 with
  | some r =>
      rw [hret gate r hends]
      show Tells item r (trace ++ [])
      rw [List.append_nil]
      exact hgate.1 r hends
  | none => exact (hf gate hends).mono fun _ _ htells => htells.after (hgate.2 hends)

/-! ### The fetch and its outcomes -/

theorem traced_fetch (request : ArxivRequest) :
    Traced Indirect mark (fetch item request)
      (fun fetched trace => ∃ call, AsksFor item call ∧ trace = [.asked call, .answered fetched])
      fun e trace => ∃ call, AsksFor item call ∧ trace = [.asked call, .refused e] := by
  refine Traced.bind (Traced.call trivial (fun _ => ?_) fun e => ⟨_, ⟨rfl, rfl⟩, rfl⟩)
  exact Traced.call trivial (fun fetched => ⟨_, ⟨rfl, rfl⟩, rfl⟩) fun e => ⟨_, ⟨rfl, rfl⟩, rfl⟩

section Outcomes

variable {call : FetchCall}

theorem marked_onRateLimited (hcall : AsksFor item call) (plan : Option IdListFetchPlan)
    (retryAfter : Option Int) (message : String) (statusCode : Int) :
    Marked (onRateLimited w item plan retryAfter message statusCode) fun r rest => Tells item r
      ([.asked call, .refused (.rateLimitedError retryAfter message statusCode)] ++ rest) := by
  refine .after (unmarked_limiting (limiting_afterRateLimit _ _ _ _ _)) fun cooldownUntil =>
    (marked_recordCacheFailure _ _ _ _ _ _).bind ?_
  rintro _ _ ⟨write, rfl, hwrite, hcooldown⟩
  refine (marked_release _ _ _ _).bind ?_
  rintro _ _ rfl
  exact marked_ending (deedless_releaseIdPlan plan) fun rest hrest =>
    .rateLimited call hcall _ _ statusCode _ write hwrite hcooldown (by simp [hrest])

theorem marked_onTransientFailure (hcall : AsksFor item call) (plan : Option IdListFetchPlan)
    (message : String) (statusCode : Option Int) :
    Marked (onTransientFailure w item plan message statusCode) fun r rest => Tells item r
      ([.asked call, .refused (.transientFetchError message statusCode)] ++ rest) := by
  refine .after (unmarked_limiting (limiting_afterFailure _ _ _)) fun _ =>
    .after unmarked_utcNow fun now => (marked_recordCacheFailure _ _ _ _ _ _).bind ?_
  rintro _ _ ⟨write, rfl, hwrite, _⟩
  refine (marked_release _ _ _ _).bind ?_
  rintro _ _ rfl
  exact marked_ending (deedless_releaseIdPlan plan) fun rest hrest =>
    .transientFailure call hcall _ statusCode _ write hwrite (by simp [hrest])

/-- A final response, whichever it is. -/
theorem marked_onNonRetryable (hcall : AsksFor item call) (plan : Option IdListFetchPlan)
    (message : String) (statusCode : Option Int) {response : Mark}
    (hresponse : (∃ code, response = .refused (.nonRetryableFetchError message code)) ∨
      ∃ fetched, response = .answered fetched) :
    Marked (onNonRetryable w item plan message statusCode) fun r rest => Tells item r
      ([.asked call, response] ++ rest) := by
  refine .after (unmarked_limiting (limiting_afterFailure _ _ _)) fun _ =>
    (marked_recordCacheFailure _ _ _ _ _ _).bind ?_
  rintro _ _ ⟨write, rfl, hwrite, _⟩
  refine (marked_release _ _ _ _).bind ?_
  rintro _ _ rfl
  refine marked_ending (deedless_releaseIdPlan plan) fun rest hrest =>
    .failed call hcall _ hresponse write hwrite ?_
  rcases hresponse with ⟨_, rfl⟩ | ⟨_, rfl⟩
  · simp [hrest]
  · simp [hrest]

theorem marked_onFetchError (hcall : AsksFor item call) (plan : Option IdListFetchPlan) (e : Exn) :
    Marked (onFetchError w item plan e) fun r rest => Tells item r
      ([.asked call, .refused e] ++ rest) := by
  cases e with
  | rateLimitedError retryAfter message statusCode =>
      exact marked_onRateLimited hcall plan retryAfter message statusCode
  | transientFetchError message statusCode =>
      exact marked_onTransientFailure hcall plan message statusCode
  | nonRetryableFetchError message statusCode =>
      exact marked_onNonRetryable hcall plan message statusCode (.inl ⟨statusCode, rfl⟩)
  | huldraFetchError message statusCode =>
      exact .after (unmarked_limiting (limiting_afterFailure _ _ _)) fun _ =>
        Marked.bind (deedless_releaseIdPlan plan) fun _ _ _ => trivial
  | _ => trivial

theorem marked_onFetched (hcall : AsksFor item call) (plan : Option IdListFetchPlan)
    (papers : List ArxivPaper) (total : Option Nat) (fetched : FetchResult) :
    Marked (onFetched w item plan papers total fetched.upstreamStatus) fun r rest => Tells item r
      ([.asked call, .answered fetched] ++ rest) := by
  refine (marked_recordCompletedCacheEntry _ _ _ _).bind ?_
  rintro _ _ ⟨write, rfl, hwrite, rfl, hstatus⟩
  refine .after (unmarked_limiting (limiting_afterSuccess _ _)) fun _ =>
    marked_completeQueueItem.bind ?_
  rintro _ _ rfl
  exact marked_ending (deedless_releaseIdPlan plan) fun rest hrest =>
    .completed call hcall fetched write hwrite hstatus (by simp [hrest])

theorem marked_onFetchResult (hcall : AsksFor item call) (plan : Option IdListFetchPlan)
    (fetched : FetchResult) :
    Marked (onFetchResult w item plan fetched) fun r rest => Tells item r
      ([.asked call, .answered fetched] ++ rest) := by
  unfold onFetchResult
  split
  · exact marked_onFetched hcall none _ _ fetched
  · dsimp only
    split
    · exact marked_onNonRetryable hcall _ _ _ (.inr ⟨fetched, rfl⟩)
    · split
      · trivial
      · exact marked_onFetched hcall _ _ _ fetched

end Outcomes

theorem marked_fetchAndReport (plan : Option IdListFetchPlan) (request : ArxivRequest) :
    Marked (fetchAndReport w item plan request) (Tells item) := by
  refine Traced.handle ((traced_fetch request).mono ?_ ?_)
  · rintro fetched _ ⟨call, hcall, rfl⟩
    exact marked_onFetchResult hcall plan fetched
  · rintro e _ ⟨call, hcall, rfl⟩
    exact marked_onFetchError hcall plan e

/-! ### From the claim to the fetch -/

theorem unmarked_checkDeadlines :
    Unmarked (checkQueueItemUpstreamRequestDeadlines item.requestId) :=
  unmarked_call trivial fun _ => rfl

theorem unmarked_queueItemUpstreamDeadline : Unmarked (queueItemUpstreamDeadline item.requestId) :=
  unmarked_call trivial fun _ => rfl

theorem marked_fetchWithinDeadline (plan : Option IdListFetchPlan) :
    Marked (fetchWithinDeadline w item plan) (Tells item) := by
  refine .after unmarked_queueItemUpstreamDeadline fun budgetDeadline => ?_
  cases budgetDeadline with
  | none => exact marked_fetchAndReport plan _
  | some deadline =>
      refine .after unmarked_utcNow fun now => ?_
      split
      · exact marked_fetchAndReport plan _
      · refine .after unmarked_checkDeadlines fun budgetError => ?_
        cases budgetError with
        | some error => exact marked_endBudgetedItem plan error
        | none =>
            refine .after unmarked_queueItemUpstreamDeadline fun deadline => .after ?_ fun _ =>
              marked_fetchAndReport plan _
            cases deadline with
            | none => exact (rfl : ([] : List Mark) = [])
            | some deadline =>
                exact .bind unmarked_utcNow fun _ => (rfl : ([] : List Mark) = [])

theorem marked_fetchCharged (plan : Option IdListFetchPlan) (ttl : Int) :
    Marked (fetchCharged w item plan ttl) (Tells item) := by
  refine marked_gated (fun gate r hends => by rw [hends]) fun gate hopen => ?_
  rw [hopen]
  refine .after unmarked_checkDeadlines fun budgetError => ?_
  cases budgetError with
  | some error => exact marked_endBudgetedItem gate.1 error
  | none => exact marked_fetchWithinDeadline gate.1

theorem marked_chargeAndFetch (plan : Option IdListFetchPlan) (ttl : Int) :
    Marked (chargeAndFetch w item plan ttl) (Tells item) := by
  refine .after (unmarked_call trivial fun _ => rfl) fun reserveError => ?_
  cases reserveError with
  | some error => exact marked_endBudgetedItem plan error
  | none =>
      refine .after unmarked_checkDeadlines fun budgetError => ?_
      cases budgetError with
      | some error => exact marked_endBudgetedItem plan error
      | none => exact marked_fetchCharged plan ttl

theorem marked_fetchAdmitted (plan : Option IdListFetchPlan) (waitSeconds : Int) :
    Marked (fetchAdmitted w item plan waitSeconds) (Tells item) := by
  have hgate : Marked (gateAndCharge w item plan) (Tells item) := by
    refine marked_gated (fun gate r hends => by rw [hends]) fun gate hopen => ?_
    rw [hopen]
    exact marked_chargeAndFetch gate.1 _
  unfold fetchAdmitted
  split
  · exact .after (unmarked_limiting (limiting_timeSleep _)) fun _ => hgate
  · exact hgate

theorem marked_delayRefused (plan : Option IdListFetchPlan) (decision : RateLimitDecision) :
    Marked (delayRefused w item plan decision) (Tells item) := by
  have hstatus : (if decision.blockedReason = some "cooldown" then WorkerPassStatus.coolingDown
      else .blocked) = .blocked ∨ (if decision.blockedReason = some "cooldown" then
        WorkerPassStatus.coolingDown else .blocked) = .coolingDown := by
    split
    · exact .inr rfl
    · exact .inl rfl
  unfold delayRefused
  cases hcooldown : decision.cooldownUntil with
  | some cooldown =>
      exact marked_putOff (deedless_releaseIdPlan plan) hstatus cooldown
        (fun _ ht => (Option.some.inj ht).symm) _ _ _
  | none =>
      exact .after unmarked_utcNow fun now =>
        marked_putOff (deedless_releaseIdPlan plan) hstatus _ (fun _ ht => by cases ht) _ _ _

theorem marked_passLimiter (plan : Option IdListFetchPlan) :
    Marked (passLimiter w item plan) (Tells item) := by
  refine .after (unmarked_limiting (limiting_beforeRequest _ _)) fun decision => ?_
  split
  · exact marked_fetchAdmitted plan _
  · exact marked_delayRefused plan decision

theorem marked_workPlanned (plan : Option IdListFetchPlan) :
    Marked (workPlanned w item plan) (Tells item) := by
  unfold workPlanned
  split
  · exact marked_passLimiter none
  · rename_i idPlan
    split
    · rename_i blockedUntil _
      refine (marked_release _ _ _ _).bind ?_
      rintro _ _ rfl
      exact .putOff (.inl rfl) blockedUntil (fun _ ht => (Option.some.inj ht).symm) _ none rfl
    · split
      · refine (marked_recordCachedIdList idPlan).bind ?_
        rintro papersTotal _ ⟨write, rfl, hwrite, rfl⟩
        refine marked_completeQueueItem.bind ?_
        rintro _ _ rfl
        exact .composed write hwrite rfl
      · exact marked_passLimiter _

theorem marked_workClaimed : Marked (workClaimed w item) (Tells item) := by
  refine marked_getReadableCompletedCache.bind fun cached trace hlooked => ?_
  dsimp only
  split
  · rename_i entry hentry
    have hread : .read entry ∈ trace := hlooked.2 entry (Option.filter_eq_some_iff.1 hentry).1
    refine marked_completeQueueItem.bind ?_
    rintro _ _ rfl
    refine .hit entry (List.mem_append_left _ hread) ?_
    rw [deeds_append, hlooked.1]
    rfl
  · refine .after unmarked_planIdListFetch fun plan => ?_
    exact (marked_workPlanned plan).mono fun _ _ htells => htells.after hlooked.1

/-- A pass that found nothing to do, or what it tells of the item it claimed. -/
inductive PassTells : WorkerPassResult → List Mark → Prop
  | idle : PassTells { status := .idle } []
  | worked (item : QueueItem) {r : WorkerPassResult} {trace : List Mark}
      (h : Tells item r trace) : PassTells r (.claimed item :: trace)

theorem marked_runOnce (w : WorkerConfig) (targets : Option (List CacheKey)) :
    Marked (runOnce w targets) PassTells := by
  have hclaim : Marked (claimNextQueueItem w.ownerToken
      w.deployment.settings.queueClaimTimeoutSeconds targets) fun item trace =>
        trace = (item.map Mark.claimed).toList := by
    unfold claimNextQueueItem
    split
    · exact (rfl : ([] : List Mark) = [])
    · refine .call trivial (fun item => ?_) fun _ => trivial
      cases item <;> rfl
  refine .after (unmarked_call trivial fun _ => rfl) fun _ => hclaim.bind ?_
  rintro item _ rfl
  cases item with
  | none => exact .idle
  | some item => exact marked_workClaimed.mono fun _ _ htells => .worked item htells

end Programs

/-! ## The status of an item -/

/-- What the mark says becomes of the status of an item. -/
def Mark.Moves (m : Mark) (row : QueueRow) (status : RequestStatus) : Prop :=
  match m with
  | .claimed item => row.requestId = item.requestId ∧ status = .claimed
  | .completed requestId => row.requestId = requestId ∧ status = .completed
  | .released requestId _ _ left => row.requestId = requestId ∧ status = left
  | .freed arxivIds => Queue.WaitsFor arxivIds row ∧ status = .queued
  | .budgetFailed _ => row.status.pending = true ∧ status = .failed
  | .raised _ => True
  | _ => False

/-- The status stays, or the operation leaves a mark of what becomes of it. -/
def Told (o : Op) (r : Except Exn o.Res) (row row' : QueueRow) : Prop :=
  row'.status = row.status ∨ ∃ m ∈ mark o r, m.Moves row row'.status

section Statuses

variable {o : Op} {t : Int} {r : Except Exn o.Res} {s s' : Store} {row row' : QueueRow}

theorem told_of_mark {m : Mark} (hmark : mark o r = [m]) (hmoves : m.Moves row row'.status) :
    Told o r row row' :=
  .inr ⟨m, by rw [hmark]; exact List.mem_singleton_self m, hmoves⟩

theorem told_claim {owner : OwnerToken} {timeout : Int} {keys : Option (List CacheKey)}
    {item : Option QueueItem} (hledger : Queue.Ledger s.nextUuid s.queue)
    (h : Store.Performed (.queue (.claimNextQueueItem owner timeout keys)) t (.ok item) s s')
    (hrow : row ∈ s.queue.items) (hrow' : row' ∈ s'.queue.items)
    (hid : row'.requestId = row.requestId) :
    Told (.queue (.claimNextQueueItem owner timeout keys)) (.ok item) row row' := by
  rcases h.of_ok with ⟨input, _, hexec⟩
  rcases QueueTables.claimNextQueueItem_cases (q := s.queue) owner timeout keys t with
    hnone | ⟨picked, hpicked, _, hclaim⟩
  · simp only [Store.exec, QueueOp.exec, hnone, Prod.mk.injEq] at hexec
    rw [← hexec.2] at hrow'
    exact .inl (congrArg (fun row : QueueRow => row.status)
      (QueueTables.eq_of_mem_of_requestId hledger.nodup hrow' hrow hid))
  · simp only [Store.exec, QueueOp.exec, hclaim, Prod.mk.injEq, Except.ok.injEq] at hexec
    rcases hexec with ⟨rfl, rfl⟩
    rcases List.mem_map.1 hrow' with ⟨old, hold, rfl⟩
    by_cases hsame : old.requestId = picked.requestId
    · rw [if_pos hsame] at hid ⊢
      exact told_of_mark rfl ⟨hid.symm.trans hsame, rfl⟩
    · rw [if_neg hsame] at hid ⊢
      exact .inl (congrArg (fun row : QueueRow => row.status)
        (QueueTables.eq_of_mem_of_requestId hledger.nodup hold hrow hid))

theorem told_releaseIds {ids : List String} {owner : OwnerToken} {timestamp : Int} {b : Unit}
    (hledger : Queue.Ledger s.nextUuid s.queue)
    (h : Store.Performed (.queue (.releaseIdFetchReservations ids owner timestamp)) t (.ok b) s s')
    (hrow : row ∈ s.queue.items) (hrow' : row' ∈ s'.queue.items)
    (hid : row'.requestId = row.requestId) :
    Told (.queue (.releaseIdFetchReservations ids owner timestamp)) (.ok b) row row' := by
  rcases h.of_ok with ⟨input, _, hexec⟩
  simp only [Store.exec, QueueOp.exec, Prod.mk.injEq] at hexec
  rcases hexec with ⟨-, rfl⟩
  rcases Queue.changes_releaseIds (q := s.queue) ids owner timestamp with ⟨change, hitems, hrows⟩
  change row' ∈ (s.queue.releaseIdFetchReservations ids owner timestamp).items at hrow'
  rw [hitems] at hrow'
  rcases List.mem_map.1 hrow' with ⟨old, hold, rfl⟩
  rcases hrows old hold with hsame | ⟨hwaits, hwoken⟩
  · rw [hsame] at hid ⊢
    exact .inl (congrArg (fun row : QueueRow => row.status)
      (QueueTables.eq_of_mem_of_requestId hledger.nodup hold hrow hid))
  · rw [hwoken] at hid ⊢
    have heq := QueueTables.eq_of_mem_of_requestId hledger.nodup hold hrow hid
    exact told_of_mark rfl ⟨heq ▸ hwaits, rfl⟩

theorem told_budgetTaken {budgetId : Uuid} {category message : String} {timestamp : Int} {b : Unit}
    (h : Queue.BudgetTaken row row') :
    Told (.queue (.failActiveUpstreamBudgetItems budgetId category message timestamp)) (.ok b)
      row row' := by
  rcases h with hkept | ⟨hpending, hfailed⟩
  · exact .inl hkept.status
  · exact told_of_mark rfl ⟨hpending, congrArg Prod.fst hfailed.standing⟩

theorem mark_raised (o : QueueOp) (e : Exn) : mark (.queue o) (.error e) = [.raised e] := by
  cases o <;> rfl

/-- Every operation that may change the status of an item marks the change. -/
theorem told_of_performed (hledger : Queue.Ledger s.nextUuid s.queue)
    (h : Store.Performed o t r s s') (hrow : row ∈ s.queue.items) (hrow' : row' ∈ s'.queue.items)
    (hid : row'.requestId = row.requestId) : Told o r row row' := by
  rcases Queue.row_changed hledger h hrow hrow' hid with rfl | heffect
  · exact .inl rfl
  cases o with
  | queue o =>
      cases r with
      | error e => exact told_of_mark (mark_raised o e) trivial
      | ok b =>
          cases o with
          | claimNextQueueItem owner timeout keys => exact told_claim hledger h hrow hrow' hid
          | completeQueueItem requestId timestamp =>
              rcases heffect with ⟨hitem, rfl⟩
              exact told_of_mark rfl ⟨hitem, rfl⟩
          | releaseOrDelayQueueItem requestId nextAttemptAt category message status timestamp =>
              rcases heffect with ⟨hitem, _, rfl⟩
              exact told_of_mark rfl ⟨hitem, rfl⟩
          | releaseIdFetchReservations ids owner timestamp =>
              exact told_releaseIds hledger h hrow hrow' hid
          | failActiveUpstreamBudgetItems budgetId category message timestamp =>
              exact told_budgetTaken heffect
          | reserveQueueItemUpstreamRequest requestId => exact .inl heffect.2.status
          | checkQueueItemUpstreamRequestDeadlines requestId => exact .inl heffect.2.status
          | enqueueRequestForWork request cacheKey workKind budgetId timeout now =>
              exact .inl (Queue.Joined.status heffect)
          | acquireIdFetchReservations => exact heffect.elim
          | renewIdFetchReservations => exact heffect.elim
          | createUpstreamRequestBudget => exact heffect.elim
          | queueItemUpstreamDeadline => exact heffect.elim
          | getQueueItem => exact heffect.elim
  | enqueueRefreshIfDue request cacheKey timeout current =>
      exact .inl (Queue.Joined.status heffect)
  | renewWorkerFetchOwnership requestId owner name ttl ids =>
      rcases heffect with ⟨_, _, _, rfl⟩
      exact .inl rfl
  | clock => exact heffect.elim
  | lease => exact heffect.elim
  | rate => exact heffect.elim
  | library => exact heffect.elim
  | oai => exact heffect.elim
  | upstream => exact heffect.elim
  | initSchema => exact heffect.elim
  | checkpointOaiPage => exact heffect.elim

end Statuses

/-! ## Every run -/

section Runs

variable {d : Deployment}

/-- The marks that the process `p` has left since its start. -/
abbrev trace (p : Nat) (h : Process.System.History (fleet d)) : List Mark :=
  (Process.System.tracing mark).view p h

/-- Only a pass returns the result of one. -/
theorem marked_program (d : Deployment) (c : Client) (pid : Nat) :
    Marked (c.program d pid) fun out trace => ∀ r, out = .pass r → PassTells r trace := by
  cases c with
  | runOnce targets =>
      refine (marked_runOnce ⟨d, .worker pid⟩ targets).bind fun result trace htells => ?_
      intro r hr
      cases hr
      rwa [List.append_nil]
  | harvestOai request =>
      exact .after (unmarked_of_silent ((Harvest.harvesting_harvestOai request).mono
        fun _ => silent_of_harvesting))
        fun _ r hr => by cases hr
  | enqueueRequestForWork request cacheKey workKind budgetId =>
      refine Marked.bind (S := fun _ _ => True) ?_ fun _ _ _ r hr => by cases hr
      exact .after unmarked_utcNow fun _ => marked_asked trivial
  | enqueueRefreshIfDue request cacheKey =>
      refine Marked.bind (S := fun _ _ => True) ?_ fun _ _ _ r hr => by cases hr
      exact .after unmarked_utcNow fun _ => marked_asked trivial
  | createUpstreamRequestBudget maxRequests deadlineAt =>
      refine Marked.bind (S := fun _ _ => True) ?_ fun _ _ _ r hr => by cases hr
      unfold createUpstreamRequestBudget
      split
      · trivial
      · exact .after unmarked_utcNow fun _ => marked_asked trivial
  | failActiveUpstreamBudgetItems budgetId category message =>
      refine Marked.bind (S := fun _ _ => True) ?_ fun _ _ _ r hr => by cases hr
      exact .after unmarked_utcNow fun _ => marked_asked trivial

/-- Every process that has returned from a pass has returned what its marks tell. -/
def ReportsTrue (c : Config (fleet d)) : Prop :=
  ∀ p r, c.procs p = some (.ret (.pass r)) → PassTells r (trace p c.history)

/-- No operation changes the status of an item but as its mark says. -/
def StatusesTold (h : History (fleet d)) : Prop :=
  ∀ e ∈ h, ∀ o r, e.action = .op o r → ∀ row ∈ e.before.queue.items, ∀ row' ∈ e.after.queue.items,
    row'.requestId = row.requestId → Told o r row row'

theorem statusesTold_of_legal {h : History (fleet d)} (hlegal : Throughout Legal h) :
    StatusesTold h := by
  induction h with
  | nil =>
      intro e he
      cases he
  | cons e pre ih =>
      intro e' he' o r haction row hrow row' hrow' hid
      rcases List.mem_cons.1 he' with rfl | hearlier
      · have hledger := Queue.ledger_after hlegal.tail
        rw [hlegal.head.before_eq] at hrow
        exact told_of_performed hledger (Queue.performed_of_op hlegal.head haction) hrow hrow' hid
      · exact ih hlegal.tail e' hearlier o r haction row hrow row' hrow' hid

/-- In every run, whatever other processes do, whatever faults and whoever crashes: a pass that
returns tells what it has done.  It has fetched at most once; it has recorded what became of the
request, with one upstream request if it fetched and none otherwise; and it has moved the queue
item once, or not at all where it says that its claim or its lease was lost.  What else it moved,
its own item after that included, were items that waited for the ids it let go. -/
theorem reports_true (d : Deployment) (sched : List (Config.Choice (fleet d))) :
    ReportsTrue (Config.after (fleet d) sched) ∧
      StatusesTold (Config.after (fleet d) sched).history :=
  ⟨fun p r hret => Process.System.traced_after (marked_program d) sched p (.pass r) hret r rfl,
    statusesTold_of_legal (Config.legal_after (fleet d) sched)⟩

end Runs

end Worker
end Huldra
