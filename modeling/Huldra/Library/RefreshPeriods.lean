import Huldra.Clients
import Huldra.Library.AlwaysReadable
import Huldra.Queue.Ledger

/-!
# RefreshPeriods — how long a refresh keeps the next one from being queued

A refresh that is queued moves the refresh time of its cache entry one interval on.  Whether the
next one is due is decided from that time and from the completion of the entry, and a refresh that
fails leaves the completion where it was.
-/

namespace Huldra
namespace LibraryTables

/-! ## The refresh time of one entry -/

/-- The entry of the key is completed, and its refresh time is not before the limit. -/
def FreshUntil (l : LibraryTables) (cacheKey : CacheKey) (limit : Int) : Prop :=
  ∃ entry refreshAfter, l.cacheEntryOf? cacheKey = some entry ∧ entry.status = .completed ∧
    entry.refreshAfter = some refreshAfter ∧ limit ≤ refreshAfter

theorem FreshUntil.congr {l l' : LibraryTables} {cacheKey : CacheKey} {limit : Int}
    (h : l.FreshUntil cacheKey limit) (heq : l'.cacheEntryOf? cacheKey = l.cacheEntryOf? cacheKey) :
    l'.FreshUntil cacheKey limit := by
  rcases h with ⟨entry, refreshAfter, hentry, hrest⟩
  exact ⟨entry, refreshAfter, heq.trans hentry, hrest⟩

theorem cacheEntryOf?_map (l : LibraryTables) (cacheKey : CacheKey) {f : CacheEntry → CacheEntry}
    (hf : ∀ e, (f e).cacheKey = e.cacheKey) :
    ({ l with cacheEntries := l.cacheEntries.map f } : LibraryTables).cacheEntryOf? cacheKey =
      (l.cacheEntryOf? cacheKey).map f := by
  have hsame : ((fun e : CacheEntry => decide (e.cacheKey = cacheKey)) ∘ f) =
      fun e => decide (e.cacheKey = cacheKey) := by
    funext e
    rw [Function.comp_apply, hf]
  rw [cacheEntryOf?, List.find?_map, hsame, cacheEntryOf?]

theorem cacheEntryOf?_setRefreshAfter {l : LibraryTables} {cacheKey : CacheKey} {entry : CacheEntry}
    (hentry : l.cacheEntryOf? cacheKey = some entry) (refreshAfter : Option Int) :
    ({ l with
        cacheEntries := l.cacheEntries.map fun e =>
          if e.cacheKey = cacheKey then { e with refreshAfter := refreshAfter } else e } :
      LibraryTables).cacheEntryOf? cacheKey = some { entry with refreshAfter := refreshAfter } := by
  rw [cacheEntryOf?_map l cacheKey fun e => by split <;> rfl, hentry]
  simp [cacheEntryOf?_cacheKey hentry]

theorem cacheEntryOf?_putCacheEntry_of_ne (l : LibraryTables) {entry : CacheEntry}
    {cacheKey : CacheKey} (hne : entry.cacheKey ≠ cacheKey) :
    (l.putCacheEntry entry).cacheEntryOf? cacheKey = l.cacheEntryOf? cacheKey := by
  unfold putCacheEntry
  split
  · -- The row that is replaced is not the one that is looked up.
    rw [cacheEntryOf?_map l cacheKey fun e => by split <;> simp_all]
    cases hentry : l.cacheEntryOf? cacheKey with
    | none => rfl
    | some e =>
        have hkey := cacheEntryOf?_cacheKey hentry
        simp [hkey, hne.symm]
  · simp [cacheEntryOf?, List.find?_append, hne]

theorem cacheEntryOf?_recordCompletedCacheEntry_of_ne (l : LibraryTables) {w : CompletedCacheWrite}
    {cacheKey : CacheKey} (hne : w.cacheKey ≠ cacheKey) :
    (l.recordCompletedCacheEntry w).cacheEntryOf? cacheKey = l.cacheEntryOf? cacheKey := by
  have hput : (l.recordCompletedCacheEntry w).cacheEntryOf? cacheKey =
      ((l.upsertPapers w.papers w.completedAt).2.putCacheEntry
        (l.completionEntry w)).cacheEntryOf? cacheKey := by
    unfold cacheEntryOf?
    rw [recordCompletedCacheEntry_cacheEntries]
  rw [hput, cacheEntryOf?_putCacheEntry_of_ne _ hne]
  simp [cacheEntryOf?]

/-- A failure leaves a completed entry completed, and its refresh time where it is. -/
theorem FreshUntil.recordCacheFailure {l : LibraryTables} {cacheKey : CacheKey} {limit : Int}
    (h : l.FreshUntil cacheKey limit) (w : CacheFailureWrite) :
    (l.recordCacheFailure w).FreshUntil cacheKey limit := by
  by_cases hkey : w.cacheKey = cacheKey
  · subst hkey
    rcases h with ⟨entry, refreshAfter, hentry, hstatus, hrefresh, hle⟩
    have hentryKey := cacheEntryOf?_cacheKey hentry
    have hfailure : (l.recordCacheFailure w).cacheEntryOf? w.cacheKey =
        some (failureEntry entry w) := by
      rw [recordCacheFailure_of_previous hentry]
      simpa [failureEntry, hentryKey] using cacheEntryOf?_putCacheEntry l (failureEntry entry w)
    exact ⟨_, refreshAfter, hfailure, by simp [failureEntry, hstatus], hrefresh, hle⟩
  · refine h.congr ?_
    unfold LibraryTables.recordCacheFailure
    dsimp only
    split
    · rename_i previous hprevious
      apply cacheEntryOf?_putCacheEntry_of_ne
      simpa [cacheEntryOf?_cacheKey hprevious] using hkey
    · exact cacheEntryOf?_putCacheEntry_of_ne l hkey

theorem FreshUntil.upsertOaiRecords {l : LibraryTables} {cacheKey : CacheKey} {limit : Int}
    (h : l.FreshUntil cacheKey limit) (records : List OaiRecord) (timestamp : Int) :
    (l.upsertOaiRecords records timestamp).2.FreshUntil cacheKey limit :=
  upsertOaiRecords_induction (P := fun l => l.FreshUntil cacheKey limit)
    (fun _ _ h => h.congr (by simp [cacheEntryOf?]))
    (fun _ _ h => h.congr (by simp [cacheEntryOf?]))
    (fun _ _ _ h => h) records h

/-- The migration fills an empty refresh time only. -/
theorem FreshUntil.backfillCacheEntries {l : LibraryTables} {cacheKey : CacheKey} {limit : Int}
    (h : l.FreshUntil cacheKey limit) : l.backfillCacheEntries.FreshUntil cacheKey limit := by
  rcases h with ⟨entry, refreshAfter, hentry, hstatus, hrefresh, hle⟩
  have hbackfilled := cacheEntryOf?_map l cacheKey (f := fun entry : CacheEntry =>
      if entry.status = .completed then
        { entry with
          refreshAfter := entry.refreshAfter.or entry.completedAt
          coverageStatus :=
            if entry.coverageStatus = .unknown then .slice else entry.coverageStatus }
      else entry) fun e => by split <;> rfl
  rw [hentry, Option.map_some, if_pos hstatus] at hbackfilled
  exact ⟨_, refreshAfter, hbackfilled, hstatus, by simp [hrefresh], hle⟩

end LibraryTables

namespace Store

open LibraryTables

/-! ## The refresh transaction -/

/-- Everything the transaction can do to the entry of its key when no work is pending on it. -/
theorem enqueueRefreshIfDue_cases (s : Store) (request : ArxivRequest) (cacheKey : CacheKey)
    (defaultTimeout : Timeout) (current : Int) {entry : CacheEntry}
    (hpending : s.queue.pendingItem? cacheKey = none)
    (hentry : s.library.cacheEntryOf? cacheKey = some entry) (hstatus : entry.status = .completed) :
    let s' := (s.enqueueRefreshIfDue request cacheKey defaultTimeout current).2
    (∃ due, effectiveRefreshAfter entry request = some due ∧ current < due ∧
        s'.queue = s.queue ∧
        s'.library.cacheEntryOf? cacheKey = some { entry with refreshAfter := some due }) ∨
      ((∀ due, effectiveRefreshAfter entry request = some due → due ≤ current) ∧
        s.queue.items.length < s'.queue.items.length ∧
        s'.library.cacheEntryOf? cacheKey =
          some { entry with
            refreshAfter := some (current + seconds request.refreshIntervalSeconds) }) := by
  have hcreated : s.queue.items.length < (s.queue.enqueueRequestForWork s.nextUuid request cacheKey
      .refreshCompleted none defaultTimeout current).2.items.length := by
    simp only [QueueTables.enqueueRequestForWork, Option.any_none, Bool.false_eq_true, if_false,
      hpending]
    split <;> simp [QueueTables.insertItem]
  unfold enqueueRefreshIfDue
  simp only [hpending, hentry, Option.isSome_none, Bool.false_eq_true, if_false]
  rw [if_neg (not_not_intro hstatus)]
  cases hdue : effectiveRefreshAfter entry request with
  | none =>
      right
      refine ⟨?_, hcreated, cacheEntryOf?_setRefreshAfter hentry _⟩
      intro due h
      cases h
  | some due =>
      dsimp only
      by_cases hlt : current < due
      · left
        rw [if_pos hlt]
        refine ⟨due, rfl, hlt, ?_⟩
        by_cases hsame : some due = entry.refreshAfter
        · rw [if_pos hsame]
          refine ⟨rfl, ?_⟩
          rw [hentry, hsame]
        · rw [if_neg hsame]
          exact ⟨rfl, cacheEntryOf?_setRefreshAfter hentry _⟩
      · right
        rw [if_neg hlt]
        refine ⟨?_, hcreated, cacheEntryOf?_setRefreshAfter hentry _⟩
        intro due' h
        cases h
        omega

/-- A transaction that finds pending work joins it, and does nothing to the library. -/
theorem enqueueRefreshIfDue_library_of_pending {s : Store} {request : ArxivRequest}
    {cacheKey : CacheKey} (defaultTimeout : Timeout) (current : Int)
    (hpending : (s.queue.pendingItem? cacheKey).isSome = true) :
    (s.enqueueRefreshIfDue request cacheKey defaultTimeout current).2.library = s.library := by
  simp [enqueueRefreshIfDue, hpending]

theorem enqueueRefreshIfDue_length_of_pending {s : Store} (request : ArxivRequest)
    {cacheKey : CacheKey} (defaultTimeout : Timeout) (current : Int)
    (hpending : (s.queue.pendingItem? cacheKey).isSome = true) :
    (s.enqueueRefreshIfDue request cacheKey defaultTimeout current).2.queue.items.length =
      s.queue.items.length := by
  rcases Option.isSome_iff_exists.1 hpending with ⟨existing, hexisting⟩
  simp only [enqueueRefreshIfDue, QueueTables.enqueueRequestForWork, hexisting, Option.isSome_some,
    if_true, Option.any_none, Bool.false_eq_true, if_false]
  split
  · exact Queue.joinPending_length ..
  · rfl

/-- A transaction that puts a new item into the queue found nothing pending, and the entry
completed and due; it moves the refresh time one interval on. -/
theorem enqueueRefreshIfDue_created {s : Store} {request : ArxivRequest} {cacheKey : CacheKey}
    {defaultTimeout : Timeout} {current : Int}
    (hcreated : s.queue.items.length <
      (s.enqueueRefreshIfDue request cacheKey defaultTimeout current).2.queue.items.length) :
    s.queue.pendingItem? cacheKey = none ∧
      (∃ entry, s.library.cacheEntryOf? cacheKey = some entry ∧
        ∀ due, effectiveRefreshAfter entry request = some due → due ≤ current) ∧
      (s.enqueueRefreshIfDue request cacheKey defaultTimeout current).2.library.FreshUntil cacheKey
        (current + seconds request.refreshIntervalSeconds) := by
  have hpending : s.queue.pendingItem? cacheKey = none := by
    by_contra hsome
    have hlength := enqueueRefreshIfDue_length_of_pending request defaultTimeout current
      (Option.isSome_iff_ne_none.2 hsome)
    omega
  cases hentry : s.library.cacheEntryOf? cacheKey with
  | none => simp [enqueueRefreshIfDue, hpending, hentry] at hcreated
  | some entry =>
      by_cases hstatus : entry.status = .completed
      · rcases enqueueRefreshIfDue_cases s request cacheKey defaultTimeout current hpending hentry
          hstatus with ⟨due, _, _, hqueue, _⟩ | ⟨hdue, _, hafter⟩
        · rw [hqueue] at hcreated
          omega
        · exact ⟨hpending, ⟨entry, rfl, hdue⟩, _, _, hafter, hstatus, rfl, Int.le_refl _⟩
      · simp [enqueueRefreshIfDue, hpending, hentry, hstatus] at hcreated

theorem cacheEntryOf?_enqueueRefreshIfDue_of_ne (s : Store) (request : ArxivRequest)
    {cacheKey key : CacheKey} (defaultTimeout : Timeout) (current : Int) (hne : key ≠ cacheKey) :
    (s.enqueueRefreshIfDue request key defaultTimeout current).2.library.cacheEntryOf? cacheKey =
      s.library.cacheEntryOf? cacheKey := by
  rcases enqueueRefreshIfDue_library s request key defaultTimeout current with
    heq | ⟨refreshAfter, heq⟩
  · rw [heq]
  · rw [heq, cacheEntryOf?_map s.library cacheKey fun e => by split <;> rfl]
    cases hentry : s.library.cacheEntryOf? cacheKey with
    | none => rfl
    | some e => simp [cacheEntryOf?_cacheKey hentry, hne.symm]

/-- The earlier of the two times is not before the limit when neither is. -/
theorem le_effectiveRefreshAfter {entry : CacheEntry} {request : ArxivRequest} {limit due : Int}
    (hdue : effectiveRefreshAfter entry request = some due)
    (hcompleted : ∀ t, entry.completedAt = some t →
      limit ≤ t + seconds request.refreshIntervalSeconds)
    (hrefresh : ∀ t, entry.refreshAfter = some t → limit ≤ t) : limit ≤ due := by
  unfold effectiveRefreshAfter at hdue
  cases hc : entry.completedAt with
  | none =>
      rw [hc] at hdue
      exact hrefresh due (by simpa using hdue)
  | some t =>
      have ht := hcompleted t hc
      cases hr : entry.refreshAfter with
      | none =>
          simp only [hc, hr, Option.map_some, Option.some.injEq] at hdue
          omega
      | some t' =>
          have ht' := hrefresh t' hr
          simp only [hc, hr, Option.map_some, Option.some.injEq] at hdue
          omega

theorem isSome_effectiveRefreshAfter {entry : CacheEntry} (request : ArxivRequest) {t : Int}
    (h : entry.refreshAfter = some t) : (effectiveRefreshAfter entry request).isSome = true := by
  unfold effectiveRefreshAfter
  rw [h]
  cases entry.completedAt <;> rfl

/-- A refresh call creates nothing inside a period, and does not bring the refresh time forward into
it, unless its own interval from the completion on ends before the period does. -/
theorem freshUntil_enqueueRefreshIfDue {s : Store} {request : ArxivRequest} {cacheKey : CacheKey}
    {limit : Int} (h : s.library.FreshUntil cacheKey limit) (defaultTimeout : Timeout)
    (current : Int)
    (hkeeps : s.queue.pendingItem? cacheKey = none → current < limit →
      ∀ entry, s.library.cacheEntryOf? cacheKey = some entry →
        ∀ t, entry.completedAt = some t → limit ≤ t + seconds request.refreshIntervalSeconds) :
    let s' := (s.enqueueRefreshIfDue request cacheKey defaultTimeout current).2
    s'.library.FreshUntil cacheKey limit ∧
      (s.queue.items.length < s'.queue.items.length → limit ≤ current) := by
  intro s'
  cases hpending : s.queue.pendingItem? cacheKey with
  | some existing =>
      have hsome : (s.queue.pendingItem? cacheKey).isSome = true := by
        rw [hpending]
        rfl
      refine ⟨?_, ?_⟩
      · simpa only [s', enqueueRefreshIfDue_library_of_pending defaultTimeout current hsome]
          using h
      · intro hcreated
        simp only [s', enqueueRefreshIfDue_length_of_pending request defaultTimeout current hsome,
          Nat.lt_irrefl] at hcreated
  | none =>
      rcases h with ⟨entry, refreshAfter, hentry, hstatus, hrefresh, hle⟩
      have hbefore : current < limit → ∀ due, effectiveRefreshAfter entry request = some due →
          limit ≤ due := by
        intro hlt due hdue
        refine le_effectiveRefreshAfter hdue (hkeeps hpending hlt entry hentry) ?_
        intro t ht
        rw [hrefresh] at ht
        cases ht
        exact hle
      rcases enqueueRefreshIfDue_cases s request cacheKey defaultTimeout current hpending hentry
        hstatus with ⟨due, hdue, hlt, hqueue, hafter⟩ | ⟨hdue, _, hafter⟩
      · refine ⟨⟨_, due, hafter, hstatus, rfl, ?_⟩, ?_⟩
        · by_cases hinside : current < limit
          · exact hbefore hinside due hdue
          · omega
        · intro hcreated
          rw [hqueue] at hcreated
          omega
      · -- The call creates an item, so it comes after the end of the period.
        have hover : limit ≤ current := by
          by_contra hinside
          rcases Option.isSome_iff_exists.1 (isSome_effectiveRefreshAfter request hrefresh) with
            ⟨due, hsome⟩
          have := hbefore (by omega) due hsome
          have := hdue due hsome
          omega
        refine ⟨⟨_, _, hafter, hstatus, rfl, ?_⟩, fun _ => hover⟩
        have : 0 ≤ seconds request.refreshIntervalSeconds := by
          simp only [seconds]
          omega
        omega

/-- Otherwise the period is cut short: the call creates an item, or leaves the entry due before the
end of the period. -/
theorem enqueueRefreshIfDue_undercuts {s : Store} {request : ArxivRequest} {cacheKey : CacheKey}
    (defaultTimeout : Timeout) (current : Int) {entry : CacheEntry} {limit t : Int}
    (hpending : s.queue.pendingItem? cacheKey = none)
    (hentry : s.library.cacheEntryOf? cacheKey = some entry) (hstatus : entry.status = .completed)
    (hcompleted : entry.completedAt = some t)
    (hshort : t + seconds request.refreshIntervalSeconds < limit) :
    let s' := (s.enqueueRefreshIfDue request cacheKey defaultTimeout current).2
    s.queue.items.length < s'.queue.items.length ∨ ¬ s'.library.FreshUntil cacheKey limit := by
  intro s'
  rcases enqueueRefreshIfDue_cases s request cacheKey defaultTimeout current hpending hentry
    hstatus with ⟨due, hdue, _, _, hafter⟩ | ⟨_, hcreated, _⟩
  · right
    rintro ⟨entry', refreshAfter, hentry', _, hrefresh, hle⟩
    have hearly : due ≤ t + seconds request.refreshIntervalSeconds := by
      unfold effectiveRefreshAfter at hdue
      cases hr : entry.refreshAfter <;> simp [hcompleted, hr] at hdue <;> omega
    rw [hafter] at hentry'
    cases hentry'
    cases hrefresh
    omega
  · exact Or.inl hcreated

/-! ## What the other operations leave -/

/-- The operation records a completion of the key. -/
def completesKey (cacheKey : CacheKey) : Op → Bool
  | .library (.recordCompletedCacheEntry w) => w.cacheKey = cacheKey
  | _ => false

/-- The operation is a refresh call for the key. -/
def refreshesKey (cacheKey : CacheKey) : Op → Bool
  | .enqueueRefreshIfDue _ key _ _ => key = cacheKey
  | _ => false

theorem freshUntil_libraryExec {l : LibraryTables} {cacheKey : CacheKey} {limit : Int}
    (h : l.FreshUntil cacheKey limit) {o : LibraryOp}
    (hcompletes : completesKey cacheKey (.library o) = false) :
    (o.exec l).2.FreshUntil cacheKey limit := by
  cases o with
  | getCacheEntry => exact h
  | matchCount => exact h
  | joinedCount => exact h
  | matchPositions => exact h
  | getPapersByIds => exact h
  | getCachedPapers => exact h
  | recordCompletedCacheEntry w =>
      exact h.congr (cacheEntryOf?_recordCompletedCacheEntry_of_ne l (by simpa [completesKey] using
        hcompletes))
  | recordCacheFailure w => exact h.recordCacheFailure w
  | upsertPapers papers timestamp => exact h.congr (by simp [LibraryOp.exec, cacheEntryOf?])
  | upsertOaiRecords records timestamp => exact h.upsertOaiRecords records timestamp
  | markPaperDeleted => exact h

/-- Only a completion of the key or a refresh call for it moves its refresh time. -/
theorem freshUntil_exec {s : Store} {cacheKey : CacheKey} {limit : Int}
    (h : s.library.FreshUntil cacheKey limit) {o : Op}
    (hcompletes : completesKey cacheKey o = false) (hrefreshes : refreshesKey cacheKey o = false)
    (t : Int) (input : Input) : (exec o t input s).2.library.FreshUntil cacheKey limit := by
  cases o with
  | clock => exact h
  | lease => exact h
  | rate => exact h
  | queue => exact h
  | library o => exact freshUntil_libraryExec h hcompletes
  | oai => exact h
  | upstream => exact h
  | initSchema =>
      simp only [exec]
      rcases s.initSchema_cases with heq | heq
      · rw [heq]
        exact h
      · rw [heq]
        exact h.backfillCacheEntries
  | renewWorkerFetchOwnership requestId owner leaseName ttl ids =>
      simpa only [exec, renewWorkerFetchOwnership_library] using h
  | checkpointOaiPage c =>
      simp only [exec, checkpointOaiPage]
      split
      · exact h.upsertOaiRecords c.records c.timestamp
      · exact h
  | enqueueRefreshIfDue request key defaultTimeout current =>
      refine h.congr ?_
      exact cacheEntryOf?_enqueueRefreshIfDue_of_ne s request defaultTimeout current
        (by simpa [refreshesKey] using hrefreshes)

end Store

/-! ## Refresh periods -/

namespace Refreshes

open Process
open Process.System
open LibraryTables
open Store

/-- The interval a refresh was queued for, from the time of the call that created its item. -/
structure RefreshPeriod where
  start : Int
  interval : Nat

def RefreshPeriod.endsAt (p : RefreshPeriod) : Int :=
  p.start + seconds p.interval

/-- A refresh call, and the time it is made for. -/
structure RefreshCall where
  request : ArxivRequest
  cacheKey : CacheKey
  current : Int

section Runs

variable {Client Out : Type} {program : Client → Nat → Prog huldra Out}

def refreshCall? (e : Event (storeSystem Client Out program)) : Option RefreshCall :=
  match e.action with
  | .op (.enqueueRefreshIfDue request cacheKey _ current) _ => some ⟨request, cacheKey, current⟩
  | _ => none

/-- The event has put a new item into the queue. -/
def createsItem (e : Event (storeSystem Client Out program)) : Bool :=
  e.before.queue.items.length < e.after.queue.items.length

/-- The event has recorded a completion of the key. -/
def recordsCompletion (cacheKey : CacheKey) (e : Event (storeSystem Client Out program)) : Bool :=
  match e.action with
  | .op o _ =>
      completesKey cacheKey o &&
        e.after.library.cacheEntryOf? cacheKey ≠ e.before.library.cacheEntryOf? cacheKey
  | _ => false

/-- The periods of the refreshes of the key that were created since its last completion, and since
which no call has asked for a shorter interval. -/
def refreshPeriods (cacheKey : CacheKey) :
    History (storeSystem Client Out program) → List RefreshPeriod
  | [] => []
  | e :: pre =>
      if recordsCompletion cacheKey e then []
      else
        match (refreshCall? e).filter fun call => call.cacheKey = cacheKey with
        | none => refreshPeriods cacheKey pre
        | some call =>
            let interval := call.request.refreshIntervalSeconds
            let running := (refreshPeriods cacheKey pre).filter fun p => p.interval ≤ interval
            if createsItem e then { start := call.current, interval := interval } :: running
            else running

/-- A refresh call that creates an item comes after every such period. -/
def RefreshReserved (pre : History (storeSystem Client Out program))
    (e : Event (storeSystem Client Out program)) : Prop :=
  ∀ call ∈ refreshCall? e, createsItem e = true → ∀ p ∈ refreshPeriods call.cacheKey pre,
    p.interval ≤ call.request.refreshIntervalSeconds → p.endsAt ≤ call.current

/-- A refresh call inside such a period, with nothing pending, asks for an interval that from the
completion of the entry on does not end before the period does. -/
def OutlastsPeriods (pre : History (storeSystem Client Out program))
    (e : Event (storeSystem Client Out program)) : Prop :=
  ∀ call ∈ refreshCall? e, e.before.queue.pendingItem? call.cacheKey = none →
    ∀ p ∈ refreshPeriods call.cacheKey pre,
      p.interval ≤ call.request.refreshIntervalSeconds → call.current < p.endsAt →
      ∀ entry ∈ e.before.library.cacheEntryOf? call.cacheKey,
        ∀ t ∈ entry.completedAt, p.endsAt ≤ t + seconds call.request.refreshIntervalSeconds

instance (pre : History (storeSystem Client Out program))
    (e : Event (storeSystem Client Out program)) : Decidable (RefreshReserved pre e) := by
  unfold RefreshReserved
  infer_instance

instance (pre : History (storeSystem Client Out program))
    (e : Event (storeSystem Client Out program)) : Decidable (OutlastsPeriods pre e) := by
  unfold OutlastsPeriods
  infer_instance

/-! ## The invariant -/

/-- No entry is due for a refresh before the end of a period of its key. -/
def Fresh (pre : History (storeSystem Client Out program)) : Prop :=
  ∀ cacheKey, ∀ p ∈ refreshPeriods cacheKey pre,
    (stateAfter pre).library.FreshUntil cacheKey p.endsAt

theorem fresh_nil : Fresh ([] : History (storeSystem Client Out program)) := by
  intro cacheKey p hp
  cases hp

variable {pre : History (storeSystem Client Out program)}
  {e : Event (storeSystem Client Out program)}

/-- An event that is no refresh call for the key, and records no completion of it, leaves its
refresh time alone. -/
theorem freshUntil_event (hlegal : Legal pre e) {cacheKey : CacheKey} {limit : Int}
    (h : e.before.library.FreshUntil cacheKey limit)
    (hcompletion : recordsCompletion cacheKey e = false)
    (hcall : (refreshCall? e).filter (fun call => call.cacheKey = cacheKey) = none) :
    e.after.library.FreshUntil cacheKey limit := by
  cases ha : e.action with
  | start c =>
      rw [hlegal.after_eq_of_start ha]
      exact h
  | crash =>
      rw [hlegal.after_eq_of_crash ha]
      exact h
  | op o r =>
      have hperf : Performed o e.time r e.before e.after := hlegal.executed ha
      have hrefreshes : refreshesKey cacheKey o = false := by
        cases o with
        | enqueueRefreshIfDue => simpa [refreshCall?, ha, refreshesKey] using hcall
        | _ => rfl
      simp only [recordsCompletion, ha, Bool.and_eq_false_imp] at hcompletion
      by_cases hcompletes : completesKey cacheKey o = true
      · -- The completion was not written, or wrote what was there.
        have hsame := hcompletion hcompletes
        exact h.congr (by simpa using hsame)
      · rcases hperf.state with hsame | ⟨input, hexec⟩
        · rw [hsame]
          exact h
        · rw [hexec]
          exact freshUntil_exec h (by simpa using hcompletes) hrefreshes e.time input

/-- What a refresh call does to the periods of its key. -/
theorem freshUntil_call (hlegal : Legal pre e) (houtlasts : OutlastsPeriods pre e)
    {call : RefreshCall} (hcall : refreshCall? e = some call) {p : RefreshPeriod}
    (hp : p ∈ refreshPeriods call.cacheKey pre)
    (hinterval : p.interval ≤ call.request.refreshIntervalSeconds)
    (h : e.before.library.FreshUntil call.cacheKey p.endsAt) :
    e.after.library.FreshUntil call.cacheKey p.endsAt ∧
      (createsItem e = true → p.endsAt ≤ call.current) := by
  have hkeeps := houtlasts call hcall
  have hunchanged : e.after = e.before → e.after.library.FreshUntil call.cacheKey p.endsAt ∧
      (createsItem e = true → p.endsAt ≤ call.current) := by
    intro hsame
    rw [hsame]
    refine ⟨h, ?_⟩
    simp [createsItem, hsame]
  unfold refreshCall? at hcall
  split at hcall
  · rename_i request cacheKey timeout current r ha
    cases hcall
    have hperf : Performed (.enqueueRefreshIfDue request cacheKey timeout current) e.time r
        e.before e.after := hlegal.executed ha
    rcases hperf.state with hsame | ⟨input, hexec⟩
    · exact hunchanged hsame
    · have hfresh := freshUntil_enqueueRefreshIfDue h timeout current
        fun hpending hinside entry hentry t ht =>
          hkeeps hpending p hp hinterval hinside entry hentry t ht
      simpa only [createsItem, hexec, Store.exec, decide_eq_true_eq] using hfresh
  · cases hcall

/-- A refresh call that creates an item starts a period. -/
theorem freshUntil_created (hlegal : Legal pre e) {call : RefreshCall}
    (hcall : refreshCall? e = some call) (hcreates : createsItem e = true) :
    e.after.library.FreshUntil call.cacheKey
      (call.current + seconds call.request.refreshIntervalSeconds) := by
  unfold refreshCall? at hcall
  split at hcall
  · rename_i request cacheKey timeout current r ha
    cases hcall
    have hperf : Performed (.enqueueRefreshIfDue request cacheKey timeout current) e.time r
        e.before e.after := hlegal.executed ha
    rcases hperf.state with hsame | ⟨input, hexec⟩
    · simp [createsItem, hsame] at hcreates
    · simp only [createsItem, hexec, decide_eq_true_eq] at hcreates
      rw [hexec]
      exact (enqueueRefreshIfDue_created hcreates).2.2
  · cases hcall

theorem fresh_step (hlegal : Legal pre e) (houtlasts : OutlastsPeriods pre e)
    (hfresh : Fresh pre) : Fresh (e :: pre) := by
  intro cacheKey p hp
  change e.after.library.FreshUntil cacheKey p.endsAt
  have hbefore : ∀ p ∈ refreshPeriods cacheKey pre,
      e.before.library.FreshUntil cacheKey p.endsAt := by
    rw [hlegal.before_eq]
    exact hfresh cacheKey
  simp only [refreshPeriods] at hp
  split at hp
  · cases hp
  · rename_i hcompletion
    split at hp
    · rename_i hcall
      exact freshUntil_event hlegal (hbefore p hp) (by simpa using hcompletion) hcall
    · rename_i call hcall
      rcases Option.filter_eq_some_iff.1 hcall with ⟨hfound, hkey⟩
      have hkey : call.cacheKey = cacheKey := by simpa using hkey
      subst hkey
      have hrunning : p ∈ (refreshPeriods call.cacheKey pre).filter (fun p =>
          decide (p.interval ≤ call.request.refreshIntervalSeconds)) →
          e.after.library.FreshUntil call.cacheKey p.endsAt := by
        intro hmem
        rcases List.mem_filter.1 hmem with ⟨hmem, hinterval⟩
        exact (freshUntil_call hlegal houtlasts hfound hmem (by simpa using hinterval)
          (hbefore p hmem)).1
      split at hp
      · rename_i hcreates
        rcases List.mem_cons.1 hp with rfl | hmem
        · exact freshUntil_created hlegal hfound hcreates
        · exact hrunning hmem
      · exact hrunning hp

theorem refreshReserved_of_fresh (hlegal : Legal pre e) (houtlasts : OutlastsPeriods pre e)
    (hfresh : Fresh pre) : RefreshReserved pre e := by
  intro call hcall hcreates p hp hinterval
  have hbefore := hfresh call.cacheKey p hp
  rw [← hlegal.before_eq] at hbefore
  exact (freshUntil_call hlegal houtlasts hcall hp hinterval hbefore).2 hcreates

end Runs

/-! ## The theorem -/

/-- In every run in which the refresh calls made inside a period outlast it, no refresh is created
inside the period of another. -/
theorem refresh_reserved (Client Out : Type) (program : Client → Nat → Prog huldra Out)
    (sched : List (Config.Choice (storeSystem Client Out program)))
    (houtlasts : Throughout OutlastsPeriods
      (Config.after (storeSystem Client Out program) sched).history) :
    Throughout RefreshReserved (Config.after (storeSystem Client Out program) sched).history := by
  have hruns := (Config.legal_after (storeSystem Client Out program) sched).and houtlasts
  exact Throughout.of_invariant fresh_nil (fun pre e hfresh h => fresh_step h.1 h.2 hfresh)
    (fun pre e hfresh h => refreshReserved_of_fresh h.1 h.2 hfresh) hruns

/-- A search whose result is to be refreshed once a minute. -/
def minutelySearch : ArxivRequest :=
  { clientId := "reader", searchQuery := some "cat:cs.AI", refreshIntervalSeconds := 60 }

/-- A pass that comes to its fetch after `n` operations, and ends after the answer. -/
def passOver (pid n : Nat) (fetch : Except Exn FetchResult) : List (Config.Choice (fleet {})) :=
  .start pid (.runOnce none) :: runs pid n ++ .run pid { fetch := fetch } :: runs pid 12

/-- The search is completed, a minute later refreshed, and the refresh fails for good. -/
def failedRefresh : List (Config.Choice (fleet {})) :=
  .start 0 (.enqueueRequestForWork minutelySearch (Keys.requestCacheKey minutelySearch)
      .fetchMissing none) :: runs 0 2 ++
    passOver 1 20 (.ok { papers := [], totalResults := some 0 }) ++
    .tick 60000000 ::
    .start 2 (.enqueueRefreshIfDue minutelySearch (Keys.requestCacheKey minutelySearch)) ::
      runs 2 2 ++
    passOver 3 29 (.error (.nonRetryableFetchError "HTTP 400" (some 400)))

/-- A reader who asks for the search to be refreshed every ten minutes only. -/
def tenMinutelySearch : ArxivRequest :=
  { minutelySearch with refreshIntervalSeconds := 600 }

/-- That reader calls a second after the refresh, and again a minute after that. -/
def calledByAnother : List (Config.Choice (fleet {})) :=
  failedRefresh ++
    .tick 1000000 ::
    .start 4 (.enqueueRefreshIfDue tenMinutelySearch (Keys.requestCacheKey minutelySearch)) ::
      runs 4 2 ++
    .tick 60000000 ::
    .start 5 (.enqueueRefreshIfDue tenMinutelySearch (Keys.requestCacheKey minutelySearch)) ::
      runs 5 2

/-- The first call comes to nothing, and the second creates a refresh. -/
theorem refresh_reserved_from_another :
    Throughout RefreshReserved (Config.after (fleet {}) calledByAnother).history := by
  -- The schedule is kept out of sight, or the elaborator runs it.
  generalize hsched : calledByAnother = sched
  refine refresh_reserved Huldra.Client Outcome (Client.program {}) sched ?_
  subst hsched
  decide +kernel

/-- The first reader calls again a second after the refresh. -/
def calledAgain : List (Config.Choice (fleet {})) :=
  failedRefresh ++
    .tick 1000000 ::
    .start 4 (.enqueueRefreshIfDue minutelySearch (Keys.requestCacheKey minutelySearch)) ::
      runs 4 2

/-- Another refresh is created at once: the completion is more than a minute old. -/
theorem refresh_not_reserved :
    ¬ Throughout RefreshReserved (Config.after (fleet {}) calledAgain).history := by
  decide +kernel

end Refreshes
end Huldra
