import Huldra.Library.RefreshPeriods
import Huldra.Parts
import Huldra.Queue.Ownership
import Huldra.Queue.Promotions

/-!
# Finished — a completed item can be served from the cache

An item is completed in one transaction and its result is recorded in another, possibly by another
process.  `Finding` remembers the item a pass has claimed and whether the pass has seen, or
written, a completed entry under the key of that item since.  A pass completes nothing before that,
and no operation takes the completion of an entry back.
-/

namespace Huldra
namespace Queue

open QueueTables LibraryTables
open Process (Prog Discipline)
open Process.System (Monitor Config Throughout Disciplined History Event Legal stateAfter)

/-! ## Completed entries -/

/-- There is a completed entry under the key. -/
def Answered (l : LibraryTables) (cacheKey : CacheKey) : Prop :=
  ∃ entry, l.cacheEntryOf? cacheKey = some entry ∧ entry.status = .completed

section Answered

variable {l l' : LibraryTables} {cacheKey : CacheKey}

theorem Answered.of_entries (h : Answered l cacheKey) (hsame : l'.cacheEntries = l.cacheEntries) :
    Answered l' cacheKey := by
  rcases h with ⟨entry, hentry, hstatus⟩
  refine ⟨entry, ?_, hstatus⟩
  unfold cacheEntryOf? at hentry ⊢
  rw [hsame]
  exact hentry

/-- A change of the entries one by one, none of them leaving its key or its completion. -/
theorem Answered.map (h : Answered l cacheKey) {f : CacheEntry → CacheEntry}
    (hkey : ∀ e, (f e).cacheKey = e.cacheKey) (hstatus : ∀ e, (f e).status = e.status) :
    Answered { l with cacheEntries := l.cacheEntries.map f } cacheKey := by
  rcases h with ⟨entry, hentry, hcompleted⟩
  refine ⟨f entry, ?_, (hstatus entry).trans hcompleted⟩
  rw [cacheEntryOf?_map l cacheKey hkey, hentry]
  rfl

/-- An entry that is written under the key has to be completed, any other may be anything. -/
theorem Answered.put (h : Answered l cacheKey) {entry : CacheEntry}
    (hentry : entry.cacheKey = cacheKey → entry.status = .completed) :
    Answered (l.putCacheEntry entry) cacheKey := by
  by_cases hkey : entry.cacheKey = cacheKey
  · refine ⟨entry, ?_, hentry hkey⟩
    rw [← hkey]
    exact cacheEntryOf?_putCacheEntry l entry
  · rcases h with ⟨old, hold, hstatus⟩
    refine ⟨old, ?_, hstatus⟩
    rw [cacheEntryOf?_putCacheEntry_of_ne l hkey]
    exact hold

/-- No operation on the library takes a completion back. -/
theorem Answered.libraryExec (h : Answered l cacheKey) (o : LibraryOp) :
    Answered (o.exec l).2 cacheKey := by
  cases o with
  | recordCompletedCacheEntry w =>
      refine Answered.of_entries (l := (l.upsertPapers w.papers w.completedAt).2.putCacheEntry
        (l.completionEntry w)) ?_ (recordCompletedCacheEntry_cacheEntries l w)
      exact (h.of_entries (upsertPapers_cacheEntries l w.papers w.completedAt)).put fun _ => rfl
  | recordCacheFailure w =>
      cases hold : l.cacheEntryOf? w.cacheKey with
      | some previous =>
          -- A failure over a completed entry leaves it completed.
          simp only [LibraryOp.exec, recordCacheFailure_of_previous hold]
          refine h.put fun hkey => ?_
          have hsame : w.cacheKey = cacheKey := (cacheEntryOf?_cacheKey hold).symm.trans hkey
          rcases h with ⟨entry, hentry, hstatus⟩
          rw [← hsame, hold] at hentry
          cases hentry
          exact if_pos hstatus
      | none =>
          simp only [LibraryOp.exec, LibraryTables.recordCacheFailure, hold]
          refine h.put fun hkey => ?_
          rcases h with ⟨entry, hentry, _⟩
          have hsame : w.cacheKey = cacheKey := hkey
          rw [← hsame, hold] at hentry
          cases hentry
  | upsertPapers papers timestamp =>
      exact h.of_entries (upsertPapers_cacheEntries l papers timestamp)
  | upsertOaiRecords records timestamp =>
      exact h.of_entries (upsertOaiRecords_cacheEntries l records timestamp)
  | _ => exact h

end Answered

section Performed

variable {o : Op} {t : Int} {r : Except Exn o.Res} {s s' : Store} {cacheKey : CacheKey}

/-- No operation of the store does. -/
theorem Answered.performed (h : Answered s.library cacheKey) (hperf : Store.Performed o t r s s') :
    Answered s'.library cacheKey := by
  rcases hperf.state with rfl | ⟨input, rfl⟩
  · exact h
  · cases o with
    | library o => exact h.libraryExec o
    | initSchema =>
        simp only [Store.exec]
        rcases s.initSchema_cases with heq | heq
        · rw [heq]
          exact h
        · rw [heq]
          refine h.map ?_ ?_
          · intro entry
            split <;> rfl
          · intro entry
            split <;> rfl
    | renewWorkerFetchOwnership requestId owner leaseName ttl ids =>
        simp only [Store.exec]
        rw [Store.renewWorkerFetchOwnership_library]
        exact h
    | checkpointOaiPage c =>
        simp only [Store.exec, Store.checkpointOaiPage]
        split
        · exact h.of_entries (upsertOaiRecords_cacheEntries s.library c.records c.timestamp)
        · exact h
    | enqueueRefreshIfDue request cacheKey' timeout current =>
        simp only [Store.exec]
        rcases Store.enqueueRefreshIfDue_library s request cacheKey' timeout current with
          heq | ⟨due, heq⟩
        · rw [heq]
          exact h
        · rw [heq]
          refine h.map ?_ ?_
          · intro entry
            split <;> rfl
          · intro entry
            split <;> rfl
    | _ => exact h

end Performed

/-! ## What a pass has found -/

/-- The item that a process has claimed, and whether it has seen or written a completed entry for
it since. -/
structure Finding where
  item : Option QueueItem := none
  found : Bool := false

namespace Finding

/-- The entry under this key is the one that the item is about. -/
def about (x : Finding) (cacheKey : CacheKey) : Bool :=
  x.item.any fun item => item.cacheKey = cacheKey

def step (x : Finding) (o : Op) (r : Except Exn o.Res) : Finding :=
  match o, r with
  | .queue (.claimNextQueueItem ..), .ok (some item) => { item := some item }
  | .library (.getCacheEntry cacheKey), .ok (some entry) =>
      { x with found := x.found || (x.about cacheKey && entry.status = .completed) }
  | .library (.recordCompletedCacheEntry write), .ok _ =>
      { x with found := x.found || x.about write.cacheKey }
  | _, _ => x

/-- A process completes the item that it has claimed, once it has found the entry. -/
def Allowed (x : Finding) : Op → Prop
  | .queue (.completeQueueItem requestId _) =>
      x.found = true ∧ ∃ item ∈ x.item, item.requestId = requestId
  | _ => True

end Finding

def findingMonitor (d : Deployment) : Monitor (fleet d) Finding where
  initial _ := {}
  start _ _ _ := {}
  step x o r _ := x.step o r
  crash x := x
  clock _ := 0
  clock_initial _ := Process.System.no_time
  clock_start _ _ _ h := h
  clock_step _ _ _ _ h := h
  clock_crash _ := Int.le_refl 0

/-- The discipline of completions: what is completed can be served. -/
def finds : Discipline huldra Finding where
  allow := Finding.Allowed
  next x o r x' := ∃ t s s', (0 : Int) ≤ t ∧ Store.Performed o t r s s' ∧ x' = x.step o r

section Wp

variable {β γ : Type} {p : Program β} {item : QueueItem} {x : Finding}

/-- The process works on this item. -/
abbrev On (item : QueueItem) (x : Finding) : Prop :=
  x.item = some item

/-- From `x` on the program completes nothing it has not found, works on the same item, and where it
returns `Q` holds of its view and its value. -/
abbrev Finds (item : QueueItem) (p : Program β) (x : Finding) (Q : Finding → β → Prop) : Prop :=
  p.wp finds (fun x' b => On item x' ∧ Q x' b) (fun x' _ => On item x') x

theorem Finds.mono {Q Q' : Finding → β → Prop} (h : Finds item p x Q)
    (hQ : ∀ x' b, Q x' b → Q' x' b) : Finds item p x Q' :=
  Prog.wp_mono (fun x' b hb => ⟨hb.1, hQ x' b hb.2⟩) (fun _ _ h => h) p x h

theorem Finds.bind {f : β → Program γ} {Q : Finding → β → Prop} {Q' : Finding → γ → Prop}
    (hp : Finds item p x Q) (hf : ∀ x' b, On item x' → Q x' b → Finds item (f b) x' Q') :
    Finds item (p >>= f) x Q' :=
  (Prog.wp_bind ..).2 (Prog.wp_mono (fun x' b hb => hf x' b hb.1 hb.2) (fun _ _ h => h) p x hp)

/-- What is found stays found while nothing is claimed. -/
theorem Unserved.finding {o : Op} (ho : Unserved o) (x : Finding) (r : Except Exn o.Res) :
    x.Allowed o ∧ (x.step o r).item = x.item ∧ (x.found = true → (x.step o r).found = true) := by
  refine ⟨?_, ?_⟩
  · unfold Finding.Allowed
    split
    · exact ho.elim
    · trivial
  · unfold Finding.step
    split
    · exact ho.elim
    · exact ⟨rfl, fun hfound => by simp [hfound]⟩
    · exact ⟨rfl, fun hfound => by simp [hfound]⟩
    · exact ⟨rfl, fun hfound => hfound⟩

theorem finds_unserved (hp : p.AllOps Unserved) (hx : On item x) :
    Finds item p x fun x' _ => x.found = true → x'.found = true := by
  refine hp.wp (J := fun x' => On item x' ∧ (x.found = true → x'.found = true)) ?_ x
    ⟨hx, fun h => h⟩ |> Prog.wp_mono (fun _ _ h => h) (fun _ _ h => h.1) p x
  rintro o ho x₁ ⟨hitem, hfound⟩
  refine ⟨(ho.finding x₁ (.error .unexpected)).1, ?_⟩
  rintro r x₂ ⟨t, s, s', _, _, rfl⟩
  have hstep := ho.finding x₁ r
  exact ⟨hstep.2.1.trans hitem, fun h => hstep.2.2 (hfound h)⟩

theorem Finds.bind_unserved {f : β → Program γ} {Q : Finding → γ → Prop} (hp : p.AllOps Unserved)
    (hx : On item x) (hf : ∀ x' b, On item x' → (x.found = true → x'.found = true) →
      Finds item (f b) x' Q) : Finds item (p >>= f) x Q :=
  (finds_unserved hp hx).bind hf

/-- Programs that complete nothing at all. -/
theorem finds_of_unserved (hp : p.AllOps Unserved) (hx : On item x) :
    Finds item p x fun _ _ => True :=
  (finds_unserved hp hx).mono fun _ _ _ => trivial

theorem finds_completeQueueItem (hx : On item x) (hfound : x.found = true) :
    Finds item (completeQueueItem item.requestId) x fun _ _ => True := by
  refine Finds.bind_unserved unserved_utcNow hx fun x' now hx' hkept => ?_
  refine (Prog.wp_call ..).2 ⟨⟨hkept hfound, item, hx', rfl⟩, ?_, ?_⟩
  · rintro _ _ ⟨t, s, s', _, _, rfl⟩
    exact ⟨hx', trivial⟩
  · rintro _ _ ⟨t, s, s', _, _, rfl⟩
    exact hx'

/-- What the item asked for is recorded. -/
theorem finds_recordCompletedCacheEntry (hx : On item x) (request : ArxivRequest)
    (papers : List ArxivPaper) (total : Option Nat) (status : Int) (count : Nat) :
    Finds item (recordCompletedCacheEntry item.cacheKey request papers total status count) x
      fun x' _ => x'.found = true := by
  refine Finds.bind_unserved unserved_utcNow hx fun x₁ requestedAt hx₁ _ => ?_
  refine Finds.bind_unserved unserved_utcNow hx₁ fun x₂ completedAt hx₂ _ => ?_
  refine (Prog.wp_call ..).2 ⟨trivial, ?_, ?_⟩
  · rintro _ _ ⟨t, s, s', _, _, rfl⟩
    refine ⟨hx₂, ?_⟩
    simp [Finding.step, Finding.about, hx₂]
  · rintro _ _ ⟨t, s, s', _, _, rfl⟩
    exact hx₂

/-- Whatever is read as completed is found. -/
theorem finds_getReadableCompletedCache (hx : On item x) :
    Finds item (getReadableCompletedCache item.cacheKey) x
      fun x' cached => cached.isSome = true → x'.found = true := by
  refine (Prog.wp_bind ..).2 ((Prog.wp_call ..).2 ⟨trivial, ?_, ?_⟩)
  · rintro entry _ ⟨t, s, s', _, _, rfl⟩
    cases entry with
    | none => exact ⟨hx, fun h => by cases h⟩
    | some entry =>
        dsimp only
        split
        · exact ⟨hx, fun h => by cases h⟩
        · rename_i hcompleted
          have hstatus : entry.status = .completed := Decidable.not_not.1 hcompleted
          have hfound : (x.step (.library (.getCacheEntry item.cacheKey))
              (.ok (some entry))).found = true := by
            simp [Finding.step, Finding.about, hx, hstatus]
          have hx' : On item (x.step (.library (.getCacheEntry item.cacheKey))
              (.ok (some entry))) := hx
          refine Finds.bind_unserved ?_ hx' fun x' reason hx'' hkept => ?_
          · refine .bind (.call trivial) fun _ => .bind (.call trivial) fun _ =>
              .bind (.call trivial) fun _ => ?_
            split
            · exact .ret _
            · split
              · exact .ret _
              · split
                · exact .ret _
                · exact .ret _
          · cases reason with
            | none => exact ⟨hx'', fun _ => hkept hfound⟩
            | some reason =>
                refine Finds.bind_unserved (.call trivial) hx'' fun x₃ _ hx₃ _ => ?_
                exact ⟨hx₃, fun h => by cases h⟩
  · rintro _ _ ⟨t, s, s', _, _, rfl⟩
    exact hx

end Wp

/-! ## The pass -/

section Pass

variable {w : WorkerConfig} {item : QueueItem} {x : Finding}

theorem unserved_planIdListFetch : (Worker.planIdListFetch w item).AllOps Unserved := by
  have hpapers : ∀ ids, (getPapersByIds ids).AllOps Unserved := by
    intro ids
    unfold getPapersByIds
    split
    · exact .ret _
    · exact .call trivial
  unfold Worker.planIdListFetch
  split
  · exact .ret _
  · refine .bind (hpapers _) fun papersById => ?_
    dsimp only
    split
    · exact .ret _
    · refine .bind (.call trivial) fun reservations => ?_
      split
      · exact .ret _
      · exact .ret _

theorem unserved_revalidate (plan : IdListFetchPlan) (ttl : Int) :
    (Worker.revalidateIdListFetchPlan w item plan ttl).AllOps Unserved := by
  have hrenew : ∀ ids, (renewIdFetchReservations ids w.ownerToken ttl).AllOps Unserved := by
    intro ids
    unfold renewIdFetchReservations
    split
    · exact .ret _
    · exact .call trivial
  unfold Worker.revalidateIdListFetchPlan
  split
  · exact .ret _
  · refine .bind ?_ fun papersById => ?_
    · unfold getPapersByIds
      split
      · exact .ret _
      · exact .call trivial
    · refine .bind ?_ fun _ => ?_
      · unfold releaseIdFetchReservations
        split
        · exact .ret _
        · exact .bind unserved_utcNow fun _ => .call trivial
      · dsimp only
        split
        · exact .ret _
        · split
          all_goals
            refine .bind (by first | exact hrenew _ | exact .ret _) fun renewed => ?_
            split
            · exact .bind unserved_utcNow fun _ => .ret _
            · exact .ret _

/-- The papers are in the store: their list is recorded, and the item completed. -/
theorem finds_recordCachedIdList (hx : On item x) (plan : IdListFetchPlan) :
    Finds item (Worker.recordCachedIdList item plan) x fun x' _ => x'.found = true := by
  unfold Worker.recordCachedIdList
  split
  · exact hx
  · exact (finds_recordCompletedCacheEntry hx ..).bind fun x' _ hx' hfound => ⟨hx', hfound⟩

/-- The last look at the plan: it completes the item where nothing is left to fetch. -/
theorem finds_gatePlan (hx : On item x) (plan : IdListFetchPlan) (ttl : Int) :
    Finds item (Worker.gatePlan w item plan ttl) x fun _ _ => True := by
  refine Finds.bind_unserved (unserved_revalidate plan ttl) hx fun x₁ plan hx₁ _ => ?_
  split
  · refine finds_of_unserved ?_ hx₁
    exact .bind (.call trivial) fun _ => .bind (unserved_releaseOrDelay ..) fun _ =>
      .bind (unserved_releaseIdPlan _) fun _ => .ret _
  · split
    · refine Finds.bind_unserved (.call trivial) hx₁ fun x₂ _ hx₂ _ => ?_
      refine (finds_recordCachedIdList hx₂ plan).bind fun x₃ papersTotal hx₃ hfound => ?_
      refine (finds_completeQueueItem hx₃ hfound).bind fun x₄ _ hx₄ _ => ?_
      exact finds_of_unserved (.bind (unserved_releaseIdPlan _) fun _ => .ret _) hx₄
    · exact finds_of_unserved (unserved_closeGate _ ttl) hx₁

theorem finds_gate (hx : On item x) (plan : Option IdListFetchPlan) (ttl : Int) :
    Finds item (Worker.gateFetchOwnership w item plan ttl) x fun _ _ => True := by
  refine Finds.bind_unserved (.call trivial) hx fun x₁ reason hx₁ _ => ?_
  cases reason with
  | some reason =>
      refine finds_of_unserved ?_ hx₁
      exact .bind (unserved_fetchOwnershipFailure plan reason) fun _ => .ret _
  | none =>
      refine (finds_getReadableCompletedCache hx₁).bind fun x₂ cached hx₂ hfound => ?_
      dsimp only
      split
      · -- A cache hit: what is read is what the item asks for.
        rename_i entry hentry
        have hsome : cached.isSome = true := by
          cases cached with
          | none => cases hentry
          | some cached => rfl
        refine Finds.bind_unserved (.call trivial) hx₂ fun x₃ _ hx₃ hkept => ?_
        refine (finds_completeQueueItem hx₃ (hkept (hfound hsome))).bind fun x₄ _ hx₄ _ => ?_
        exact finds_of_unserved (.bind (unserved_releaseIdPlan plan) fun _ => .ret _) hx₄
      · cases plan with
        | some plan => exact finds_gatePlan hx₂ plan ttl
        | none => exact finds_of_unserved (unserved_closeGate none ttl) hx₂

/-- A result that has come is recorded before its item is completed. -/
theorem finds_onFetchResult (hx : On item x) (plan : Option IdListFetchPlan)
    (fetched : FetchResult) :
    Finds item (Worker.onFetchResult w item plan fetched) x fun _ _ => True := by
  have hfetched : ∀ plan papers total status,
      Finds item (Worker.onFetched w item plan papers total status) x fun _ _ => True := by
    intro plan papers total status
    refine (finds_recordCompletedCacheEntry hx ..).bind fun x₁ _ hx₁ hfound => ?_
    refine Finds.bind_unserved (unserved_limiting (Worker.limiting_afterSuccess ..)) hx₁
      fun x₂ _ hx₂ hkept => ?_
    refine (finds_completeQueueItem hx₂ (hkept hfound)).bind fun x₃ _ hx₃ _ => ?_
    exact finds_of_unserved (.bind (unserved_releaseIdPlan plan) fun _ => .ret _) hx₃
  unfold Worker.onFetchResult
  split
  · exact hfetched _ _ _ _
  · dsimp only
    split
    · exact finds_of_unserved (unserved_onFetchError _ (.nonRetryableFetchError _ _)) hx
    · split
      · exact hx
      · exact hfetched _ _ _ _

theorem finds_fetchAndReport (hx : On item x) (plan : Option IdListFetchPlan)
    (request : ArxivRequest) :
    Finds item (Worker.fetchAndReport w item plan request) x fun _ _ => True := by
  have herror : ∀ e x', On item x' →
      Finds item (Worker.onFetchError w item plan e) x' fun _ _ => True :=
    fun e x' hx' => finds_of_unserved (unserved_onFetchError plan e) hx'
  refine (Prog.wp_handle ..).2 ((Prog.wp_call_handle ..).2 ⟨trivial, ?_, ?_⟩)
  · rintro _ _ ⟨t, s, s', _, _, rfl⟩
    refine (Prog.wp_call ..).2 ⟨trivial, ?_, ?_⟩
    · rintro fetched _ ⟨t, s, s', _, _, rfl⟩
      exact finds_onFetchResult hx plan fetched
    · rintro e _ ⟨t, s, s', _, _, rfl⟩
      exact herror e _ hx
  · rintro e _ ⟨t, s, s', _, _, rfl⟩
    exact herror e _ hx

theorem finds_fetchWithinDeadline (hx : On item x) (plan : Option IdListFetchPlan) :
    Finds item (Worker.fetchWithinDeadline w item plan) x fun _ _ => True := by
  refine Finds.bind_unserved (.call trivial) hx fun x₁ budgetDeadline hx₁ _ => ?_
  cases budgetDeadline with
  | none => exact finds_fetchAndReport hx₁ plan _
  | some deadline =>
      refine Finds.bind_unserved unserved_utcNow hx₁ fun x₂ now hx₂ _ => ?_
      split
      · exact finds_fetchAndReport hx₂ plan _
      · refine Finds.bind_unserved (.call trivial) hx₂ fun x₃ budgetError hx₃ _ => ?_
        cases budgetError with
        | some error => exact finds_of_unserved (unserved_endBudgetedItem plan error) hx₃
        | none =>
            refine Finds.bind_unserved (.call trivial) hx₃ fun x₄ deadline' hx₄ _ => ?_
            refine Finds.bind_unserved ?_ hx₄ fun x₅ remaining hx₅ _ =>
              finds_fetchAndReport hx₅ plan _
            cases deadline' with
            | none => exact .ret _
            | some deadline' => exact .bind unserved_utcNow fun _ => .ret _

theorem finds_chargeAndFetch (hx : On item x) (plan : Option IdListFetchPlan) (ttl : Int) :
    Finds item (Worker.chargeAndFetch w item plan ttl) x fun _ _ => True := by
  have hended : ∀ plan error x', On item x' →
      Finds item (Worker.endBudgetedItem w item plan error) x' fun _ _ => True :=
    fun plan error x' hx' => finds_of_unserved (unserved_endBudgetedItem plan error) hx'
  refine Finds.bind_unserved (.call trivial) hx fun x₁ reserveError hx₁ _ => ?_
  cases reserveError with
  | some error => exact hended plan error x₁ hx₁
  | none =>
      refine Finds.bind_unserved (.call trivial) hx₁ fun x₂ budgetError hx₂ _ => ?_
      cases budgetError with
      | some error => exact hended plan error x₂ hx₂
      | none =>
          refine (finds_gate hx₂ plan ttl).bind fun x₃ gate hx₃ _ => ?_
          split
          · exact ⟨hx₃, trivial⟩
          · refine Finds.bind_unserved (.call trivial) hx₃ fun x₄ budgetError hx₄ _ => ?_
            cases budgetError with
            | some error => exact hended gate.1 error x₄ hx₄
            | none => exact finds_fetchWithinDeadline hx₄ gate.1

theorem finds_passLimiter (hx : On item x) (plan : Option IdListFetchPlan) :
    Finds item (Worker.passLimiter w item plan) x fun _ _ => True := by
  have hgate : ∀ x', On item x' →
      Finds item (Worker.gateAndCharge w item plan) x' fun _ _ => True := by
    intro x' hx'
    refine (finds_gate hx' plan _).bind fun x₁ gate hx₁ _ => ?_
    split
    · exact ⟨hx₁, trivial⟩
    · exact finds_chargeAndFetch hx₁ gate.1 _
  refine Finds.bind_unserved (unserved_limiting (Worker.limiting_beforeRequest ..)) hx
    fun x₁ decision hx₁ _ => ?_
  split
  · unfold Worker.fetchAdmitted
    split
    · exact Finds.bind_unserved (unserved_limiting (Worker.limiting_timeSleep _)) hx₁
        fun x₂ _ hx₂ _ => hgate x₂ hx₂
    · exact hgate x₁ hx₁
  · refine finds_of_unserved ?_ hx₁
    have hdelay : ∀ (nextAttempt : Int) (r : WorkerPassResult), Prog.AllOps Unserved (do
        releaseOrDelayQueueItem item.requestId (some nextAttempt) decision.blockedReason
          decision.blockedReason .delayed
        Worker.releaseIdPlan w plan
        pure r : Program WorkerPassResult) := fun _ _ =>
      .bind (unserved_releaseOrDelay ..) fun _ => .bind (unserved_releaseIdPlan plan) fun _ =>
        .ret _
    unfold Worker.delayRefused
    cases decision.cooldownUntil with
    | some cooldown => exact .bind (.ret cooldown) fun _ => hdelay _ _
    | none => exact .bind unserved_utcNow fun _ => .bind (.ret _) fun _ => hdelay _ _

/-- Whatever a pass has claimed, it completes it only when it has found its result. -/
theorem finds_workClaimed (hx : On item x) :
    Finds item (Worker.workClaimed w item) x fun _ _ => True := by
  refine (finds_getReadableCompletedCache hx).bind fun x₁ cached hx₁ hfound => ?_
  dsimp only
  split
  · rename_i entry hentry
    have hsome : cached.isSome = true := by
      cases cached with
      | none => cases hentry
      | some cached => rfl
    exact (finds_completeQueueItem hx₁ (hfound hsome)).bind fun x₂ _ hx₂ _ => ⟨hx₂, trivial⟩
  · refine Finds.bind_unserved unserved_planIdListFetch hx₁ fun x₂ plan hx₂ _ => ?_
    unfold Worker.workPlanned
    split
    · exact finds_passLimiter hx₂ none
    · split
      · exact finds_of_unserved (.bind (unserved_releaseOrDelay ..) fun _ => .ret _) hx₂
      · split
        · refine (finds_recordCachedIdList hx₂ _).bind fun x₃ papersTotal hx₃ hrecorded => ?_
          exact (finds_completeQueueItem hx₃ hrecorded).bind fun x₄ _ hx₄ _ => ⟨hx₄, trivial⟩
        · exact finds_passLimiter hx₂ _

end Pass

/-! ## The clients -/

theorem keeps_unserved_finds {β : Type} {p : Program β} (hp : p.AllOps Unserved) :
    p.Keeps finds {} := by
  refine hp.wp (J := fun _ => True) ?_ _ trivial
  exact fun o ho x _ => ⟨(ho.finding x (.error .unexpected)).1, fun _ _ _ => trivial⟩

theorem keeps_runOnce_finds (w : WorkerConfig) (targets : Option (List CacheKey)) :
    (Worker.runOnce w targets).Keeps finds {} := by
  have hinit : initSchema.AllOps Unserved := .call trivial
  refine (Prog.wp_bind ..).2 (Prog.wp_mono ?_ (fun _ _ _ => trivial) _ _
    (keeps_unserved_finds hinit))
  intro x _ _
  refine (Prog.wp_bind ..).2 ?_
  unfold claimNextQueueItem
  split
  · trivial
  · refine (Prog.wp_call ..).2 ⟨trivial, ?_, fun _ _ _ => trivial⟩
    rintro item _ ⟨t, s, s', _, _, rfl⟩
    cases item with
    | none => trivial
    | some item =>
        have hon : On item ({ item := some item } : Finding) := rfl
        exact Prog.keeps_of_wp (finds_workClaimed hon)

theorem keeps_program_finds (d : Deployment) (c : Client) (pid : Nat) :
    (c.program d pid).Keeps finds {} := by
  have hfeeding := Worker.feeding_program d c pid
  have hfed : (c.program d pid).AllOps Worker.Feeding → (c.program d pid).Keeps finds {} :=
    fun h => keeps_unserved_finds (h.mono fun _ => unserved_of_feeding)
  cases c with
  | runOnce targets =>
      exact (Prog.wp_bind ..).2 (Prog.wp_mono (fun _ _ _ => trivial) (fun _ _ _ => trivial) _ _
        (keeps_runOnce_finds ⟨d, .worker pid⟩ targets))
  | harvestOai request =>
      exact keeps_unserved_finds (.bind ((Harvest.harvesting_harvestOai request).mono
        fun _ => unserved_of_harvesting) fun _ => .ret _)
  | enqueueRequestForWork request cacheKey workKind budgetId => exact hfed hfeeding
  | enqueueRefreshIfDue request cacheKey => exact hfed hfeeding
  | createUpstreamRequestBudget maxRequests deadlineAt => exact hfed hfeeding
  | failActiveUpstreamBudgetItems budgetId category message => exact hfed hfeeding

/-- No client records a failure as a completion. -/
theorem faithful_program (d : Deployment) (c : Client) (pid : Nat) :
    (c.program d pid).AllOps Store.Faithful := by
  refine (made_program c pid).allOps fun β p hp => hp.allOps ?_ ?_
  · rintro o ho w rfl
    exact ho
  · rintro o ho w rfl
    exact ho.elim

/-- What the discipline of completions allows, of operations that record no failure as one. -/
def FindsFaithfully (x : Finding) (o : Op) : Prop :=
  Store.Faithful o ∧ x.Allowed o

theorem keeps_program_findsFaithfully (d : Deployment) (c : Client) (pid : Nat) :
    (c.program d pid).Keeps { finds with allow := FindsFaithfully } {} :=
  (faithful_program d c pid).wp_allowing (D := finds) _ (keeps_program_finds d c pid)

section Runs

variable {d : Deployment}

/-- What is known of the findings of the process `p`. -/
abbrev finding (p : Nat) (h : History (fleet d)) : Finding :=
  (findingMonitor d).view p h

theorem finds_after (d : Deployment) (sched : List (Config.Choice (fleet d))) :
    Throughout (Disciplined ((findingMonitor d).discipline FindsFaithfully) (findingMonitor d).view)
      (Config.after (fleet d) sched).history :=
  (findingMonitor d).disciplined_after (J := fun _ _ => True)
    { initial := fun _ => trivial
      start := fun _ _ _ _ _ => trivial
      step := fun _ _ _ _ _ _ => trivial
      crash := fun _ _ _ => trivial }
    (fun pid _ c _ _ _ => keeps_program_findsFaithfully d c pid) sched

theorem finding_of_ne {pre : History (fleet d)} {e : Event (fleet d)} {p : Nat} (hne : e.pid ≠ p) :
    finding p (e :: pre) = finding p pre :=
  (findingMonitor d).view_of_ne pre hne

theorem finding_of_op {pre : History (fleet d)} {e : Event (fleet d)} {o : Op}
    {r : Except Exn o.Res} (ha : e.action = .op o r) :
    finding e.pid (e :: pre) = (finding e.pid pre).step o r :=
  (findingMonitor d).view_of_op pre ha

/-! ## What a run keeps -/

/-- What every run keeps of the items and their results. -/
structure Served (h : History (fleet d)) : Prop where
  ledger : Ledger (stateAfter h).nextUuid (stateAfter h).queue
  intact : (stateAfter h).library.AllIntact
  /-- The item of a pass keeps its cache key. -/
  keyed : ∀ p item, (finding p h).item = some item → item.requestId < (stateAfter h).nextUuid ∧
    ∀ row ∈ (stateAfter h).queue.items, row.requestId = item.requestId →
      row.cacheKey = item.cacheKey
  found : ∀ p item, (finding p h).item = some item → (finding p h).found = true →
    Answered (stateAfter h).library item.cacheKey
  completed : ∀ row ∈ (stateAfter h).queue.items, row.status = .completed →
    Answered (stateAfter h).library row.cacheKey

section Operation

variable {o : Op} {t : Int} {r : Except Exn o.Res} {s s' : Store} {x : Finding} {item : QueueItem}

/-- An item is an old one, or it is just handed out from a row of its key. -/
theorem item_of_step (hitem : (x.step o r).item = some item)
    (h : Store.Performed o t r s s') : x.item = some item ∨
      ∃ row ∈ s.queue.items, row.requestId = item.requestId ∧ row.cacheKey = item.cacheKey := by
  unfold Finding.step at hitem
  split at hitem
  · rename_i owner timeout keys claimed
    cases hitem
    rcases h.of_ok with ⟨input, _, hexec⟩
    have hanswer := congrArg Prod.fst hexec
    rcases claimNextQueueItem_cases (q := s.queue) owner timeout keys t with
      hnone | ⟨row, hmem, _, hclaim⟩
    · simp [Store.exec, QueueOp.exec, hnone] at hanswer
    · simp only [Store.exec, QueueOp.exec, hclaim] at hanswer
      cases hanswer
      exact Or.inr ⟨row, hmem, rfl, rfl⟩
  · exact Or.inl hitem
  · exact Or.inl hitem
  · exact Or.inl hitem

/-- What is found has been found before, or is there to be found. -/
theorem answered_of_step (hitem : (x.step o r).item = some item)
    (hfound : (x.step o r).found = true) (h : Store.Performed o t r s s')
    (hbefore : x.item = some item → x.found = true → Answered s.library item.cacheKey) :
    Answered s'.library item.cacheKey := by
  have hkept : x.item = some item → x.found = true → Answered s'.library item.cacheKey :=
    fun hold hwas => (hbefore hold hwas).performed h
  generalize hx' : x.step o r = x' at hitem hfound
  unfold Finding.step at hx'
  split at hx' <;> subst hx'
  · cases hfound
  · rename_i cacheKey entry
    rcases Bool.or_eq_true_iff.1 hfound with hwas | hread
    · exact hkept hitem hwas
    · -- The entry that was read is in the table.
      rcases Bool.and_eq_true_iff.1 hread with ⟨habout, hstatus⟩
      have hkey : item.cacheKey = cacheKey := by
        simpa [Finding.about, show x.item = some item from hitem] using habout
      rcases h.of_ok with ⟨input, _, hexec⟩
      have hentry : s.library.cacheEntryOf? cacheKey = some entry :=
        Except.ok.inj (congrArg Prod.fst hexec)
      rw [hkey]
      exact Answered.performed ⟨entry, hentry, of_decide_eq_true hstatus⟩ h
  · rename_i write answer
    rcases Bool.or_eq_true_iff.1 hfound with hwas | habout
    · exact hkept hitem hwas
    · have hkey : item.cacheKey = write.cacheKey := by
        simpa [Finding.about, show x.item = some item from hitem] using habout
      rcases h.of_ok with ⟨input, _, hexec⟩
      have hlibrary : s.library.recordCompletedCacheEntry write = s'.library :=
        congrArg (fun out => out.2.library) hexec
      rw [hkey, ← hlibrary]
      exact ⟨_, cacheEntryOf?_recordCompletedCacheEntry s.library write, rfl⟩
  · exact hkept hitem hfound

end Operation

section Step

variable {pre : History (fleet d)} {e : Event (fleet d)} {o : Op} {r : Except Exn o.Res}

/-- The rows of an item have its key, before and after an operation. -/
theorem keyed_performed {t : Int} {s s' : Store} (hledger : Ledger s.nextUuid s.queue)
    (h : Store.Performed o t r s s') {item : QueueItem} (hid : item.requestId < s.nextUuid)
    (hrows : ∀ row ∈ s.queue.items, row.requestId = item.requestId →
      row.cacheKey = item.cacheKey) :
    ∀ row' ∈ s'.queue.items, row'.requestId = item.requestId → row'.cacheKey = item.cacheKey := by
  intro row' hrow' hsame
  rcases row_before hledger h hrow' with ⟨row, hrow, hsame', heffect⟩ | hnew
  · have hkey := hrows row hrow (hsame'.symm.trans hsame)
    rcases heffect with rfl | heffect
    · exact hkey
    · exact heffect.cacheKey.trans hkey
  · -- A new row has an identifier of its own.
    rw [← hsame, hnew.requestId] at hid
    exact absurd hid (Nat.lt_irrefl _)

/-- A row is completed when its result is there. -/
theorem completed_performed {t : Int} {s s' : Store} {x : Finding} {y : PassView}
    (hledger : Ledger s.nextUuid s.queue) (h : Store.Performed o t r s s') (hx : x.Allowed o)
    (hy : y.Allowed o)
    (hkeyed : ∀ item, x.item = some item → ∀ row ∈ s.queue.items,
      row.requestId = item.requestId → row.cacheKey = item.cacheKey)
    (hfound : ∀ item, x.item = some item → x.found = true → Answered s.library item.cacheKey)
    (hcompleted : ∀ row ∈ s.queue.items, row.status = .completed →
      Answered s.library row.cacheKey) :
    ∀ row' ∈ s'.queue.items, row'.status = .completed → Answered s'.library row'.cacheKey := by
  intro row' hrow' hafter
  rcases row_before hledger h hrow' with ⟨row, hrow, _, heffect⟩ | hnew
  · have hkey : row'.cacheKey = row.cacheKey := by
      rcases heffect with rfl | heffect
      · rfl
      · exact heffect.cacheKey
    rw [hkey]
    refine Answered.performed ?_ h
    by_cases hbefore : row.status = .completed
    · exact hcompleted row hrow hbefore
    · rcases heffect with rfl | heffect
      · exact absurd hafter hbefore
      · rcases heffect.completed hbefore hafter with ⟨timestamp, rfl⟩ | ⟨_, _, _, _, rfl⟩
        · rcases hx with ⟨hwas, item, hitem, hid⟩
          rw [hkeyed item hitem row hrow hid.symm]
          exact hfound item hitem hwas
        · rcases hy.2 with hdelayed | ⟨hfailed, _⟩
          · cases hdelayed
          · cases hfailed
  · rw [hnew.status] at hafter
    cases hafter

theorem Served.op (hI : Served pre) (hlegal : Legal pre e) (ha : e.action = .op o r)
    (hfinds : FindsFaithfully (finding e.pid pre) o) (hpass : (pass e.pid pre).Allowed o) :
    Served (e :: pre) := by
  have hperf := performed_of_op hlegal ha
  have hitem : ∀ p item, (finding p (e :: pre)).item = some item →
      (finding p pre).item = some item ∨ ∃ row ∈ (stateAfter pre).queue.items,
        row.requestId = item.requestId ∧ row.cacheKey = item.cacheKey := by
    intro p item hitem
    by_cases hp : e.pid = p
    · subst hp
      rw [finding_of_op ha] at hitem
      exact item_of_step hitem hperf
    · rw [finding_of_ne hp] at hitem
      exact Or.inl hitem
  have hbefore : ∀ p item, (finding p (e :: pre)).item = some item →
      item.requestId < (stateAfter pre).nextUuid ∧ ∀ row ∈ (stateAfter pre).queue.items,
        row.requestId = item.requestId → row.cacheKey = item.cacheKey := by
    intro p item hnow
    rcases hitem p item hnow with hold | ⟨row, hrow, hid, hkey⟩
    · exact hI.keyed p item hold
    · refine ⟨hid ▸ hI.ledger.fresh row hrow, fun row' hrow' hid' => ?_⟩
      rw [eq_of_mem_of_requestId hI.ledger.nodup hrow' hrow (hid'.trans hid.symm)]
      exact hkey
  refine ⟨hI.ledger.performed hperf, hperf.intact hfinds.1 hI.intact, ?_, ?_, ?_⟩
  · intro p item hnow
    rcases hbefore p item hnow with ⟨hid, hrows⟩
    exact ⟨Nat.lt_of_lt_of_le hid (nextUuid_le hperf), keyed_performed hI.ledger hperf hid hrows⟩
  · intro p item hnow hfound
    by_cases hp : e.pid = p
    · subst hp
      rw [finding_of_op ha] at hnow hfound
      exact answered_of_step hnow hfound hperf (hI.found e.pid item)
    · rw [finding_of_ne hp] at hnow hfound
      exact (hI.found p item hnow hfound).performed hperf
  · exact completed_performed hI.ledger hperf hfinds.2 hpass
      (fun item hnow => (hI.keyed e.pid item hnow).2) (hI.found e.pid) hI.completed

/-- A start or a crash leaves everything as it is, and forgets no more than an item. -/
theorem Served.idle (hI : Served pre) (hlegal : Legal pre e)
    (ha : ∀ o r, e.action ≠ .op o r) : Served (e :: pre) := by
  have hstate : stateAfter (e :: pre) = stateAfter pre := after_eq_of_not_op hlegal ha
  have hview : ∀ p, finding p (e :: pre) = finding p pre ∨ finding p (e :: pre) = {} := by
    intro p
    by_cases hp : e.pid = p
    · subst hp
      cases hact : e.action with
      | start c => exact Or.inr ((findingMonitor d).view_of_start pre hact)
      | op o r => exact absurd hact (ha o r)
      | crash => exact Or.inl ((findingMonitor d).view_of_crash pre hact)
    · exact Or.inl (finding_of_ne hp)
  refine ⟨?_, ?_, ?_, ?_, ?_⟩
  · rw [hstate]
    exact hI.ledger
  · rw [hstate]
    exact hI.intact
  · intro p item hitem
    rcases hview p with hsame | hnone
    · rw [hsame] at hitem
      rw [hstate]
      exact hI.keyed p item hitem
    · rw [hnone] at hitem
      cases hitem
  · intro p item hitem hfound
    rcases hview p with hsame | hnone
    · rw [hsame] at hitem hfound
      rw [hstate]
      exact hI.found p item hitem hfound
    · rw [hnone] at hitem
      cases hitem
  · rw [hstate]
    exact hI.completed

end Step

theorem served_nil : Served ([] : History (fleet d)) where
  ledger := ledger_nil
  intact entry hentry := by cases hentry
  keyed p item hitem := by cases hitem
  found p item hitem := by cases hitem
  completed row hrow := by cases hrow

theorem served_after (d : Deployment) (sched : List (Config.Choice (fleet d))) :
    Served (Config.after (fleet d) sched).history := by
  refine Throughout.invariant served_nil ?_
    (((Config.legal_after (fleet d) sched).and (finds_after d sched)).and (passes_after d sched))
  rintro pre e hI ⟨⟨hlegal, hfinds⟩, hpasses⟩
  by_cases ha : ∃ o r, e.action = .op o r
  · rcases ha with ⟨o, r, ha⟩
    exact hI.op hlegal ha (hfinds.1 o r ha) (hpasses.1 o r ha)
  · exact hI.idle hlegal fun o r h => ha ⟨o, r, h⟩

end Runs

/-- An intact entry lists as many papers as it counts. -/
theorem length_getCachedPapers {l : LibraryTables} {entry : CacheEntry} (h : l.Intact entry) :
    (l.getCachedPapers entry.cacheKey).length = entry.resultCount := by
  have hjoined : ∀ m ∈ (l.matchesOf entry.cacheKey).insertionSort
      (fun a b => a.sortPosition ≤ b.sortPosition), (l.paper? m.arxivId).isSome = true :=
    fun m hm => h.joined m ((List.mem_insertionSort _).1 hm)
  calc (l.getCachedPapers entry.cacheKey).length
      = (((l.matchesOf entry.cacheKey).insertionSort
          fun a b => a.sortPosition ≤ b.sortPosition).filterMap fun m =>
            l.paper? m.arxivId).length :=
        List.length_map _
    _ = ((l.matchesOf entry.cacheKey).insertionSort
          fun a b => a.sortPosition ≤ b.sortPosition).length :=
        List.filterMap_length_eq_length.2 hjoined
    _ = (l.matchesOf entry.cacheKey).length := List.length_insertionSort ..
    _ = ((l.matchesOf entry.cacheKey).map (·.sortPosition)).length := (List.length_map _).symm
    _ = entry.resultCount := by rw [h.numbered, List.length_range]

/-- In every state of every run, however the processes interleave, fail or crash, a completed item
can be served: the cache has a completed entry under its key, the integrity check finds nothing
against it, and it lists as many papers as it counts. -/
theorem completed_items_served (d : Deployment) (sched : List (Config.Choice (fleet d)))
    (row : QueueRow) (hrow : row ∈ (Config.after (fleet d) sched).state.queue.items)
    (hcompleted : row.status = .completed) :
    ∃ entry, (Config.after (fleet d) sched).state.library.cacheEntryOf? row.cacheKey = some entry ∧
      entry.status = .completed ∧
      (Config.after (fleet d) sched).state.library.PassesCheck entry ∧
      ((Config.after (fleet d) sched).state.library.getCachedPapers row.cacheKey).length =
        entry.resultCount := by
  have hserved := served_after d sched
  rw [(Config.explained_after _ sched).state_eq] at hrow ⊢
  rcases hserved.completed row hrow hcompleted with ⟨entry, hentry, hstatus⟩
  have hintact := hserved.intact entry (mem_of_cacheEntryOf? hentry) hstatus
  have hkey := cacheEntryOf?_cacheKey hentry
  refine ⟨entry, hentry, hstatus, hintact.passesCheck, ?_⟩
  rw [← hkey]
  exact length_getCachedPapers hintact

/-- The server answers a search with one paper. -/
def onePaperFeed : Input :=
  { fetch := .ok
      { papers :=
          [{ arxivId := "2401.00001v1"
             version := some 1
             canonicalUrl := LibraryTables.canonicalUrl "2401.00001v1"
             content := { title := "t" } }]
        totalResults := some 1
        upstreamStatus := 200 } }

def searchAnswered : List (Config.Choice (fleet {})) :=
  searchSent ++ .run 1 onePaperFeed :: runs 1 10

/-- The search is fetched and its item completed; the one paper can be served. -/
theorem completed_items_served_search :
    ∃ row ∈ (Config.after (fleet {}) searchAnswered).state.queue.items,
      ((Config.after (fleet {}) searchAnswered).state.library.getCachedPapers
        row.cacheKey).length = 1 := by
  have hsome : ((Config.after (fleet {}) searchAnswered).state.queue.items.any fun row =>
      decide (row.status = .completed)) = true := by
    decide +kernel
  have hcounts : ((Config.after (fleet {}) searchAnswered).state.library.cacheEntries.all
      fun entry => decide (entry.resultCount = 1)) = true := by
    decide +kernel
  rcases List.any_eq_true.1 hsome with ⟨row, hrow, hcompleted⟩
  rcases completed_items_served {} searchAnswered row hrow (of_decide_eq_true hcompleted) with
    ⟨entry, hentry, _, _, hlisted⟩
  have hcount := List.all_eq_true.1 hcounts entry (mem_of_cacheEntryOf? hentry)
  exact ⟨row, hrow, hlisted.trans (of_decide_eq_true hcount)⟩

end Queue
end Huldra
