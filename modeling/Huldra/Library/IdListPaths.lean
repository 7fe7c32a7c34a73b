import Huldra.Library.IdLists
import Huldra.Worker.Routine

/-!
# IdListPaths — the four ways of completing a list of ids

The broker composes it from the store; a worker does the same when it plans the fetch, and again at
the gate before the fetch; or it merges the response with what the store had.  Each is run alone,
from any store, and leaves what `IdLists` says; they agree exactly on the unambiguous splits.
-/

namespace Huldra

open Process

namespace IdLists

/-! ## Operations that leave the library -/

def Quiet (o : Op) : Prop :=
  ∀ t input s, (Store.exec o t input s).2.library = s.library

theorem quiet_of_beside {o : Op} (h : Worker.Beside o) : Quiet o := by
  intro t input s
  cases o with
  | clock o => rfl
  | lease o => rfl
  | rate o => rfl
  | _ => exact h.elim

theorem quiet_queue (o : QueueOp) : Quiet (.queue o) :=
  fun _ _ _ => rfl

section Alone

variable {β γ : Type} {s : Store}

theorem wp_quiet {p : Program β} (hp : p.AllOps Quiet) :
    p.wp (solo Store.Performed) (fun s' _ => s'.library = s.library) (fun _ _ => True) s := by
  refine Prog.wp_mono (fun _ _ h => h) (fun _ _ _ => trivial) _ _
    (hp.wp (J := fun s' : Store => s'.library = s.library) ?_ s rfl)
  intro o ho u hu
  refine ⟨trivial, ?_⟩
  rintro r u' ⟨t, hperformed⟩
  rcases hperformed.state with rfl | ⟨input, rfl⟩
  · exact hu
  · exact (ho t input u).trans hu

/-- A quiet part, and what follows it. -/
theorem wp_bind_quiet {p : Program β} {f : β → Program γ} {Q : Store → γ → Prop}
    (hp : p.AllOps Quiet)
    (hf : ∀ s' b, s'.library = s.library → (f b).wp (solo Store.Performed) Q (fun _ _ => True) s') :
    (p >>= f).wp (solo Store.Performed) Q (fun _ _ => True) s :=
  (Prog.wp_bind ..).2 (Prog.wp_mono hf (fun _ _ h => h) _ _ (wp_quiet hp))

/-- A read of the library answers what it reads. -/
theorem wp_bind_read {o : LibraryOp} {g : LibraryTables → o.Res}
    (hread : ∀ l, o.exec l = (.ok (g l), l)) {f : o.Res → Program γ} {Q : Store → γ → Prop}
    (hf : (f (g s.library)).wp (solo Store.Performed) Q (fun _ _ => True) s) :
    (perform (.library o) >>= f).wp (solo Store.Performed) Q (fun _ _ => True) s := by
  refine (Prog.wp_bind ..).2 ((Prog.wp_call ..).2 ⟨trivial, ?_, fun _ _ _ => trivial⟩)
  rintro b s' ⟨t, hp⟩
  rcases hp.of_ok with ⟨input, _, hexec⟩
  simp only [Store.exec, hread, Prod.mk.injEq, Except.ok.injEq] at hexec
  rcases hexec with ⟨rfl, rfl⟩
  exact hf

/-- The library became another one by a completion with these papers. -/
def Recorded (cacheKey : CacheKey) (papers : List ArxivPaper) (totalResults : Option Nat)
    (l l' : LibraryTables) : Prop :=
  ∃ w : LibraryTables.CompletedCacheWrite, w.cacheKey = cacheKey ∧ w.papers = papers ∧
    w.totalResults = totalResults ∧ l' = l.recordCompletedCacheEntry w

theorem wp_bind_record {cacheKey : CacheKey} {request : ArxivRequest} {papers : List ArxivPaper}
    {totalResults : Option Nat} {status : Int} {count : Nat} {f : Unit → Program γ}
    {Q : Store → γ → Prop}
    (hf : ∀ s', Recorded cacheKey papers totalResults s.library s'.library →
      (f ()).wp (solo Store.Performed) Q (fun _ _ => True) s') :
    (recordCompletedCacheEntry cacheKey request papers totalResults status count >>= f).wp
      (solo Store.Performed) Q (fun _ _ => True) s := by
  refine (Prog.wp_bind ..).2 ?_
  unfold recordCompletedCacheEntry
  refine wp_bind_quiet (.call (quiet_of_beside trivial)) fun s₁ requestedAt h₁ => ?_
  refine wp_bind_quiet (.call (quiet_of_beside trivial)) fun s₂ completedAt h₂ => ?_
  refine (Prog.wp_call ..).2 ⟨trivial, ?_, fun _ _ _ => trivial⟩
  rintro ⟨⟩ s' ⟨t, hp⟩
  rcases hp.of_ok with ⟨input, _, hexec⟩
  let write : LibraryTables.CompletedCacheWrite :=
    { cacheKey := cacheKey
      request := request
      papers := papers
      totalResults := totalResults
      upstreamStatus := status
      upstreamRequestCount := count
      requestedAt := requestedAt
      completedAt := completedAt }
  refine hf s' ⟨write, rfl, rfl, rfl, ?_⟩
  rw [← h₁, ← h₂]
  exact (congrArg (fun out => out.2.library) hexec).symm

/-! ## The store's methods -/

theorem quiet_utcNow : utcNow.AllOps Quiet :=
  .call (quiet_of_beside trivial)

theorem quiet_getReadableCompletedCache (cacheKey : CacheKey) :
    (getReadableCompletedCache cacheKey).AllOps Quiet := by
  have hread : ∀ {o : LibraryOp}, (∀ l, (o.exec l).2 = l) → (perform (.library o)).AllOps Quiet :=
    fun h => .call fun _ _ s => h s.library
  refine .bind (hread fun _ => rfl) fun entry => ?_
  split
  · trivial
  · split
    · trivial
    · refine .bind ?_ fun reason => ?_
      · refine .bind (hread fun _ => rfl) fun _ => .bind (hread fun _ => rfl) fun _ =>
          .bind (hread fun _ => rfl) fun _ => ?_
        split
        · trivial
        · split
          · trivial
          · split <;> trivial
      · split
        · trivial
        · exact .bind (.call (quiet_of_beside trivial)) fun _ => trivial

theorem quiet_resultFromCompletedCache (d : Deployment) (request : ArxivRequest)
    (cacheKey : CacheKey) (entry : CacheEntry) (requestId : Option Uuid) :
    (Broker.resultFromCompletedCache d request cacheKey entry requestId).AllOps Quiet := by
  refine .bind (.call fun _ _ _ => rfl) fun papers => .bind ?_ fun _ => trivial
  unfold Broker.evaluateReadiness
  split
  · dsimp only
    split
    · trivial
    · exact .bind quiet_utcNow fun _ => trivial
  · trivial

theorem quiet_releaseLease (name : LeaseName) (owner : OwnerToken) :
    (releaseLease name owner).AllOps Quiet :=
  .call (quiet_of_beside trivial)

theorem quiet_completeQueueItem (requestId : Uuid) : (completeQueueItem requestId).AllOps Quiet :=
  .bind quiet_utcNow fun _ => .call (quiet_queue _)

theorem quiet_releaseIdFetchReservations (ids : List String) (owner : OwnerToken) :
    (releaseIdFetchReservations ids owner).AllOps Quiet := by
  unfold releaseIdFetchReservations
  split
  · trivial
  · exact .bind quiet_utcNow fun _ => .call (quiet_queue _)

theorem quiet_releaseIdPlan (w : WorkerConfig) (plan : Option IdListFetchPlan) :
    (Worker.releaseIdPlan w plan).AllOps Quiet := by
  unfold Worker.releaseIdPlan
  split
  · exact quiet_releaseIdFetchReservations _ _
  · trivial

theorem quiet_afterSuccess (owner : OwnerToken) (status : Int) :
    (Limiter.afterSuccess owner status).AllOps Quiet :=
  (Worker.beside_afterSuccess owner status).mono fun _ h => quiet_of_beside h

/-! ## Reading the papers -/

/-- Where every id is answered, the dictionary has a paper for each. -/
theorem getAll?_of_isSome {papers : PaperDict} {f : String → Option ArxivPaper} {ids : List String}
    (hsame : ∀ id ∈ ids, papers.get? id = f id) (hsome : ∀ id ∈ ids, (f id).isSome) :
    papers.getAll? ids = some (ids.filterMap f) := by
  unfold PaperDict.getAll?
  induction ids with
  | nil => rfl
  | cons id ids ih =>
      rcases Option.isSome_iff_exists.1 (hsome id List.mem_cons_self) with ⟨paper, hpaper⟩
      have hget := hsame id List.mem_cons_self
      have hrest := ih (fun x hx => hsame x (List.mem_cons_of_mem id hx))
        (fun x hx => hsome x (List.mem_cons_of_mem id hx))
      simp [hget, hpaper, hrest]

theorem getAll?_getPapersByIds {l : LibraryTables} {ids : List String}
    (hstored : ∀ id ∈ ids, (l.getPaper id).isSome) :
    PaperDict.getAll? (l.getPapersByIds ids) ids = some (storedPapers l ids) :=
  getAll?_of_isSome (fun _ hid => get?_getPapersByIds hid) hstored

/-- Nothing is missing where every id is answered. -/
theorem missing_eq_nil {l : LibraryTables} {ids : List String}
    (hstored : ∀ id ∈ ids, (l.getPaper id).isSome) :
    ids.filter (fun id => (PaperDict.get? (l.getPapersByIds ids) id).isNone) = [] := by
  apply List.filter_eq_nil_iff.2
  intro id hid
  rw [get?_getPapersByIds hid]
  simpa [Option.isNone_iff_eq_none, Option.isSome_iff_ne_none] using hstored id hid

theorem wp_bind_getPapersByIds {ids : List String} {f : PaperDict → Program γ}
    {Q : Store → γ → Prop}
    (hf : (f (s.library.getPapersByIds ids)).wp (solo Store.Performed) Q (fun _ _ => True) s) :
    (getPapersByIds ids >>= f).wp (solo Store.Performed) Q (fun _ _ => True) s := by
  unfold getPapersByIds
  split
  case isTrue hempty =>
    cases List.isEmpty_iff.1 hempty
    exact hf
  case isFalse => exact wp_bind_read (fun _ => rfl) hf

/-! ## The ways that take every paper from the store -/

/-- The library has the completion with the stored papers. -/
def RecordedCached (request : ArxivRequest) (cacheKey : CacheKey) (s s' : Store) : Prop :=
  Recorded cacheKey (storedPapers s.library (requestedIds request))
    (some (storedPapers s.library (requestedIds request)).length) s.library s'.library

variable {d : Deployment} {w : WorkerConfig} {item : QueueItem} {request : ArxivRequest}
  {cacheKey : CacheKey}

theorem wp_tryCompose
    (hstored : ∀ id ∈ requestedIds request, (s.library.getPaper id).isSome) :
    (Broker.tryComposeCachedIdList d request cacheKey).wp (solo Store.Performed)
      (fun s' out => out.isSome → RecordedCached request cacheKey s s') (fun _ _ => True) s := by
  unfold Broker.tryComposeCachedIdList
  split
  · exact nofun
  · refine wp_bind_getPapersByIds ?_
    rw [← requestedIds, getAll?_getPapersByIds hstored]
    dsimp only
    refine wp_bind_record fun s₁ hrecorded => ?_
    refine wp_bind_quiet (quiet_getReadableCompletedCache cacheKey) fun s₂ entry h₂ => ?_
    split
    · trivial
    · refine wp_bind_quiet (quiet_resultFromCompletedCache ..) fun s₃ result h₃ => ?_
      intro _
      rw [RecordedCached, h₃, h₂]
      exact hrecorded

theorem wp_bind_recordCachedIdList {plan : IdListFetchPlan} {f : Nat → Program γ}
    {Q : Store → γ → Prop} (hids : plan.requestedIds = requestedIds item.request)
    (hpapers : plan.papersById = s.library.getPapersByIds plan.requestedIds)
    (hstored : ∀ id ∈ requestedIds item.request, (s.library.getPaper id).isSome)
    (hf : ∀ s' n, RecordedCached item.request item.cacheKey s s' →
      (f n).wp (solo Store.Performed) Q (fun _ _ => True) s') :
    (Worker.recordCachedIdList item plan >>= f).wp (solo Store.Performed) Q
      (fun _ _ => True) s := by
  refine (Prog.wp_bind ..).2 ?_
  unfold Worker.recordCachedIdList
  rw [hpapers, hids, getAll?_getPapersByIds hstored]
  dsimp only
  exact wp_bind_record fun s₁ hrecorded => hf s₁ _ hrecorded

/-- The plan of an item whose papers are all stored, and what comes of it. -/
theorem wp_planAndWork (hmissing : item.workKind = .fetchMissing)
    (hpure : Worker.isPureIdListRequest item.request = true)
    (hstored : ∀ id ∈ requestedIds item.request, (s.library.getPaper id).isSome) :
    (do
      let plan ← Worker.planIdListFetch w item
      Worker.workPlanned w item plan).wp (solo Store.Performed)
      (fun s' _ => RecordedCached item.request item.cacheKey s s') (fun _ _ => True) s := by
  refine (Prog.wp_bind ..).2 ?_
  unfold Worker.planIdListFetch
  rw [if_neg (by simp [hmissing, hpure])]
  refine wp_bind_getPapersByIds ?_
  change Prog.wp _ _ _ (if ((requestedIds item.request).filter fun id =>
    (PaperDict.get? (s.library.getPapersByIds (requestedIds item.request)) id).isNone).isEmpty
      then _ else _) s
  rw [missing_eq_nil hstored]
  refine wp_bind_recordCachedIdList rfl rfl hstored fun s₁ n hrecorded => ?_
  refine wp_bind_quiet (quiet_completeQueueItem item.requestId) fun s₂ _ h₂ => ?_
  change RecordedCached _ _ _ _
  rw [RecordedCached, h₂]
  exact hrecorded

theorem wp_gatePlan {plan : IdListFetchPlan} {ttl : Int}
    (hids : plan.requestedIds = requestedIds item.request) (hreserved : plan.reservedIds ≠ [])
    (hstored : ∀ id ∈ requestedIds item.request, (s.library.getPaper id).isSome) :
    (Worker.gatePlan w item plan ttl).wp (solo Store.Performed)
      (fun s' _ => RecordedCached item.request item.cacheKey s s') (fun _ _ => True) s := by
  unfold Worker.gatePlan
  refine (Prog.wp_bind ..).2 ?_
  unfold Worker.revalidateIdListFetchPlan
  rw [if_neg (by simpa using hreserved)]
  refine wp_bind_getPapersByIds ?_
  refine wp_bind_quiet (quiet_releaseIdFetchReservations _ _) fun s₁ _ h₁ => ?_
  rw [hids, missing_eq_nil hstored]
  rw [← h₁] at hstored
  refine wp_bind_quiet (quiet_releaseLease _ _) fun s₂ _ h₂ => ?_
  rw [← h₂] at hstored
  refine wp_bind_recordCachedIdList rfl (by simp [h₁, h₂]) hstored
    fun s₃ n hrecorded => ?_
  refine wp_bind_quiet (quiet_completeQueueItem item.requestId) fun s₄ _ h₄ => ?_
  refine wp_bind_quiet (quiet_releaseIdPlan w _) fun s₅ _ h₅ => ?_
  change RecordedCached _ _ _ _
  unfold RecordedCached at hrecorded ⊢
  rw [h₅, h₄, ← h₁, ← h₂]
  exact hrecorded

/-! ## The merge after the fetch -/

def RecordedMerged (request : ArxivRequest) (cacheKey : CacheKey) (listed : List ArxivPaper)
    (s s' : Store) : Prop :=
  Recorded cacheKey
    (oncePerId ((requestedIds request).filterMap (met s.library listed (requestedIds request))))
    (some (oncePerId ((requestedIds request).filterMap
      (met s.library listed (requestedIds request)))).length) s.library s'.library

theorem wp_onFetchResult {plan : IdListFetchPlan} {fetched : FetchResult}
    (hids : plan.requestedIds = requestedIds item.request)
    (hpapers : plan.papersById = s.library.getPapersByIds plan.requestedIds)
    (hmet : ∀ id ∈ requestedIds item.request,
      (met s.library fetched.papers (requestedIds item.request) id).isSome) :
    (Worker.onFetchResult w item (some plan) fetched).wp (solo Store.Performed)
      (fun s' _ => RecordedMerged item.request item.cacheKey fetched.papers s s')
      (fun _ _ => True) s := by
  have hlookup : ∀ id ∈ requestedIds item.request,
      (Worker.idListPaperLookup (s.library.getPapersByIds (requestedIds item.request))
        fetched.papers).get? id = met s.library fetched.papers (requestedIds item.request) id :=
    fun id hid => idListPaperLookup_met (requestedIds_nodup item.request) hid
  have hnone : ((requestedIds item.request).any fun id =>
      ((Worker.idListPaperLookup (s.library.getPapersByIds (requestedIds item.request))
        fetched.papers).get? id).isNone) = false := by
    apply List.any_eq_false.2
    intro id hid
    rw [hlookup id hid]
    simpa [Option.isNone_iff_eq_none, Option.isSome_iff_ne_none] using hmet id hid
  have hordered : Worker.orderedIdListPapers (requestedIds item.request)
      (Worker.idListPaperLookup (s.library.getPapersByIds (requestedIds item.request))
        fetched.papers) = some (oncePerId ((requestedIds item.request).filterMap
          (met s.library fetched.papers (requestedIds item.request)))) := by
    unfold Worker.orderedIdListPapers
    rw [getAll?_of_isSome hlookup hmet]
    rfl
  unfold Worker.onFetchResult
  dsimp only
  rw [hpapers, hids, hnone, hordered]
  refine wp_bind_record fun s₁ hrecorded => ?_
  refine wp_bind_quiet (quiet_afterSuccess _ _) fun s₂ _ h₂ => ?_
  refine wp_bind_quiet (quiet_completeQueueItem item.requestId) fun s₃ _ h₃ => ?_
  refine wp_bind_quiet (quiet_releaseIdPlan w _) fun s₄ _ h₄ => ?_
  change RecordedMerged _ _ _ _ _
  rw [RecordedMerged, h₄, h₃, h₂]
  exact hrecorded

end Alone

/-! ## The four ways -/

/-- The request was completed from `s` to `s'` with papers of the store alone. -/
inductive CompletedFromStore (request : ArxivRequest) (cacheKey : CacheKey) (s s' : Store) : Prop
  | composed (d : Deployment) {t t' : Int} {moves : List (Move huldra Store)}
      {result : ArxivResult} :
      Amid Store.alone (Broker.tryComposeCachedIdList d request cacheKey) s t moves
        (.ok (some result)) s' t' → CompletedFromStore request cacheKey s s'
  | planned (w : WorkerConfig) (item : QueueItem) {t t' : Int} {moves : List (Move huldra Store)}
      {result : WorkerPassResult} :
      item.request = request → item.cacheKey = cacheKey → item.workKind = .fetchMissing →
        Amid Store.alone (do
            let plan ← Worker.planIdListFetch w item
            Worker.workPlanned w item plan) s t moves (.ok result) s' t' →
          CompletedFromStore request cacheKey s s'
  | gated (w : WorkerConfig) (item : QueueItem) (plan : IdListFetchPlan) (ttl : Int) {t t' : Int}
      {moves : List (Move huldra Store)} {gate : Option IdListFetchPlan × Option WorkerPassResult} :
      item.request = request → item.cacheKey = cacheKey →
        plan.requestedIds = requestedIds request → plan.reservedIds ≠ [] →
          Amid Store.alone (Worker.gatePlan w item plan ttl) s t moves (.ok gate) s' t' →
            CompletedFromStore request cacheKey s s'

/-- The request was completed from `s` to `s'` with a response that lists these papers, by a worker
that planned the fetch with the papers of `s`. -/
inductive CompletedFromFetch (request : ArxivRequest) (cacheKey : CacheKey)
    (listed : List ArxivPaper) (s s' : Store) : Prop
  | fetched (w : WorkerConfig) (item : QueueItem) (plan : IdListFetchPlan) (fetched : FetchResult)
      {t t' : Int} {moves : List (Move huldra Store)} {result : WorkerPassResult} :
      item.request = request → item.cacheKey = cacheKey →
        plan.requestedIds = requestedIds request →
          plan.papersById = s.library.getPapersByIds plan.requestedIds →
            fetched.papers = listed →
              Amid Store.alone (Worker.onFetchResult w item (some plan) fetched) s t moves
                (.ok result) s' t' → CompletedFromFetch request cacheKey listed s s'

section Ways

variable {request : ArxivRequest} {cacheKey : CacheKey} {s s' : Store}

theorem outcome_of_recorded {papers : List ArxivPaper} {totalResults : Option Nat}
    {l l' : LibraryTables} (h : Recorded cacheKey papers totalResults l l')
    (hsettled : ∀ paper ∈ papers, l.Settled paper) :
    outcome? l' cacheKey = some (completion l papers totalResults) := by
  rcases h with ⟨w, rfl, rfl, rfl, rfl⟩
  exact outcome?_recordCompletedCacheEntry hsettled

theorem CompletedFromStore.outcome (h : CompletedFromStore request cacheKey s s')
    (hpure : Worker.isPureIdListRequest request = true)
    (hstored : ∀ id ∈ requestedIds request, (s.library.getPaper id).isSome) :
    outcome? s'.library cacheKey = some (cachedOutcome s.library request) := by
  have hrecorded : RecordedCached request cacheKey s s' := by
    cases h with
    | composed d hrun => exact (hrun.post_alone (wp_tryCompose hstored)) rfl
    | planned w item hrequest hkey hmissing hrun =>
        subst hrequest hkey
        exact hrun.post_alone (wp_planAndWork hmissing hpure hstored)
    | gated w item plan ttl hrequest hkey hids hreserved hrun =>
        subst hrequest hkey
        exact hrun.post_alone (wp_gatePlan hids hreserved hstored)
  exact outcome_of_recorded hrecorded fun paper hpaper => settled_of_mem_stored hpaper

theorem mem_of_mem_oncePerId {papers : List ArxivPaper} {paper : ArxivPaper}
    (h : paper ∈ oncePerId papers) : paper ∈ papers := by
  have hmem : ∀ acc : List ArxivPaper, paper ∈ papers.foldl addOnce acc →
      paper ∈ acc ∨ paper ∈ papers := by
    clear h
    induction papers with
    | nil =>
        intro acc h
        exact Or.inl h
    | cons first papers ih =>
        intro acc h
        rcases ih _ h with h | h
        · unfold addOnce at h
          split at h
          · exact Or.inl h
          · simp only [List.mem_append, List.mem_singleton] at h
            rcases h with h | rfl
            · exact Or.inl h
            · exact Or.inr List.mem_cons_self
        · exact Or.inr (List.mem_cons_of_mem first h)
  rcases hmem [] h with h | h
  · cases h
  · exact h

theorem CompletedFromFetch.outcome {listed : List ArxivPaper}
    (h : CompletedFromFetch request cacheKey listed s s')
    (hlegacy : ∀ paper ∈ listed, paper.oaiIdentifier = none)
    (hmet : ∀ id ∈ requestedIds request, (met s.library listed (requestedIds request) id).isSome) :
    outcome? s'.library cacheKey = some (mergedOutcome s.library listed request) := by
  cases h with
  | fetched w item plan fetched hrequest hkey hids hpapers hlisted hrun =>
      subst hrequest hkey hlisted
      refine outcome_of_recorded (hrun.post_alone (wp_onFetchResult hids hpapers hmet)) ?_
      intro paper hpaper
      rcases List.mem_filterMap.1 (mem_of_mem_oncePerId hpaper) with ⟨id, _, hid⟩
      exact settled_of_met hlegacy hid

/-- The three ways that read the store leave `cachedOutcome`, the merge leaves `mergedOutcome`, and
for a split of the papers they agree exactly if it is unambiguous. -/
theorem id_list_paths_agree_iff (request : ArxivRequest) (cacheKey : CacheKey) (l : LibraryTables)
    (listed : List ArxivPaper) (timestamp : Int)
    (hpure : Worker.isPureIdListRequest request = true)
    (hlegacy : ∀ paper ∈ listed, paper.oaiIdentifier = none)
    (hmet : ∀ id ∈ requestedIds request, (met l listed (requestedIds request) id).isSome)
    (hstored : ∀ id ∈ requestedIds request, ((whole l listed timestamp).getPaper id).isSome) :
    (∀ s s', s.library = whole l listed timestamp → CompletedFromStore request cacheKey s s' →
      outcome? s'.library cacheKey = some (cachedOutcome (whole l listed timestamp) request)) ∧
    (∀ s s', s.library = l → CompletedFromFetch request cacheKey listed s s' →
      outcome? s'.library cacheKey = some (mergedOutcome l listed request)) ∧
    (PathsAgree l listed timestamp request ↔ Unambiguous l listed timestamp request) := by
  refine ⟨?_, ?_, pathsAgree_iff hmet hstored⟩
  · rintro s s' hlibrary hcompleted
    rw [← hlibrary] at hstored ⊢
    exact hcompleted.outcome hpure hstored
  · rintro s s' rfl hcompleted
    exact hcompleted.outcome hlegacy hmet

end Ways

/-! ## A versionless id next to a version of it -/

/-- Some version of a paper, as the legacy search lists it. -/
def versionPaper (arxivId : String) (version : Nat) : ArxivPaper :=
  { arxivId := arxivId
    version := some version
    canonicalUrl := LibraryTables.canonicalUrl arxivId
    content := { title := "t" } }

def aliasRequest : ArxivRequest :=
  { clientId := "c", idList := ["2401.00001", "2401.00001v2"] }

/-- The first version is stored, and the second is still to be fetched. -/
def firstStored : LibraryTables :=
  (LibraryTables.upsertPapers {} [versionPaper "2401.00001v1" 1] 0).2

def secondListed : List ArxivPaper :=
  [versionPaper "2401.00001v2" 2]

/-- The merge takes the first version for the versionless id and the second for the other; with both
stored, the second is matched for both and counted twice. -/
theorem alias_outcomes :
    mergedOutcome firstStored secondListed aliasRequest =
        { matchedIds := ["2401.00001v1", "2401.00001v2"]
          resultCount := 2
          totalResults := some 2 } ∧
      cachedOutcome (whole firstStored secondListed 1) aliasRequest =
        { matchedIds := ["2401.00001v2"]
          resultCount := 1
          totalResults := some 2 } := by
  decide

/-- The ways of completing an id list do not always agree. -/
theorem id_list_paths_disagree :
    ¬ ∀ (request : ArxivRequest) (l : LibraryTables) (listed : List ArxivPaper) (timestamp : Int),
      Worker.isPureIdListRequest request = true →
        (∀ paper ∈ listed, paper.oaiIdentifier = none) →
          (∀ id ∈ requestedIds request, (met l listed (requestedIds request) id).isSome) →
            (∀ id ∈ requestedIds request, ((whole l listed timestamp).getPaper id).isSome) →
              PathsAgree l listed timestamp request := by
  intro h
  have hagree := h aliasRequest firstStored secondListed 1 (by decide) (by decide) (by decide)
    (by decide)
  have hcounted := hagree.counted
  rw [alias_outcomes.2] at hcounted
  simp at hcounted

/-- Two papers, one of them stored and the other asked for without its version. -/
def plainListRequest : ArxivRequest :=
  { clientId := "c", idList := ["2401.00002", "2401.00001v1"] }

def plainListed : List ArxivPaper :=
  [versionPaper "2401.00002v1" 1]

theorem plain_paths_agree :
    Unambiguous firstStored plainListed 1 plainListRequest ∧
      PathsAgree firstStored plainListed 1 plainListRequest := by
  have hunambiguous : Unambiguous firstStored plainListed 1 plainListRequest :=
    (unambiguous_iff (by decide) (by decide)).2 (by decide)
  refine ⟨hunambiguous, ?_⟩
  exact (id_list_paths_agree_iff plainListRequest (Keys.requestCacheKey plainListRequest)
    firstStored plainListed 1 (by decide) (by decide) (by decide) (by decide)).2.2.2 hunambiguous

end IdLists

end Huldra
