import Huldra.Library.Readable

/-!
# AlwaysReadable — completed entries over whole sequences of store calls

Every operation of the store keeps every completed entry intact, so the integrity check passes
whenever it runs alone, and a composed entry can be read back at once.
-/

namespace Huldra

open Process LibraryTables

namespace Store

/-- No caller records a failure under the status of a completion. -/
def Faithful (o : Op) : Prop :=
  ∀ w, o = .library (.recordCacheFailure w) → w.status ≠ .completed

/-! ## One operation -/

theorem enqueueRefreshIfDue_library (s : Store) (request : ArxivRequest) (cacheKey : CacheKey)
    (defaultTimeout : Timeout) (current : Int) :
    (s.enqueueRefreshIfDue request cacheKey defaultTimeout current).2.library = s.library ∨
      ∃ due : Int,
        (s.enqueueRefreshIfDue request cacheKey defaultTimeout current).2.library =
          { s.library with
            cacheEntries := s.library.cacheEntries.map fun e =>
              if e.cacheKey = cacheKey then { e with refreshAfter := some due } else e } := by
  unfold enqueueRefreshIfDue
  dsimp only
  split
  · exact Or.inl rfl
  · split
    · exact Or.inl rfl
    · split
      · exact Or.inl rfl
      · split
        · split
          · split
            · exact Or.inl rfl
            · exact Or.inr ⟨_, rfl⟩
          · exact Or.inr ⟨_, rfl⟩
        · exact Or.inr ⟨_, rfl⟩

theorem renewWorkerFetchOwnership_library (s : Store) (requestId : Uuid) (owner : OwnerToken)
    (leaseName : LeaseName) (ttl : Int) (ids : List String) (current : Int) :
    (s.renewWorkerFetchOwnership requestId owner leaseName ttl ids current).2.library =
      s.library := by
  unfold renewWorkerFetchOwnership
  dsimp only
  split
  · rfl
  · split
    · rfl
    · split <;> rfl

theorem libraryExec_intact {l : LibraryTables} (h : l.AllIntact) {o : LibraryOp}
    (hfaithful : Faithful (.library o)) : (o.exec l).2.AllIntact := by
  cases o with
  | getCacheEntry => exact h
  | matchCount => exact h
  | joinedCount => exact h
  | matchPositions => exact h
  | getPapersByIds => exact h
  | getCachedPapers => exact h
  | recordCompletedCacheEntry w => exact recordCompletedCacheEntry_intact h w
  | recordCacheFailure w => exact recordCacheFailure_intact h (hfaithful w rfl)
  | upsertPapers papers timestamp => exact upsertPapers_intact h papers timestamp
  | upsertOaiRecords records timestamp => exact upsertOaiRecords_intact h records timestamp
  | markPaperDeleted arxivId oaiIdentifier oaiDatestamp oaiSetSpecs timestamp =>
      exact markPaperDeleted_intact h arxivId oaiIdentifier oaiDatestamp oaiSetSpecs timestamp

theorem exec_intact {s : Store} (h : s.library.AllIntact) {o : Op} (hfaithful : Faithful o)
    (t : Int) (input : Input) : (exec o t input s).2.library.AllIntact := by
  cases o with
  | clock => exact h
  | lease => exact h
  | rate => exact h
  | queue => exact h
  | library o => exact libraryExec_intact h hfaithful
  | oai => exact h
  | upstream => exact h
  | initSchema =>
      simp only [exec]
      rcases s.initSchema_cases with heq | heq
      · rw [heq]
        exact h
      · rw [heq]
        exact backfillCacheEntries_intact h
  | renewWorkerFetchOwnership requestId owner leaseName ttl ids =>
      simpa only [exec, renewWorkerFetchOwnership_library] using h
  | checkpointOaiPage c =>
      simp only [exec, checkpointOaiPage]
      split
      · exact upsertOaiRecords_intact h c.records c.timestamp
      · exact h
  | enqueueRefreshIfDue request cacheKey defaultTimeout current =>
      simp only [exec]
      rcases enqueueRefreshIfDue_library s request cacheKey defaultTimeout current with
        heq | ⟨refreshAfter, heq⟩
      · rw [heq]
        exact h
      · rw [heq]
        exact mapEntries_intact h _ fun e => by
          split <;> exact ⟨rfl, rfl, rfl⟩

theorem Performed.intact {o : Op} {t : Int} {r : Except Exn o.Res} {s s' : Store}
    (hp : Performed o t r s s') (hfaithful : Faithful o) (h : s.library.AllIntact) :
    s'.library.AllIntact := by
  rcases hp.state with rfl | ⟨input, rfl⟩
  · exact h
  · exact exec_intact h hfaithful t input

end Store

/-! ## Programs run alone -/

section Alone

/-- The program raises nothing but what can be raised at any operation. -/
def Faulty (_ : Store) (e : Exn) : Prop :=
  Store.fault e = true

variable {s : Store}

/-- An operation that answers, run alone. -/
theorem wp_perform_alone {o : Op} {Q : Store → o.Res → Prop}
    (h : ∀ t input, ∃ b, (Store.exec o t input s).1 = .ok b ∧ Q (Store.exec o t input s).2 b) :
    (perform o).wp (solo Store.Performed) Q Faulty s := by
  refine (Prog.wp_call ..).2 ⟨trivial, ?_, ?_⟩
  · rintro r s' ⟨t, hp⟩
    rcases hp.of_ok with ⟨input, _, hexec⟩
    rcases h t input with ⟨b, hb, hQ⟩
    rw [hexec] at hb hQ
    cases hb
    exact hQ
  · rintro e s' ⟨t, ⟨input, _, hexec⟩ | ⟨e', hfault, he, _⟩⟩
    · rcases h t input with ⟨b, hb, _⟩
      rw [hexec] at hb
      cases hb
    · cases he
      exact hfault

theorem wp_utcNow_alone {Q : Store → Int → Prop} (h : ∀ now, Q s now) :
    utcNow.wp (solo Store.Performed) Q Faulty s :=
  wp_perform_alone fun t _ => ⟨t, rfl, h t⟩

/-- The check of an intact entry, run alone, finds nothing. -/
theorem wp_completedCacheIntegrityFailure {entry : CacheEntry}
    (hpasses : s.library.PassesCheck entry) :
    (completedCacheIntegrityFailure entry.cacheKey entry).wp (solo Store.Performed)
      (fun s' reason => s' = s ∧ reason = none) Faulty s := by
  unfold completedCacheIntegrityFailure
  refine (Prog.wp_bind ..).2 (wp_perform_alone fun _ _ => ⟨_, rfl, ?_⟩)
  refine (Prog.wp_bind ..).2 (wp_perform_alone fun _ _ => ⟨_, rfl, ?_⟩)
  refine (Prog.wp_bind ..).2 (wp_perform_alone fun _ _ => ⟨_, rfl, ?_⟩)
  simp [Store.exec, LibraryOp.exec, hpasses.counted, hpasses.joined, hpasses.numbered]

/-- Read alone, a completed entry is what the reader is given. -/
theorem wp_getReadableCompletedCache {cacheKey : CacheKey} {entry : CacheEntry}
    (hall : s.library.AllIntact) (hentry : s.library.cacheEntryOf? cacheKey = some entry)
    (hstatus : entry.status = .completed) :
    (getReadableCompletedCache cacheKey).wp (solo Store.Performed)
      (fun s' out => s' = s ∧ out = some entry) Faulty s := by
  have hpasses := (hall entry (mem_of_cacheEntryOf? hentry) hstatus).passesCheck
  have hkey := cacheEntryOf?_cacheKey hentry
  unfold getReadableCompletedCache
  refine (Prog.wp_bind ..).2 (wp_perform_alone fun _ _ => ⟨_, rfl, ?_⟩)
  simp only [Store.exec, LibraryOp.exec, hentry, hstatus, ne_eq, not_true_eq_false, if_false]
  subst hkey
  refine (Prog.wp_bind ..).2 (Prog.wp_mono ?_ (fun _ _ h => h) _ _
    (wp_completedCacheIntegrityFailure hpasses))
  rintro s' reason ⟨rfl, rfl⟩
  exact ⟨rfl, rfl⟩

theorem wp_evaluateReadiness_alone (request : ArxivRequest) (settings : HuldraSettings) :
    (Broker.evaluateReadiness request settings).wp (solo Store.Performed) (fun _ _ => True)
      Faulty s := by
  unfold Broker.evaluateReadiness
  split
  · dsimp only
    split
    · trivial
    · exact (Prog.wp_bind ..).2 (wp_utcNow_alone fun _ => trivial)
  · trivial

theorem wp_resultFromCompletedCache_alone (d : Deployment) (request : ArxivRequest)
    (cacheKey : CacheKey) (entry : CacheEntry) (requestId : Option Uuid) :
    (Broker.resultFromCompletedCache d request cacheKey entry requestId).wp
      (solo Store.Performed) (fun _ _ => True) Faulty s := by
  unfold Broker.resultFromCompletedCache
  refine (Prog.wp_bind ..).2 (wp_perform_alone fun _ _ => ⟨_, rfl, ?_⟩)
  refine (Prog.wp_bind ..).2 (Prog.wp_mono ?_ (fun _ _ h => h) _ _
    (wp_evaluateReadiness_alone request d.settings))
  intro s' readiness _
  trivial

/-- The composition, once the papers are read. -/
theorem wp_composeRead (d : Deployment) (request : ArxivRequest) (cacheKey : CacheKey)
    (hall : s.library.AllIntact) (papersById : PaperDict) :
    Prog.wp (solo Store.Performed) (fun _ _ => True) Faulty
      (match papersById.getAll? ((request.idList.map Keys.normalizeArxivId).eraseDups) with
        | none => pure none
        | some papers => do
            recordCompletedCacheEntry cacheKey request papers (some papers.length) 200 0
            let entry ← getReadableCompletedCache cacheKey
            match entry with
            | none => .raise .assertionError
            | some entry => do
                let result ← Broker.resultFromCompletedCache d request cacheKey entry none
                pure (some result)) s := by
  split
  · trivial
  · refine (Prog.wp_bind ..).2 ?_
    unfold recordCompletedCacheEntry
    refine (Prog.wp_bind ..).2 (wp_utcNow_alone fun requestedAt => ?_)
    refine (Prog.wp_bind ..).2 (wp_utcNow_alone fun completedAt => ?_)
    refine wp_perform_alone fun _ _ => ⟨_, rfl, ?_⟩
    refine (Prog.wp_bind ..).2 (Prog.wp_mono ?_ (fun _ _ h => h) _ _
      (wp_getReadableCompletedCache (recordCompletedCacheEntry_intact hall _)
        (cacheEntryOf?_recordCompletedCacheEntry s.library _) rfl))
    rintro s' entry ⟨rfl, rfl⟩
    refine (Prog.wp_bind ..).2 (Prog.wp_mono ?_ (fun _ _ h => h) _ _
      (wp_resultFromCompletedCache_alone ..))
    intro _ _ _
    trivial

/-- A composition run alone raises nothing of its own: the entry it has just written is intact. -/
theorem wp_tryComposeCachedIdList (d : Deployment) (request : ArxivRequest) (cacheKey : CacheKey)
    (hall : s.library.AllIntact) :
    (Broker.tryComposeCachedIdList d request cacheKey).wp (solo Store.Performed)
      (fun _ _ => True) Faulty s := by
  unfold Broker.tryComposeCachedIdList
  split
  · trivial
  · refine (Prog.wp_bind ..).2 ?_
    unfold getPapersByIds
    split
    · exact wp_composeRead d request cacheKey hall []
    · exact wp_perform_alone fun _ _ => ⟨_, rfl, wp_composeRead d request cacheKey hall _⟩

end Alone

/-! ## Sequences of calls -/

namespace Store

/-- The stores that sequences of calls lead to, each call run to its end. -/
inductive Called : Store → Prop where
  | empty : Called {}
  | performed {o : Op} {t : Int} {r : Except Exn o.Res} {s s' : Store} :
      Called s → Faithful o → Performed o t r s s' → Called s'
  | composed {d : Deployment} {request : ArxivRequest} {cacheKey : CacheKey} {s s' : Store}
      {t t' : Int} {moves : List (Move huldra Store)} {out : Except Exn (Option ArxivResult)} :
      Called s →
        Amid alone (Broker.tryComposeCachedIdList d request cacheKey) s t moves out s' t' →
          Called s'
  | collected {s : Store} (cutoff : Int) (syncJobBudgets : List Uuid) :
      Called s → Called (s.gc cutoff syncJobBudgets)

theorem faithful_of_ne {o : Op} (h : ∀ w, o ≠ .library (.recordCacheFailure w)) : Faithful o :=
  fun w hw => absurd hw (h w)

theorem faithful_getReadableCompletedCache (cacheKey : CacheKey) :
    (getReadableCompletedCache cacheKey).AllOps Faithful := by
  unfold getReadableCompletedCache completedCacheIntegrityFailure getCacheEntry recordEvent perform
  refine .bind (.call (faithful_of_ne (by simp))) fun entry => ?_
  split
  · trivial
  · split
    · trivial
    · refine .bind ?_ fun reason => ?_
      · refine .bind (.call (faithful_of_ne (by simp))) fun _ => ?_
        refine .bind (.call (faithful_of_ne (by simp))) fun _ => ?_
        refine .bind (.call (faithful_of_ne (by simp))) fun _ => ?_
        split
        · trivial
        · split
          · trivial
          · split <;> trivial
      · split
        · trivial
        · exact .bind (.call (faithful_of_ne (by simp))) fun _ => trivial

theorem faithful_tryComposeCachedIdList (d : Deployment) (request : ArxivRequest)
    (cacheKey : CacheKey) : (Broker.tryComposeCachedIdList d request cacheKey).AllOps Faithful := by
  unfold Broker.tryComposeCachedIdList
  split
  · trivial
  · refine .bind ?_ fun papersById => ?_
    · unfold getPapersByIds
      split
      · trivial
      · exact .call (faithful_of_ne (by simp))
    · split
      · trivial
      · refine .bind ?_ fun _ => .bind (faithful_getReadableCompletedCache cacheKey) fun entry => ?_
        · unfold recordCompletedCacheEntry utcNow perform
          refine .bind (.call (faithful_of_ne (by simp))) fun _ => ?_
          refine .bind (.call (faithful_of_ne (by simp))) fun _ => ?_
          exact .call (faithful_of_ne (by simp))
        · split
          · trivial
          · refine .bind ?_ fun _ => trivial
            unfold Broker.resultFromCompletedCache Broker.evaluateReadiness getCachedPapers utcNow
              perform
            refine .bind (.call (faithful_of_ne (by simp))) fun _ => .bind ?_ fun _ => trivial
            split
            · dsimp only
              split
              · trivial
              · exact .bind (.call (faithful_of_ne (by simp))) fun _ => trivial
            · trivial

/-- What faithful operations do one after another keeps the entries intact. -/
theorem intact_of_amid {β : Type} {p : Program β} (hp : p.AllOps Faithful) {s s' : Store}
    {t t' : Int} {moves : List (Move huldra Store)} {out : Except Exn β}
    (hrun : Amid alone p s t moves out s' t') (h : s.library.AllIntact) :
    s'.library.AllIntact := by
  have hwp := hp.wp (D := solo Performed) (J := fun s : Store => s.library.AllIntact)
    (fun o ho s hs => ⟨trivial, fun r s' hnext => hnext.choose_spec.intact ho hs⟩) s h
  have hends := hrun.post_alone hwp
  cases out with
  | ok b => exact hends
  | error e => exact hends

theorem Called.intact {s : Store} (h : Called s) : s.library.AllIntact := by
  induction h with
  | empty =>
      intro entry hentry
      cases hentry
  | performed _ hfaithful hp ih => exact hp.intact hfaithful ih
  | composed _ hrun ih => exact intact_of_amid (faithful_tryComposeCachedIdList ..) hrun ih
  | collected cutoff budgets _ ih => exact ih

/-- A failed refresh leaves what a completed entry says of its result. -/
structure SameResult (l : LibraryTables) (entry : CacheEntry) (l' : LibraryTables)
    (entry' : CacheEntry) : Prop where
  status : entry'.status = entry.status
  resultCount : entry'.resultCount = entry.resultCount
  totalResults : entry'.totalResults = entry.totalResults
  completedAt : entry'.completedAt = entry.completedAt
  matched : l'.matchesOf entry.cacheKey = l.matchesOf entry.cacheKey

theorem sameResult_of_failure {l : LibraryTables} {w : CacheFailureWrite} {entry : CacheEntry}
    (hentry : l.cacheEntryOf? w.cacheKey = some entry) (hstatus : entry.status = .completed) :
    (l.recordCacheFailure w).cacheEntryOf? w.cacheKey = some (failureEntry entry w) ∧
      SameResult l entry (l.recordCacheFailure w) (failureEntry entry w) := by
  have hkey : (failureEntry entry w).cacheKey = w.cacheKey := by
    simpa [failureEntry] using cacheEntryOf?_cacheKey hentry
  refine ⟨?_, ?_⟩
  · rw [recordCacheFailure_of_previous hentry, ← hkey]
    exact cacheEntryOf?_putCacheEntry l (failureEntry entry w)
  · refine ⟨?_, rfl, rfl, rfl, ?_⟩
    · simp [failureEntry, hstatus]
    · simp [matchesOf]

end Store

/-- In every store that calls lead to: a completed entry passes the integrity check and is read
back; a failure recorded over it leaves its result; a composition does not fail its assertion. -/
theorem completed_cache_always_readable {s : Store} (h : Store.Called s) :
    (∀ cacheKey entry, s.library.cacheEntryOf? cacheKey = some entry → entry.status = .completed →
      s.library.PassesCheck entry ∧
        ∀ t moves out s' t',
          Amid Store.alone (getReadableCompletedCache cacheKey) s t moves (.ok out) s' t' →
            out = some entry) ∧
    (∀ (w : CacheFailureWrite) entry, s.library.cacheEntryOf? w.cacheKey = some entry →
      entry.status = .completed →
        ∃ entry', (s.library.recordCacheFailure w).cacheEntryOf? w.cacheKey = some entry' ∧
          Store.SameResult s.library entry (s.library.recordCacheFailure w) entry') ∧
    ∀ d request cacheKey t moves s' t',
      ¬ Amid Store.alone (Broker.tryComposeCachedIdList d request cacheKey) s t moves
          (.error .assertionError) s' t' := by
  refine ⟨?_, ?_, ?_⟩
  · intro cacheKey entry hentry hstatus
    refine ⟨(h.intact entry (mem_of_cacheEntryOf? hentry) hstatus).passesCheck, ?_⟩
    intro t moves out s' t' hrun
    exact (hrun.post_alone (wp_getReadableCompletedCache h.intact hentry hstatus)).2
  · intro w entry hentry hstatus
    exact ⟨_, Store.sameResult_of_failure hentry hstatus⟩
  · intro d request cacheKey t moves s' t' hrun
    have hfault : Store.fault .assertionError = true :=
      hrun.post_alone (wp_tryComposeCachedIdList d request cacheKey h.intact)
    cases hfault

theorem Store.Called.library {s : Store} (h : Called s) (o : LibraryOp)
    (hfaithful : Faithful (.library o)) : Called { s with library := (o.exec s.library).2 } :=
  .performed h hfaithful (t := 0) (Or.inl ⟨{}, rfl, rfl⟩)

def plainRequest : ArxivRequest :=
  { clientId := "c", idList := ["2401.00001"] }

def plainCompletion : CompletedCacheWrite :=
  { cacheKey := Keys.requestCacheKey plainRequest
    request := plainRequest
    papers := [
      { arxivId := "2401.00001"
        canonicalUrl := "https://arxiv.org/abs/2401.00001"
        content := { title := "t" } }]
    totalResults := some 1
    requestedAt := 0
    completedAt := 0 }

def plainFailure : CacheFailureWrite :=
  { cacheKey := Keys.requestCacheKey plainRequest
    request := plainRequest
    errorCategory := "transient"
    errorMessage := "timeout"
    requestedAt := 1 }

/-- A window that was completed with one paper, and then failed to refresh. -/
def failedRefresh : Store :=
  { library :=
      (LibraryTables.recordCompletedCacheEntry {} plainCompletion).recordCacheFailure plainFailure }

theorem failedRefresh_readable :
    ∃ entry, failedRefresh.library.cacheEntryOf? (Keys.requestCacheKey plainRequest) = some entry ∧
      failedRefresh.library.PassesCheck entry := by
  have hcalled : Store.Called failedRefresh :=
    (Store.Called.empty.library (.recordCompletedCacheEntry plainCompletion)
      (Store.faithful_of_ne (by simp))).library (.recordCacheFailure plainFailure)
        (fun w hw => by cases hw; decide)
  have hcompleted : ({ library := LibraryTables.recordCompletedCacheEntry {} plainCompletion } :
      Store).library.cacheEntryOf? plainFailure.cacheKey =
        some (completionEntry {} plainCompletion) :=
    cacheEntryOf?_recordCompletedCacheEntry {} plainCompletion
  have hfailed := (Store.sameResult_of_failure hcompleted rfl).1
  exact ⟨_, hfailed, ((completed_cache_always_readable hcalled).1 _ _ hfailed rfl).1⟩

end Huldra
