import Huldra.Broker
import Huldra.Library.Papers

/-!
# Readable — a completed cache entry can always be read

An entry, its matches and the papers they name are three tables.  `Intact` is what couples them:
the matches of the entry are numbered from zero, there are as many as it says, and each names a
stored paper.  Every operation of the store keeps it for every completed entry.
-/

namespace Huldra

open Process

namespace LibraryTables

/-! ## Entries and matches -/

def matchesOf (l : LibraryTables) (cacheKey : CacheKey) : List MatchRow :=
  l.cacheMatches.filter fun m => m.cacheKey = cacheKey

structure Intact (l : LibraryTables) (entry : CacheEntry) : Prop where
  numbered : (l.matchesOf entry.cacheKey).map (·.sortPosition) = List.range entry.resultCount
  joined : ∀ m ∈ l.matchesOf entry.cacheKey, (l.paper? m.arxivId).isSome

/-- Every completed entry is intact. -/
def AllIntact (l : LibraryTables) : Prop :=
  ∀ entry ∈ l.cacheEntries, entry.status = .completed → l.Intact entry

theorem cacheEntryOf?_cacheKey {l : LibraryTables} {cacheKey : CacheKey} {entry : CacheEntry}
    (h : l.cacheEntryOf? cacheKey = some entry) : entry.cacheKey = cacheKey := by
  simpa using List.find?_some h

theorem mem_of_cacheEntryOf? {l : LibraryTables} {cacheKey : CacheKey} {entry : CacheEntry}
    (h : l.cacheEntryOf? cacheKey = some entry) : entry ∈ l.cacheEntries :=
  List.mem_of_find?_eq_some h

/-- Writing an entry leaves the others as they are. -/
theorem mem_putCacheEntry {l : LibraryTables} {entry e : CacheEntry}
    (h : e ∈ (l.putCacheEntry entry).cacheEntries) :
    e = entry ∨ (e ∈ l.cacheEntries ∧ e.cacheKey ≠ entry.cacheKey) := by
  unfold putCacheEntry at h
  cases hold : l.cacheEntryOf? entry.cacheKey with
  | some old =>
      simp only [hold, List.mem_map] at h
      rcases h with ⟨e', he', rfl⟩
      split
      · exact Or.inl rfl
      · rename_i hne
        exact Or.inr ⟨he', hne⟩
  | none =>
      simp only [hold, List.mem_append, List.mem_singleton] at h
      rcases h with h | rfl
      · refine Or.inr ⟨h, ?_⟩
        simpa using List.find?_eq_none.1 hold e h
      · exact Or.inl rfl

@[simp] theorem cacheEntryOf?_putCacheEntry (l : LibraryTables) (entry : CacheEntry) :
    (l.putCacheEntry entry).cacheEntryOf? entry.cacheKey = some entry := by
  unfold putCacheEntry
  cases hold : l.cacheEntryOf? entry.cacheKey with
  | some old =>
      unfold cacheEntryOf? at hold ⊢
      simp only [List.find?_map]
      have hsame : ((fun e : CacheEntry => decide (e.cacheKey = entry.cacheKey)) ∘ fun e =>
          if e.cacheKey = entry.cacheKey then entry else e) =
          fun e => decide (e.cacheKey = entry.cacheKey) := by
        funext e
        by_cases he : e.cacheKey = entry.cacheKey <;> simp [he]
      rw [hsame, hold]
      have hkey : old.cacheKey = entry.cacheKey := by
        simpa using List.find?_some hold
      simp [hkey]
  | none =>
      unfold cacheEntryOf? at hold ⊢
      simp [List.find?_append, hold]

@[simp] theorem putCacheEntry_cacheMatches (l : LibraryTables) (entry : CacheEntry) :
    (l.putCacheEntry entry).cacheMatches = l.cacheMatches := by
  unfold putCacheEntry
  split <;> rfl

@[simp] theorem putCacheEntry_papers (l : LibraryTables) (entry : CacheEntry) :
    (l.putCacheEntry entry).papers = l.papers := by
  unfold putCacheEntry
  split <;> rfl

/-- Intact entries stay intact when their matches stay and no paper is lost. -/
theorem Intact.kept {l l' : LibraryTables} {entry : CacheEntry} (h : l.Intact entry)
    (hmatches : l'.matchesOf entry.cacheKey = l.matchesOf entry.cacheKey)
    (hpapers : Retains l l') : l'.Intact entry := by
  refine ⟨?_, ?_⟩
  · rw [hmatches]
    exact h.numbered
  · intro m hm
    rw [hmatches] at hm
    exact hpapers m.arxivId (h.joined m hm)

/-- A completed entry that was one before, and still counts the same matches. -/
def Continues (l : LibraryTables) (entry : CacheEntry) : Prop :=
  ∃ old ∈ l.cacheEntries, old.status = .completed ∧ old.cacheKey = entry.cacheKey ∧
    old.resultCount = entry.resultCount

theorem AllIntact.continued {l l' : LibraryTables} (h : l.AllIntact)
    (hentries : ∀ entry ∈ l'.cacheEntries, entry.status = .completed → l.Continues entry)
    (hmatches : l'.cacheMatches = l.cacheMatches) (hpapers : Retains l l') : l'.AllIntact := by
  intro entry hentry hstatus
  rcases hentries entry hentry hstatus with ⟨old, hold, hcompleted, hkey, hcount⟩
  have hintact : l'.Intact old :=
    (h old hold hcompleted).kept (by simp [matchesOf, hmatches]) hpapers
  refine ⟨?_, ?_⟩
  · rw [← hkey, ← hcount]
    exact hintact.numbered
  · rw [← hkey]
    exact hintact.joined

theorem AllIntact.kept {l l' : LibraryTables} (h : l.AllIntact)
    (hentries : l'.cacheEntries = l.cacheEntries) (hmatches : l'.cacheMatches = l.cacheMatches)
    (hpapers : Retains l l') : l'.AllIntact := by
  refine h.continued ?_ hmatches hpapers
  intro entry hentry hstatus
  rw [hentries] at hentry
  exact ⟨entry, hentry, hstatus, rfl, rfl⟩

/-! ## A completion -/

/-- The matches a completion writes: the ids its papers were stored under, each once, in order. -/
def completionMatches (l : LibraryTables) (w : CompletedCacheWrite) : List MatchRow :=
  (l.upsertPapers w.papers w.completedAt).1.eraseDups.zipIdx.map fun (arxivId, position) =>
    { cacheKey := w.cacheKey
      arxivId := arxivId
      sortPosition := position
      matchedAt := w.completedAt }

/-- The entry a completion writes. -/
def completionEntry (l : LibraryTables) (w : CompletedCacheWrite) : CacheEntry :=
  { cacheKey := w.cacheKey
    request := w.request.stored
    status := .completed
    requestedAt := w.requestedAt
    completedAt := some w.completedAt
    refreshAfter := some (w.completedAt + seconds w.request.refreshIntervalSeconds)
    cooldownUntil := none
    upstreamStatus := some w.upstreamStatus
    upstreamRequestsTotal :=
      ((l.cacheEntryOf? w.cacheKey).map (·.upstreamRequestsTotal)).getD 0 + w.upstreamRequestCount
    resultCount := (l.upsertPapers w.papers w.completedAt).1.eraseDups.length
    totalResults := w.totalResults
    coverageStatus := w.coverageStatus
    errorCategory := none
    errorMessage := none }

theorem recordCompletedCacheEntry_papers (l : LibraryTables) (w : CompletedCacheWrite) :
    (l.recordCompletedCacheEntry w).papers = (l.upsertPapers w.papers w.completedAt).2.papers := by
  unfold recordCompletedCacheEntry
  simp

theorem recordCompletedCacheEntry_cacheEntries (l : LibraryTables) (w : CompletedCacheWrite) :
    (l.recordCompletedCacheEntry w).cacheEntries =
      ((l.upsertPapers w.papers w.completedAt).2.putCacheEntry
        (l.completionEntry w)).cacheEntries := by
  have hsame : (l.upsertPapers w.papers w.completedAt).2.cacheEntryOf? w.cacheKey =
      l.cacheEntryOf? w.cacheKey := by
    simp [cacheEntryOf?]
  unfold recordCompletedCacheEntry completionEntry
  simp only [hsame]

theorem recordCompletedCacheEntry_cacheMatches (l : LibraryTables) (w : CompletedCacheWrite) :
    (l.recordCompletedCacheEntry w).cacheMatches =
      (l.cacheMatches.filter fun m => m.cacheKey ≠ w.cacheKey) ++ l.completionMatches w := by
  unfold recordCompletedCacheEntry completionMatches
  simp

theorem cacheEntryOf?_recordCompletedCacheEntry (l : LibraryTables) (w : CompletedCacheWrite) :
    (l.recordCompletedCacheEntry w).cacheEntryOf? w.cacheKey = some (l.completionEntry w) := by
  have h := cacheEntryOf?_putCacheEntry (l.upsertPapers w.papers w.completedAt).2
    (l.completionEntry w)
  unfold cacheEntryOf? at h ⊢
  rw [recordCompletedCacheEntry_cacheEntries]
  exact h

/-- The matches of the key are the ones the completion wrote. -/
theorem matchesOf_recordCompletedCacheEntry (l : LibraryTables) (w : CompletedCacheWrite) :
    (l.recordCompletedCacheEntry w).matchesOf w.cacheKey = l.completionMatches w := by
  unfold matchesOf
  rw [recordCompletedCacheEntry_cacheMatches, List.filter_append, List.filter_filter]
  have hnone : (l.cacheMatches.filter fun m => decide (m.cacheKey = w.cacheKey) &&
      decide (m.cacheKey ≠ w.cacheKey)) = [] := by
    rw [List.filter_eq_nil_iff]
    intro m _
    simp
  have hall : (l.completionMatches w).filter (fun m => decide (m.cacheKey = w.cacheKey)) =
      l.completionMatches w := by
    rw [List.filter_eq_self]
    intro m hm
    simp only [completionMatches, List.mem_map] at hm
    rcases hm with ⟨x, _, rfl⟩
    simp
  rw [hall, hnone, List.nil_append]

/-- The matches of any other key are the ones it had. -/
theorem matchesOf_recordCompletedCacheEntry_of_ne {l : LibraryTables} {w : CompletedCacheWrite}
    {cacheKey : CacheKey} (hne : cacheKey ≠ w.cacheKey) :
    (l.recordCompletedCacheEntry w).matchesOf cacheKey = l.matchesOf cacheKey := by
  unfold matchesOf
  rw [recordCompletedCacheEntry_cacheMatches, List.filter_append, List.filter_filter]
  have hnone : (l.completionMatches w).filter (fun m => decide (m.cacheKey = cacheKey)) = [] := by
    rw [List.filter_eq_nil_iff]
    intro m hm
    simp only [completionMatches, List.mem_map] at hm
    rcases hm with ⟨x, _, rfl⟩
    simp [hne.symm]
  rw [hnone, List.append_nil]
  apply List.filter_congr
  intro m _
  by_cases hm : m.cacheKey = cacheKey
  · simp [hm, hne]
  · simp [hm]

theorem recordCompletedCacheEntry_retains (l : LibraryTables) (w : CompletedCacheWrite) :
    Retains l (l.recordCompletedCacheEntry w) :=
  (upsertPapers_retains w.papers w.completedAt l).trans
    (Retains.of_papers (recordCompletedCacheEntry_papers l w))

/-- What a completion has just written is intact. -/
theorem completion_intact (l : LibraryTables) (w : CompletedCacheWrite) :
    (l.recordCompletedCacheEntry w).Intact (l.completionEntry w) := by
  have hmatches : (l.recordCompletedCacheEntry w).matchesOf (l.completionEntry w).cacheKey =
      l.completionMatches w := matchesOf_recordCompletedCacheEntry l w
  refine ⟨?_, ?_⟩
  · rw [hmatches]
    simp [completionMatches, completionEntry, Function.comp_def, List.zipIdx_map_snd,
      List.range_eq_range']
  · intro m hm
    rw [hmatches] at hm
    simp only [completionMatches, List.mem_map] at hm
    rcases hm with ⟨⟨arxivId, position⟩, hmem, rfl⟩
    have hid : arxivId ∈ (l.upsertPapers w.papers w.completedAt).1 := by
      have := List.fst_mem_of_mem_zipIdx hmem
      simpa using this
    have hstored := upsertPapers_stored w.papers w.completedAt l arxivId hid
    exact Retains.of_papers (recordCompletedCacheEntry_papers l w) arxivId hstored

theorem recordCompletedCacheEntry_intact {l : LibraryTables} (h : l.AllIntact)
    (w : CompletedCacheWrite) : (l.recordCompletedCacheEntry w).AllIntact := by
  intro entry hentry hstatus
  rw [recordCompletedCacheEntry_cacheEntries] at hentry
  rcases mem_putCacheEntry hentry with rfl | ⟨hold, hne⟩
  · exact completion_intact l w
  · rw [upsertPapers_cacheEntries] at hold
    exact (h entry hold hstatus).kept (matchesOf_recordCompletedCacheEntry_of_ne hne)
      (recordCompletedCacheEntry_retains l w)

/-! ## A failure -/

/-- The entry a failure writes where there was one: a completed one stays completed. -/
def failureEntry (previous : CacheEntry) (w : CacheFailureWrite) : CacheEntry :=
  { previous with
    request := w.request.stored
    status := if previous.status = .completed then .completed else w.status
    requestedAt := w.requestedAt
    cooldownUntil := w.cooldownUntil
    upstreamStatus := w.upstreamStatus
    upstreamRequestsTotal := previous.upstreamRequestsTotal + w.upstreamRequestCount
    errorCategory := some w.errorCategory
    errorMessage := some (String.ofList (w.errorMessage.toList.take 1000)) }

theorem recordCacheFailure_of_previous {l : LibraryTables} {w : CacheFailureWrite}
    {previous : CacheEntry} (h : l.cacheEntryOf? w.cacheKey = some previous) :
    l.recordCacheFailure w = l.putCacheEntry (failureEntry previous w) := by
  unfold recordCacheFailure
  simp [h, failureEntry]

@[simp] theorem recordCacheFailure_papers (l : LibraryTables) (w : CacheFailureWrite) :
    (l.recordCacheFailure w).papers = l.papers := by
  unfold recordCacheFailure
  dsimp only
  split <;> simp

@[simp] theorem recordCacheFailure_cacheMatches (l : LibraryTables) (w : CacheFailureWrite) :
    (l.recordCacheFailure w).cacheMatches = l.cacheMatches := by
  unfold recordCacheFailure
  dsimp only
  split <;> simp

theorem recordCacheFailure_continues {l : LibraryTables} {w : CacheFailureWrite}
    (hw : w.status ≠ .completed) {entry : CacheEntry}
    (hentry : entry ∈ (l.recordCacheFailure w).cacheEntries) (hstatus : entry.status = .completed) :
    l.Continues entry := by
  cases hold : l.cacheEntryOf? w.cacheKey with
  | some previous =>
      rw [recordCacheFailure_of_previous hold] at hentry
      rcases mem_putCacheEntry hentry with rfl | ⟨hmem, _⟩
      · by_cases hcompleted : previous.status = .completed
        · exact ⟨previous, mem_of_cacheEntryOf? hold, hcompleted, rfl, rfl⟩
        · simp [failureEntry, hcompleted, hw] at hstatus
      · exact ⟨entry, hmem, hstatus, rfl, rfl⟩
  | none =>
      unfold recordCacheFailure at hentry
      simp only [hold] at hentry
      rcases mem_putCacheEntry hentry with rfl | ⟨hmem, _⟩
      · exact absurd hstatus hw
      · exact ⟨entry, hmem, hstatus, rfl, rfl⟩

theorem recordCacheFailure_intact {l : LibraryTables} (h : l.AllIntact) {w : CacheFailureWrite}
    (hw : w.status ≠ .completed) : (l.recordCacheFailure w).AllIntact :=
  h.continued (fun _ => recordCacheFailure_continues hw) (recordCacheFailure_cacheMatches l w)
    (Retains.of_papers (recordCacheFailure_papers l w))

/-! ## The other operations -/

theorem upsertPapers_intact {l : LibraryTables} (h : l.AllIntact) (papers : List ArxivPaper)
    (timestamp : Int) : (l.upsertPapers papers timestamp).2.AllIntact :=
  h.kept (by simp) (by simp) (upsertPapers_retains papers timestamp l)

theorem upsertOaiRecords_intact {l : LibraryTables} (h : l.AllIntact) (records : List OaiRecord)
    (timestamp : Int) : (l.upsertOaiRecords records timestamp).2.AllIntact :=
  upsertOaiRecords_induction (P := AllIntact)
    (fun l paper h => h.kept (by simp) (by simp) (upsertPaper_retains l paper timestamp))
    (fun l record h =>
      h.kept (by simp) (by simp) (Retains.of_papers (upsertOaiRecordRow_papers l record timestamp)))
    (fun l record arxivId h => h.kept rfl rfl (tombstone_retains l record arxivId timestamp))
    records h

theorem markPaperDeleted_intact {l : LibraryTables} (h : l.AllIntact) (arxivId : String)
    (oaiIdentifier : Option String) (oaiDatestamp : Option Int) (oaiSetSpecs : List String)
    (timestamp : Int) :
    (l.markPaperDeleted arxivId oaiIdentifier oaiDatestamp oaiSetSpecs timestamp).AllIntact :=
  h.kept rfl rfl
    (markPaperDeleted_retains l arxivId oaiIdentifier oaiDatestamp oaiSetSpecs timestamp)

theorem mapEntries_intact {l : LibraryTables} (h : l.AllIntact) (f : CacheEntry → CacheEntry)
    (hf : ∀ e, (f e).status = e.status ∧ (f e).cacheKey = e.cacheKey ∧
      (f e).resultCount = e.resultCount) :
    ({ l with cacheEntries := l.cacheEntries.map f } : LibraryTables).AllIntact := by
  refine h.continued ?_ rfl (Retains.of_papers rfl)
  intro entry hentry hstatus
  rcases List.mem_map.1 hentry with ⟨old, hold, rfl⟩
  rcases hf old with ⟨hs, hk, hc⟩
  exact ⟨old, hold, by rw [← hs, hstatus], hk.symm, hc.symm⟩

theorem backfillCacheEntries_intact {l : LibraryTables} (h : l.AllIntact) :
    l.backfillCacheEntries.AllIntact :=
  mapEntries_intact h _ fun e => by
    split <;> exact ⟨rfl, rfl, rfl⟩

/-! ## The integrity check -/

/-- What `_completed_cache_integrity_failure` finds when its three reads see these tables. -/
structure PassesCheck (l : LibraryTables) (entry : CacheEntry) : Prop where
  counted : l.matchCount entry.cacheKey = entry.resultCount
  joined : l.joinedCount entry.cacheKey = entry.resultCount
  numbered : l.matchPositions entry.cacheKey = List.range entry.resultCount

theorem Intact.passesCheck {l : LibraryTables} {entry : CacheEntry} (h : l.Intact entry) :
    l.PassesCheck entry := by
  have hlength : (l.matchesOf entry.cacheKey).length = entry.resultCount := by
    simpa using congrArg List.length h.numbered
  refine ⟨?_, ?_, ?_⟩
  · simpa [matchCount, List.countP_eq_length_filter, matchesOf] using hlength
  · have hall : (l.matchesOf entry.cacheKey).countP (fun m => (l.paper? m.arxivId).isSome) =
        (l.matchesOf entry.cacheKey).length := List.countP_eq_length.2 h.joined
    have hfilter : l.joinedCount entry.cacheKey =
        (l.matchesOf entry.cacheKey).countP fun m => (l.paper? m.arxivId).isSome := by
      unfold joinedCount matchesOf
      rw [List.countP_filter]
      apply List.countP_congr
      intro m _
      simp [and_comm]
    rw [hfilter, hall, hlength]
  · have hpositions : l.matchPositions entry.cacheKey =
        ((l.matchesOf entry.cacheKey).map (·.sortPosition)).insertionSort (· ≤ ·) := rfl
    rw [hpositions, h.numbered]
    exact List.Pairwise.insertionSort_eq List.pairwise_le_range

end LibraryTables
end Huldra
