import Huldra.Library.Registers

/-!
# Served — which list a cache key serves, and what it shows

Under a cache key the last completion is served, whatever has failed, been rate limited or been
written under other keys since.  What a listed paper shows is what was last stored under its id.
-/

namespace Huldra
namespace Registers

open Process.System (Config Event History Legal Throughout stateAfter)
open LibraryTables Replay Register

variable {Client Out : Type} {program : Client → Nat → ArchiveProgram Out}

/-! ## The last completion of a key -/

/-- A completion, and the ids its papers were stored under, each once, in order. -/
structure Completion where
  write : CompletedCacheWrite
  stored : List String

def completionOf (e : Event (archiveSystem Client Out program)) : Option Completion :=
  match storeOp? e with
  | some (.library (.recordCompletedCacheEntry w)) =>
      some
        { write := w
          stored :=
            (e.before.store.library.upsertPapers w.papers w.completedAt).1.eraseDups }
  | _ => none

def completions (h : History (archiveSystem Client Out program)) : List Completion :=
  h.filterMap completionOf

/-- The newest completion of the key. -/
def lastCompletion (cacheKey : CacheKey) (h : History (archiveSystem Client Out program)) :
    Option Completion :=
  (completions h).find? fun k => k.write.cacheKey = cacheKey

/-- The matches of a completion. -/
def Completion.matched (k : Completion) : List MatchRow :=
  k.stored.zipIdx.map fun (arxivId, position) =>
    { cacheKey := k.write.cacheKey
      arxivId := arxivId
      sortPosition := position
      matchedAt := k.write.completedAt }

/-- The entry says of its result what the completion says. -/
structure Tells (k : Completion) (entry : CacheEntry) : Prop where
  status : entry.status = .completed
  completedAt : entry.completedAt = some k.write.completedAt
  resultCount : entry.resultCount = k.stored.length
  totalResults : entry.totalResults = k.write.totalResults
  /-- A migration calls an unknown coverage a slice. -/
  coverageStatus : entry.coverageStatus = k.write.coverageStatus ∨
    k.write.coverageStatus = .unknown ∧ entry.coverageStatus = .slice

/-- The entry says that nothing has been completed. -/
structure Bare (entry : CacheEntry) : Prop where
  completedAt : entry.completedAt = none
  resultCount : entry.resultCount = 0
  totalResults : entry.totalResults = none

/-- What the library has under a key, given its last completion. -/
inductive Holds (l : LibraryTables) (cacheKey : CacheKey) : Option Completion → Prop
  | bare (hmatches : l.matchesOf cacheKey = [])
      (hentry : ∀ entry, l.cacheEntryOf? cacheKey = some entry → Bare entry) :
      Holds l cacheKey none
  | completed {k : Completion} {entry : CacheEntry} (hkey : k.write.cacheKey = cacheKey)
      (hmatches : l.matchesOf cacheKey = k.matched)
      (hstored : ∀ arxivId ∈ k.stored, (l.paper? arxivId).isSome)
      (hentry : l.cacheEntryOf? cacheKey = some entry) (htells : Tells k entry) :
      Holds l cacheKey (some k)

/-- What happens to an entry that is not completed anew. -/
inductive EntryKept : Option CacheEntry → Option CacheEntry → Prop
  | absent : EntryKept none none
  | created {entry : CacheEntry} (h : Bare entry) : EntryKept none (some entry)
  | kept {entry entry' : CacheEntry}
      (hstatus : entry.status = .completed → entry'.status = .completed)
      (hcompletedAt : entry'.completedAt = entry.completedAt)
      (hresultCount : entry'.resultCount = entry.resultCount)
      (htotalResults : entry'.totalResults = entry.totalResults)
      (hcoverage : entry'.coverageStatus = entry.coverageStatus ∨
        entry.coverageStatus = .unknown ∧ entry'.coverageStatus = .slice) :
      EntryKept (some entry) (some entry')

theorem EntryKept.refl (entry : Option CacheEntry) : EntryKept entry entry := by
  cases entry with
  | none => exact .absent
  | some entry => exact .kept id rfl rfl rfl (.inl rfl)

/-- The key is not completed anew, and no paper is lost. -/
structure Kept (l l' : LibraryTables) (cacheKey : CacheKey) : Prop where
  matched : l'.matchesOf cacheKey = l.matchesOf cacheKey
  papers : Retains l l'
  entry : EntryKept (l.cacheEntryOf? cacheKey) (l'.cacheEntryOf? cacheKey)

variable {l l' : LibraryTables} {cacheKey : CacheKey}

theorem Tells.kept {k : Completion} {entry entry' : CacheEntry} (h : Tells k entry)
    (hkept : EntryKept (some entry) (some entry')) : Tells k entry' := by
  cases hkept with
  | kept hstatus hcompletedAt hresultCount htotalResults hcoverage =>
      refine
        { status := hstatus h.status
          completedAt := hcompletedAt.trans h.completedAt
          resultCount := hresultCount.trans h.resultCount
          totalResults := htotalResults.trans h.totalResults
          coverageStatus := ?_ }
      rcases hcoverage with hsame | ⟨hunknown, hslice⟩
      · rw [hsame]
        exact h.coverageStatus
      · rcases h.coverageStatus with heq | ⟨_, hslice'⟩
        · exact .inr ⟨heq.symm.trans hunknown, hslice⟩
        · rw [hunknown] at hslice'
          cases hslice'

theorem Holds.kept {last : Option Completion} (h : Holds l cacheKey last)
    (hkept : Kept l l' cacheKey) : Holds l' cacheKey last := by
  have hentryKept := hkept.entry
  cases h with
  | bare hmatches hentry =>
      refine .bare (hkept.matched.trans hmatches) fun entry' hentry' => ?_
      rw [hentry'] at hentryKept
      cases hold : l.cacheEntryOf? cacheKey with
      | none =>
          rw [hold] at hentryKept
          cases hentryKept with
          | created hbare => exact hbare
      | some entry =>
          rw [hold] at hentryKept
          have hbare := hentry entry hold
          cases hentryKept with
          | kept _ hcompletedAt hresultCount htotalResults _ =>
              exact ⟨hcompletedAt.trans hbare.completedAt, hresultCount.trans hbare.resultCount,
                htotalResults.trans hbare.totalResults⟩
  | completed hkey hmatches hstored hentry htells =>
      rw [hentry] at hentryKept
      cases hnew : l'.cacheEntryOf? cacheKey with
      | none =>
          rw [hnew] at hentryKept
          cases hentryKept
      | some entry' =>
          rw [hnew] at hentryKept
          exact .completed hkey (hkept.matched.trans hmatches)
            (fun arxivId hmem => hkept.papers arxivId (hstored arxivId hmem)) hnew
            (htells.kept hentryKept)

/-! ## The steps -/

theorem Kept.of_tables (hentries : l'.cacheEntries = l.cacheEntries)
    (hmatches : l'.cacheMatches = l.cacheMatches) (hpapers : Retains l l') :
    Kept l l' cacheKey where
  matched := by simp [matchesOf, hmatches]
  papers := hpapers
  entry := by
    have hsame : l'.cacheEntryOf? cacheKey = l.cacheEntryOf? cacheKey := by
      simp [cacheEntryOf?, hentries]
    rw [hsame]
    exact .refl _

/-- Entries that are rewritten under their keys. -/
theorem Kept.of_map {f : CacheEntry → CacheEntry} (hkey : ∀ e, (f e).cacheKey = e.cacheKey)
    (hf : ∀ e, EntryKept (some e) (some (f e))) :
    Kept l { l with cacheEntries := l.cacheEntries.map f } cacheKey where
  matched := rfl
  papers := Retains.of_papers rfl
  entry := by
    rw [cacheEntryOf?_map l cacheKey hkey]
    cases l.cacheEntryOf? cacheKey with
    | none => exact .absent
    | some entry => exact hf entry

/-- A failure keeps what a completed entry says, and a first one says nothing of a result. -/
theorem kept_recordCacheFailure (l : LibraryTables) (w : CacheFailureWrite) :
    Kept l (l.recordCacheFailure w) cacheKey where
  matched := by simp [matchesOf]
  papers := Retains.of_papers (recordCacheFailure_papers l w)
  entry := by
    cases hold : l.cacheEntryOf? w.cacheKey with
    | some previous =>
        rw [recordCacheFailure_of_previous hold]
        have hkey : (failureEntry previous w).cacheKey = w.cacheKey := by
          show previous.cacheKey = w.cacheKey
          exact cacheEntryOf?_cacheKey hold
        by_cases hsame : w.cacheKey = cacheKey
        · subst hsame
          have hput := cacheEntryOf?_putCacheEntry l (failureEntry previous w)
          rw [hkey] at hput
          rw [hput, hold]
          exact .kept (fun hstatus => if_pos hstatus) rfl rfl rfl (.inl rfl)
        · rw [cacheEntryOf?_putCacheEntry_of_ne l (hkey.trans_ne hsame)]
          exact .refl _
    | none =>
        unfold LibraryTables.recordCacheFailure
        simp only [hold]
        by_cases hsame : w.cacheKey = cacheKey
        · subst hsame
          rw [hold, cacheEntryOf?_putCacheEntry]
          exact .created ⟨rfl, rfl, rfl⟩
        · rw [cacheEntryOf?_putCacheEntry_of_ne l hsame]
          exact .refl _

theorem upsertOaiRecords_cacheMatches (l : LibraryTables) (records : List OaiRecord)
    (timestamp : Int) : (l.upsertOaiRecords records timestamp).2.cacheMatches = l.cacheMatches :=
  upsertOaiRecords_induction (P := fun l' => l'.cacheMatches = l.cacheMatches)
    (fun l' paper h => (upsertPaper_cacheMatches l' paper timestamp).trans h)
    (fun l' record h => (upsertOaiRecordRow_cacheMatches l' record timestamp).trans h)
    (fun _ _ _ h => h) records rfl

/-- Whatever is not a completion of the key keeps it. -/
theorem LibraryStep.kept {o : Op} (h : LibraryStep l o l')
    (hother : ∀ w, o = .library (.recordCompletedCacheEntry w) → w.cacheKey ≠ cacheKey) :
    Kept l l' cacheKey := by
  cases h with
  | completed w =>
      have hne := hother w rfl
      refine ⟨matchesOf_recordCompletedCacheEntry_of_ne hne.symm,
        recordCompletedCacheEntry_retains l w, ?_⟩
      rw [cacheEntryOf?_recordCompletedCacheEntry_of_ne l hne]
      exact .refl _
  | failed w => exact kept_recordCacheFailure l w
  | papers papers timestamp =>
      exact .of_tables (by simp) (by simp) (upsertPapers_retains papers timestamp l)
  | records =>
      exact .of_tables (by simp) (upsertOaiRecords_cacheMatches _ _ _)
        (upsertOaiRecords_retains _ _ _)
  | deleted arxivId oaiIdentifier oaiDatestamp oaiSetSpecs timestamp =>
      exact .of_tables rfl rfl
        (markPaperDeleted_retains l arxivId oaiIdentifier oaiDatestamp oaiSetSpecs timestamp)
  | refreshes request key timeout current due =>
      refine .of_map (fun e => by split <;> rfl) fun e => ?_
      split
      · exact .kept id rfl rfl rfl (.inl rfl)
      · exact .refl _
  | migrated =>
      refine .of_map (fun e => by split <;> rfl) fun e => ?_
      split
      · refine .kept id rfl rfl rfl ?_
        dsimp only
        split
        · rename_i hunknown
          exact .inr ⟨hunknown, rfl⟩
        · exact .inl rfl
      · exact .refl _
  | quiet => exact .of_tables rfl rfl (Retains.refl l)

theorem holds_recordCompletedCacheEntry (l : LibraryTables) (w : CompletedCacheWrite) :
    Holds (l.recordCompletedCacheEntry w) w.cacheKey
      (some ⟨w, (l.upsertPapers w.papers w.completedAt).1.eraseDups⟩) := by
  refine .completed rfl (matchesOf_recordCompletedCacheEntry l w) ?_
    (cacheEntryOf?_recordCompletedCacheEntry l w) ⟨rfl, rfl, rfl, rfl, .inl rfl⟩
  intro arxivId hmem
  refine Retains.of_papers (recordCompletedCacheEntry_papers l w) arxivId ?_
  exact upsertPapers_stored w.papers w.completedAt l arxivId (by simpa using hmem)

theorem lastCompletion_cons_of_ne {e : Event (archiveSystem Client Out program)}
    {pre : History (archiveSystem Client Out program)}
    (hother : ∀ w, storeOp? e = some (.library (.recordCompletedCacheEntry w)) →
      w.cacheKey ≠ cacheKey) :
    lastCompletion cacheKey (e :: pre) = lastCompletion cacheKey pre := by
  unfold lastCompletion completions
  rw [List.filterMap_cons]
  cases hk : completionOf e with
  | none => rfl
  | some k =>
      unfold completionOf at hk
      split at hk
      · rename_i w hop
        cases hk
        rw [List.find?_cons_of_neg (by simpa using hother w hop)]
      · cases hk

theorem holds_after (cacheKey : CacheKey)
    (sched : List (Config.Choice (archiveSystem Client Out program))) :
    Holds (Config.after (archiveSystem Client Out program) sched).state.store.library cacheKey
      (lastCompletion cacheKey
        (Config.after (archiveSystem Client Out program) sched).history) := by
  refine library_after (I := fun l h => Holds l cacheKey (lastCompletion cacheKey h)) ?_ ?_ ?_ sched
  · exact .bare rfl fun entry hentry => by cases hentry
  · intro l pre e hop hpre
    rw [lastCompletion_cons_of_ne fun w hw => by rw [hop] at hw; cases hw]
    exact hpre
  · intro l' pre e o hop hstep hpre
    by_cases hcompletes : ∃ w, o = .library (.recordCompletedCacheEntry w) ∧ w.cacheKey = cacheKey
    · rcases hcompletes with ⟨w, rfl, rfl⟩
      have hlast : lastCompletion w.cacheKey (e :: pre) = some
          ⟨w, (e.before.store.library.upsertPapers w.papers w.completedAt).1.eraseDups⟩ := by
        simp [lastCompletion, completions, completionOf, hop]
      have hl' : l' = e.before.store.library.recordCompletedCacheEntry w := by
        cases hstep with
        | completed => rfl
        | records hrecords => cases hrecords
        | quiet _ hpapers => cases hpapers
      rw [hlast, hl']
      exact holds_recordCompletedCacheEntry _ w
    · have hother : ∀ w, o = .library (.recordCompletedCacheEntry w) → w.cacheKey ≠ cacheKey :=
        fun w hw hkey => hcompletes ⟨w, hw, hkey⟩
      rw [lastCompletion_cons_of_ne fun w hw => hother w (Option.some.inj (hop.symm.trans hw))]
      exact hpre.kept (hstep.kept hother)

/-! ## The list that is served -/

theorem Completion.matched_sorted (k : Completion) :
    k.matched.Pairwise fun a b => a.sortPosition ≤ b.sortPosition := by
  have hpositions : k.stored.zipIdx.Pairwise fun a b => a.2 ≤ b.2 := by
    refine List.pairwise_map.1 ?_
    rw [List.zipIdx_map_snd]
    exact List.pairwise_le_range'
  rw [Completion.matched, List.pairwise_map]
  exact hpositions

theorem Completion.matched_ids (k : Completion) : k.matched.map (·.arxivId) = k.stored := by
  rw [Completion.matched, List.map_map]
  exact List.zipIdx_map_fst 0 k.stored

/-- Matches whose papers are all stored are joined with the rows of their ids. -/
theorem ids_of_joined (rows : List MatchRow) (hjoined : ∀ m ∈ rows, (l.paper? m.arxivId).isSome) :
    (rows.filterMap fun m => l.paper? m.arxivId).map (·.arxivId) = rows.map (·.arxivId) := by
  induction rows with
  | nil => rfl
  | cons m rows ih =>
      rw [List.forall_mem_cons] at hjoined
      rcases Option.isSome_iff_exists.1 hjoined.1 with ⟨row, hrow⟩
      rw [List.filterMap_cons, hrow, List.map_cons, List.map_cons, ih hjoined.2,
        paper?_arxivId hrow]

theorem ids_getCachedPapers {k : Completion} (hmatches : l.matchesOf cacheKey = k.matched)
    (hstored : ∀ arxivId ∈ k.stored, (l.paper? arxivId).isSome) :
    (l.getCachedPapers cacheKey).map (·.arxivId) = k.stored := by
  have hsorted : (l.matchesOf cacheKey).insertionSort
      (fun a b => a.sortPosition ≤ b.sortPosition) = k.matched := by
    rw [hmatches]
    exact List.Pairwise.insertionSort_eq k.matched_sorted
  have hjoined : ∀ m ∈ k.matched, (l.paper? m.arxivId).isSome := by
    intro m hm
    refine hstored m.arxivId ?_
    rw [← k.matched_ids]
    exact List.mem_map_of_mem hm
  calc (l.getCachedPapers cacheKey).map (·.arxivId)
      = (((l.matchesOf cacheKey).insertionSort fun a b => a.sortPosition ≤ b.sortPosition).filterMap
          fun m => l.paper? m.arxivId).map (·.arxivId) := List.map_map
    _ = (k.matched.filterMap fun m => l.paper? m.arxivId).map (·.arxivId) := by rw [hsorted]
    _ = k.matched.map (·.arxivId) := ids_of_joined k.matched hjoined
    _ = k.stored := k.matched_ids

/-- What a key serves, given its last completion: the ids of that completion in its order, under an
entry that says what it said; without one, nothing, and no entry that tells of a result. -/
def Serves (l : LibraryTables) (cacheKey : CacheKey) : Option Completion → Prop
  | none =>
      l.getCachedPapers cacheKey = [] ∧
        ∀ entry, l.cacheEntryOf? cacheKey = some entry → Bare entry
  | some k =>
      (l.getCachedPapers cacheKey).map (·.arxivId) = k.stored ∧
        ∃ entry, l.cacheEntryOf? cacheKey = some entry ∧ Tells k entry

theorem Holds.serves {last : Option Completion} (h : Holds l cacheKey last) :
    Serves l cacheKey last := by
  cases h with
  | bare hmatches hentry =>
      refine ⟨?_, hentry⟩
      have hnone : l.cacheMatches.filter (fun m => m.cacheKey = cacheKey) = [] := hmatches
      simp only [LibraryTables.getCachedPapers, hnone, List.insertionSort_nil, List.filterMap_nil,
        List.map_nil]
  | completed _ hmatches hstored hentry htells =>
      exact ⟨ids_getCachedPapers hmatches hstored, _, hentry, htells⟩

/-- After every run of whatever programs there are, a cache key serves its last completion: neither
a failure or a rate limit recorded since, nor papers, OAI records and deletions that were stored
since, nor another key takes an id out of the list, adds one or moves one. -/
theorem cache_serves_last_completion (program : Client → Nat → ArchiveProgram Out)
    (sched : List (Config.Choice (archiveSystem Client Out program))) (cacheKey : CacheKey) :
    Serves (Config.after _ sched).state.store.library cacheKey
      (lastCompletion cacheKey (Config.after _ sched).history) :=
  (holds_after cacheKey sched).serves

end Registers
end Huldra
