import Huldra.Archive
import Huldra.Library.RefreshPeriods
import Huldra.Library.Replay
import Huldra.Register

/-!
# Registers — the library as what was last written to it

Whatever programs run over the archive, and however they interleave, fail or crash: the row of an
OAI record, the list served under a cache key and what is shown of a paper are explained by the
log of the writes, by the first and the last write under their own key.
-/

namespace Huldra
namespace Registers

open Process.System (Config Event History Legal Throughout stateAfter)
open LibraryTables Replay Register

variable {Client Out : Type} {program : Client → Nat → ArchiveProgram Out}

/-! ## The log of the writes -/

/-- The operation of the event took effect: it answered, or it raised and the library changed. -/
def happened (e : Event (archiveSystem Client Out program)) : Bool :=
  match e.action with
  | .op _ r => r.isOk || e.after.store.library ≠ e.before.store.library
  | _ => false

/-- The OAI records an operation brings, and when. -/
def recordsOf? : Op → Option (List OaiRecord × Int)
  | .library (.upsertOaiRecords records timestamp) => some (records, timestamp)
  | .checkpointOaiPage c => some (c.records, c.timestamp)
  | _ => none

/-- The papers an operation brings, and when. -/
def papersOf? : Op → Option (List ArxivPaper × Int)
  | .library (.recordCompletedCacheEntry w) => some (w.papers, w.completedAt)
  | .library (.upsertPapers papers timestamp) => some (papers, timestamp)
  | _ => none

def storeOp? (e : Event (archiveSystem Client Out program)) : Option Op :=
  match e.action with
  | .op (.store o) _ => if happened e then some o else none
  | _ => none

/-! ## One operation -/

/-- What an operation that takes effect makes of the library. -/
inductive LibraryStep (l : LibraryTables) : Op → LibraryTables → Prop
  | completed (w : CompletedCacheWrite) :
      LibraryStep l (.library (.recordCompletedCacheEntry w)) (l.recordCompletedCacheEntry w)
  | failed (w : CacheFailureWrite) :
      LibraryStep l (.library (.recordCacheFailure w)) (l.recordCacheFailure w)
  | papers (papers : List ArxivPaper) (timestamp : Int) :
      LibraryStep l (.library (.upsertPapers papers timestamp)) (l.upsertPapers papers timestamp).2
  | records {o : Op} {records : List OaiRecord} {timestamp : Int}
      (h : recordsOf? o = some (records, timestamp)) :
      LibraryStep l o (l.upsertOaiRecords records timestamp).2
  | deleted (arxivId : String) (oaiIdentifier : Option String) (oaiDatestamp : Option Int)
      (oaiSetSpecs : List String) (timestamp : Int) :
      LibraryStep l
        (.library (.markPaperDeleted arxivId oaiIdentifier oaiDatestamp oaiSetSpecs timestamp))
        (l.markPaperDeleted arxivId oaiIdentifier oaiDatestamp oaiSetSpecs timestamp)
  | refreshes (request : ArxivRequest) (cacheKey : CacheKey) (timeout : Timeout)
      (current due : Int) :
      LibraryStep l (.enqueueRefreshIfDue request cacheKey timeout current)
        { l with
          cacheEntries := l.cacheEntries.map fun e =>
            if e.cacheKey = cacheKey then { e with refreshAfter := some due } else e }
  | migrated : LibraryStep l .initSchema l.backfillCacheEntries
  | quiet {o : Op} (hrecords : recordsOf? o = none) (hpapers : papersOf? o = none) :
      LibraryStep l o l

theorem libraryStep_of_exec (o : Op) (t : Int) (input : Input) (s : Store)
    (h : (Store.exec o t input s).1.isOk = true ∨
      (Store.exec o t input s).2.library ≠ s.library) :
    LibraryStep s.library o (Store.exec o t input s).2.library := by
  cases o with
  | clock o => exact .quiet rfl rfl
  | lease o => exact .quiet rfl rfl
  | rate o => exact .quiet rfl rfl
  | queue o => exact .quiet rfl rfl
  | oai o => exact .quiet rfl rfl
  | upstream o => exact .quiet rfl rfl
  | library o =>
      cases o with
      | getCacheEntry => exact .quiet rfl rfl
      | matchCount => exact .quiet rfl rfl
      | joinedCount => exact .quiet rfl rfl
      | matchPositions => exact .quiet rfl rfl
      | getPapersByIds => exact .quiet rfl rfl
      | getCachedPapers => exact .quiet rfl rfl
      | recordCompletedCacheEntry w => exact .completed w
      | recordCacheFailure w => exact .failed w
      | upsertPapers papers timestamp => exact .papers papers timestamp
      | upsertOaiRecords records timestamp => exact .records rfl
      | markPaperDeleted arxivId oaiIdentifier oaiDatestamp oaiSetSpecs timestamp =>
          exact .deleted arxivId oaiIdentifier oaiDatestamp oaiSetSpecs timestamp
  | initSchema =>
      show LibraryStep s.library .initSchema s.initSchema.2.library
      rcases s.initSchema_cases with heq | heq
      · rw [heq]
        exact .quiet rfl rfl
      · rw [heq]
        exact .migrated
  | renewWorkerFetchOwnership requestId owner leaseName ttl ids =>
      show LibraryStep s.library _ (s.renewWorkerFetchOwnership requestId owner leaseName ttl ids
        t).2.library
      rw [Store.renewWorkerFetchOwnership_library]
      exact .quiet rfl rfl
  | checkpointOaiPage c =>
      -- A checkpoint that does not match raises, and changes nothing.
      simp only [Store.exec, Store.checkpointOaiPage] at h ⊢
      split
      · exact .records rfl
      · rename_i hmatches
        rw [if_neg hmatches] at h
        rcases h with hok | hchanged
        · cases hok
        · exact absurd rfl hchanged
  | enqueueRefreshIfDue request cacheKey timeout current =>
      show LibraryStep s.library _ (s.enqueueRefreshIfDue request cacheKey timeout
        current).2.library
      rcases Store.enqueueRefreshIfDue_library s request cacheKey timeout current with
        heq | ⟨due, heq⟩
      · rw [heq]
        exact .quiet rfl rfl
      · rw [heq]
        exact .refreshes request cacheKey timeout current due

/-- What becomes of the library, whether the operation answers or raises. -/
theorem libraryStep_of_performed {o : Op} {t : Int} {r : Except Exn o.Res} {s s' : Store}
    (h : Store.Performed o t r s s') :
    s'.library = s.library ∨ LibraryStep s.library o s'.library := by
  rcases h.state with rfl | ⟨input, rfl⟩
  · exact Or.inl rfl
  · by_cases hchanged : (Store.exec o t input s).2.library = s.library
    · exact Or.inl hchanged
    · exact Or.inr (libraryStep_of_exec o t input s (Or.inr hchanged))

variable {pre : History (archiveSystem Client Out program)}
  {e : Event (archiveSystem Client Out program)}

theorem storeOp?_eq_some {o : Op} (h : storeOp? e = some o) :
    (∃ r, e.action = .op (.store o) r ∧
      (r.isOk = true ∨ e.after.store.library ≠ e.before.store.library)) := by
  unfold storeOp? at h
  split at h
  · rename_i o' r haction
    split at h
    · rename_i hhappened
      cases h
      refine ⟨r, haction, ?_⟩
      simpa [happened, haction] using hhappened
    · cases h
  · cases h

/-- An operation in the log has made its step. -/
theorem libraryStep_of_legal (hlegal : Legal pre e) {o : Op} (h : storeOp? e = some o) :
    LibraryStep e.before.store.library o e.after.store.library := by
  rcases storeOp?_eq_some h with ⟨r, haction, hhappened⟩
  have hperformed : Archive.Performed (.store o) e.time r e.before e.after :=
    hlegal.executed haction
  rcases hperformed with ⟨input, _, hexec⟩ | ⟨fault, _, rfl, hstate⟩
  · have hr : (Store.exec o e.time input e.before.store).1 = r := congrArg Prod.fst hexec
    have hafter : (Store.exec o e.time input e.before.store).2 = e.after.store :=
      congrArg (fun out => out.2.store) hexec
    rw [← hr, ← hafter] at hhappened
    rw [← hafter]
    exact libraryStep_of_exec o e.time input e.before.store hhappened
  · have hchanged : e.after.store.library ≠ e.before.store.library := by
      rcases hhappened with hok | hchanged
      · cases hok
      · exact hchanged
    rcases hstate with hsame | ⟨input, hstate⟩
    · rw [hsame] at hchanged
      exact absurd rfl hchanged
    · have hafter : e.after.store = (Store.exec o e.time input e.before.store).2 := by
        rw [hstate]
        rfl
      rw [hafter] at hchanged ⊢
      exact libraryStep_of_exec o e.time input e.before.store (.inr hchanged)

/-- What is not in the log has left the library alone. -/
theorem library_of_legal (hlegal : Legal pre e) (h : storeOp? e = none) :
    e.after.store.library = e.before.store.library := by
  cases haction : e.action with
  | start c => rw [hlegal.after_eq_of_start haction]
  | crash => rw [hlegal.after_eq_of_crash haction]
  | op o r =>
      cases o with
      | store o =>
          unfold storeOp? at h
          simp only [haction] at h
          split at h
          · cases h
          · rename_i hhappened
            by_contra hchanged
            exact hhappened (by simp [happened, haction, hchanged])
      | job o =>
          have hperformed : Archive.Performed (.job o) e.time r e.before e.after :=
            hlegal.executed haction
          have hjob : ∀ a : Archive, (a.execJob o).2.store.library = a.store.library := by
            intro a
            cases o with
            | gc cutoff dryRun =>
                simp only [Archive.execJob, Archive.gc]
                split <;> rfl
            | createSyncJob => rfl
            | recordSyncJobPage => rfl
            | deleteSyncJobFollowupPages => rfl
            | completeSyncJob => rfl
            | getUpstreamRequestBudgetRequestsStarted => rfl
          rcases hperformed.state with hsame | ⟨input, hstate⟩
          · rw [hsame]
          · rw [hstate]
            exact hjob e.before

/-- The rule of this module: what holds of the empty library and the empty log, and what every step
keeps while its event joins the log, holds after every run. -/
theorem library_after {I : LibraryTables → History (archiveSystem Client Out program) → Prop}
    (hnil : I {} [])
    (hquiet : ∀ l pre e, storeOp? e = none → I l pre → I l (e :: pre))
    (hstep : ∀ l' pre e o, storeOp? e = some o → LibraryStep e.before.store.library o l' →
      I e.before.store.library pre → I l' (e :: pre))
    (sched : List (Config.Choice (archiveSystem Client Out program))) :
    I (Config.after (archiveSystem Client Out program) sched).state.store.library
      (Config.after (archiveSystem Client Out program) sched).history := by
  rw [(Config.explained_after _ sched).state_eq]
  have hrun := Config.legal_after (archiveSystem Client Out program) sched
  generalize (Config.after (archiveSystem Client Out program) sched).history = history at hrun ⊢
  induction history with
  | nil => exact hnil
  | cons e pre ih =>
      have hpre := ih hrun.tail
      have hlegal := hrun.head
      rw [← hlegal.before_eq] at hpre
      show I e.after.store.library (e :: pre)
      cases hop : storeOp? e with
      | none =>
          rw [library_of_legal hlegal hop]
          exact hquiet _ pre e hop hpre
      | some o => exact hstep _ pre e o hop (libraryStep_of_legal hlegal hop) hpre

/-! ## OAI records -/

/-- A record, and when it was brought. -/
structure Sighting where
  record : OaiRecord
  timestamp : Int

def Sighting.key (s : Sighting) : RecordKey := recordKey s.record

/-- The records the event brings, in the order they are processed. -/
def sightingsOf (e : Event (archiveSystem Client Out program)) : List Sighting :=
  match (storeOp? e).bind recordsOf? with
  | some (records, timestamp) => records.map fun record => ⟨record, timestamp⟩
  | none => []

def sightings (h : History (archiveSystem Client Out program)) : List Sighting :=
  h.flatMap fun e => (sightingsOf e).reverse

/-- The row of a record that was first seen at this time. -/
def Sighting.row (s : Sighting) (firstSeenAt : Int) : OaiRecordRow :=
  { recordRow s.record firstSeenAt with lastSeenAt := s.timestamp }

def sightedRow (first last : Sighting) : OaiRecordRow :=
  last.row first.timestamp

/-- What a sighting makes of the rows. -/
def sighted (rows : List OaiRecordRow) (s : Sighting) : List OaiRecordRow :=
  match rowOf? rows s.key with
  | some existing =>
      rows.map fun row => if rowKey row = s.key then s.row existing.firstSeenAt else row
  | none => rows ++ [s.row s.timestamp]

theorem oaiRecord?_eq (l : LibraryTables) (record : OaiRecord) :
    l.oaiRecord? record.oaiIdentifier record.metadataPrefix =
      rowOf? l.oaiRecords (recordKey record) := by
  simp only [oaiRecord?, rowOf?]
  congr 1
  funext row
  rw [Bool.eq_iff_iff]
  simp [rowKey, recordKey]

theorem upsertOaiRecordRow_sighted (l : LibraryTables) (s : Sighting) :
    (l.upsertOaiRecordRow s.record s.timestamp).oaiRecords = sighted l.oaiRecords s := by
  have hfound := oaiRecord?_eq l s.record
  unfold upsertOaiRecordRow sighted Sighting.key
  rw [hfound]
  cases rowOf? l.oaiRecords (recordKey s.record) with
  | none => rfl
  | some existing =>
      refine List.map_congr_left fun row _ => ?_
      by_cases hkey : row.oaiIdentifier = s.record.oaiIdentifier ∧
          row.metadataPrefix = s.record.metadataPrefix
      · simp [hkey, rowKey, recordKey, Sighting.row, recordRow]
      · simp [hkey, rowKey, recordKey]

/-- A record is upserted as it is sighted; its paper and its tombstone are in another table. -/
theorem upsertOaiRecord_sighted (l : LibraryTables) (s : Sighting) :
    (l.upsertOaiRecord s.record s.timestamp).oaiRecords = sighted l.oaiRecords s := by
  have hone : (l.upsertOaiRecord s.record s.timestamp).oaiRecords =
      ((l.upsertRecordPaper s.record s.timestamp).upsertOaiRecordRow s.record
        s.timestamp).oaiRecords := by
    rw [upsertOaiRecord_eq]
    split
    · split <;> rfl
    · rfl
  calc (l.upsertOaiRecord s.record s.timestamp).oaiRecords
      = ((l.upsertRecordPaper s.record s.timestamp).upsertOaiRecordRow s.record
          s.timestamp).oaiRecords := hone
    _ = sighted (l.upsertRecordPaper s.record s.timestamp).oaiRecords s :=
        upsertOaiRecordRow_sighted _ s
    _ = sighted l.oaiRecords s := by rw [upsertRecordPaper_oaiRecords]

theorem upsertOaiRecords_sighted (l : LibraryTables) (records : List OaiRecord)
    (timestamp : Int) :
    (l.upsertOaiRecords records timestamp).2.oaiRecords =
      (records.map fun record => (⟨record, timestamp⟩ : Sighting)).foldl sighted l.oaiRecords := by
  unfold upsertOaiRecords
  dsimp only
  induction records generalizing l with
  | nil => rfl
  | cons record records ih =>
      rw [List.foldl_cons, ih, upsertOaiRecord_sighted l ⟨record, timestamp⟩]
      rfl

theorem rowKey_row (s : Sighting) (firstSeenAt : Int) : rowKey (s.row firstSeenAt) = s.key := rfl

theorem rowOf?_sighted_of_ne {rows : List OaiRecordRow} {s : Sighting} {key : RecordKey}
    (hne : s.key ≠ key) : rowOf? (sighted rows s) key = rowOf? rows key := by
  unfold sighted
  split
  · -- The row that is replaced is not the one that is looked up.
    rename_i existing _
    have hkey : ∀ row, rowKey (if rowKey row = s.key then s.row existing.firstSeenAt else row) =
        rowKey row := by
      intro row
      split
      · rename_i hrow
        exact (rowKey_row s _).trans hrow.symm
      · rfl
    have hsame : rowOf? (rows.map fun row =>
        if rowKey row = s.key then s.row existing.firstSeenAt else row) key =
          (rowOf? rows key).map fun row =>
            if rowKey row = s.key then s.row existing.firstSeenAt else row := by
      simp only [rowOf?, List.find?_map, Function.comp_def, hkey]
    rw [hsame]
    cases hrow : rowOf? rows key with
    | none => rfl
    | some row =>
        have hother : rowKey row ≠ s.key := by
          rw [(rowOf?_mem hrow).2]
          exact hne.symm
        rw [Option.map_some, if_neg hother]
  · unfold rowOf?
    rw [List.find?_append]
    simp [rowKey_row, hne]

theorem rowOf?_sighted_self (rows : List OaiRecordRow) (s : Sighting) :
    rowOf? (sighted rows s) s.key =
      some (s.row (((rowOf? rows s.key).map (·.firstSeenAt)).getD s.timestamp)) := by
  unfold sighted
  cases hrow : rowOf? rows s.key with
  | none =>
      unfold rowOf? at hrow ⊢
      rw [List.find?_append, hrow]
      simp [rowKey_row]
  | some existing =>
      unfold rowOf? at hrow ⊢
      have hkey : rowKey existing = s.key := by
        simpa using List.find?_some hrow
      have hsame : ((fun row => decide (rowKey row = s.key)) ∘ fun row =>
          if rowKey row = s.key then s.row existing.firstSeenAt else row) =
          fun row => decide (rowKey row = s.key) := by
        funext row
        by_cases hrow' : rowKey row = s.key <;> simp [hrow', rowKey_row]
      rw [List.find?_map, hsame, hrow]
      simp [hkey]

theorem renders_sighted (rows : List OaiRecordRow) (s : Sighting) (log : List Sighting)
    (h : Renders Sighting.key sightedRow (rowOf? rows) log) :
    Renders Sighting.key sightedRow (rowOf? (sighted rows s)) (s :: log) := by
  refine h.write (fun key hne => rowOf?_sighted_of_ne hne) ?_ ?_
  · intro hnone
    rw [rowOf?_sighted_self, hnone]
    rfl
  · intro first last hsome
    rw [rowOf?_sighted_self, hsome]
    rfl

theorem nodup_sighted {rows : List OaiRecordRow} (s : Sighting)
    (h : (rows.map rowKey).Nodup) : ((sighted rows s).map rowKey).Nodup := by
  unfold sighted
  cases hrow : rowOf? rows s.key with
  | none =>
      dsimp only
      rw [List.map_append, List.nodup_append]
      refine ⟨h, List.nodup_singleton _, ?_⟩
      rintro key hkey key' hkey' rfl
      rw [List.map_singleton, List.mem_singleton, rowKey_row] at hkey'
      rcases List.mem_map.1 hkey with ⟨row, hmem, hrowKey⟩
      have hsome := rowOf?_isSome.2 ⟨row, hmem, hrowKey.trans hkey'⟩
      rw [hrow] at hsome
      cases hsome
  | some existing =>
      have hkeys : (rows.map fun row =>
          if rowKey row = s.key then s.row existing.firstSeenAt else row).map rowKey =
            rows.map rowKey := by
        rw [List.map_map]
        refine List.map_congr_left fun row _ => ?_
        show rowKey (if rowKey row = s.key then s.row existing.firstSeenAt else row) = rowKey row
        split
        · rename_i hsame
          exact (rowKey_row s _).trans hsame.symm
        · rfl
      dsimp only
      rw [hkeys]
      exact h

theorem upsertPapers_oaiRecords (l : LibraryTables) (papers : List ArxivPaper) (timestamp : Int) :
    (l.upsertPapers papers timestamp).2.oaiRecords = l.oaiRecords :=
  upsertPapers_induction (P := fun l' => l'.oaiRecords = l.oaiRecords)
    (fun l' paper _ h => by
      rw [← h]
      unfold upsertPaper
      dsimp only
      split <;> rfl) l rfl

theorem putCacheEntry_oaiRecords (l : LibraryTables) (entry : CacheEntry) :
    (l.putCacheEntry entry).oaiRecords = l.oaiRecords := by
  unfold putCacheEntry
  split <;> rfl

theorem nodup_foldl_sighted (writes : List Sighting) {rows : List OaiRecordRow}
    (h : (rows.map rowKey).Nodup) : ((writes.foldl sighted rows).map rowKey).Nodup := by
  induction writes generalizing rows with
  | nil => exact h
  | cons s writes ih => exact ih (nodup_sighted s h)

/-- A row that was there stays, and every record that is sighted has one. -/
theorem rowOf?_foldl_sighted (writes : List Sighting) {rows : List OaiRecordRow} {key : RecordKey}
    (h : (rowOf? rows key).isSome = true ∨ ∃ s ∈ writes, s.key = key) :
    (rowOf? (writes.foldl sighted rows) key).isSome = true := by
  induction writes generalizing rows with
  | nil =>
      rcases h with hthere | ⟨s, hs, _⟩
      · exact hthere
      · cases hs
  | cons s writes ih =>
      rw [List.foldl_cons]
      refine ih ?_
      by_cases hkey : s.key = key
      · left
        rw [← hkey, rowOf?_sighted_self]
        rfl
      · rw [rowOf?_sighted_of_ne hkey]
        rcases h with hthere | ⟨s', hs', hkey'⟩
        · exact Or.inl hthere
        · rcases List.mem_cons.1 hs' with rfl | hmem
          · exact absurd hkey' hkey
          · exact Or.inr ⟨s', hmem, hkey'⟩

/-- A step that brings no records leaves their rows alone. -/
theorem LibraryStep.oaiRecords_eq {l l' : LibraryTables} {o : Op} (h : LibraryStep l o l')
    (hnone : recordsOf? o = none) : l'.oaiRecords = l.oaiRecords := by
  cases h with
  | completed w =>
      calc (l.recordCompletedCacheEntry w).oaiRecords
          = (l.upsertPapers w.papers w.completedAt).2.oaiRecords := by
            unfold LibraryTables.recordCompletedCacheEntry
            exact putCacheEntry_oaiRecords _ _
        _ = l.oaiRecords := upsertPapers_oaiRecords l w.papers w.completedAt
  | failed w =>
      unfold LibraryTables.recordCacheFailure
      dsimp only
      split <;> exact putCacheEntry_oaiRecords _ _
  | papers papers timestamp => exact upsertPapers_oaiRecords l papers timestamp
  | records hrecords =>
      rw [hrecords] at hnone
      cases hnone
  | deleted => rfl
  | refreshes => rfl
  | migrated => rfl
  | quiet => rfl

/-- A step that brings records sights them, one after the other. -/
theorem LibraryStep.sights {l l' : LibraryTables} {o : Op} (h : LibraryStep l o l')
    {records : List OaiRecord} {timestamp : Int} (ho : recordsOf? o = some (records, timestamp)) :
    l'.oaiRecords =
      (records.map fun record => (⟨record, timestamp⟩ : Sighting)).foldl sighted l.oaiRecords := by
  cases h with
  | records hrecords =>
      rw [hrecords] at ho
      cases ho
      exact upsertOaiRecords_sighted l records timestamp
  | quiet hrecords _ =>
      rw [hrecords] at ho
      cases ho
  | completed w => cases ho
  | failed w => cases ho
  | papers papers timestamp => cases ho
  | deleted => cases ho
  | refreshes => cases ho
  | migrated => cases ho

/-- The row of a record stays, and what is brought has one. -/
theorem LibraryStep.stored {l l' : LibraryTables} {o : Op} (h : LibraryStep l o l')
    {key : RecordKey} (hkey : (rowOf? l.oaiRecords key).isSome = true ∨
      ∃ brought ∈ recordsOf? o, ∃ record ∈ brought.1, recordKey record = key) :
    (rowOf? l'.oaiRecords key).isSome = true := by
  cases hrecords : recordsOf? o with
  | none =>
      rw [hrecords] at hkey
      rcases hkey with hthere | ⟨brought, hnone, _⟩
      · rw [h.oaiRecords_eq hrecords]
        exact hthere
      · cases hnone
  | some brought =>
      rw [hrecords] at hkey
      rw [h.sights hrecords]
      refine rowOf?_foldl_sighted _ (hkey.imp_right ?_)
      rintro ⟨_, hsome, record, hrecord, rfl⟩
      cases hsome
      exact ⟨⟨record, brought.2⟩, List.mem_map_of_mem hrecord, rfl⟩

theorem sightings_cons (e : Event (archiveSystem Client Out program))
    (pre : History (archiveSystem Client Out program)) :
    sightings (e :: pre) = (sightingsOf e).reverse ++ sightings pre := rfl

/-- After every run of whatever programs there are, the rows of the OAI records are one for each
record that was ever brought, by a harvest or otherwise: it says what the last of its records said
and when that was, and since when the record has been seen. -/
theorem oai_records_mirror (program : Client → Nat → ArchiveProgram Out)
    (sched : List (Config.Choice (archiveSystem Client Out program))) :
    ((Config.after _ sched).state.store.library.oaiRecords.map rowKey).Nodup ∧
      ∀ key, rowOf? (Config.after _ sched).state.store.library.oaiRecords key =
        (span Sighting.key key (sightings (Config.after _ sched).history)).map fun s =>
          s.2.row s.1.timestamp := by
  refine library_after (I := fun l h => (l.oaiRecords.map rowKey).Nodup ∧
    Renders Sighting.key sightedRow (rowOf? l.oaiRecords) (sightings h)) ?_ ?_ ?_ sched
  · exact ⟨List.nodup_nil, .nil fun _ => rfl⟩
  · intro l pre e hop hpre
    have hnone : sightingsOf e = [] := by simp [sightingsOf, hop]
    rw [sightings_cons, hnone]
    exact hpre
  · intro l' pre e o hop hstep hpre
    cases hrecords : recordsOf? o with
    | none =>
        have hnone : sightingsOf e = [] := by simp [sightingsOf, hop, hrecords]
        rw [sightings_cons, hnone, hstep.oaiRecords_eq hrecords]
        exact hpre
    | some brought =>
        rcases brought with ⟨records, timestamp⟩
        have hsightings : sightingsOf e = records.map fun record => ⟨record, timestamp⟩ := by
          simp [sightingsOf, hop, hrecords]
        rw [sightings_cons, hsightings, hstep.sights hrecords]
        exact ⟨nodup_foldl_sighted _ hpre.1,
          Renders.foldl rowOf? renders_sighted _ _ _ hpre.2⟩

end Registers
end Huldra
