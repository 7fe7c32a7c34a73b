import Huldra.Library.Served

/-!
# Shown — what the library shows of a paper

A paper is placed under an id of its version family, which may be another than its own.  What the
row of an id shows is the paper that was placed there last; deletions and the OAI columns are kept
beside it and change none of it.
-/

namespace Huldra
namespace Registers

open Process.System (Config Event History Legal Throughout stateAfter)
open LibraryTables Replay Register

variable {Client Out : Type} {program : Client → Nat → ArchiveProgram Out}

/-- A paper as it was placed, and when. -/
structure Placement where
  paper : ArxivPaper
  timestamp : Int

def Placement.key (p : Placement) : String := p.paper.arxivId

/-- What a row shows of its paper, and since when there is a row. -/
structure Shown where
  version : Option Nat
  canonicalUrl : String
  content : PaperContent
  firstSeenAt : Int
  deriving DecidableEq, Repr

def shownAs (first last : Placement) : Shown :=
  { version := last.paper.version
    canonicalUrl := last.paper.canonicalUrl
    content := last.paper.content
    firstSeenAt := first.timestamp }

def shownOf (row : PaperRow) : Shown :=
  { version := row.version
    canonicalUrl := row.canonicalUrl
    content := row.content
    firstSeenAt := row.firstSeenAt }

def shown (l : LibraryTables) (arxivId : String) : Option Shown :=
  (l.paper? arxivId).map shownOf

/-! ## Where papers are placed -/

def placed (l : LibraryTables) (paper : ArxivPaper) (timestamp : Int) : Placement :=
  ⟨l.legacyPaperForExistingOaiBaseRow paper, timestamp⟩

/-- The placements of a list of upserts: each finds the library the ones before have left. -/
def placedPapers (timestamp : Int) : LibraryTables → List ArxivPaper → List Placement
  | _, [] => []
  | l, paper :: papers =>
      placed l paper timestamp :: placedPapers timestamp (l.upsertPaper paper timestamp).2 papers

/-- A live record places its paper in the version family that the library has of it. -/
def placedRecord (l : LibraryTables) (record : OaiRecord) (timestamp : Int) : List Placement :=
  match record.paper with
  | some paper =>
      if record.deleted then []
      else [placed l (l.oaiPaperForExistingVersionFamily paper) timestamp]
  | none => []

def placedRecords (timestamp : Int) : LibraryTables → List OaiRecord → List Placement
  | _, [] => []
  | l, record :: records =>
      placedRecord l record timestamp ++
        placedRecords timestamp (l.upsertOaiRecord record timestamp) records

/-- The placements an operation makes in a library, in order. -/
def placementsBy (l : LibraryTables) (o : Op) : List Placement :=
  match papersOf? o, recordsOf? o with
  | some (papers, timestamp), _ => placedPapers timestamp l papers
  | none, some (records, timestamp) => placedRecords timestamp l records
  | none, none => []

def placementsOf (e : Event (archiveSystem Client Out program)) : List Placement :=
  match storeOp? e with
  | some o => placementsBy e.before.store.library o
  | none => []

def placements (h : History (archiveSystem Client Out program)) : List Placement :=
  h.flatMap fun e => (placementsOf e).reverse

/-! ## One operation -/

variable {l l' : LibraryTables} {log : List Placement}

/-- The library shows of every id what was placed there last. -/
abbrev Shows (l : LibraryTables) (log : List Placement) : Prop :=
  Renders Placement.key shownAs (shown l) log

theorem Shows.of_papers (h : Shows l log) (hpapers : l'.papers = l.papers) : Shows l' log :=
  h.congr fun arxivId => by simp [shown, paper?, hpapers]

/-- Rows that are rewritten as they are shown. -/
theorem Shows.of_map (h : Shows l log) {f : PaperRow → PaperRow}
    (hid : ∀ row, (f row).arxivId = row.arxivId) (hf : ∀ row, shownOf (f row) = shownOf row) :
    Shows { l with papers := l.papers.map f } log := by
  refine h.congr fun arxivId => ?_
  unfold shown
  rw [paper?_map f hid, Option.map_map]
  congr 1
  funext row
  exact hf row

theorem Shows.upsertPaper (h : Shows l log) (paper : ArxivPaper) (timestamp : Int) :
    Shows (l.upsertPaper paper timestamp).2 (placed l paper timestamp :: log) := by
  refine h.write ?_ ?_ ?_
  · intro arxivId hne
    have hother : arxivId ≠ (l.legacyPaperForExistingOaiBaseRow paper).arxivId :=
      fun heq => hne heq.symm
    unfold shown
    rw [paper?_upsertPaper, if_neg hother]
  · intro hnone
    have habsent : l.paper? (l.legacyPaperForExistingOaiBaseRow paper).arxivId = none :=
      Option.map_eq_none_iff.1 hnone
    unfold shown
    rw [paper?_upsertPaper]
    simp [placed, Placement.key, habsent, storedRow, shownOf, shownAs]
  · intro first last hsome
    rcases Option.map_eq_some_iff.1 hsome with ⟨row, hrow, hshown⟩
    have hfirst : row.firstSeenAt = first.timestamp := congrArg Shown.firstSeenAt hshown
    have hthere : l.paper? (l.legacyPaperForExistingOaiBaseRow paper).arxivId = some row := hrow
    unfold shown
    rw [paper?_upsertPaper]
    simp [placed, Placement.key, hthere, storedRow, mergePaperRow, shownOf, shownAs, hfirst]

theorem Shows.upsertPapers (timestamp : Int) (papers : List ArxivPaper) :
    ∀ {l : LibraryTables} {log : List Placement}, Shows l log →
      Shows (l.upsertPapers papers timestamp).2
        ((placedPapers timestamp l papers).reverse ++ log) := by
  induction papers with
  | nil =>
      intro l log h
      exact h
  | cons paper papers ih =>
      intro l log h
      rw [upsertPapers_cons, placedPapers, List.reverse_cons, List.append_assoc]
      exact ih (h.upsertPaper paper timestamp)

theorem Shows.upsertOaiRecord (h : Shows l log) (record : OaiRecord) (timestamp : Int) :
    Shows (l.upsertOaiRecord record timestamp)
      ((placedRecord l record timestamp).reverse ++ log) := by
  have hpaper : Shows (l.upsertRecordPaper record timestamp)
      ((placedRecord l record timestamp).reverse ++ log) := by
    unfold upsertRecordPaper placedRecord
    cases record.paper with
    | none => exact h
    | some paper =>
        cases record.deleted with
        | true => exact h
        | false => exact h.upsertPaper _ timestamp
  have hrow := hpaper.of_papers
    (upsertOaiRecordRow_papers (l.upsertRecordPaper record timestamp) record timestamp)
  rw [upsertOaiRecord_eq]
  split
  · split
    · -- The tombstone rewrites the rows of the family, but nothing they show.
      refine hrow.of_map (fun row => ?_) fun row => ?_
      · split <;> rfl
      · split <;> rfl
    · exact hrow
  · exact hrow

theorem Shows.upsertOaiRecords (timestamp : Int) (records : List OaiRecord) :
    ∀ {l : LibraryTables} {log : List Placement}, Shows l log →
      Shows (l.upsertOaiRecords records timestamp).2
        ((placedRecords timestamp l records).reverse ++ log) := by
  unfold LibraryTables.upsertOaiRecords
  dsimp only
  induction records with
  | nil =>
      intro l log h
      exact h
  | cons record records ih =>
      intro l log h
      rw [List.foldl_cons, placedRecords, List.reverse_append, List.append_assoc]
      exact ih (h.upsertOaiRecord record timestamp)

/-- Every step shows what it places. -/
theorem LibraryStep.shows {o : Op} (hstep : LibraryStep l o l') (h : Shows l log) :
    Shows l' ((placementsBy l o).reverse ++ log) := by
  cases hstep with
  | completed w =>
      exact (h.upsertPapers w.completedAt w.papers).of_papers (recordCompletedCacheEntry_papers l w)
  | failed w => exact h.of_papers (recordCacheFailure_papers l w)
  | papers papers timestamp => exact h.upsertPapers timestamp papers
  | records hrecords =>
      rename_i records timestamp
      have hpapers : papersOf? o = none := by
        unfold recordsOf? at hrecords
        split at hrecords
        · rfl
        · rfl
        · cases hrecords
      have hby : placementsBy l o = placedRecords timestamp l records := by
        simp [placementsBy, hpapers, hrecords]
      rw [hby]
      exact h.upsertOaiRecords timestamp records
  | deleted arxivId oaiIdentifier oaiDatestamp oaiSetSpecs timestamp =>
      refine h.of_map (fun row => ?_) fun row => ?_
      · split <;> rfl
      · split <;> rfl
  | refreshes => exact h.of_papers rfl
  | migrated => exact h.of_papers rfl
  | quiet hrecords hpapers =>
      have hby : placementsBy l o = [] := by simp [placementsBy, hpapers, hrecords]
      rw [hby]
      exact h

/-! ## The theorem -/

theorem shows_after (sched : List (Config.Choice (archiveSystem Client Out program))) :
    Shows (Config.after (archiveSystem Client Out program) sched).state.store.library
      (placements (Config.after (archiveSystem Client Out program) sched).history) := by
  refine library_after (I := fun l h => Shows l (placements h)) ?_ ?_ ?_ sched
  · exact .nil fun _ => rfl
  · intro l pre e hop hpre
    have hnone : placementsOf e = [] := by simp [placementsOf, hop]
    have hsame : placements (e :: pre) = placements pre := by
      simp [placements, List.flatMap_cons, hnone]
    rw [hsame]
    exact hpre
  · intro l' pre e o hop hstep hpre
    have hby : placements (e :: pre) =
        (placementsBy e.before.store.library o).reverse ++ placements pre := by
      simp [placements, List.flatMap_cons, placementsOf, hop]
    rw [hby]
    exact hstep.shows hpre

theorem mem_getCachedPapers {cacheKey : CacheKey} {paper : ArxivPaper}
    (h : paper ∈ l.getCachedPapers cacheKey) :
    ∃ row, l.paper? paper.arxivId = some row ∧ paper = row.toArxivPaper := by
  rcases List.mem_map.1 h with ⟨row, hmem, rfl⟩
  rcases List.mem_filterMap.1 hmem with ⟨m, _, hrow⟩
  refine ⟨row, ?_, rfl⟩
  rw [paper?_arxivId hrow]
  exact hrow

/-- After every run of whatever programs there are, the row of an id shows the paper that was placed
under this id last, in no matter which way, since the first time one was placed there; and that is
also what a list that has the id shows of it. -/
theorem papers_show_last_placement (program : Client → Nat → ArchiveProgram Out)
    (sched : List (Config.Choice (archiveSystem Client Out program))) :
    (∀ arxivId, shown (Config.after _ sched).state.store.library arxivId =
      (span Placement.key arxivId (placements (Config.after _ sched).history)).map fun s =>
        shownAs s.1 s.2) ∧
    ∀ cacheKey,
      ∀ paper ∈ (Config.after _ sched).state.store.library.getCachedPapers cacheKey,
        ∃ first last, span Placement.key paper.arxivId
            (placements (Config.after _ sched).history) = some (first, last) ∧
          paper.version = last.paper.version ∧ paper.canonicalUrl = last.paper.canonicalUrl ∧
            paper.content = last.paper.content := by
  have hshows := shows_after sched
  refine ⟨hshows, ?_⟩
  intro cacheKey paper hpaper
  rcases mem_getCachedPapers hpaper with ⟨row, hrow, hsame⟩
  have hread := hshows paper.arxivId
  unfold shown at hread
  rw [hrow, Option.map_some] at hread
  rcases Option.map_eq_some_iff.1 hread.symm with ⟨s, hspan, hshown⟩
  refine ⟨s.1, s.2, hspan, ?_, ?_, ?_⟩
  · rw [hsame]
    exact (congrArg Shown.version hshown).symm
  · rw [hsame]
    exact (congrArg Shown.canonicalUrl hshown).symm
  · rw [hsame]
    exact (congrArg Shown.content hshown).symm

end Registers
end Huldra
