import Huldra.Store.Library
import Mathlib.Data.Int.Order.Basic
import Mathlib.Data.Prod.Lex
import Mathlib.Data.String.Basic

/-!
# Papers — what each operation does to the rows of `papers`

A row is never deleted and never changes its id, so a paper that was stored stays stored.  For
each operation there is one lemma that says which row an id has afterwards.
-/

namespace Huldra
namespace LibraryTables

/-! ## Looking up a row -/

theorem paper?_arxivId {l : LibraryTables} {arxivId : String} {row : PaperRow}
    (h : l.paper? arxivId = some row) : row.arxivId = arxivId := by
  simpa using List.find?_some h

theorem mem_of_paper? {l : LibraryTables} {arxivId : String} {row : PaperRow}
    (h : l.paper? arxivId = some row) : row ∈ l.papers :=
  List.mem_of_find?_eq_some h

theorem isSome_paper?_iff {l : LibraryTables} {arxivId : String} :
    (l.paper? arxivId).isSome ↔ arxivId ∈ l.papers.map (·.arxivId) := by
  simp [paper?, List.find?_isSome]

/-- Rewriting rows under their own ids changes what is found, not whether something is. -/
theorem paper?_map {l : LibraryTables} (f : PaperRow → PaperRow)
    (hf : ∀ row, (f row).arxivId = row.arxivId) (arxivId : String) :
    ({ l with papers := l.papers.map f } : LibraryTables).paper? arxivId =
      (l.paper? arxivId).map f := by
  simp only [paper?, List.find?_map]
  congr 2
  funext row
  simp [hf]

/-- Every paper that was stored is stored. -/
def Retains (l l' : LibraryTables) : Prop :=
  ∀ arxivId, (l.paper? arxivId).isSome → (l'.paper? arxivId).isSome

namespace Retains

theorem refl (l : LibraryTables) : Retains l l := fun _ h => h

theorem trans {l l' l'' : LibraryTables} (h : Retains l l') (h' : Retains l' l'') :
    Retains l l'' :=
  fun arxivId hsome => h' arxivId (h arxivId hsome)

theorem of_papers {l l' : LibraryTables} (h : l'.papers = l.papers) : Retains l l' := by
  intro arxivId hsome
  simpa [paper?, h] using hsome

end Retains

/-! ## Version families -/

/-- The ids the family of `baseId` has in the store, if they are stored. -/
def inVersionFamily (baseId id : String) : Bool :=
  (id = baseId || likePrefix (baseId ++ "v") id) &&
    (id = baseId || Keys.arxivIdFamilyBase id = baseId)

theorem mem_paperArxivIdsInVersionFamily {l : LibraryTables} {arxivId id : String} :
    id ∈ l.paperArxivIdsInVersionFamily arxivId ↔
      (l.paper? id).isSome ∧ inVersionFamily (Keys.arxivIdFamilyBase arxivId) id = true := by
  rw [isSome_paper?_iff]
  simp only [paperArxivIdsInVersionFamily, inVersionFamily, List.mem_filter, Bool.and_eq_true]
  exact and_assoc

/-- Where an upsert goes depends on which ids are stored and on where the base row came from. -/
theorem legacyPaperForExistingOaiBaseRow_congr {l l' : LibraryTables} (paper : ArxivPaper)
    (hstored : ∀ id, (l'.paper? id).isSome = (l.paper? id).isSome)
    (hbase : ((l'.paper? (Keys.arxivIdFamilyBase paper.arxivId)).any fun row =>
        row.oaiIdentifier.isSome) =
      (l.paper? (Keys.arxivIdFamilyBase paper.arxivId)).any fun row => row.oaiIdentifier.isSome) :
    l'.legacyPaperForExistingOaiBaseRow paper = l.legacyPaperForExistingOaiBaseRow paper := by
  have hmem : ∀ id, id ∈ l'.paperArxivIdsInVersionFamily paper.arxivId ↔
      id ∈ l.paperArxivIdsInVersionFamily paper.arxivId := by
    intro id
    rw [mem_paperArxivIdsInVersionFamily, mem_paperArxivIdsInVersionFamily, hstored]
  have hcontains : (l'.paperArxivIdsInVersionFamily paper.arxivId).contains
        (Keys.arxivIdFamilyBase paper.arxivId) =
      (l.paperArxivIdsInVersionFamily paper.arxivId).contains
        (Keys.arxivIdFamilyBase paper.arxivId) := by
    rw [Bool.eq_iff_iff, List.contains_iff_mem, List.contains_iff_mem, hmem]
  have hany : ((l'.paperArxivIdsInVersionFamily paper.arxivId).any fun id =>
        (Keys.arxivVersion id).isSome) =
      (l.paperArxivIdsInVersionFamily paper.arxivId).any fun id =>
        (Keys.arxivVersion id).isSome := by
    rw [Bool.eq_iff_iff, List.any_eq_true, List.any_eq_true]
    simp only [hmem]
  unfold legacyPaperForExistingOaiBaseRow
  simp only [hcontains, hany, hbase]

/-! ## One upsert -/

/-- The row an upsert leaves under the id of the paper. -/
def storedRow (old : Option PaperRow) (paper : ArxivPaper) (timestamp : Int) : PaperRow :=
  match old with
  | some old => mergePaperRow old paper timestamp
  | none => { paper with firstSeenAt := timestamp, lastSeenAt := timestamp }

@[simp] theorem storedRow_arxivId (old : Option PaperRow) (paper : ArxivPaper) (timestamp : Int) :
    (storedRow old paper timestamp).arxivId = paper.arxivId := by
  cases old with
  | none => rfl
  | some old => rfl

theorem upsertPaper_fst (l : LibraryTables) (paper : ArxivPaper) (timestamp : Int) :
    (l.upsertPaper paper timestamp).1 = (l.legacyPaperForExistingOaiBaseRow paper).arxivId := by
  unfold upsertPaper
  dsimp only
  split <;> rfl

/-- An upsert writes the row of the id it decided on, and no other. -/
theorem paper?_upsertPaper (l : LibraryTables) (paper : ArxivPaper) (timestamp : Int)
    (arxivId : String) :
    (l.upsertPaper paper timestamp).2.paper? arxivId =
      if arxivId = (l.legacyPaperForExistingOaiBaseRow paper).arxivId then
        some (storedRow (l.paper? arxivId) (l.legacyPaperForExistingOaiBaseRow paper) timestamp)
      else l.paper? arxivId := by
  unfold upsertPaper
  dsimp only
  generalize l.legacyPaperForExistingOaiBaseRow paper = stored
  cases hold : l.paper? stored.arxivId with
  | some old =>
      dsimp only
      rw [paper?_map _ (fun row => by split <;> simp_all [mergePaperRow])]
      split
      case isTrue h =>
        subst h
        simp [hold, storedRow, paper?_arxivId hold]
      case isFalse h =>
        cases hrow : l.paper? arxivId with
        | none => rfl
        | some row =>
            have hne : row.arxivId ≠ stored.arxivId := by
              rw [paper?_arxivId hrow]
              exact h
            simp [hne]
  | none =>
      dsimp only
      unfold paper? at hold ⊢
      rw [List.find?_append]
      split
      case isTrue h =>
        subst h
        simp [hold, storedRow]
      case isFalse h =>
        have hne : stored.arxivId ≠ arxivId := fun heq => h heq.symm
        cases hrow : l.papers.find? fun row => row.arxivId = arxivId with
        | none => simp [hne]
        | some row => simp

theorem upsertPaper_retains (l : LibraryTables) (paper : ArxivPaper) (timestamp : Int) :
    Retains l (l.upsertPaper paper timestamp).2 := by
  intro arxivId hsome
  rw [paper?_upsertPaper]
  split
  · rfl
  · exact hsome

/-- The id an upsert answers with is stored. -/
theorem upsertPaper_stored (l : LibraryTables) (paper : ArxivPaper) (timestamp : Int) :
    ((l.upsertPaper paper timestamp).2.paper? (l.upsertPaper paper timestamp).1).isSome := by
  rw [paper?_upsertPaper, upsertPaper_fst]
  simp

@[simp] theorem upsertPaper_cacheEntries (l : LibraryTables) (paper : ArxivPaper)
    (timestamp : Int) : (l.upsertPaper paper timestamp).2.cacheEntries = l.cacheEntries := by
  unfold upsertPaper
  dsimp only
  split <;> rfl

@[simp] theorem upsertPaper_cacheMatches (l : LibraryTables) (paper : ArxivPaper)
    (timestamp : Int) : (l.upsertPaper paper timestamp).2.cacheMatches = l.cacheMatches := by
  unfold upsertPaper
  dsimp only
  split <;> rfl

/-! ## A list of upserts -/

@[simp] theorem upsertPapers_nil (l : LibraryTables) (timestamp : Int) :
    l.upsertPapers [] timestamp = ([], l) := rfl

private theorem upsertPapers_foldl (timestamp : Int) (papers : List ArxivPaper) :
    ∀ (ids : List String) (l : LibraryTables),
      papers.foldl
          (fun acc paper =>
            let (arxivId, l) := acc.2.upsertPaper paper timestamp
            (acc.1 ++ [arxivId], l))
          (ids, l) =
        (ids ++ (l.upsertPapers papers timestamp).1, (l.upsertPapers papers timestamp).2) := by
  induction papers with
  | nil =>
      intro ids l
      simp [upsertPapers]
  | cons paper papers ih =>
      intro ids l
      unfold upsertPapers
      simp only [List.foldl_cons]
      rw [ih, ih ([] ++ _)]
      simp

theorem upsertPapers_cons (l : LibraryTables) (paper : ArxivPaper) (papers : List ArxivPaper)
    (timestamp : Int) :
    l.upsertPapers (paper :: papers) timestamp =
      ((l.upsertPaper paper timestamp).1 ::
          ((l.upsertPaper paper timestamp).2.upsertPapers papers timestamp).1,
        ((l.upsertPaper paper timestamp).2.upsertPapers papers timestamp).2) := by
  conv_lhs => unfold upsertPapers
  rw [List.foldl_cons, upsertPapers_foldl]
  simp

/-- What every upsert of the list preserves, the list preserves. -/
theorem upsertPapers_induction {P : LibraryTables → Prop} {timestamp : Int}
    {papers : List ArxivPaper}
    (hstep : ∀ l paper, paper ∈ papers → P l → P (l.upsertPaper paper timestamp).2) :
    ∀ l, P l → P (l.upsertPapers papers timestamp).2 := by
  induction papers with
  | nil =>
      intro l hl
      exact hl
  | cons paper papers ih =>
      intro l hl
      rw [upsertPapers_cons]
      exact ih (fun l q hq => hstep l q (List.mem_cons_of_mem paper hq)) _
        (hstep l paper List.mem_cons_self hl)

theorem upsertPapers_retains (papers : List ArxivPaper) (timestamp : Int) (l : LibraryTables) :
    Retains l (l.upsertPapers papers timestamp).2 :=
  upsertPapers_induction (P := fun l' => Retains l l')
    (fun l' paper _ h => h.trans (upsertPaper_retains l' paper timestamp)) l (Retains.refl l)

/-- The ids a list of upserts answers with are stored. -/
theorem upsertPapers_stored (papers : List ArxivPaper) (timestamp : Int) :
    ∀ (l : LibraryTables), ∀ arxivId ∈ (l.upsertPapers papers timestamp).1,
      ((l.upsertPapers papers timestamp).2.paper? arxivId).isSome := by
  induction papers with
  | nil =>
      intro l arxivId h
      cases h
  | cons paper papers ih =>
      intro l arxivId h
      rw [upsertPapers_cons] at h ⊢
      rcases List.mem_cons.1 h with rfl | h
      · exact upsertPapers_retains papers timestamp _ _ (upsertPaper_stored l paper timestamp)
      · exact ih _ arxivId h

@[simp] theorem upsertPapers_cacheEntries (l : LibraryTables) (papers : List ArxivPaper)
    (timestamp : Int) : (l.upsertPapers papers timestamp).2.cacheEntries = l.cacheEntries :=
  upsertPapers_induction (P := fun l' => l'.cacheEntries = l.cacheEntries)
    (fun l' paper _ h => by simpa using h) l rfl

@[simp] theorem upsertPapers_cacheMatches (l : LibraryTables) (papers : List ArxivPaper)
    (timestamp : Int) : (l.upsertPapers papers timestamp).2.cacheMatches = l.cacheMatches :=
  upsertPapers_induction (P := fun l' => l'.cacheMatches = l.cacheMatches)
    (fun l' paper _ h => by simpa using h) l rfl

/-! ## Reads -/

/-- What a read finds is a stored row. -/
theorem getPaper_row {l : LibraryTables} {arxivId : String} {paper : ArxivPaper}
    (h : l.getPaper arxivId = some paper) :
    ∃ row, l.paper? paper.arxivId = some row ∧ row.toArxivPaper = paper := by
  have hfound : ∀ {id : String} {row : PaperRow}, l.paper? id = some row →
      ∃ row', l.paper? row.arxivId = some row' ∧ row'.toArxivPaper = row.toArxivPaper := by
    intro id row hrow
    refine ⟨row, ?_, rfl⟩
    rw [paper?_arxivId hrow, hrow]
  unfold getPaper at h
  rcases Option.map_eq_some_iff.1 h with ⟨row, hrow, rfl⟩
  rcases Option.or_eq_some_iff.1 hrow with hown | ⟨_, hother⟩
  · exact hfound hown
  rcases Option.or_eq_some_iff.1 hother with hbase | ⟨_, hlatest⟩
  · unfold oaiBasePaperRowForVersionedRead at hbase
    dsimp only at hbase
    split at hbase
    · cases hbase
    · exact hfound (Option.filter_eq_some_iff.1 hbase).1
  · unfold latestVersionedPaperRowForBaseRead at hlatest
    split at hlatest
    · cases hlatest
    · dsimp only at hlatest
      split at hlatest
      · cases hlatest
      · exact hfound hlatest

theorem preferredId_mem (first : String) (rest : List String) :
    preferredId first rest ∈ first :: rest := by
  unfold preferredId
  induction rest generalizing first with
  | nil => simp
  | cons id rest ih =>
      rw [List.foldl_cons]
      rcases List.mem_cons.1 (ih (if mergePreferenceLt first id then id else first)) with h | h
      · rw [h]
        split <;> simp
      · exact List.mem_cons_of_mem first (List.mem_cons_of_mem id h)

/-- The key of `_version_family_merge_preference`. -/
def mergePreference (arxivId : String) : Int ×ₗ String :=
  toLex (mergeVersion arxivId, arxivId)

theorem mergePreferenceLt_iff {a b : String} :
    mergePreferenceLt a b = true ↔ mergePreference a < mergePreference b := by
  simp only [mergePreference, Prod.Lex.toLex_lt_toLex]
  rw [String.lt_iff_toList_lt]
  simp [mergePreferenceLt]

theorem mergePreference_injective : Function.Injective mergePreference := by
  intro a b h
  exact congrArg (fun p => (ofLex p).2) h

theorem mergePreference_le_preferredId (first : String) (rest : List String) :
    ∀ id ∈ first :: rest, mergePreference id ≤ mergePreference (preferredId first rest) := by
  unfold preferredId
  induction rest generalizing first with
  | nil => simp
  | cons next rest ih =>
      intro id hid
      rw [List.foldl_cons]
      have hbest := ih (if mergePreferenceLt first next then next else first)
      have hstart := hbest _ List.mem_cons_self
      have hpair : mergePreference first ≤
            mergePreference (if mergePreferenceLt first next then next else first) ∧
          mergePreference next ≤
            mergePreference (if mergePreferenceLt first next then next else first) := by
        split
        case isTrue hlt => exact ⟨(mergePreferenceLt_iff.1 hlt).le, le_rfl⟩
        case isFalse hnot => exact ⟨le_rfl, not_lt.1 fun hlt => hnot (mergePreferenceLt_iff.2 hlt)⟩
      rcases List.mem_cons.1 hid with rfl | hid
      · exact hpair.1.trans hstart
      · rcases List.mem_cons.1 hid with rfl | hid
        · exact hpair.2.trans hstart
        · exact hbest id (List.mem_cons_of_mem _ hid)

theorem mergeVersion_le_preferredId (first : String) (rest : List String) :
    ∀ id ∈ first :: rest, mergeVersion id ≤ mergeVersion (preferredId first rest) :=
  fun id hid => Prod.Lex.monotone_fst _ _ (mergePreference_le_preferredId first rest id hid)

/-- Among more ids the preferred one is another, unless it is the same. -/
theorem preferredId_of_append {first : String} {rest more : List String}
    (h : preferredId first (rest ++ more) ∈ first :: rest) :
    preferredId first rest = preferredId first (rest ++ more) := by
  refine mergePreference_injective (le_antisymm ?_ (mergePreference_le_preferredId _ _ _ h))
  refine mergePreference_le_preferredId first (rest ++ more) _ ?_
  exact List.mem_append_left more (preferredId_mem first rest)

/-! ## OAI records -/

/-- The row a deleted record leaves of a stored version. -/
def tombstonedRow (record : OaiRecord) (timestamp : Int) (row : PaperRow) : PaperRow :=
  { row with
    deleted := true
    oaiIdentifier := some record.oaiIdentifier
    oaiDatestamp := record.datestamp.or row.oaiDatestamp
    oaiSetSpecs := record.setSpecs
    lastSeenAt := timestamp }

theorem paper?_tombstone (l : LibraryTables) (record : OaiRecord) (deletedId : String)
    (timestamp : Int) (arxivId : String) :
    (l.tombstone record deletedId timestamp).paper? arxivId =
      (l.paper? arxivId).map fun row =>
        if (l.paperArxivIdsInVersionFamily deletedId).contains row.arxivId then
          tombstonedRow record timestamp row
        else row := by
  unfold tombstone
  exact paper?_map _ (fun row => by split <;> rfl) arxivId

@[simp] theorem upsertOaiRecordRow_papers (l : LibraryTables) (record : OaiRecord)
    (timestamp : Int) : (l.upsertOaiRecordRow record timestamp).papers = l.papers := by
  unfold upsertOaiRecordRow
  split <;> rfl

@[simp] theorem upsertOaiRecordRow_cacheEntries (l : LibraryTables) (record : OaiRecord)
    (timestamp : Int) :
    (l.upsertOaiRecordRow record timestamp).cacheEntries = l.cacheEntries := by
  unfold upsertOaiRecordRow
  split <;> rfl

@[simp] theorem upsertOaiRecordRow_cacheMatches (l : LibraryTables) (record : OaiRecord)
    (timestamp : Int) :
    (l.upsertOaiRecordRow record timestamp).cacheMatches = l.cacheMatches := by
  unfold upsertOaiRecordRow
  split <;> rfl

/-- The upsert of a record's paper, if the record is live and has one. -/
def upsertRecordPaper (l : LibraryTables) (record : OaiRecord) (timestamp : Int) :
    LibraryTables :=
  match record.paper with
  | some paper =>
      if record.deleted then l
      else (l.upsertPaper (l.oaiPaperForExistingVersionFamily paper) timestamp).2
  | none => l

/-- One round of the loop is the upsert of the paper, the record's own row, and the tombstone. -/
theorem upsertOaiRecord_eq (l : LibraryTables) (record : OaiRecord) (timestamp : Int) :
    l.upsertOaiRecord record timestamp =
      match record.arxivId with
      | some arxivId =>
          if record.deleted && arxivId ≠ "" then
            ((l.upsertRecordPaper record timestamp).upsertOaiRecordRow record timestamp).tombstone
              record arxivId timestamp
          else (l.upsertRecordPaper record timestamp).upsertOaiRecordRow record timestamp
      | none => (l.upsertRecordPaper record timestamp).upsertOaiRecordRow record timestamp := rfl

/-- What the three parts of a round preserve, the round preserves. -/
theorem upsertOaiRecord_induction {P : LibraryTables → Prop} {record : OaiRecord}
    {timestamp : Int} (hpaper : ∀ l paper, P l → P (l.upsertPaper paper timestamp).2)
    (hrow : ∀ l, P l → P (l.upsertOaiRecordRow record timestamp))
    (htombstone : ∀ l arxivId, P l → P (l.tombstone record arxivId timestamp))
    {l : LibraryTables} (hl : P l) : P (l.upsertOaiRecord record timestamp) := by
  have hlive : P (l.upsertRecordPaper record timestamp) := by
    unfold upsertRecordPaper
    split
    · split
      · exact hl
      · exact hpaper _ _ hl
    · exact hl
  rw [upsertOaiRecord_eq]
  split
  · split
    · exact htombstone _ _ (hrow _ hlive)
    · exact hrow _ hlive
  · exact hrow _ hlive

/-- The same for all the records of a page. -/
theorem upsertOaiRecords_induction {P : LibraryTables → Prop} {timestamp : Int}
    (hpaper : ∀ l paper, P l → P (l.upsertPaper paper timestamp).2)
    (hrow : ∀ l record, P l → P (l.upsertOaiRecordRow record timestamp))
    (htombstone : ∀ l record arxivId, P l → P (l.tombstone record arxivId timestamp))
    (records : List OaiRecord) {l : LibraryTables} (hl : P l) :
    P (l.upsertOaiRecords records timestamp).2 := by
  unfold upsertOaiRecords
  dsimp only
  induction records generalizing l with
  | nil => exact hl
  | cons record records ih =>
      exact ih (upsertOaiRecord_induction hpaper (fun l => hrow l record)
        (fun l => htombstone l record) hl)

@[simp] theorem upsertOaiRecords_cacheEntries (l : LibraryTables) (records : List OaiRecord)
    (timestamp : Int) : (l.upsertOaiRecords records timestamp).2.cacheEntries = l.cacheEntries :=
  upsertOaiRecords_induction (P := fun l' => l'.cacheEntries = l.cacheEntries)
    (fun l' paper h => (upsertPaper_cacheEntries l' paper timestamp).trans h)
    (fun l' record h => (upsertOaiRecordRow_cacheEntries l' record timestamp).trans h)
    (fun _ _ _ h => h) records rfl

/-! ## What never happens to a stored paper -/

theorem tombstone_retains (l : LibraryTables) (record : OaiRecord) (arxivId : String)
    (timestamp : Int) : Retains l (l.tombstone record arxivId timestamp) := by
  intro id hsome
  rw [paper?_tombstone, Option.isSome_map]
  exact hsome

theorem upsertOaiRecords_retains (l : LibraryTables) (records : List OaiRecord)
    (timestamp : Int) : Retains l (l.upsertOaiRecords records timestamp).2 :=
  upsertOaiRecords_induction (P := fun l' => Retains l l')
    (fun l' paper h => h.trans (upsertPaper_retains l' paper timestamp))
    (fun l' record h => h.trans (Retains.of_papers (upsertOaiRecordRow_papers l' record timestamp)))
    (fun l' record arxivId h => h.trans (tombstone_retains l' record arxivId timestamp))
    records (Retains.refl l)

theorem markPaperDeleted_retains (l : LibraryTables) (arxivId : String)
    (oaiIdentifier : Option String) (oaiDatestamp : Option Int) (oaiSetSpecs : List String)
    (timestamp : Int) :
    Retains l (l.markPaperDeleted arxivId oaiIdentifier oaiDatestamp oaiSetSpecs timestamp) := by
  intro id hsome
  unfold markPaperDeleted
  rw [paper?_map _ (fun row => by split <;> rfl), Option.isSome_map]
  exact hsome

end LibraryTables
end Huldra
