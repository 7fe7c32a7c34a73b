import Huldra.Library.Composition
import Huldra.Library.Overwrites
import Mathlib.Algebra.Group.Action.Defs

/-!
# Replay — the same OAI records applied a second time

A page is replayed when a harvest resumes or overlaps an earlier one.  What a record does to a
stored row is to overwrite columns of it, and which row it does that to depends on which ids are
stored.  The first pass stores ids that the second one then sees: a replay changes nothing where
the ids of the two passes lead every record to the same rows.
-/

namespace Huldra
namespace Replay

open LibraryTables Overwrites

/-! ## Overwriting the columns of a row -/

/-- The columns of `papers` that a record sets; `arxiv_id` and the two times are not among them. -/
structure PaperEdit where
  body : Option (Option Nat × String × PaperContent) := none
  oaiIdentifier : Option (Option String) := none
  oaiDatestamp : Option (Option Int) := none
  oaiSetSpecs : Option (List String) := none
  deleted : Option Bool := none
  deriving DecidableEq

namespace PaperEdit

/-- First `d`, then `e`. -/
instance : Mul PaperEdit where
  mul e d :=
    { body := e.body.or d.body
      oaiIdentifier := e.oaiIdentifier.or d.oaiIdentifier
      oaiDatestamp := e.oaiDatestamp.or d.oaiDatestamp
      oaiSetSpecs := e.oaiSetSpecs.or d.oaiSetSpecs
      deleted := e.deleted.or d.deleted }

instance : One PaperEdit where
  one := {}

theorem mul_def (e d : PaperEdit) : e * d =
    { body := e.body.or d.body
      oaiIdentifier := e.oaiIdentifier.or d.oaiIdentifier
      oaiDatestamp := e.oaiDatestamp.or d.oaiDatestamp
      oaiSetSpecs := e.oaiSetSpecs.or d.oaiSetSpecs
      deleted := e.deleted.or d.deleted } := rfl

theorem one_def : (1 : PaperEdit) = {} := rfl

instance : Monoid PaperEdit where
  mul_assoc _ _ _ := by simp [mul_def, Option.or_assoc]
  one_mul _ := by simp [mul_def, one_def]
  mul_one _ := by simp [mul_def, one_def]

theorem regular : Regular PaperEdit := by
  have hor : ∀ {β : Type} (e d : Option β), (e.or d).or e = e.or d := by
    intro β e d
    cases e <;> cases d <;> rfl
  intro d e
  simp only [mul_def, hor]

def apply (e : PaperEdit) (row : PaperRow) : PaperRow :=
  { row with
    version := (e.body.getD (row.version, row.canonicalUrl, row.content)).1
    canonicalUrl := (e.body.getD (row.version, row.canonicalUrl, row.content)).2.1
    content := (e.body.getD (row.version, row.canonicalUrl, row.content)).2.2
    oaiIdentifier := e.oaiIdentifier.getD row.oaiIdentifier
    oaiDatestamp := e.oaiDatestamp.getD row.oaiDatestamp
    oaiSetSpecs := e.oaiSetSpecs.getD row.oaiSetSpecs
    deleted := e.deleted.getD row.deleted }

instance : SMul PaperEdit PaperRow where
  smul := apply

theorem smul_def (e : PaperEdit) (row : PaperRow) : e • row = apply e row := rfl

instance : MulAction PaperEdit PaperRow where
  one_smul _ := by simp [smul_def, one_def, apply]
  mul_smul e d row := by
    rcases e with ⟨body, identifier, datestamp, specs, deleted⟩
    simp only [smul_def, mul_def, apply]
    cases body <;> cases identifier <;> cases datestamp <;> cases specs <;> cases deleted <;> rfl

@[simp] theorem smul_arxivId (e : PaperEdit) (row : PaperRow) :
    (e • row).arxivId = row.arxivId := rfl

/-- The update that sets every column to what the row has. -/
def columns (row : PaperRow) : PaperEdit :=
  { body := some (row.version, row.canonicalUrl, row.content)
    oaiIdentifier := some row.oaiIdentifier
    oaiDatestamp := some row.oaiDatestamp
    oaiSetSpecs := some row.oaiSetSpecs
    deleted := some row.deleted }

theorem columns_smul (e : PaperEdit) (row : PaperRow) : columns (e • row) = e * columns row := by
  rcases e with ⟨body, identifier, datestamp, specs, deleted⟩
  simp only [columns, smul_def, apply, mul_def]
  cases body <;> cases identifier <;> cases datestamp <;> cases specs <;> cases deleted <;> rfl

/-- Such an update is read off from any row it was applied to. -/
theorem eq_columns_of_absorbing {e : PaperEdit} (h : Absorbing e) (row : PaperRow) :
    e = columns (e • row) := by
  rw [columns_smul, h]

end PaperEdit

/-! ## What a record does to a stored row -/

/-- The ids among these that the family of `arxivId` has. -/
def familyAmong (ids : List String) (arxivId : String) : List String :=
  ids.filter (inVersionFamily (Keys.arxivIdFamilyBase arxivId))

/-- The row a live record's paper is written to, when these ids are stored. -/
def targetAmong (ids : List String) (arxivId : String) : String :=
  match familyAmong ids arxivId with
  | [] => arxivId
  | first :: rest =>
      if (first :: rest).contains arxivId then arxivId else preferredId first rest

/-- The paper as it is written to the row `id`. -/
def storedAs (paper : ArxivPaper) (id : String) : ArxivPaper :=
  if id = paper.arxivId then paper
  else
    { paper with
      arxivId := id
      canonicalUrl := canonicalUrl id
      version := (Keys.arxivVersion id).or paper.version }

/-- The id a live record stores its paper for. -/
def liveId? (record : OaiRecord) : Option String :=
  if record.deleted then none else record.paper.map (·.arxivId)

/-- The id whose family a deleted record marks. -/
def deletedId? (record : OaiRecord) : Option String :=
  if record.deleted then record.arxivId.filter (· ≠ "") else none

/-- All columns of a live record's paper. -/
def writing (paper : ArxivPaper) : PaperEdit :=
  { body := some (paper.version, paper.canonicalUrl, paper.content)
    oaiIdentifier := some paper.oaiIdentifier
    oaiDatestamp := some paper.oaiDatestamp
    oaiSetSpecs := some paper.oaiSetSpecs
    deleted := some paper.deleted }

/-- The columns a deleted record marks a row with. -/
def marking (record : OaiRecord) : PaperEdit :=
  { oaiIdentifier := some (some record.oaiIdentifier)
    oaiDatestamp := record.datestamp.map some
    oaiSetSpecs := some record.setSpecs
    deleted := some true }

/-- What a record overwrites of the row `id`, when these ids are stored. -/
def editAmong (ids : List String) (record : OaiRecord) (id : String) : PaperEdit :=
  if record.deleted then
    if (deletedId? record).any fun deletedId => (familyAmong ids deletedId).contains id then
      marking record
    else 1
  else match record.paper with
    | some paper => if targetAmong ids paper.arxivId = id then writing (storedAs paper id) else 1
    | none => 1

/-- The ids stored after a record. -/
def idsAfter (ids : List String) (record : OaiRecord) : List String :=
  match liveId? record with
  | some arxivId =>
      if targetAmong ids arxivId ∈ ids then ids else ids ++ [targetAmong ids arxivId]
  | none => ids

/-- The ids of the stored rows. -/
abbrev storedIds (l : LibraryTables) : List String :=
  l.papers.map (·.arxivId)

theorem paperArxivIdsInVersionFamily_eq (l : LibraryTables) (arxivId : String) :
    l.paperArxivIdsInVersionFamily arxivId = familyAmong (storedIds l) arxivId := by
  simp only [paperArxivIdsInVersionFamily, familyAmong, List.filter_filter]
  refine List.filter_congr fun id _ => ?_
  simp [inVersionFamily, Bool.and_comm]

theorem oaiPaperForExistingVersionFamily_eq (l : LibraryTables) (paper : ArxivPaper) :
    l.oaiPaperForExistingVersionFamily paper =
      storedAs paper (targetAmong (storedIds l) paper.arxivId) := by
  unfold oaiPaperForExistingVersionFamily targetAmong
  rw [paperArxivIdsInVersionFamily_eq]
  cases hfamily : familyAmong (storedIds l) paper.arxivId with
  | nil => simp [storedAs]
  | cons first rest =>
      dsimp only
      split
      case isTrue => simp [storedAs]
      case isFalse hnot =>
        have hne : preferredId first rest ≠ paper.arxivId := by
          intro heq
          exact hnot (by simpa [heq] using preferredId_mem first rest)
        simp [storedAs, hne]

@[simp] theorem storedAs_arxivId (paper : ArxivPaper) (id : String) :
    (storedAs paper id).arxivId = id := by
  unfold storedAs
  split <;> simp_all

@[simp] theorem storedAs_oaiIdentifier (paper : ArxivPaper) (id : String) :
    (storedAs paper id).oaiIdentifier = paper.oaiIdentifier := by
  unfold storedAs
  split <;> rfl

/-! ## One record -/

/-- A live record carries a paper with an OAI identifier. -/
def FromOai (record : OaiRecord) : Prop :=
  ∀ paper ∈ record.paper, record.deleted = false → paper.oaiIdentifier.isSome

/-- The row a record creates. -/
def created (ids : List String) (record : OaiRecord) (timestamp : Int) : List PaperRow :=
  match record.paper with
  | some paper =>
      if record.deleted || ids.contains (targetAmong ids paper.arxivId) then []
      else
        [{ storedAs paper (targetAmong ids paper.arxivId) with
          firstSeenAt := timestamp
          lastSeenAt := 0 }]
  | none => []

@[simp] theorem unseen_arxivId (row : PaperRow) : (unseen row).arxivId = row.arxivId := rfl

theorem storedIds_eq_unseen (l : LibraryTables) :
    storedIds l = (l.papers.map unseen).map (·.arxivId) := by
  simp [Function.comp_def]

theorem unseen_merge {paper : ArxivPaper} (hoai : paper.oaiIdentifier.isSome) {row : PaperRow}
    (hid : row.arxivId = paper.arxivId) (timestamp : Int) :
    unseen (mergePaperRow row paper timestamp) = writing paper • unseen row := by
  rcases row with ⟨⟨id, version, url, content, identifier, datestamp, specs, deleted⟩, first, last⟩
  simp only at hid
  simp [unseen, mergePaperRow, writing, PaperEdit.smul_def, PaperEdit.apply, hoai, hid]

theorem unseen_tombstonedRow (record : OaiRecord) (timestamp : Int) (row : PaperRow) :
    unseen (tombstonedRow record timestamp row) = marking record • unseen row := by
  simp only [unseen, tombstonedRow, marking, PaperEdit.smul_def, PaperEdit.apply]
  cases record.datestamp <;> rfl

theorem upsertPaper_rows (l : LibraryTables) {paper : ArxivPaper}
    (hoai : paper.oaiIdentifier.isSome) (timestamp : Int) :
    (l.upsertPaper paper timestamp).2.papers.map unseen =
      ((l.papers.map unseen).map fun row =>
        if paper.arxivId = row.arxivId then writing paper • row else row) ++
      if paper.arxivId ∈ storedIds l then []
      else [{ paper with firstSeenAt := timestamp, lastSeenAt := 0 }] := by
  have hself : l.legacyPaperForExistingOaiBaseRow paper = paper := by
    simp [legacyPaperForExistingOaiBaseRow, hoai]
  unfold upsertPaper
  rw [hself]
  dsimp only
  cases hrow : l.paper? paper.arxivId with
  | some old =>
      have hmem : paper.arxivId ∈ storedIds l := isSome_paper?_iff.1 (by simp [hrow])
      simp only [hmem, if_true, List.append_nil, List.map_map]
      refine List.map_congr_left fun row _ => ?_
      by_cases hid : row.arxivId = paper.arxivId
      · simpa [hid] using unseen_merge hoai hid timestamp
      · have hne : ¬ paper.arxivId = row.arxivId := fun h => hid h.symm
        simp [hid, hne]
  | none =>
      have hmem : paper.arxivId ∉ storedIds l := by
        intro h
        simpa [hrow] using isSome_paper?_iff.2 h
      have hne : ∀ row ∈ l.papers, ¬ paper.arxivId = row.arxivId := by
        intro row hrow heq
        exact hmem (List.mem_map.2 ⟨row, hrow, heq.symm⟩)
      simp only [hmem, if_false, List.map_append, List.map_cons, List.map_nil, List.map_map]
      refine congrArg₂ (· ++ ·) (List.map_congr_left fun row hrow => ?_) rfl
      simp [hne row hrow]

/-- A deleted record rewrites the stored rows of its family. -/
theorem papers_upsert_deleted (l : LibraryTables) {record : OaiRecord}
    (hdeleted : record.deleted = true) (timestamp : Int) :
    (l.upsertOaiRecord record timestamp).papers = l.papers.map fun row =>
      if (deletedId? record).any fun deletedId =>
          (familyAmong (storedIds l) deletedId).contains row.arxivId then
        tombstonedRow record timestamp row
      else row := by
  have hlive : l.upsertRecordPaper record timestamp = l := by
    unfold upsertRecordPaper
    split <;> simp [hdeleted]
  rw [upsertOaiRecord_eq, hlive]
  cases hid : record.arxivId with
  | none => simp [deletedId?, hdeleted, hid]
  | some deletedId =>
      by_cases hblank : deletedId = ""
      · simp [deletedId?, hdeleted, hid, hblank]
      · have hsome : deletedId? record = some deletedId := by
          simp [deletedId?, hdeleted, hid, hblank]
        simp only [hdeleted, hsome, hblank, Bool.true_and, ne_eq, not_false_eq_true, decide_true,
          if_true, Option.any_some]
        simp only [tombstone, paperArxivIdsInVersionFamily_eq, storedIds, upsertOaiRecordRow_papers]
        rfl

/-- Any other record stores its paper, if it has one. -/
theorem papers_upsert_live (l : LibraryTables) {record : OaiRecord}
    (hdeleted : record.deleted = false) (timestamp : Int) :
    (l.upsertOaiRecord record timestamp).papers =
      match record.paper with
      | some paper =>
          (l.upsertPaper (storedAs paper (targetAmong (storedIds l) paper.arxivId))
            timestamp).2.papers
      | none => l.papers := by
  have hlive : (l.upsertRecordPaper record timestamp).papers =
      match record.paper with
      | some paper =>
          (l.upsertPaper (storedAs paper (targetAmong (storedIds l) paper.arxivId))
            timestamp).2.papers
      | none => l.papers := by
    unfold upsertRecordPaper
    cases record.paper with
    | none => rfl
    | some paper => simp [hdeleted, oaiPaperForExistingVersionFamily_eq]
  rw [upsertOaiRecord_eq, ← hlive]
  cases record.arxivId with
  | none => simp
  | some arxivId => simp [hdeleted]

/-- A round rewrites every stored row by its edit, and may create one row. -/
theorem upsertOaiRecord_rows (l : LibraryTables) {record : OaiRecord} (hoai : FromOai record)
    (timestamp : Int) :
    (l.upsertOaiRecord record timestamp).papers.map unseen =
      ((l.papers.map unseen).map fun row => editAmong (storedIds l) record row.arxivId • row) ++
        created (storedIds l) record timestamp := by
  cases hdeleted : record.deleted with
  | true =>
      have hcreated : created (storedIds l) record timestamp = [] := by
        unfold created
        split <;> simp [hdeleted]
      rw [papers_upsert_deleted l hdeleted, hcreated, List.append_nil, List.map_map, List.map_map]
      refine List.map_congr_left fun row _ => ?_
      simp only [Function.comp_apply, editAmong, hdeleted, if_true]
      by_cases hmarked : ((deletedId? record).any fun deletedId =>
          (familyAmong (storedIds l) deletedId).contains row.arxivId) = true
      · rw [if_pos hmarked, unseen_tombstonedRow]
        exact congrArg (· • unseen row) (if_pos hmarked).symm
      · rw [if_neg hmarked]
        exact ((congrArg (· • unseen row) (if_neg hmarked)).trans (one_smul _ _)).symm
  | false =>
      rw [papers_upsert_live l hdeleted]
      unfold created editAmong
      cases hpaper : record.paper with
      | none => simp [hdeleted]
      | some paper =>
          have hsome : (storedAs paper (targetAmong (storedIds l)
              paper.arxivId)).oaiIdentifier.isSome := by
            simpa using hoai paper hpaper hdeleted
          simp only [hdeleted]
          refine (upsertPaper_rows l hsome timestamp).trans ?_
          simp only [storedAs_arxivId]
          refine congrArg₂ (· ++ ·) (List.map_congr_left fun row _ => ?_) ?_
          · by_cases h : targetAmong (storedIds l) paper.arxivId = row.arxivId <;> simp [h]
          · simp

theorem storedIds_upsertOaiRecord (l : LibraryTables) {record : OaiRecord} (hoai : FromOai record)
    (timestamp : Int) :
    storedIds (l.upsertOaiRecord record timestamp) = idsAfter (storedIds l) record := by
  rw [storedIds_eq_unseen, upsertOaiRecord_rows l hoai timestamp]
  unfold idsAfter liveId? created
  cases record.paper with
  | none => simp [Function.comp_def]
  | some paper =>
      by_cases hdeleted : record.deleted = true
      · simp [hdeleted, Function.comp_def]
      · by_cases hmem : targetAmong (storedIds l) paper.arxivId ∈ storedIds l
        · simp [hdeleted, hmem, Function.comp_def]
        · simp [hdeleted, hmem, Function.comp_def]

/-! ## The ids that are stored -/

theorem mem_familyAmong {ids : List String} {arxivId id : String} :
    id ∈ familyAmong ids arxivId ↔
      id ∈ ids ∧ inVersionFamily (Keys.arxivIdFamilyBase arxivId) id = true := by
  simp [familyAmong]

theorem targetAmong_of_mem {ids : List String} {arxivId : String}
    (h : arxivId ∈ familyAmong ids arxivId) : targetAmong ids arxivId = arxivId := by
  unfold targetAmong
  cases hfamily : familyAmong ids arxivId with
  | nil => rfl
  | cons first rest =>
      rw [hfamily] at h
      simp only [List.contains_iff_mem.2 h, if_true]

/-- A paper goes to a stored row of its family, or to its own id when the family has none. -/
theorem targetAmong_cases (ids : List String) (arxivId : String) :
    targetAmong ids arxivId ∈ familyAmong ids arxivId ∨
      familyAmong ids arxivId = [] ∧ targetAmong ids arxivId = arxivId := by
  unfold targetAmong
  cases familyAmong ids arxivId with
  | nil => exact .inr ⟨rfl, rfl⟩
  | cons first rest =>
      refine .inl ?_
      dsimp only
      split
      case isTrue h => exact List.contains_iff_mem.1 h
      case isFalse => exact preferredId_mem first rest

theorem prefix_idsAfter (ids : List String) (record : OaiRecord) : ids <+: idsAfter ids record := by
  unfold idsAfter
  split
  · split
    · exact List.prefix_rfl
    · exact List.prefix_append _ _
  · exact List.prefix_rfl

/-- The ids stored after a pass. -/
def idsAfterAll (ids : List String) (records : List OaiRecord) : List String :=
  records.foldl idsAfter ids

theorem idsAfterAll_cons (ids : List String) (record : OaiRecord) (records : List OaiRecord) :
    idsAfterAll ids (record :: records) = idsAfterAll (idsAfter ids record) records := rfl

theorem prefix_idsAfterAll (ids : List String) (records : List OaiRecord) :
    ids <+: idsAfterAll ids records := by
  induction records generalizing ids with
  | nil => exact List.prefix_rfl
  | cons record records ih => exact (prefix_idsAfter ids record).trans (ih _)

theorem mem_idsAfter {ids : List String} {record : OaiRecord} {id : String}
    (h : id ∈ idsAfter ids record) :
    id ∈ ids ∨ ∃ arxivId, liveId? record = some arxivId ∧ targetAmong ids arxivId = id := by
  unfold idsAfter at h
  split at h
  case h_1 arxivId hlive =>
    split at h
    · exact .inl h
    · rcases List.mem_append.1 h with hold | hnew
      · exact .inl hold
      · exact .inr ⟨arxivId, hlive, (List.mem_singleton.1 hnew).symm⟩
  case h_2 => exact .inl h

theorem targetAmong_mem_idsAfter (ids : List String) {record : OaiRecord} {arxivId : String}
    (hlive : liveId? record = some arxivId) : targetAmong ids arxivId ∈ idsAfter ids record := by
  unfold idsAfter
  rw [hlive]
  dsimp only
  split
  case isTrue h => exact h
  case isFalse => simp

theorem familyAmong_eq_nil_of_subset {ids ids' : List String} (h : ids ⊆ ids') {arxivId : String}
    (hnil : familyAmong ids' arxivId = []) : familyAmong ids arxivId = [] := by
  rw [List.eq_nil_iff_forall_not_mem] at hnil ⊢
  intro id hid
  exact hnil id (mem_familyAmong.2 ⟨h (mem_familyAmong.1 hid).1, (mem_familyAmong.1 hid).2⟩)

/-- The ids that some records add are ids of live ones among them, and nothing of their families was
stored before. -/
theorem ids_added (records : List OaiRecord) (ids : List String) :
    ∃ more, idsAfterAll ids records = ids ++ more ∧
      ∀ id ∈ more, ∃ record ∈ records, liveId? record = some id ∧ familyAmong ids id = [] := by
  induction records generalizing ids with
  | nil => exact ⟨[], by simp [idsAfterAll]⟩
  | cons record records ih =>
      rcases ih (idsAfter ids record) with ⟨more, hmore, hlater⟩
      have htail : ∀ id ∈ more, ∃ later ∈ record :: records, liveId? later = some id ∧
          familyAmong ids id = [] := by
        intro id hid
        rcases hlater id hid with ⟨later, hmem, hlive, hnil⟩
        exact ⟨later, List.mem_cons_of_mem _ hmem, hlive,
          familyAmong_eq_nil_of_subset (prefix_idsAfter ids record).subset hnil⟩
      have hhead : idsAfter ids record = ids ∨ ∃ id, idsAfter ids record = ids ++ [id] ∧
          liveId? record = some id ∧ familyAmong ids id = [] := by
        unfold idsAfter
        split
        case h_1 arxivId hlive =>
          split
          case isTrue => exact .inl rfl
          case isFalse hnew =>
            rcases targetAmong_cases ids arxivId with hmem | ⟨hnil, htarget⟩
            · exact absurd (mem_familyAmong.1 hmem).1 hnew
            · exact .inr ⟨arxivId, by rw [htarget], hlive, hnil⟩
        case h_2 => exact .inl rfl
      rw [idsAfterAll_cons, hmore]
      rcases hhead with hsame | ⟨id, hid, hlive, hnil⟩
      · exact ⟨more, by rw [hsame], htail⟩
      · refine ⟨id :: more, by simp [hid], fun id' hid' => ?_⟩
        rcases List.mem_cons.1 hid' with rfl | hid'
        · exact ⟨record, List.mem_cons_self, hlive, hnil⟩
        · exact htail id' hid'

theorem deletedId?_eq_none {record : OaiRecord} {arxivId : String}
    (hlive : liveId? record = some arxivId) : deletedId? record = none := by
  unfold liveId? at hlive
  unfold deletedId?
  split at hlive
  · cases hlive
  · rename_i h
    simp [h]

/-- An edit is decided by the row a live record goes to and by the family a deleted one marks. -/
theorem editAmong_congr {ids ids' : List String} {record : OaiRecord} {id : String}
    (hlive : ∀ arxivId, liveId? record = some arxivId →
      (targetAmong ids arxivId = id ↔ targetAmong ids' arxivId = id))
    (hdeleted : ∀ deletedId, deletedId? record = some deletedId →
      (id ∈ familyAmong ids deletedId ↔ id ∈ familyAmong ids' deletedId)) :
    editAmong ids record id = editAmong ids' record id := by
  unfold editAmong
  cases hdel : record.deleted with
  | true =>
      cases hid : deletedId? record with
      | none => rfl
      | some deletedId => simp [hdeleted deletedId hid]
  | false =>
      cases hpaper : record.paper with
      | none => rfl
      | some paper => simp [hlive paper.arxivId (by simp [liveId?, hdel, hpaper])]

theorem editAmong_eq_one {ids : List String} {record : OaiRecord} {id : String}
    (hlive : ∀ arxivId, liveId? record = some arxivId → targetAmong ids arxivId ≠ id)
    (hdeleted : ∀ deletedId, deletedId? record = some deletedId →
      id ∉ familyAmong ids deletedId) : editAmong ids record id = 1 := by
  unfold editAmong
  cases hdel : record.deleted with
  | true =>
      cases hid : deletedId? record with
      | none => rfl
      | some deletedId => simp [hdeleted deletedId hid]
  | false =>
      cases hpaper : record.paper with
      | none => rfl
      | some paper => simp [hlive paper.arxivId (by simp [liveId?, hdel, hpaper])]

/-- A record does nothing to a row that is not stored after it. -/
theorem editAmong_unstored {ids : List String} {record : OaiRecord} {id : String}
    (h : id ∉ idsAfter ids record) : editAmong ids record id = 1 := by
  refine editAmong_eq_one (fun arxivId hlive heq => ?_) fun deletedId _ hfamily => ?_
  · exact h (heq ▸ targetAmong_mem_idsAfter ids hlive)
  · exact h ((prefix_idsAfter ids record).subset (mem_familyAmong.1 hfamily).1)

/-! ## A pass -/

/-- What each record overwrites of the row `id` in its turn. -/
def editsInTurn : List String → List OaiRecord → String → List PaperEdit
  | _, [], _ => []
  | ids, record :: records, id =>
      editAmong ids record id :: editsInTurn (idsAfter ids record) records id

/-- What a pass sets in the row `id`. -/
def passEdit (ids : List String) (records : List OaiRecord) (id : String) : PaperEdit :=
  total (editsInTurn ids records id)

section
variable {ids all : List String} {records : List OaiRecord} {record : OaiRecord} {id : String}

theorem passEdit_cons : passEdit ids (record :: records) id =
    passEdit (idsAfter ids record) records id * editAmong ids record id := by
  rw [passEdit, editsInTurn, total_cons]
  rfl

theorem storedIds_upsertOaiRecords {records : List OaiRecord}
    (hoai : ∀ record ∈ records, FromOai record) (timestamp : Int) (l : LibraryTables) :
    storedIds (l.upsertOaiRecords records timestamp).2 = idsAfterAll (storedIds l) records := by
  induction records generalizing l with
  | nil => rfl
  | cons record records ih =>
      rw [idsAfterAll_cons, ← storedIds_upsertOaiRecord l (hoai record List.mem_cons_self)
        timestamp]
      exact ih (fun e he => hoai e (List.mem_cons_of_mem record he)) _

/-- The row a record creates is not stored yet, and has the columns the record writes. -/
theorem created_row {timestamp : Int} {row : PaperRow} (h : row ∈ created ids record timestamp) :
    row.arxivId ∉ ids ∧ ∀ e : PaperEdit, editAmong ids record row.arxivId • e • row = row := by
  unfold created at h
  split at h
  case h_1 paper hpaper =>
    split at h
    · cases h
    case isFalse hcond =>
      rw [List.mem_singleton] at h
      subst h
      simp only [Bool.or_eq_true, not_or, Bool.not_eq_true, List.contains_iff_mem] at hcond
      refine ⟨by simpa using hcond.2, fun e => ?_⟩
      simp only [storedAs_arxivId, editAmong, hcond.1, hpaper]
      rfl
  case h_2 => cases h

/-- The run lemma: a pass sets in every stored row what its records set there in their turns, and
has set as much in the rows it creates. -/
theorem upsertOaiRecords_rows {records : List OaiRecord}
    (hoai : ∀ record ∈ records, FromOai record) (timestamp : Int) (l : LibraryTables) :
    ∃ more : List PaperRow, (l.upsertOaiRecords records timestamp).2.papers.map unseen =
        (l.papers.map unseen).map (fun row => passEdit (storedIds l) records row.arxivId • row) ++
          more ∧
      ∀ row ∈ more, row.arxivId ∉ storedIds l ∧
        passEdit (storedIds l) records row.arxivId • row = row := by
  induction records generalizing l with
  | nil =>
      refine ⟨[], ?_, by simp⟩
      simp [upsertOaiRecords, passEdit, editsInTurn]
  | cons record records ih =>
      have hrecord : FromOai record := hoai record List.mem_cons_self
      have hids := storedIds_upsertOaiRecord l hrecord timestamp
      rcases ih (fun e he => hoai e (List.mem_cons_of_mem record he))
        (l.upsertOaiRecord record timestamp) with ⟨more, hrows, hmore⟩
      rw [hids] at hrows hmore
      rw [upsertOaiRecord_rows l hrecord] at hrows
      refine ⟨(created (storedIds l) record timestamp).map (fun row =>
        passEdit (idsAfter (storedIds l) record) records row.arxivId • row) ++ more, ?_, ?_⟩
      · refine hrows.trans ?_
        simp only [List.map_append, List.map_map, List.append_assoc]
        refine congrArg (· ++ _) (List.map_congr_left fun row _ => ?_)
        simp [passEdit_cons, mul_smul]
      · intro row hrow
        simp only [passEdit_cons, mul_smul]
        rcases List.mem_append.1 hrow with hnew | hlater
        · rcases List.mem_map.1 hnew with ⟨old, hold, rfl⟩
          rcases created_row hold with ⟨hunstored, hwritten⟩
          rw [PaperEdit.smul_arxivId, hwritten]
          exact ⟨hunstored, rfl⟩
        · rcases hmore row hlater with ⟨hunstored, hset⟩
          refine ⟨fun h => hunstored ((prefix_idsAfter _ record).subset h), ?_⟩
          rw [editAmong_unstored hunstored, one_smul, hset]

/-- What a pass sets in its rows is set. -/
theorem passEdit_smul_row {l : LibraryTables} (hoai : ∀ record ∈ records, FromOai record)
    {timestamp : Int} {row : PaperRow}
    (hrow : row ∈ (l.upsertOaiRecords records timestamp).2.papers.map unseen) :
    passEdit (storedIds l) records row.arxivId • row = row := by
  rcases upsertOaiRecords_rows hoai timestamp l with ⟨more, hrows, hmore⟩
  rw [hrows] at hrow
  rcases List.mem_append.1 hrow with hold | hnew
  · rcases List.mem_map.1 hold with ⟨old, -, rfl⟩
    rw [PaperEdit.smul_arxivId, ← mul_smul, PaperEdit.regular.mul_self]
  · exact (hmore row hnew).2

/-! ## The pass that follows -/

/-- After a pass every live record has a stored row to go to. -/
theorem targetAmong_idsAfterAll (hrecord : record ∈ records) {arxivId : String}
    (hlive : liveId? record = some arxivId) :
    targetAmong (idsAfterAll ids records) arxivId ∈ idsAfterAll ids records := by
  induction records generalizing ids with
  | nil => cases hrecord
  | cons first records ih =>
      rcases List.mem_cons.1 hrecord with rfl | hrecord
      case inr => exact ih hrecord
      rcases targetAmong_cases (idsAfterAll ids (record :: records)) arxivId with hmem | ⟨hnil, hto⟩
      · exact (mem_familyAmong.1 hmem).1
      · -- Then it went to the row of its own id in its turn, too.
        have hthen : targetAmong ids arxivId = arxivId := by
          have hnone := familyAmong_eq_nil_of_subset (prefix_idsAfterAll ids _).subset hnil
          simp [targetAmong, hnone]
        have hmem := targetAmong_mem_idsAfter ids hlive
        rw [hthen] at hmem
        rw [hto, idsAfterAll_cons]
        exact (prefix_idsAfterAll _ records).subset hmem

theorem idsAfter_of_goes
    (h : ∀ arxivId, liveId? record = some arxivId → targetAmong ids arxivId ∈ ids) :
    idsAfter ids record = ids := by
  unfold idsAfter
  split
  case h_1 arxivId hlive => exact if_pos (h arxivId hlive)
  case h_2 => rfl

/-- Where every live record has a stored row to go to, the turns make no difference. -/
theorem idsAfterAll_of_goes
    (h : ∀ record ∈ records, ∀ arxivId, liveId? record = some arxivId →
      targetAmong all arxivId ∈ all) : idsAfterAll all records = all := by
  induction records with
  | nil => rfl
  | cons record records ih =>
      rw [idsAfterAll_cons, idsAfter_of_goes (h record List.mem_cons_self)]
      exact ih fun e he => h e (List.mem_cons_of_mem record he)

theorem editsInTurn_of_goes
    (h : ∀ record ∈ records, ∀ arxivId, liveId? record = some arxivId →
      targetAmong all arxivId ∈ all) :
    editsInTurn all records id = records.map fun record => editAmong all record id := by
  induction records with
  | nil => rfl
  | cons record records ih =>
      have hrest := ih fun e he => h e (List.mem_cons_of_mem record he)
      rw [editsInTurn, idsAfter_of_goes (h record List.mem_cons_self), hrest, List.map_cons]

/-- What the next pass sets in the row `id`. -/
theorem passEdit_again (ids : List String) (records : List OaiRecord) (id : String) :
    passEdit (idsAfterAll ids records) records id =
      total (records.map fun record => editAmong (idsAfterAll ids records) record id) := by
  rw [passEdit, editsInTurn_of_goes fun record hrecord arxivId hlive =>
    targetAmong_idsAfterAll hrecord hlive]

/-- The next pass creates no row. -/
theorem papers_again {l : LibraryTables} (hoai : ∀ record ∈ records, FromOai record)
    (timestamp timestamp' : Int) :
    ((l.upsertOaiRecords records timestamp).2.upsertOaiRecords records timestamp').2.papers.map
        unseen =
      ((l.upsertOaiRecords records timestamp).2.papers.map unseen).map fun row =>
        passEdit (idsAfterAll (storedIds l) records) records row.arxivId • row := by
  have hids := storedIds_upsertOaiRecords hoai timestamp l
  rcases upsertOaiRecords_rows hoai timestamp' (l.upsertOaiRecords records timestamp).2 with
    ⟨more, hrows, -⟩
  have hagain := storedIds_upsertOaiRecords hoai timestamp' (l.upsertOaiRecords records timestamp).2
  rw [hids] at hrows hagain
  rw [idsAfterAll_of_goes fun record hrecord arxivId hlive =>
    targetAmong_idsAfterAll hrecord hlive] at hagain
  have hlength := congrArg List.length (hagain.trans hids.symm)
  have hcount := congrArg List.length hrows
  simp only [List.length_map, List.length_append] at hlength hcount
  have hnone : more = [] := List.eq_nil_of_length_eq_zero (by omega)
  rw [hrows, hnone, List.append_nil]

/-! ## Records that the next pass sends elsewhere -/

/-- The rows that live records are sent to in their turns, and not when all these ids are stored. -/
def abandoned (all : List String) : List String → List OaiRecord → List String
  | _, [] => []
  | ids, record :: records =>
      ((liveId? record).filter fun arxivId =>
        targetAmong all arxivId ≠ targetAmong ids arxivId).elim
          [] (fun arxivId => [targetAmong ids arxivId]) ++
        abandoned all (idsAfter ids record) records

theorem mem_abandoned_cons : id ∈ abandoned all ids (record :: records) ↔
    (∃ arxivId, liveId? record = some arxivId ∧ targetAmong ids arxivId = id ∧
      targetAmong all arxivId ≠ id) ∨ id ∈ abandoned all (idsAfter ids record) records := by
  rw [abandoned, List.mem_append]
  refine or_congr_left ?_
  cases liveId? record with
  | none => simp
  | some arxivId =>
      by_cases hsame : targetAmong all arxivId = targetAmong ids arxivId
      · simp [Option.filter, hsame]
      · simp only [Option.filter, hsame, ne_eq, not_false_eq_true, decide_true, if_true,
          Option.elim_some, List.mem_singleton, Option.some.injEq, exists_eq_left']
        constructor
        · rintro rfl
          exact ⟨rfl, hsame⟩
        · rintro ⟨rfl, -⟩
          rfl

theorem writing_absorbing (paper : ArxivPaper) : Absorbing (writing paper) := fun _ => rfl

/-- A live record sets every column of the row it goes to. -/
theorem editAmong_target {arxivId : String} (hlive : liveId? record = some arxivId) :
    Absorbing (editAmong ids record (targetAmong ids arxivId)) := by
  unfold liveId? at hlive
  split at hlive
  · cases hlive
  · rename_i hdeleted
    rcases Option.map_eq_some_iff.1 hlive with ⟨paper, hpaper, rfl⟩
    simp only [editAmong, hdeleted, hpaper]
    exact writing_absorbing _

/-- An abandoned row is stored, and the pass sets all its columns. -/
theorem abandoned_set (h : id ∈ abandoned all ids records) :
    id ∈ idsAfterAll ids records ∧ Absorbing (passEdit ids records id) := by
  induction records generalizing ids with
  | nil => cases h
  | cons record records ih =>
      rw [idsAfterAll_cons, passEdit_cons]
      rcases mem_abandoned_cons.1 h with ⟨arxivId, hlive, rfl, -⟩ | hlater
      · exact ⟨(prefix_idsAfterAll _ records).subset (targetAmong_mem_idsAfter ids hlive),
          (editAmong_target hlive).mul_left _⟩
      · exact ⟨(ih hlater).1, (ih hlater).2.mul_right _⟩

/-- A record that goes to a stored row among more ids goes there already. -/
theorem targetAmong_stays (hids : ids <+: all) (hid : id ∈ ids) {arxivId : String}
    (h : targetAmong all arxivId = id) : targetAmong ids arxivId = id := by
  rcases hids with ⟨more, rfl⟩
  rcases targetAmong_cases (ids ++ more) arxivId with hmem | ⟨hnil, hto⟩
  · have hfamily : id ∈ familyAmong ids arxivId :=
      mem_familyAmong.2 ⟨hid, (mem_familyAmong.1 (h ▸ hmem)).2⟩
    unfold targetAmong at h ⊢
    have happend : familyAmong (ids ++ more) arxivId =
        familyAmong ids arxivId ++ familyAmong more arxivId := List.filter_append ..
    rw [happend] at h
    cases hown : familyAmong ids arxivId with
    | nil => simp [hown] at hfamily
    | cons first rest =>
        rw [hown] at h hfamily
        simp only [List.cons_append] at h ⊢
        split at h
        case isTrue hall =>
          subst h
          exact if_pos (List.contains_iff_mem.2 hfamily)
        case isFalse hall =>
          have hnone : ¬ (first :: rest).contains arxivId = true := by
            simp only [List.contains_iff_mem] at hall ⊢
            exact fun hmem => hall (List.mem_append_left _ hmem)
          rw [if_neg hnone, preferredId_of_append (by rw [h]; exact hfamily), h]
  · have hnone := familyAmong_eq_nil_of_subset (List.prefix_append ids more).subset hnil
    rw [← h, hto]
    simp [targetAmong, hnone]

/-- What a record does to a stored row that it does not abandon is done by the replay, too. -/
theorem editAmong_kept (hids : ids <+: all) (hid : id ∈ ids)
    (hkept : ∀ arxivId, liveId? record = some arxivId → targetAmong ids arxivId = id →
      targetAmong all arxivId = id) :
    editAmong all record id = editAmong ids record id := by
  refine editAmong_congr (fun arxivId hlive => ?_) fun deletedId _ => ?_
  · exact ⟨targetAmong_stays hids hid, hkept arxivId hlive⟩
  · simp only [mem_familyAmong, hid, hids.subset hid]

theorem editsInTurn_kept (hall : idsAfterAll ids records <+: all) (hid : id ∈ ids)
    (hkept : id ∉ abandoned all ids records) :
    records.map (fun record => editAmong all record id) = editsInTurn ids records id := by
  induction records generalizing ids with
  | nil => rfl
  | cons record records ih =>
      rw [mem_abandoned_cons, not_or] at hkept
      have hids := prefix_idsAfter ids record
      rw [List.map_cons, editsInTurn, ih hall (hids.subset hid) hkept.2]
      refine congrArg (· :: _) (editAmong_kept ?_ hid fun arxivId hlive hto => ?_)
      · exact (hids.trans (prefix_idsAfterAll _ records)).trans hall
      · by_contra hne
        exact hkept.1 ⟨arxivId, hlive, hto, hne⟩

/-- In a row that the pass creates and no record abandons, the replay sets the same columns. -/
theorem total_created (hall : idsAfterAll ids records <+: all) (hnew : id ∉ ids)
    (hid : id ∈ idsAfterAll ids records) (hkept : id ∉ abandoned all ids records) (d : PaperEdit) :
    total (records.map fun record => editAmong all record id) * d = passEdit ids records id := by
  induction records generalizing ids d with
  | nil => exact absurd hid hnew
  | cons record records ih =>
      rw [idsAfterAll_cons] at hall hid
      have hlater := hkept
      rw [mem_abandoned_cons, not_or] at hlater
      rw [List.map_cons, total_cons, passEdit_cons, mul_assoc]
      by_cases hcreated : id ∈ idsAfter ids record
      · -- The record creates the row, and goes there in the replay.
        rcases mem_idsAfter hcreated with hold | ⟨arxivId, hlive, rfl⟩
        · exact absurd hold hnew
        have hsame : targetAmong all arxivId = targetAmong ids arxivId := by
          by_contra hne
          exact hlater.1 ⟨arxivId, hlive, rfl, hne⟩
        have habsorbing : Absorbing (editAmong all record (targetAmong all arxivId)) :=
          editAmong_target hlive
        rw [hsame] at habsorbing
        have hedit : editAmong all record (targetAmong ids arxivId) =
            editAmong ids record (targetAmong ids arxivId) := by
          refine editAmong_congr (fun id hid => ?_) fun deletedId hdel => ?_
          · rw [hlive, Option.some.injEq] at hid
            rw [← hid, hsame]
          · rw [deletedId?_eq_none hlive] at hdel
            cases hdel
        rw [habsorbing, hedit, editsInTurn_kept hall hcreated hlater.2]
        rfl
      · rw [ih hall hcreated hid hlater.2, editAmong_unstored hcreated, mul_one]

/-- Where no record abandons a row, the replay sets in it what the first pass has set. -/
theorem passEdit_kept (hid : id ∈ idsAfterAll ids records)
    (hkept : id ∉ abandoned (idsAfterAll ids records) ids records) :
    passEdit (idsAfterAll ids records) records id * passEdit ids records id =
      passEdit ids records id := by
  rw [passEdit_again]
  by_cases hold : id ∈ ids
  · rw [editsInTurn_kept List.prefix_rfl hold hkept]
    exact PaperEdit.regular.mul_self _
  · exact total_created List.prefix_rfl hold hid hkept _

/-- Wherever the replay leaves a row for another one, it sets in that row what the first pass has
set there last. -/
def Repeatable (l : LibraryTables) (records : List OaiRecord) : Prop :=
  ∀ id ∈ abandoned (idsAfterAll (storedIds l) records) (storedIds l) records,
    passEdit (idsAfterAll (storedIds l) records) records id * passEdit (storedIds l) records id =
      passEdit (storedIds l) records id

instance (l : LibraryTables) (records : List OaiRecord) : Decidable (Repeatable l records) :=
  inferInstanceAs (Decidable (∀ id ∈
    abandoned (idsAfterAll (storedIds l) records) (storedIds l) records, _))

/-- The ids of the live records are of one family each: of their own base, and a base among them is
its own base.  Ids of one version suffix at most are of this kind. -/
structure Plain (records : List OaiRecord) : Prop where
  own : ∀ record ∈ records, ∀ arxivId, liveId? record = some arxivId →
    inVersionFamily (Keys.arxivIdFamilyBase arxivId) arxivId = true
  base : ∀ record ∈ records, ∀ other ∈ records, ∀ arxivId otherId,
    liveId? record = some arxivId → liveId? other = some otherId →
      Keys.arxivIdFamilyBase arxivId = otherId → Keys.arxivIdFamilyBase otherId = otherId

theorem Plain.tail (h : Plain (record :: records)) : Plain records :=
  ⟨fun e he => h.own e (List.mem_cons_of_mem record he), fun e he other hother =>
    h.base e (List.mem_cons_of_mem record he) other (List.mem_cons_of_mem record hother)⟩

/-- The first record of a plain list keeps its row. -/
theorem Plain.target_kept (h : Plain (record :: records)) {arxivId : String}
    (hlive : liveId? record = some arxivId) :
    targetAmong (idsAfterAll ids (record :: records)) arxivId = targetAmong ids arxivId := by
  by_cases hnil : familyAmong ids arxivId = []
  case pos =>
    have hto : targetAmong ids arxivId = arxivId := by simp [targetAmong, hnil]
    have hstored := targetAmong_mem_idsAfter ids hlive
    rw [hto] at hstored ⊢
    refine targetAmong_of_mem (mem_familyAmong.2 ⟨?_, h.own record List.mem_cons_self _ hlive⟩)
    exact (prefix_idsAfterAll _ records).subset hstored
  case neg =>
    rcases ids_added (record :: records) ids with ⟨more, hmore, hadded⟩
    have hnone : more.filter (inVersionFamily (Keys.arxivIdFamilyBase arxivId)) = [] := by
      rw [List.filter_eq_nil_iff]
      intro id hid hfamily
      rcases hadded id hid with ⟨later, hlater, hlaterLive, hnew⟩
      -- A row of the same base is not new: that family had a row.
      have hother : Keys.arxivIdFamilyBase id ≠ Keys.arxivIdFamilyBase arxivId := by
        intro hbase
        exact hnil (by simpa only [familyAmong, hbase] using hnew)
      have hid : Keys.arxivIdFamilyBase arxivId = id := by
        by_contra hne
        have hne' : ¬ id = Keys.arxivIdFamilyBase arxivId := fun heq => hne heq.symm
        simp [inVersionFamily, hne', hother] at hfamily
      exact hother ((h.base record List.mem_cons_self later hlater arxivId id hlive hlaterLive
        hid).trans hid.symm)
    have hfamily : familyAmong (idsAfterAll ids (record :: records)) arxivId =
        familyAmong ids arxivId := by
      rw [hmore]
      unfold familyAmong
      rw [List.filter_append, hnone, List.append_nil]
    unfold targetAmong
    rw [hfamily]

theorem Plain.abandons_none (h : Plain records) :
    abandoned (idsAfterAll ids records) ids records = [] := by
  induction records generalizing ids with
  | nil => rfl
  | cons record records ih =>
      rw [List.eq_nil_iff_forall_not_mem]
      intro id hid
      rcases mem_abandoned_cons.1 hid with ⟨arxivId, hlive, hto, hleft⟩ | hlater
      · exact hleft ((h.target_kept hlive).trans hto)
      · rw [idsAfterAll_cons, ih h.tail] at hlater
        cases hlater

/-- Records of plain ids can be replayed, whatever is stored. -/
theorem Plain.repeatable (h : Plain records) (l : LibraryTables) : Repeatable l records := by
  intro id hid
  rw [h.abandons_none] at hid
  cases hid

theorem map_eq_self_iff {α : Type} {f : α → α} {xs : List α} :
    xs.map f = xs ↔ ∀ x ∈ xs, f x = x := by
  have h := List.map_inj_left (f := f) (g := id) (l := xs)
  rwa [List.map_id] at h

/-- A second pass over the papers changes nothing but when they were last seen, if and only if it
sets in the abandoned rows what the first one has set. -/
theorem papers_replayed_iff {l : LibraryTables} (hoai : ∀ record ∈ records, FromOai record)
    (timestamp timestamp' : Int) :
    ((l.upsertOaiRecords records timestamp).2.upsertOaiRecords records timestamp').2.papers.map
        unseen = (l.upsertOaiRecords records timestamp).2.papers.map unseen ↔
      Repeatable l records := by
  have hids := storedIds_upsertOaiRecords hoai timestamp l
  rw [papers_again hoai, map_eq_self_iff]
  constructor
  · intro hsame id hid
    rcases abandoned_set hid with ⟨hstored, habsorbing⟩
    rw [← hids, storedIds_eq_unseen] at hstored
    rcases List.mem_map.1 hstored with ⟨row, hrow, rfl⟩
    have hset := passEdit_smul_row hoai hrow
    have hagain := hsame row hrow
    calc
      passEdit (idsAfterAll (storedIds l) records) records row.arxivId *
            passEdit (storedIds l) records row.arxivId
          = PaperEdit.columns ((passEdit (idsAfterAll (storedIds l) records) records row.arxivId *
              passEdit (storedIds l) records row.arxivId) • row) :=
            PaperEdit.eq_columns_of_absorbing (habsorbing.mul_left _) row
      _ = PaperEdit.columns (passEdit (storedIds l) records row.arxivId • row) := by
            rw [mul_smul, hset, hagain]
      _ = passEdit (storedIds l) records row.arxivId :=
            (PaperEdit.eq_columns_of_absorbing habsorbing row).symm
  · intro hrepeatable row hrow
    have hstored : row.arxivId ∈ idsAfterAll (storedIds l) records := by
      rw [← hids, storedIds_eq_unseen]
      exact List.mem_map_of_mem hrow
    have hset := passEdit_smul_row hoai hrow
    have hedit : passEdit (idsAfterAll (storedIds l) records) records row.arxivId *
        passEdit (storedIds l) records row.arxivId =
            passEdit (storedIds l) records row.arxivId := by
      by_cases hleft : row.arxivId ∈ abandoned (idsAfterAll (storedIds l) records)
          (storedIds l) records
      · exact hrepeatable row.arxivId hleft
      · exact passEdit_kept hstored hleft
    calc
      passEdit (idsAfterAll (storedIds l) records) records row.arxivId • row
          = (passEdit (idsAfterAll (storedIds l) records) records row.arxivId *
              passEdit (storedIds l) records row.arxivId) • row := by rw [mul_smul, hset]
      _ = row := by rw [hedit, hset]

end

/-! ## The rows of the records themselves -/

abbrev RecordKey := String × OaiMetadataPrefix

def recordKey (record : OaiRecord) : RecordKey :=
  (record.oaiIdentifier, record.metadataPrefix)

def rowKey (row : OaiRecordRow) : RecordKey :=
  (row.oaiIdentifier, row.metadataPrefix)

/-- The row of a record, without the time it was last seen. -/
def recordRow (record : OaiRecord) (firstSeenAt : Int) : OaiRecordRow :=
  { oaiIdentifier := record.oaiIdentifier
    metadataPrefix := record.metadataPrefix
    arxivId := record.arxivId
    datestamp := record.datestamp
    deleted := record.deleted
    setSpecs := record.setSpecs
    rawXml := record.rawXml
    firstSeenAt := firstSeenAt
    lastSeenAt := 0 }

def unseenRecord (row : OaiRecordRow) : OaiRecordRow :=
  { row with lastSeenAt := 0 }

/-- The row of this key, if there is one. -/
def rowOf? (rows : List OaiRecordRow) (key : RecordKey) : Option OaiRecordRow :=
  rows.find? fun row => rowKey row = key

/-- What a record makes of the rows. -/
def recorded (timestamp : Int) (rows : List OaiRecordRow) (record : OaiRecord) :
    List OaiRecordRow :=
  match rowOf? rows (recordKey record) with
  | some existing => rows.map fun row =>
      if rowKey row = recordKey record then recordRow record existing.firstSeenAt else row
  | none => rows ++ [recordRow record timestamp]

theorem upsertRecordPaper_oaiRecords (l : LibraryTables) (record : OaiRecord) (timestamp : Int) :
    (l.upsertRecordPaper record timestamp).oaiRecords = l.oaiRecords := by
  unfold upsertRecordPaper upsertPaper
  cases record.paper with
  | none => rfl
  | some paper =>
      dsimp only
      split
      · rfl
      · split <;> rfl

theorem upsertOaiRecordRow_recorded (l : LibraryTables) (record : OaiRecord) (timestamp : Int) :
    (l.upsertOaiRecordRow record timestamp).oaiRecords.map unseenRecord =
      recorded timestamp (l.oaiRecords.map unseenRecord) record := by
  have hfind : rowOf? (l.oaiRecords.map unseenRecord) (recordKey record) =
      (l.oaiRecord? record.oaiIdentifier record.metadataPrefix).map unseenRecord := by
    simp only [rowOf?, oaiRecord?, List.find?_map]
    congr 2
    funext row
    rw [Function.comp_apply, Bool.eq_iff_iff]
    simp [rowKey, recordKey, unseenRecord]
  unfold upsertOaiRecordRow recorded
  rw [hfind]
  cases l.oaiRecord? record.oaiIdentifier record.metadataPrefix with
  | none => simp [recordRow, unseenRecord]
  | some existing =>
      simp only [Option.map_some, List.map_map]
      refine List.map_congr_left fun row _ => ?_
      by_cases hkey : row.oaiIdentifier = record.oaiIdentifier ∧
          row.metadataPrefix = record.metadataPrefix
      · simp [hkey, rowKey, recordKey, recordRow, unseenRecord]
      · simp [hkey, rowKey, recordKey, unseenRecord]

theorem upsertOaiRecords_recorded (l : LibraryTables) (records : List OaiRecord)
    (timestamp : Int) :
    (l.upsertOaiRecords records timestamp).2.oaiRecords.map unseenRecord =
      records.foldl (recorded timestamp) (l.oaiRecords.map unseenRecord) := by
  unfold upsertOaiRecords
  dsimp only
  induction records generalizing l with
  | nil => rfl
  | cons record records ih =>
      have hone : (l.upsertOaiRecord record timestamp).oaiRecords =
          ((l.upsertRecordPaper record timestamp).upsertOaiRecordRow record
            timestamp).oaiRecords := by
        rw [upsertOaiRecord_eq]
        split
        · split
          · rfl
          · rfl
        · rfl
      rw [List.foldl_cons, ih, hone, upsertOaiRecordRow_recorded, upsertRecordPaper_oaiRecords]
      rfl

/-- The last of these records with this key. -/
def lastOf? (records : List OaiRecord) (key : RecordKey) : Option OaiRecord :=
  records.reverse.find? fun record => recordKey record = key

theorem lastOf?_append (records : List OaiRecord) (record : OaiRecord) (key : RecordKey) :
    lastOf? (records ++ [record]) key =
      if recordKey record = key then some record else lastOf? records key := by
  simp only [lastOf?, List.reverse_append, List.reverse_singleton, List.singleton_append,
    List.find?_cons]
  by_cases hkey : recordKey record = key <;> simp [hkey]

@[simp] theorem rowKey_recordRow (record : OaiRecord) (firstSeenAt : Int) :
    rowKey (recordRow record firstSeenAt) = recordKey record := rfl

/-- There is a row of the record, and every row of its key is that row. -/
def Stands (rows : List OaiRecordRow) (record : OaiRecord) : Prop :=
  ∃ firstSeenAt, (rowOf? rows (recordKey record)).isSome ∧
    ∀ row ∈ rows, rowKey row = recordKey record → row = recordRow record firstSeenAt

theorem rowOf?_isSome {rows : List OaiRecordRow} {key : RecordKey} :
    (rowOf? rows key).isSome ↔ ∃ row ∈ rows, rowKey row = key := by
  simp [rowOf?, List.find?_isSome]

theorem rowOf?_mem {rows : List OaiRecordRow} {key : RecordKey} {row : OaiRecordRow}
    (h : rowOf? rows key = some row) : row ∈ rows ∧ rowKey row = key :=
  ⟨List.mem_of_find?_eq_some h, by simpa using List.find?_some h⟩

theorem recorded_stands (timestamp : Int) (rows : List OaiRecordRow) (record : OaiRecord) :
    Stands (recorded timestamp rows record) record := by
  unfold recorded
  cases hrow : rowOf? rows (recordKey record) with
  | some existing =>
      refine ⟨existing.firstSeenAt, rowOf?_isSome.2 ?_, fun row hmem hkey => ?_⟩
      · refine ⟨recordRow record existing.firstSeenAt, List.mem_map.2 ⟨existing, ?_⟩, rfl⟩
        simp [rowOf?_mem hrow]
      · rcases List.mem_map.1 hmem with ⟨old, -, rfl⟩
        split
        case isTrue => rfl
        case isFalse hne =>
          rw [if_neg hne] at hkey
          exact absurd hkey hne
  | none =>
      refine ⟨timestamp, rowOf?_isSome.2 ⟨_, List.mem_append_right _ List.mem_cons_self, rfl⟩, ?_⟩
      intro row hmem hkey
      rcases List.mem_append.1 hmem with hmem | hmem
      · have := rowOf?_isSome.2 ⟨row, hmem, hkey⟩
        simp [hrow] at this
      · exact List.mem_singleton.1 hmem

/-- A record with another key leaves the row standing. -/
theorem Stands.recorded {rows : List OaiRecordRow} {earlier record : OaiRecord}
    (h : Stands rows earlier) (hne : recordKey record ≠ recordKey earlier) (timestamp : Int) :
    Stands (recorded timestamp rows record) earlier := by
  rcases h with ⟨firstSeenAt, hsome, hrows⟩
  rcases rowOf?_isSome.1 hsome with ⟨there, hthere, hkey⟩
  have hother : rowKey there ≠ recordKey record := fun h => hne (h.symm.trans hkey)
  unfold Replay.recorded
  cases rowOf? rows (recordKey record) with
  | some existing =>
      refine ⟨firstSeenAt, rowOf?_isSome.2 ⟨there, ?_, hkey⟩, fun row hmem hrow => ?_⟩
      · exact List.mem_map.2 ⟨there, hthere, by simp [hother]⟩
      · rcases List.mem_map.1 hmem with ⟨old, hold, rfl⟩
        split
        case isTrue hsame =>
          rw [if_pos hsame] at hrow
          exact absurd hrow hne
        case isFalse hdiff =>
          rw [if_neg hdiff] at hrow
          exact hrows old hold hrow
  | none =>
      refine ⟨firstSeenAt, rowOf?_isSome.2 ⟨there, ?_, hkey⟩, fun row hmem hrow => ?_⟩
      · exact List.mem_append_left _ hthere
      · rcases List.mem_append.1 hmem with hmem | hmem
        · exact hrows row hmem hrow
        · rw [List.mem_singleton.1 hmem] at hrow
          exact absurd hrow hne

/-- After a pass the last record of each key stands. -/
theorem lastOf?_stands {records : List OaiRecord} (timestamp : Int) (rows : List OaiRecordRow)
    {key : RecordKey} {record : OaiRecord} (hlast : lastOf? records key = some record) :
    recordKey record = key ∧ Stands (records.foldl (recorded timestamp) rows) record := by
  induction records using List.reverseRecOn with
  | nil => cases hlast
  | append_singleton records next ih =>
      rw [lastOf?_append] at hlast
      rw [List.foldl_append, List.foldl_cons, List.foldl_nil]
      split at hlast
      case isTrue hkey =>
        cases hlast
        exact ⟨hkey, recorded_stands _ _ _⟩
      case isFalse hne =>
        rcases ih hlast with ⟨hkey, hstands⟩
        exact ⟨hkey, hstands.recorded (by rw [hkey]; exact hne) timestamp⟩

/-- What a pass makes of a row that is there. -/
def overwritten (records : List OaiRecord) (row : OaiRecordRow) : OaiRecordRow :=
  match lastOf? records (rowKey row) with
  | some record => recordRow record row.firstSeenAt
  | none => row

@[simp] theorem rowKey_overwritten (records : List OaiRecord) (row : OaiRecordRow) :
    rowKey (overwritten records row) = rowKey row := by
  unfold overwritten
  cases hlast : lastOf? records (rowKey row) with
  | none => rfl
  | some record => simpa using List.find?_some hlast

@[simp] theorem overwritten_firstSeenAt (records : List OaiRecord) (row : OaiRecordRow) :
    (overwritten records row).firstSeenAt = row.firstSeenAt := by
  unfold overwritten
  split <;> rfl

/-- A pass over rows that rows of its records stand among creates none. -/
theorem recorded_over {rows : List OaiRecordRow} (timestamp : Int) {records : List OaiRecord}
    (hstand : ∀ record ∈ records, ∃ last, recordKey last = recordKey record ∧ Stands rows last) :
    records.foldl (recorded timestamp) rows = rows.map (overwritten records) := by
  induction records using List.reverseRecOn with
  | nil => exact (List.map_id rows).symm
  | append_singleton records next ih =>
      rcases hstand next (by simp) with ⟨last, hkey, firstSeenAt, hsome, hrows⟩
      rcases Option.isSome_iff_exists.1 hsome with ⟨existing, hexisting⟩
      have hfind : rowOf? (rows.map (overwritten records)) (recordKey next) =
          some (overwritten records existing) := by
        rw [← hkey]
        unfold rowOf? at hexisting ⊢
        rw [List.find?_map, Function.comp_def]
        simp [hexisting]
      rw [List.foldl_append, List.foldl_cons, List.foldl_nil,
        ih fun record hmem => hstand record (by simp [hmem])]
      unfold recorded
      rw [hfind]
      dsimp only
      rw [List.map_map]
      refine List.map_congr_left fun row hmem => ?_
      have hlast := lastOf?_append records next (rowKey row)
      by_cases hsame : rowKey row = recordKey next
      · have hrow := hrows row hmem (hsame.trans hkey.symm)
        have hthere := hrows existing (rowOf?_mem hexisting).1 (rowOf?_mem hexisting).2
        have hfirst : existing.firstSeenAt = row.firstSeenAt := by
          rw [hrow, hthere]
        rw [if_pos hsame.symm] at hlast
        simp only [Function.comp_apply, rowKey_overwritten, hsame, if_true,
          overwritten_firstSeenAt, hfirst]
        simp only [overwritten, hlast]
      · rw [if_neg fun h => hsame h.symm] at hlast
        simp only [Function.comp_apply, rowKey_overwritten, hsame, if_false]
        simp only [overwritten, hlast]

theorem exists_lastOf? {records : List OaiRecord} {record : OaiRecord} (h : record ∈ records) :
    ∃ last, lastOf? records (recordKey record) = some last := by
  rw [← Option.isSome_iff_exists, lastOf?, List.find?_isSome]
  exact ⟨record, by simpa using h, by simp⟩

/-- A second pass over the rows of the records changes nothing but when they were last seen. -/
theorem oaiRecords_replayed (l : LibraryTables) (records : List OaiRecord)
    (timestamp timestamp' : Int) :
    ((l.upsertOaiRecords records timestamp).2.upsertOaiRecords records
        timestamp').2.oaiRecords.map unseenRecord =
      (l.upsertOaiRecords records timestamp).2.oaiRecords.map unseenRecord := by
  rw [upsertOaiRecords_recorded, upsertOaiRecords_recorded]
  generalize l.oaiRecords.map unseenRecord = rows
  rw [recorded_over timestamp']
  · refine (List.map_congr_left fun row hmem => ?_).trans (List.map_id _)
    unfold overwritten
    cases hlast : lastOf? records (rowKey row) with
    | none => rfl
    | some record =>
        rcases lastOf?_stands timestamp rows hlast with ⟨hkey, firstSeenAt, -, hrows⟩
        have hrow := hrows row hmem hkey.symm
        rw [hrow]
        rfl
  · intro record hmem
    rcases exists_lastOf? hmem with ⟨last, hlast⟩
    exact ⟨last, lastOf?_stands timestamp rows hlast⟩

/-! ## Replays -/

/-- The two tables after a pass, without the times their rows were last seen. -/
def tables (l : LibraryTables) : List PaperRow × List OaiRecordRow :=
  (l.papers.map unseen, l.oaiRecords.map unseenRecord)

/-- A replay changes the tables if and only if it leaves a row for another one and does not set in
it what the first pass has set there last. -/
theorem replay_idempotent_iff (l : LibraryTables) (records : List OaiRecord)
    (hoai : ∀ record ∈ records, FromOai record) (timestamp timestamp' : Int) :
    tables ((l.upsertOaiRecords records timestamp).2.upsertOaiRecords records timestamp').2 =
        tables (l.upsertOaiRecords records timestamp).2 ↔
      Repeatable l records := by
  rw [← papers_replayed_iff hoai timestamp timestamp']
  constructor
  · intro h
    exact congrArg Prod.fst h
  · intro h
    exact Prod.ext h (oaiRecords_replayed l records timestamp timestamp')

/-- A live record whose paper has this id. -/
def liveVersion (arxivId : String) (title : String) : OaiRecord :=
  { oaiIdentifier := "oai:arXiv.org:" ++ arxivId
    arxivId := some arxivId
    metadataPrefix := .arXiv
    datestamp := some 0
    paper := some
      { arxivId := arxivId
        canonicalUrl := canonicalUrl arxivId
        content := { title := title }
        oaiIdentifier := some ("oai:arXiv.org:" ++ arxivId) } }

/-- The third id is the family base of the first two, and a version of a family of its own. -/
def twiceVersioned : List OaiRecord :=
  [liveVersion "2401.00001v5v2" "second", liveVersion "2401.00001v5v3" "third",
    liveVersion "2401.00001v5" "base"]

/-- The first pass sends the second record to the row of the first one, the replay sends it to the
row of the third one. -/
theorem replay_not_idempotent :
    ¬ ∀ (l : LibraryTables) (records : List OaiRecord), (∀ record ∈ records, FromOai record) →
      ∀ timestamp timestamp' : Int,
        tables ((l.upsertOaiRecords records timestamp).2.upsertOaiRecords records timestamp').2 =
          tables (l.upsertOaiRecords records timestamp).2 := by
  intro h
  have hoai : ∀ record ∈ twiceVersioned, FromOai record := by
    intro record hmem paper hpaper _
    simp only [twiceVersioned, List.mem_cons, List.not_mem_nil, or_false] at hmem
    rcases hmem with rfl | rfl | rfl <;> cases hpaper <;> rfl
  have htables := congrArg (fun t => t.1.map (·.content.title))
    (h {} twiceVersioned hoai 0 1)
  revert htables
  decide

/-- The second record leaves its row in a replay, and the last one has set that row again. -/
def overlappingPage : List OaiRecord :=
  twiceVersioned ++ [liveVersion "2401.00001v5v2" "second"]

theorem overlappingPage_replayed :
    (∀ record ∈ overlappingPage, FromOai record) ∧ Repeatable {} overlappingPage ∧
      tables ((upsertOaiRecords {} overlappingPage 0).2.upsertOaiRecords overlappingPage 1).2 =
        tables (upsertOaiRecords {} overlappingPage 0).2 := by
  have hoai : ∀ record ∈ overlappingPage, FromOai record := by
    intro record hmem paper hpaper _
    simp only [overlappingPage, twiceVersioned, List.cons_append, List.nil_append, List.mem_cons,
      List.not_mem_nil, or_false] at hmem
    rcases hmem with rfl | rfl | rfl | rfl <;> cases hpaper <;> rfl
  have hrepeatable : Repeatable {} overlappingPage := by decide
  exact ⟨hoai, hrepeatable, (replay_idempotent_iff {} overlappingPage hoai 0 1).2 hrepeatable⟩

/-- Two versions of a family, in one of which the other is a version of its own family. -/
example : Repeatable {}
    [liveVersion "2401.00001v5v2" "second", liveVersion "2401.00001v5" "base"] := by
  decide

end Replay
end Huldra
