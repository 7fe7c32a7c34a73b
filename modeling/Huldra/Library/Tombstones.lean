import Huldra.Library.Readable

/-!
# Tombstones — how long a deletion by OAI record lasts

A deleted record marks every stored version of its family.  What is stored later decides whether it
lasts: a legacy upsert keeps the mark of a row that is there, and creates a row without it.
-/

namespace Huldra
namespace Tombstones

open LibraryTables

/-! ## Upserts -/

/-- The calls that store papers. -/
inductive Upsert where
  | oaiRecords (records : List OaiRecord) (timestamp : Int)
  | legacyPapers (papers : List ArxivPaper) (timestamp : Int)
  | completedCacheEntry (write : CompletedCacheWrite)

def Upsert.exec (l : LibraryTables) : Upsert → LibraryTables
  | .oaiRecords records timestamp => (l.upsertOaiRecords records timestamp).2
  | .legacyPapers papers timestamp => (l.upsertPapers papers timestamp).2
  | .completedCacheEntry write => l.recordCompletedCacheEntry write

/-- One record of a call, or one paper of a legacy call. -/
inductive Write where
  | oai (record : OaiRecord) (timestamp : Int)
  | legacy (paper : ArxivPaper) (timestamp : Int)

def Write.exec (l : LibraryTables) : Write → LibraryTables
  | .oai record timestamp => l.upsertOaiRecord record timestamp
  | .legacy paper timestamp => (l.upsertPaper paper timestamp).2

def Upsert.writes : Upsert → List Write
  | .oaiRecords records timestamp => records.map fun record => .oai record timestamp
  | .legacyPapers papers timestamp => papers.map fun paper => .legacy paper timestamp
  | .completedCacheEntry write => write.papers.map fun paper => .legacy paper write.completedAt

/-- The library after these writes, from an empty one. -/
def after (writes : List Write) : LibraryTables :=
  writes.foldl Write.exec {}

/-- The library after these calls, from an empty one. -/
def afterCalls (calls : List Upsert) : LibraryTables :=
  calls.foldl Upsert.exec {}

/-! ## Families -/

/-- What a write says of the family as an OAI record of it: that it is deleted, or that it is
live. -/
def Write.verdict (baseId : String) : Write → Option Bool
  | .legacy _ _ => none
  | .oai record _ =>
      if record.deleted then
        if record.arxivId.any fun id => id ≠ "" && Keys.arxivIdFamilyBase id = baseId then
          some true
        else none
      else if (record.arxivId.any fun id => Keys.arxivIdFamilyBase id = baseId) ||
          (record.paper.any fun paper => Keys.arxivIdFamilyBase paper.arxivId = baseId) then
        some false
      else none

/-- The OAI record of the family that was applied last is a deletion. -/
def tombstoned (baseId : String) (writes : List Write) : Bool :=
  (writes.filterMap (Write.verdict baseId)).getLast? = some true

/-- An id of the family, to ask for. -/
def FamilyId (baseId id : String) : Prop :=
  Keys.arxivIdFamilyBase id = baseId ∧ inVersionFamily baseId id = true

/-- Every stored row of the family is marked. -/
def RowsDeleted (baseId : String) (l : LibraryTables) : Prop :=
  ∀ row ∈ l.papers, inVersionFamily baseId row.arxivId = true → row.deleted = true

/-- Neither a row nor a read of the family is live. -/
structure NoLive (baseId : String) (l : LibraryTables) : Prop where
  rows : RowsDeleted baseId l
  getPaper : ∀ id paper, FamilyId baseId id → l.getPaper id = some paper → paper.deleted = true
  getPapersByIds : ∀ ids id paper, FamilyId baseId id → (id, paper) ∈ l.getPapersByIds ids →
    paper.deleted = true

def Durable (baseId : String) (writes : List Write) : Prop :=
  tombstoned baseId writes = true → NoLive baseId (after writes)

/-! ## What revives a family -/

/-- The upsert of the paper leaves a live row of the family: the paper is not deleted, and it
creates the row or carries an OAI identifier. -/
def StoresLive (baseId : String) (l : LibraryTables) (paper : ArxivPaper) : Prop :=
  let stored := l.legacyPaperForExistingOaiBaseRow paper
  inVersionFamily baseId stored.arxivId = true ∧ stored.deleted = false ∧
    (stored.oaiIdentifier.isSome = true ∨ l.paper? stored.arxivId = none)

def Write.Revives (baseId : String) (l : LibraryTables) : Write → Prop
  | .legacy paper _ => StoresLive baseId l paper
  | .oai record _ => record.deleted = false ∧
      ∃ paper, record.paper = some paper ∧
        StoresLive baseId l (l.oaiPaperForExistingVersionFamily paper)

/-- While the family is tombstoned, no write but an OAI record of its own stores it live. -/
def Respected (baseId : String) (writes : List Write) : Prop :=
  ∀ past w rest, writes = past ++ w :: rest → tombstoned baseId past = true →
    w.verdict baseId = none → ¬ w.Revives baseId (after past)

/-! ## Reads of marked rows -/

theorem mem_papers_of_paper? {l : LibraryTables} {id : String} {row : PaperRow}
    (h : l.paper? id = some row) : row ∈ l.papers ∧ row.arxivId = id :=
  ⟨mem_of_paper? h, paper?_arxivId h⟩

theorem RowsDeleted.getPaper {baseId : String} {l : LibraryTables} (h : RowsDeleted baseId l)
    {id : String} {paper : ArxivPaper} (hid : FamilyId baseId id)
    (hpaper : l.getPaper id = some paper) : paper.deleted = true := by
  have hfound : ∀ {id : String} {row : PaperRow}, l.paper? id = some row →
      inVersionFamily baseId id = true → row.deleted = true := by
    intro id row hrow hfamily
    rcases mem_papers_of_paper? hrow with ⟨hmem, rfl⟩
    exact h row hmem hfamily
  unfold LibraryTables.getPaper at hpaper
  rcases Option.map_eq_some_iff.1 hpaper with ⟨row, hrow, rfl⟩
  rcases Option.or_eq_some_iff.1 hrow with hown | ⟨_, hother⟩
  · exact hfound hown hid.2
  rcases Option.or_eq_some_iff.1 hother with hbase | ⟨_, hlatest⟩
  · unfold oaiBasePaperRowForVersionedRead at hbase
    dsimp only at hbase
    split at hbase
    · cases hbase
    · refine hfound (Option.filter_eq_some_iff.1 hbase).1 ?_
      simp [inVersionFamily, hid.1]
  · unfold latestVersionedPaperRowForBaseRead at hlatest
    split at hlatest
    · cases hlatest
    · dsimp only at hlatest
      split at hlatest
      · cases hlatest
      case h_2 first rest hcandidates =>
        refine hfound hlatest ?_
        have hmem := preferredId_mem first rest
        rw [← hcandidates] at hmem
        have hcandidate := (List.mem_filter.1 hmem).2
        simp only [hid.1, Bool.and_eq_true, decide_eq_true_eq] at hcandidate
        simp [inVersionFamily, hcandidate.1.1, hcandidate.2]

theorem RowsDeleted.noLive {baseId : String} {l : LibraryTables} (h : RowsDeleted baseId l) :
    NoLive baseId l := by
  refine ⟨h, fun id paper hid hpaper => h.getPaper hid hpaper, ?_⟩
  intro ids id paper hid hmem
  simp only [LibraryTables.getPapersByIds, List.mem_filterMap, Option.map_eq_some_iff,
    Prod.mk.injEq] at hmem
  rcases hmem with ⟨_, _, p, hp, rfl, rfl⟩
  exact h.getPaper hid hp

/-! ## One upsert -/

theorem upsertPaper_rowsDeleted {baseId : String} {l : LibraryTables} {paper : ArxivPaper}
    (h : RowsDeleted baseId l) (hnot : ¬ StoresLive baseId l paper) (timestamp : Int) :
    RowsDeleted baseId (l.upsertPaper paper timestamp).2 := by
  unfold StoresLive at hnot
  unfold upsertPaper
  dsimp only at hnot ⊢
  generalize l.legacyPaperForExistingOaiBaseRow paper = stored at hnot ⊢
  cases hold : l.paper? stored.arxivId with
  | some old =>
      intro row' hrow' hfamily
      dsimp only at hrow'
      rcases List.mem_map.1 hrow' with ⟨row, hrow, rfl⟩
      split
      case isTrue heq =>
        rw [if_pos heq] at hfamily
        have hmarked := h row hrow (by rw [heq]; exact hfamily)
        by_cases hoai : stored.oaiIdentifier.isSome = true
        · have hdeleted : stored.deleted ≠ false := fun hlive => hnot ⟨hfamily, hlive, Or.inl hoai⟩
          simpa [mergePaperRow, hoai] using hdeleted
        · simpa [mergePaperRow, hoai] using hmarked
      case isFalse hne =>
        rw [if_neg hne] at hfamily
        exact h row hrow hfamily
  | none =>
      intro row' hrow' hfamily
      dsimp only at hrow'
      rcases List.mem_append.1 hrow' with hrow | hrow
      · exact h row' hrow hfamily
      · cases List.mem_singleton.1 hrow
        have hdeleted : stored.deleted ≠ false := fun hlive => hnot ⟨hfamily, hlive, Or.inr hold⟩
        simpa using hdeleted

theorem live_of_storesLive {baseId : String} {l : LibraryTables} {paper : ArxivPaper}
    (h : StoresLive baseId l paper) (timestamp : Int) :
    ∃ row ∈ (l.upsertPaper paper timestamp).2.papers,
      inVersionFamily baseId row.arxivId = true ∧ row.deleted = false := by
  have hrow := paper?_upsertPaper l paper timestamp
    (l.legacyPaperForExistingOaiBaseRow paper).arxivId
  rw [if_pos rfl] at hrow
  refine ⟨_, mem_of_paper? hrow, ?_, ?_⟩
  · rw [storedRow_arxivId]
    exact h.1
  · rcases h with ⟨_, hlive, hoai | hnone⟩
    · cases hold : l.paper? (l.legacyPaperForExistingOaiBaseRow paper).arxivId with
      | none => exact hlive
      | some old =>
          generalize l.legacyPaperForExistingOaiBaseRow paper = stored at hoai hlive ⊢
          simp [storedRow, mergePaperRow, hoai, hlive]
    · rw [hnone]
      exact hlive

/-! ## One OAI record -/

theorem tombstone_rowsDeleted {baseId : String} {l : LibraryTables} (h : RowsDeleted baseId l)
    (record : OaiRecord) (arxivId : String) (timestamp : Int) :
    RowsDeleted baseId (l.tombstone record arxivId timestamp) := by
  intro row' hrow' hfamily
  rcases List.mem_map.1 hrow' with ⟨row, hrow, rfl⟩
  split
  case isTrue => rfl
  case isFalse hne =>
    rw [if_neg hne] at hfamily
    exact h row hrow hfamily

/-- A deletion marks every row of its own family. -/
theorem tombstone_own (l : LibraryTables) (record : OaiRecord) (arxivId : String)
    (timestamp : Int) :
    RowsDeleted (Keys.arxivIdFamilyBase arxivId) (l.tombstone record arxivId timestamp) := by
  intro row' hrow' hfamily
  rcases List.mem_map.1 hrow' with ⟨row, hrow, rfl⟩
  split
  case isTrue => rfl
  case isFalse hne =>
    rw [if_neg hne] at hfamily
    refine absurd ?_ hne
    rw [List.contains_iff_mem, mem_paperArxivIdsInVersionFamily]
    exact ⟨isSome_paper?_iff.2 (List.mem_map_of_mem hrow), hfamily⟩

theorem rowsDeleted_of_papers {baseId : String} {l l' : LibraryTables} (h : RowsDeleted baseId l)
    (hpapers : l'.papers = l.papers) : RowsDeleted baseId l' := by
  intro row hrow
  rw [hpapers] at hrow
  exact h row hrow

/-! ## One write -/

/-- A write that says nothing of the family leaves it marked, unless it revives it. -/
theorem exec_rowsDeleted {baseId : String} {l : LibraryTables} (h : RowsDeleted baseId l)
    {w : Write} (hnot : ¬ w.Revives baseId l) : RowsDeleted baseId (w.exec l) := by
  cases w with
  | legacy paper timestamp => exact upsertPaper_rowsDeleted h hnot timestamp
  | oai record timestamp =>
      have hlive : RowsDeleted baseId (l.upsertRecordPaper record timestamp) := by
        unfold upsertRecordPaper
        split
        case h_1 paper hpaper =>
          split
          case isTrue => exact h
          case isFalse hdeleted =>
            refine upsertPaper_rowsDeleted h ?_ timestamp
            intro hstores
            exact hnot ⟨by simpa using hdeleted, paper, hpaper, hstores⟩
        case h_2 => exact h
      have hrow := rowsDeleted_of_papers hlive
        (upsertOaiRecordRow_papers (l.upsertRecordPaper record timestamp) record timestamp)
      change RowsDeleted baseId (l.upsertOaiRecord record timestamp)
      rw [upsertOaiRecord_eq]
      split
      · split
        · exact tombstone_rowsDeleted hrow record _ timestamp
        · exact hrow
      · exact hrow

/-- A deletion of the family marks all of it, whatever was stored. -/
theorem exec_deletion {baseId : String} (l : LibraryTables) {w : Write}
    (h : w.verdict baseId = some true) : RowsDeleted baseId (w.exec l) := by
  cases w with
  | legacy paper timestamp => cases h
  | oai record timestamp =>
      simp only [Write.verdict] at h
      split at h
      case isTrue hdeleted =>
        split at h
        case isTrue hid =>
          rcases (Option.any_eq_true _ _).1 hid with ⟨arxivId, harxivId, hown⟩
          simp only [ne_eq, Bool.and_eq_true, decide_eq_true_eq] at hown
          change RowsDeleted baseId (l.upsertOaiRecord record timestamp)
          rw [upsertOaiRecord_eq, harxivId]
          simp only [hdeleted, ne_eq, hown.1, not_false_eq_true, decide_true, Bool.and_self,
            if_true]
          rw [← hown.2]
          exact tombstone_own _ record arxivId timestamp
        case isFalse => cases h
      case isFalse => split at h <;> cases h

/-- A write that revives the family leaves a live row of it. -/
theorem exec_revives {baseId : String} {l : LibraryTables} {w : Write}
    (h : w.Revives baseId l) : ¬ RowsDeleted baseId (w.exec l) := by
  have hlive : ∃ row ∈ (w.exec l).papers,
      inVersionFamily baseId row.arxivId = true ∧ row.deleted = false := by
    cases w with
    | legacy paper timestamp => exact live_of_storesLive h timestamp
    | oai record timestamp =>
        rcases h with ⟨hdeleted, paper, hpaper, hstores⟩
        have hpapers : (l.upsertOaiRecord record timestamp).papers =
            (l.upsertPaper (l.oaiPaperForExistingVersionFamily paper) timestamp).2.papers := by
          rw [upsertOaiRecord_eq]
          simp only [upsertRecordPaper, hpaper, hdeleted, Bool.false_and, Bool.false_eq_true,
            if_false]
          split <;> exact upsertOaiRecordRow_papers _ _ _
        change ∃ row ∈ (l.upsertOaiRecord record timestamp).papers, _
        rw [hpapers]
        exact live_of_storesLive hstores timestamp
  rintro hrows
  rcases hlive with ⟨row, hrow, hfamily, hlive⟩
  rw [hrows row hrow hfamily] at hlive
  cases hlive

/-! ## Sequences of writes -/

theorem after_append (past : List Write) (w : Write) :
    after (past ++ [w]) = w.exec (after past) := by
  simp [after]

theorem tombstoned_append (baseId : String) (past : List Write) (w : Write) :
    tombstoned baseId (past ++ [w]) =
      match w.verdict baseId with
      | some deleted => deleted
      | none => tombstoned baseId past := by
  unfold tombstoned
  rw [List.filterMap_append]
  cases hverdict : w.verdict baseId with
  | none => simp [hverdict]
  | some deleted => simp [hverdict]

theorem rowsDeleted_of_respected {baseId : String} {writes : List Write}
    (h : Respected baseId writes) : ∀ past rest, writes = past ++ rest →
      tombstoned baseId past = true → RowsDeleted baseId (after past) := by
  intro past
  -- By induction on the writes so far; a deletion marks everything, the rest keeps the marks.
  induction past using List.reverseRecOn with
  | nil =>
      intro rest _ htombstoned
      cases htombstoned
  | append_singleton past w ih =>
      intro rest heq htombstoned
      rw [List.append_assoc, List.singleton_append] at heq
      rw [after_append]
      rw [tombstoned_append] at htombstoned
      cases hverdict : w.verdict baseId with
      | some deleted =>
          rw [hverdict] at htombstoned
          subst htombstoned
          exact exec_deletion (after past) hverdict
      | none =>
          rw [hverdict] at htombstoned
          exact exec_rowsDeleted (ih (w :: rest) heq htombstoned)
            (h past w rest heq htombstoned hverdict)

/-- A deletion lasts through all the writes, exactly when none of them revives the family. -/
theorem durable_iff_respected (baseId : String) (writes : List Write) :
    (∀ past rest, writes = past ++ rest → Durable baseId past) ↔ Respected baseId writes := by
  constructor
  · intro h past w rest heq htombstoned hverdict hrevives
    have hdurable := h (past ++ [w]) rest (by simpa using heq)
    have hstill : tombstoned baseId (past ++ [w]) = true := by
      rw [tombstoned_append, hverdict]
      exact htombstoned
    have hrows := (hdurable hstill).rows
    rw [after_append] at hrows
    exact exec_revives hrevives hrows
  · intro h past rest heq htombstoned
    exact (rowsDeleted_of_respected h past rest heq htombstoned).noLive

/-! ## Sequences of calls -/

/-- An upsert of a paper looks at the rows of `papers` alone. -/
theorem upsertPaper_papers (l : LibraryTables) (paper : ArxivPaper) (timestamp : Int) :
    (l.upsertPaper paper timestamp).2.papers =
      (upsertPaper { papers := l.papers } paper timestamp).2.papers := by
  have hstored : legacyPaperForExistingOaiBaseRow { papers := l.papers } paper =
      l.legacyPaperForExistingOaiBaseRow paper := rfl
  have hfound : ∀ id, paper? { papers := l.papers } id = l.paper? id := fun _ => rfl
  unfold upsertPaper
  simp only [hstored, hfound]
  split <;> rfl

theorem upsertRecordPaper_papers (l : LibraryTables) (record : OaiRecord) (timestamp : Int) :
    (l.upsertRecordPaper record timestamp).papers =
      (upsertRecordPaper { papers := l.papers } record timestamp).papers := by
  unfold upsertRecordPaper
  split
  · split
    · rfl
    · exact upsertPaper_papers l _ timestamp
  · rfl

theorem tombstone_papers {l l' : LibraryTables} (h : l.papers = l'.papers) (record : OaiRecord)
    (arxivId : String) (timestamp : Int) :
    (l.tombstone record arxivId timestamp).papers =
      (l'.tombstone record arxivId timestamp).papers := by
  simp [tombstone, paperArxivIdsInVersionFamily, h]

theorem upsertOaiRecord_papers (l : LibraryTables) (record : OaiRecord) (timestamp : Int) :
    (l.upsertOaiRecord record timestamp).papers =
      (upsertOaiRecord { papers := l.papers } record timestamp).papers := by
  have hrow : ∀ l : LibraryTables, ((l.upsertRecordPaper record timestamp).upsertOaiRecordRow record
      timestamp).papers = (upsertRecordPaper { papers := l.papers } record timestamp).papers := by
    intro l
    rw [upsertOaiRecordRow_papers, upsertRecordPaper_papers]
  rw [upsertOaiRecord_eq, upsertOaiRecord_eq]
  split
  · split
    · exact tombstone_papers ((hrow l).trans (hrow { papers := l.papers }).symm) record _ timestamp
    · exact (hrow l).trans (hrow { papers := l.papers }).symm
  · exact (hrow l).trans (hrow { papers := l.papers }).symm

/-- Two libraries with the same papers have the same papers after the same write. -/
theorem exec_papers_congr {l l' : LibraryTables} (h : l.papers = l'.papers) (w : Write) :
    (w.exec l).papers = (w.exec l').papers := by
  cases w with
  | oai record timestamp =>
      change (l.upsertOaiRecord record timestamp).papers =
        (l'.upsertOaiRecord record timestamp).papers
      rw [upsertOaiRecord_papers, h, ← upsertOaiRecord_papers]
  | legacy paper timestamp =>
      change (l.upsertPaper paper timestamp).2.papers = (l'.upsertPaper paper timestamp).2.papers
      rw [upsertPaper_papers, h, ← upsertPaper_papers]

theorem foldl_papers_congr (writes : List Write) :
    ∀ {l l' : LibraryTables}, l.papers = l'.papers →
      (writes.foldl Write.exec l).papers = (writes.foldl Write.exec l').papers := by
  induction writes with
  | nil =>
      intro l l' h
      exact h
  | cons w writes ih =>
      intro l l' h
      exact ih (exec_papers_congr h w)

theorem upsertPapers_eq_foldl (papers : List ArxivPaper) (timestamp : Int) :
    ∀ l : LibraryTables, (l.upsertPapers papers timestamp).2 =
      (papers.map fun paper => Write.legacy paper timestamp).foldl Write.exec l := by
  induction papers with
  | nil =>
      intro l
      rfl
  | cons paper papers ih =>
      intro l
      rw [upsertPapers_cons]
      exact ih (l.upsertPaper paper timestamp).2

/-- A call does to the papers what its writes do one after another. -/
theorem exec_eq_writes (u : Upsert) (l : LibraryTables) :
    (u.exec l).papers = (u.writes.foldl Write.exec l).papers := by
  cases u with
  | oaiRecords records timestamp =>
      change (l.upsertOaiRecords records timestamp).2.papers = _
      simp only [Upsert.writes, List.foldl_map]
      rfl
  | legacyPapers papers timestamp =>
      exact congrArg LibraryTables.papers (upsertPapers_eq_foldl papers timestamp l)
  | completedCacheEntry write =>
      change (l.recordCompletedCacheEntry write).papers = _
      rw [recordCompletedCacheEntry_papers, upsertPapers_eq_foldl]
      rfl

theorem afterCalls_papers (calls : List Upsert) :
    (afterCalls calls).papers = (after (calls.flatMap Upsert.writes)).papers := by
  have hfold : ∀ {l l' : LibraryTables}, l.papers = l'.papers →
      (calls.foldl Upsert.exec l).papers =
        ((calls.flatMap Upsert.writes).foldl Write.exec l').papers := by
    induction calls with
    | nil =>
        intro l l' h
        exact h
    | cons u calls ih =>
        intro l l' h
        rw [List.flatMap_cons, List.foldl_append]
        exact ih ((exec_eq_writes u l).trans (foldl_papers_congr u.writes h))
  exact hfold rfl

/-- Tombstones last in every state of a sequence of upserts exactly when no upsert revives a
tombstoned family, and then they hold in the library the calls lead to. -/
theorem tombstones_durable_iff (calls : List Upsert) (baseId : String) :
    ((∀ past rest, calls.flatMap Upsert.writes = past ++ rest → Durable baseId past) ↔
        Respected baseId (calls.flatMap Upsert.writes)) ∧
      (Respected baseId (calls.flatMap Upsert.writes) →
        tombstoned baseId (calls.flatMap Upsert.writes) = true →
          NoLive baseId (afterCalls calls)) := by
  refine ⟨durable_iff_respected baseId _, ?_⟩
  intro h htombstoned
  have hrows := rowsDeleted_of_respected h _ [] (List.append_nil _).symm htombstoned
  exact (rowsDeleted_of_papers hrows (afterCalls_papers calls)).noLive

/-! ## A version that is stored after the tombstone -/

/-- The family is deleted before any row of it, and then a version of it is found by a search. -/
def lateVersion : List Upsert :=
  [.oaiRecords
      [{ oaiIdentifier := "oai:arXiv.org:2401.00001"
         arxivId := some "2401.00001"
         metadataPrefix := .arXiv
         deleted := true }] 0,
    .legacyPapers
      [{ arxivId := "2401.00001v1"
         canonicalUrl := "https://arxiv.org/abs/2401.00001v1"
         content := { title := "t" } }] 1]

theorem lateVersion_live : ((afterCalls lateVersion).getPaper "2401.00001v1").map (·.deleted) =
    some false := by
  decide

theorem tombstones_not_durable :
    ¬ ∀ (calls : List Upsert) (baseId : String),
      tombstoned baseId (calls.flatMap Upsert.writes) = true →
        NoLive baseId (afterCalls calls) := by
  intro h
  have hnoLive := h lateVersion "2401.00001" (by decide)
  cases hpaper : (afterCalls lateVersion).getPaper "2401.00001v1" with
  | none =>
      have hlive := lateVersion_live
      rw [hpaper] at hlive
      cases hlive
  | some paper =>
      have hlive := lateVersion_live
      rw [hpaper, Option.map_some, hnoLive.getPaper "2401.00001v1" paper ⟨by decide, by decide⟩
        hpaper] at hlive
      cases hlive

end Tombstones
end Huldra
