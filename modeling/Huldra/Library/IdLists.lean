import Huldra.Library.Readable

/-!
# IdLists — which papers a list of ids is completed with

An id list is completed in four places.  Three of them take every paper from the store, one merges
the papers of a response with the stored ones; the merge, the order and the repeated papers are
treated differently.  Here is what each of them comes to, as a function of the stored rows and of
the response.
-/

namespace Huldra

/-! ## First occurrences -/

section Dups

variable {α : Type} [DecidableEq α]

theorem eraseDups_of_nodup : ∀ {xs : List α}, xs.Nodup → xs.eraseDups = xs
  | [], _ => rfl
  | x :: xs, h => by
      rw [List.nodup_cons] at h
      have hkeep : xs.filter (fun y => !y == x) = xs := by
        rw [List.filter_eq_self]
        intro y hy
        have hne : y ≠ x := fun heq => h.1 (heq ▸ hy)
        simpa using hne
      rw [List.eraseDups_cons, hkeep, eraseDups_of_nodup h.2]

theorem length_eraseDups_le (xs : List α) : xs.eraseDups.length ≤ xs.length := by
  induction hn : xs.length using Nat.strongRecOn generalizing xs with
  | _ n ih =>
      cases xs with
      | nil => simp
      | cons x xs =>
          have hfilter := List.length_filter_le (fun y => !y == x) xs
          have hrest := ih _ (by simp at hn; omega) (xs.filter fun y => !y == x) rfl
          rw [List.eraseDups_cons, List.length_cons]
          simp only [List.length_cons] at hn
          omega

theorem nodup_eraseDups (xs : List α) : xs.eraseDups.Nodup := by
  induction hn : xs.length using Nat.strongRecOn generalizing xs with
  | _ n ih =>
      cases xs with
      | nil => simp
      | cons x xs =>
          have hfilter := List.length_filter_le (fun y => !y == x) xs
          rw [List.length_cons] at hn
          rw [List.eraseDups_cons, List.nodup_cons]
          refine ⟨?_, ih _ (by omega) _ rfl⟩
          simp [List.mem_eraseDups]

/-- Erasing repetitions shortens a list unless there are none. -/
theorem nodup_of_length_eraseDups : ∀ {xs : List α}, xs.eraseDups.length = xs.length → xs.Nodup
  | [], _ => List.nodup_nil
  | x :: xs, h => by
      have hfilter := List.length_filter_le (fun y => !y == x) xs
      have hle := length_eraseDups_le (xs.filter fun y => !y == x)
      rw [List.eraseDups_cons, List.length_cons, List.length_cons] at h
      have hkeep : xs.filter (fun y => !y == x) = xs := by
        apply List.filter_eq_self.2
        exact List.length_filter_eq_length_iff.1 (by omega)
      rw [hkeep] at h
      refine List.nodup_cons.2 ⟨?_, nodup_of_length_eraseDups (by omega)⟩
      intro hmem
      have hne := List.filter_eq_self.1 hkeep x hmem
      simp at hne

end Dups

namespace LibraryTables

/-! ## Where a paper goes -/

/-- The id of the row an upsert of the paper writes. -/
def rowId (l : LibraryTables) (paper : ArxivPaper) : String :=
  (l.legacyPaperForExistingOaiBaseRow paper).arxivId

/-- A paper that carries an OAI identifier is the stored one. -/
def Settled (l : LibraryTables) (paper : ArxivPaper) : Prop :=
  paper.oaiIdentifier.isSome →
    ((l.paper? paper.arxivId).any fun row => row.oaiIdentifier.isSome) = true

/-- The family has a base row from OAI and no row of a version. -/
structure BaseAlone (l : LibraryTables) (baseId : String) : Prop where
  base : ((l.paper? baseId).any fun row => row.oaiIdentifier.isSome) = true
  alone : ∀ id, (l.paper? id).isSome → inVersionFamily baseId id = true →
    Keys.arxivVersion id = none

theorem isSome_of_any {α : Type} {o : Option α} {p : α → Bool} (h : o.any p = true) : o.isSome := by
  cases o with
  | none => simp at h
  | some a => rfl

theorem baseAlone_iff (l : LibraryTables) (arxivId : String) :
    l.BaseAlone (Keys.arxivIdFamilyBase arxivId) ↔
      ((l.paperArxivIdsInVersionFamily arxivId).contains (Keys.arxivIdFamilyBase arxivId) &&
        !((l.paperArxivIdsInVersionFamily arxivId).any fun id => (Keys.arxivVersion id).isSome) &&
        (l.paper? (Keys.arxivIdFamilyBase arxivId)).any fun row => row.oaiIdentifier.isSome) =
          true := by
  simp only [Bool.and_eq_true, List.contains_iff_mem, Bool.not_eq_true', List.any_eq_false,
    mem_paperArxivIdsInVersionFamily, Bool.not_eq_true, Option.isSome_eq_false_iff,
    Option.isNone_iff_eq_none]
  constructor
  · rintro ⟨hbase, hnone⟩
    refine ⟨⟨⟨?_, ?_⟩, fun id hid => hnone id hid.1 hid.2⟩, hbase⟩
    · exact isSome_of_any hbase
    · simp [inVersionFamily]
  · rintro ⟨⟨_, hnone⟩, hbase⟩
    exact ⟨hbase, fun id hid hfamily => hnone id ⟨hid, hfamily⟩⟩

/-- The paper is a versioned legacy paper, and its family has only the base row. -/
structure GoesToBase (l : LibraryTables) (paper : ArxivPaper) : Prop where
  legacy : paper.oaiIdentifier = none
  versioned : (Keys.arxivVersion paper.arxivId).isSome
  alone : l.BaseAlone (Keys.arxivIdFamilyBase paper.arxivId)

theorem legacyPaper_base {l : LibraryTables} {paper : ArxivPaper} (h : l.GoesToBase paper) :
    l.legacyPaperForExistingOaiBaseRow paper =
      { paper with
        arxivId := Keys.arxivIdFamilyBase paper.arxivId
        version := Keys.arxivVersion (Keys.arxivIdFamilyBase paper.arxivId)
        canonicalUrl := canonicalUrl (Keys.arxivIdFamilyBase paper.arxivId) } := by
  have hversioned : (Keys.arxivVersion paper.arxivId).isNone = false := by
    simpa [Option.isNone_iff_eq_none, Option.isSome_iff_ne_none] using h.versioned
  unfold legacyPaperForExistingOaiBaseRow
  rw [if_neg (by simp [h.legacy, hversioned])]
  exact if_pos ((baseAlone_iff l paper.arxivId).1 h.alone)

theorem legacyPaper_own {l : LibraryTables} {paper : ArxivPaper} (h : ¬ l.GoesToBase paper) :
    l.legacyPaperForExistingOaiBaseRow paper = paper := by
  unfold legacyPaperForExistingOaiBaseRow
  split
  case isTrue => rfl
  case isFalse hlegacy =>
    simp only [Bool.or_eq_true, not_or, Bool.not_eq_true, Option.isSome_eq_false_iff,
      Option.isNone_iff_eq_none] at hlegacy
    refine if_neg fun halone => h ⟨hlegacy.1, Option.isSome_iff_ne_none.2 hlegacy.2, ?_⟩
    exact (baseAlone_iff l paper.arxivId).2 halone

@[simp] theorem legacyPaper_oaiIdentifier (l : LibraryTables) (paper : ArxivPaper) :
    (l.legacyPaperForExistingOaiBaseRow paper).oaiIdentifier = paper.oaiIdentifier := by
  by_cases h : l.GoesToBase paper
  · rw [legacyPaper_base h]
  · rw [legacyPaper_own h]

theorem rowId_base {l : LibraryTables} {paper : ArxivPaper} (h : l.GoesToBase paper) :
    l.rowId paper = Keys.arxivIdFamilyBase paper.arxivId := by
  rw [rowId, legacyPaper_base h]

theorem rowId_own {l : LibraryTables} {paper : ArxivPaper} (h : ¬ l.GoesToBase paper) :
    l.rowId paper = paper.arxivId := by
  rw [rowId, legacyPaper_own h]

/-! ## One upsert, and where the next paper goes -/

/-- Whether a row came from OAI does not change with an upsert of a settled paper. -/
theorem any_oai_upsertPaper {l : LibraryTables} {paper : ArxivPaper} (h : l.Settled paper)
    (timestamp : Int) (arxivId : String) :
    (((l.upsertPaper paper timestamp).2.paper? arxivId).any fun row => row.oaiIdentifier.isSome) =
      (l.paper? arxivId).any fun row => row.oaiIdentifier.isSome := by
  rw [paper?_upsertPaper]
  split
  case isFalse => rfl
  case isTrue hrow =>
    cases hoai : paper.oaiIdentifier with
    | some identifier =>
        -- The paper is stored already, under its own id.
        have hown : ¬ l.GoesToBase paper := fun hbase => by simp [hbase.legacy] at hoai
        have hid : arxivId = paper.arxivId := hrow.trans (rowId_own hown)
        have hstored := h (by simp [hoai])
        rw [← hid] at hstored
        rw [hstored]
        cases hold : l.paper? arxivId with
        | none => simp [hold] at hstored
        | some old => simp [storedRow, mergePaperRow, hoai]
    | none =>
        cases hold : l.paper? arxivId with
        | none => simp [storedRow, hoai]
        | some old => simp [storedRow, mergePaperRow, hoai]

theorem Settled.upsert {l : LibraryTables} {paper other : ArxivPaper} (h : l.Settled paper)
    (timestamp : Int) (hother : l.Settled other) :
    (l.upsertPaper paper timestamp).2.Settled other := by
  intro hoai
  rw [any_oai_upsertPaper h]
  exact hother hoai

/-- A base row stays alone: a paper of its family goes to it. -/
theorem baseAlone_upsertPaper {l : LibraryTables} {paper : ArxivPaper} (h : l.Settled paper)
    (timestamp : Int) (baseId : String) :
    (l.upsertPaper paper timestamp).2.BaseAlone baseId ↔ l.BaseAlone baseId := by
  constructor
  · intro hafter
    refine ⟨by simpa [any_oai_upsertPaper h] using hafter.base, ?_⟩
    intro id hid hfamily
    exact hafter.alone id (upsertPaper_retains l paper timestamp id hid) hfamily
  · intro hbefore
    refine ⟨by simpa [any_oai_upsertPaper h] using hbefore.base, ?_⟩
    intro id hid hfamily
    by_cases hold : (l.paper? id).isSome
    · exact hbefore.alone id hold hfamily
    -- The row is new, so it is the paper's own, and not one of this family's versions.
    have hrow : id = l.rowId paper := by
      rw [paper?_upsertPaper] at hid
      split at hid
      case isTrue hrow => exact hrow
      case isFalse => exact absurd hid hold
    have hown : ¬ l.GoesToBase paper := by
      intro hbase
      apply hold
      rw [hrow, rowId_base hbase]
      exact isSome_of_any hbase.alone.base
    rw [rowId_own hown] at hrow
    subst hrow
    have hlegacy : paper.oaiIdentifier = none := by
      by_contra hne
      exact hold (isSome_of_any (h (Option.isSome_iff_ne_none.2 hne)))
    by_contra hversion
    apply hown
    refine ⟨hlegacy, Option.isSome_iff_ne_none.2 hversion, ?_⟩
    simp only [inVersionFamily, Bool.and_eq_true, Bool.or_eq_true, decide_eq_true_eq] at hfamily
    rcases hfamily.2 with heq | heq
    · rw [heq] at hold
      exact absurd (isSome_of_any hbefore.base) hold
    · rw [heq]
      exact hbefore

theorem rowId_upsertPaper {l : LibraryTables} {paper : ArxivPaper} (h : l.Settled paper)
    (timestamp : Int) (other : ArxivPaper) :
    (l.upsertPaper paper timestamp).2.rowId other = l.rowId other := by
  have hiff : (l.upsertPaper paper timestamp).2.GoesToBase other ↔ l.GoesToBase other := by
    constructor
    · rintro ⟨hlegacy, hversioned, halone⟩
      exact ⟨hlegacy, hversioned, (baseAlone_upsertPaper h timestamp _).1 halone⟩
    · rintro ⟨hlegacy, hversioned, halone⟩
      exact ⟨hlegacy, hversioned, (baseAlone_upsertPaper h timestamp _).2 halone⟩
  by_cases hbase : l.GoesToBase other
  · rw [rowId_base hbase, rowId_base (hiff.2 hbase)]
  · rw [rowId_own hbase, rowId_own fun hafter => hbase (hiff.1 hafter)]

/-- The ids a list of settled papers is stored under are decided before the first upsert. -/
theorem upsertPapers_rows (timestamp : Int) {papers : List ArxivPaper} :
    ∀ {l : LibraryTables}, (∀ paper ∈ papers, l.Settled paper) →
      (l.upsertPapers papers timestamp).1 = papers.map l.rowId := by
  induction papers with
  | nil =>
      intro l _
      rfl
  | cons paper papers ih =>
      intro l hsettled
      have hpaper := hsettled paper List.mem_cons_self
      have hrest := ih fun p hp =>
        hpaper.upsert timestamp (hsettled p (List.mem_cons_of_mem paper hp))
      have hsame : (l.upsertPaper paper timestamp).2.rowId = l.rowId :=
        funext (rowId_upsertPaper hpaper timestamp)
      rw [upsertPapers_cons, hrest, hsame, upsertPaper_fst, List.map_cons]
      rfl

end LibraryTables

/-! ## Dictionaries of papers -/

namespace PaperDict

theorem get?_set (papers : PaperDict) (arxivId : String) (paper : ArxivPaper) (id : String) :
    (papers.set arxivId paper).get? id = if id = arxivId then some paper else papers.get? id := by
  unfold set
  split
  case isTrue hstored =>
    have hkeys : ((fun entry : String × ArxivPaper => decide (entry.1 = id)) ∘
        fun entry => if entry.1 = arxivId then (arxivId, paper) else entry) =
          fun entry => decide (entry.1 = id) := by
      funext entry
      by_cases hentry : entry.1 = arxivId <;> simp [hentry]
    unfold get? at hstored ⊢
    rw [List.find?_map, hkeys]
    split
    case isTrue hid =>
      subst hid
      rcases Option.isSome_iff_exists.1 hstored with ⟨_, hfound⟩
      rcases Option.map_eq_some_iff.1 hfound with ⟨entry, hentry, _⟩
      have hkey : entry.1 = id := by simpa using List.find?_some hentry
      simp [hentry, hkey]
    case isFalse hid =>
      cases hentry : papers.find? fun entry => entry.1 = id with
      | none => rfl
      | some entry =>
          have hkey : entry.1 = id := by simpa using List.find?_some hentry
          have hne : entry.1 ≠ arxivId := fun heq => hid (hkey.symm.trans heq)
          simp [hne]
  case isFalse hstored =>
    have hnone : papers.find? (fun entry => entry.1 = arxivId) = none :=
      Option.map_eq_none_iff.1 (Option.not_isSome_iff_eq_none.1 hstored)
    unfold get?
    rw [List.find?_append]
    split
    case isTrue hid => simp [hid, hnone]
    case isFalse hid =>
      have hne : arxivId ≠ id := fun heq => hid heq.symm
      simp [hne]

theorem get?_setDefault (papers : PaperDict) (arxivId : String) (paper : ArxivPaper)
    (id : String) : (papers.setDefault arxivId paper).get? id =
      (papers.get? id).or (if id = arxivId then some paper else none) := by
  unfold setDefault
  split
  case isTrue hstored =>
    split
    case isTrue hid =>
      subst hid
      rcases Option.isSome_iff_exists.1 hstored with ⟨_, hfound⟩
      simp [hfound]
    case isFalse => simp
  case isFalse =>
    unfold get?
    rw [List.find?_append]
    by_cases hid : id = arxivId
    · subst hid
      cases papers.find? fun entry => entry.1 = id with
      | none => simp
      | some entry => simp
    · have hne : arxivId ≠ id := fun heq => hid heq.symm
      simp [hid, hne]

end PaperDict

namespace IdLists

/-! ## The merge -/

/-- The paper goes by this very id. -/
def names (arxivId : String) (paper : ArxivPaper) : Bool :=
  Keys.normalizeArxivId paper.arxivId = arxivId

/-- The id is the paper's without its version. -/
def isVersionOf (arxivId : String) (paper : ArxivPaper) : Bool :=
  !names arxivId paper && Worker.versionlessArxivId (Keys.normalizeArxivId paper.arxivId) = arxivId

theorem get?_addIdListPaperLookup (lookup : PaperDict) (paper : ArxivPaper) (id : String) :
    (Worker.addIdListPaperLookup lookup paper).get? id =
      if names id paper then some paper
      else (lookup.get? id).or (if isVersionOf id paper then some paper else none) := by
  unfold Worker.addIdListPaperLookup names isVersionOf names
  dsimp only
  generalize Keys.normalizeArxivId paper.arxivId = arxivId
  by_cases hnamed : arxivId = id
  · subst hnamed
    split
    · simp [PaperDict.get?_setDefault, PaperDict.get?_set]
    · simp [PaperDict.get?_set]
  · have hid : id ≠ arxivId := fun heq => hnamed heq.symm
    split
    case isTrue =>
      simp [PaperDict.get?_setDefault, PaperDict.get?_set, hid, hnamed, eq_comm]
    case isFalse hsame =>
      have hversionless : Worker.versionlessArxivId arxivId ≠ id := by
        rw [Classical.not_not.1 hsame]
        exact hnamed
      simp [PaperDict.get?_set, hid, hnamed, hversionless]

/-- After a list of papers an id has the last one that goes by it; else what it had; else the first
of which it is the versionless id. -/
theorem get?_foldl_lookup (id : String) (papers : List ArxivPaper) :
    ∀ lookup : PaperDict, (papers.foldl Worker.addIdListPaperLookup lookup).get? id =
      ((papers.reverse.find? (names id)).or (lookup.get? id)).or
        (papers.find? (isVersionOf id)) := by
  induction papers with
  | nil =>
      intro lookup
      simp
  | cons paper papers ih =>
      intro lookup
      rw [List.foldl_cons, ih, get?_addIdListPaperLookup, List.reverse_cons, List.find?_append]
      cases hnamed : names id paper with
      | true =>
          have hnot : isVersionOf id paper = false := by simp [isVersionOf, hnamed]
          cases papers.reverse.find? (names id) with
          | some last => simp
          | none => simp [hnamed]
      | false =>
          cases hversion : isVersionOf id paper with
          | true =>
              cases papers.reverse.find? (names id) with
              | some last => simp
              | none => cases lookup.get? id with
                | some old => simp [hversion, hnamed]
                | none => simp [hversion, hnamed]
          | false => simp [hversion, hnamed]

/-- The ids an id list asks for, each once. -/
def requestedIds (request : ArxivRequest) : List String :=
  (request.idList.map Keys.normalizeArxivId).eraseDups

theorem requestedIds_nodup (request : ArxivRequest) : (requestedIds request).Nodup :=
  nodup_eraseDups _

/-- The stored papers that answer a list of ids. -/
def storedPapers (l : LibraryTables) (ids : List String) : List ArxivPaper :=
  ids.filterMap l.getPaper

/-- The paper an id is met with: one that goes by the very id, listed or stored; else what the store
answers; else the first version of it, stored ones before listed ones. -/
def met (l : LibraryTables) (listed : List ArxivPaper) (ids : List String) (id : String) :
    Option ArxivPaper :=
  (listed.reverse.find? (names id)).or
    (((storedPapers l ids).reverse.find? (names id)).or
      ((l.getPaper id).or
        (((storedPapers l ids).find? (isVersionOf id)).or (listed.find? (isVersionOf id)))))

private theorem find?_pairs (f : String → Option ArxivPaper) {id : String} {ids : List String}
    (hid : id ∈ ids) :
    PaperDict.get? (ids.filterMap fun x => (f x).map fun paper => (x, paper)) id = f id := by
  induction ids with
  | nil => cases hid
  | cons x ids ih =>
      unfold PaperDict.get? at ih ⊢
      by_cases hx : x = id
      · subst hx
        cases hfx : f x with
        | some paper => simp [hfx]
        | none =>
            have hnone : (ids.filterMap fun x => (f x).map fun paper => (x, paper)).find?
                (fun entry => decide (entry.1 = x)) = none := by
              apply List.find?_eq_none.2
              intro entry hentry
              rcases List.mem_filterMap.1 hentry with ⟨y, _, hy⟩
              rcases Option.map_eq_some_iff.1 hy with ⟨paper, hpaper, rfl⟩
              have hne : y ≠ x := by
                rintro rfl
                simp [hfx] at hpaper
              simpa using hne
            simp [hfx, hnone]
      · have hmem : id ∈ ids := by
          rcases List.mem_cons.1 hid with rfl | hmem
          · exact absurd rfl hx
          · exact hmem
        cases hfx : f x with
        | some paper => simpa [hfx, hx] using ih hmem
        | none => simpa [hfx] using ih hmem

theorem get?_getPapersByIds {l : LibraryTables} {ids : List String} {id : String} (hid : id ∈ ids) :
    PaperDict.get? (l.getPapersByIds ids) id = l.getPaper id :=
  find?_pairs l.getPaper (List.mem_eraseDups.2 hid)

theorem values_getPapersByIds {l : LibraryTables} {ids : List String} (hnodup : ids.Nodup) :
    (l.getPapersByIds ids).map Prod.snd = storedPapers l ids := by
  unfold LibraryTables.getPapersByIds storedPapers
  rw [eraseDups_of_nodup hnodup, List.map_filterMap]
  congr 1
  funext id
  cases l.getPaper id with
  | none => rfl
  | some paper => rfl

/-- The merge meets each requested id as `met` says. -/
theorem idListPaperLookup_met {l : LibraryTables} {listed : List ArxivPaper} {ids : List String}
    (hnodup : ids.Nodup) {id : String} (hid : id ∈ ids) :
    (Worker.idListPaperLookup (l.getPapersByIds ids) listed).get? id = met l listed ids id := by
  unfold Worker.idListPaperLookup met
  rw [get?_foldl_lookup, values_getPapersByIds hnodup, get?_foldl_lookup,
    get?_getPapersByIds hid]
  simp only [Option.or_assoc]

/-! ## The order -/

/-- A paper is kept where none of its id has been. -/
def addOnce (acc : List ArxivPaper) (paper : ArxivPaper) : List ArxivPaper :=
  if acc.any fun p => p.arxivId = paper.arxivId then acc else acc ++ [paper]

/-- The papers of `_ordered_id_list_papers`: the first of each id. -/
def oncePerId (papers : List ArxivPaper) : List ArxivPaper :=
  papers.foldl addOnce []

private theorem foldl_addOnce_of_nodup {papers : List ArxivPaper} :
    ∀ acc : List ArxivPaper, ((acc ++ papers).map (·.arxivId)).Nodup →
      papers.foldl addOnce acc = acc ++ papers := by
  induction papers with
  | nil =>
      intro acc _
      simp
  | cons paper papers ih =>
      intro acc hnodup
      have hnew : addOnce acc paper = acc ++ [paper] := by
        rw [List.map_append, List.nodup_append] at hnodup
        apply if_neg
        simp only [List.any_eq_true, decide_eq_true_eq, not_exists, not_and]
        intro p hp
        exact hnodup.2.2 p.arxivId (List.mem_map_of_mem hp) paper.arxivId (by simp)
      have hrest := ih (acc ++ [paper]) (by simpa using hnodup)
      rw [List.foldl_cons, hnew, hrest]
      simp

private theorem length_foldl_addOnce {papers : List ArxivPaper} :
    ∀ acc : List ArxivPaper,
      (papers.foldl addOnce acc).length ≤ acc.length + papers.length ∧
      ((papers.foldl addOnce acc).length = acc.length + papers.length →
        (acc.map (·.arxivId)).Nodup → ((acc ++ papers).map (·.arxivId)).Nodup) := by
  induction papers with
  | nil =>
      intro acc
      simp
  | cons paper papers ih =>
      intro acc
      rw [List.foldl_cons, List.length_cons]
      by_cases hseen : acc.any fun p => p.arxivId = paper.arxivId
      · -- One paper fewer: the lengths cannot agree any more.
        have hrest := (ih acc).1
        rw [addOnce, if_pos hseen]
        exact ⟨by omega, fun heq => by omega⟩
      · have hrest := ih (acc ++ [paper])
        rw [addOnce, if_neg hseen]
        simp only [List.length_append, List.length_cons, List.length_nil, List.append_assoc,
          List.cons_append, List.nil_append] at hrest
        refine ⟨by omega, ?_⟩
        intro heq hnodup
        refine hrest.2 (by omega) ?_
        simp only [List.any_eq_true, decide_eq_true_eq, not_exists, not_and] at hseen
        rw [List.map_append, List.nodup_append]
        refine ⟨hnodup, by simp, ?_⟩
        intro a ha b hb
        rcases List.mem_map.1 ha with ⟨p, hp, rfl⟩
        have hb' : b = paper.arxivId := by simpa using hb
        rw [hb']
        exact hseen p hp

theorem oncePerId_of_nodup {papers : List ArxivPaper} (h : (papers.map (·.arxivId)).Nodup) :
    oncePerId papers = papers :=
  foldl_addOnce_of_nodup [] h

theorem nodup_of_length_oncePerId {papers : List ArxivPaper}
    (h : (oncePerId papers).length = papers.length) : (papers.map (·.arxivId)).Nodup := by
  refine (length_foldl_addOnce []).2 ?_ List.nodup_nil
  rw [List.length_nil, Nat.zero_add]
  exact h

/-! ## What a completion leaves -/

/-- What a completed entry says of its window. -/
structure Outcome where
  matchedIds : List String
  resultCount : Nat
  totalResults : Option Nat
  deriving DecidableEq, Repr

/-- The entry of the key, and its matches in order. -/
def outcome? (l : LibraryTables) (cacheKey : CacheKey) : Option Outcome :=
  (l.cacheEntryOf? cacheKey).map fun entry =>
    { matchedIds := ((l.matchesOf cacheKey).insertionSort
        fun a b => a.sortPosition ≤ b.sortPosition).map (·.arxivId)
      resultCount := entry.resultCount
      totalResults := entry.totalResults }

/-- What recording these papers comes to, by the rows they go to. -/
def completion (l : LibraryTables) (papers : List ArxivPaper) (totalResults : Option Nat) :
    Outcome :=
  { matchedIds := (papers.map l.rowId).eraseDups
    resultCount := (papers.map l.rowId).eraseDups.length
    totalResults := totalResults }

theorem outcome?_recordCompletedCacheEntry {l : LibraryTables}
    {w : LibraryTables.CompletedCacheWrite} (h : ∀ paper ∈ w.papers, l.Settled paper) :
    outcome? (l.recordCompletedCacheEntry w) w.cacheKey =
      some (completion l w.papers w.totalResults) := by
  have hrows := LibraryTables.upsertPapers_rows w.completedAt h
  have hsorted : (l.completionMatches w).insertionSort
      (fun a b => a.sortPosition ≤ b.sortPosition) = l.completionMatches w := by
    apply List.Pairwise.insertionSort_eq
    have hpositions : ((l.completionMatches w).map (·.sortPosition)).Pairwise (· ≤ ·) := by
      have hrange := (LibraryTables.completion_intact l w).numbered
      rw [show (l.completionEntry w).cacheKey = w.cacheKey from rfl,
        LibraryTables.matchesOf_recordCompletedCacheEntry] at hrange
      rw [hrange]
      exact List.pairwise_le_range
    exact List.pairwise_map.1 hpositions
  have hids : (l.completionMatches w).map (·.arxivId) = (w.papers.map l.rowId).eraseDups := by
    simp [LibraryTables.completionMatches, hrows, Function.comp_def, List.zipIdx_map_fst]
  unfold outcome?
  rw [LibraryTables.cacheEntryOf?_recordCompletedCacheEntry,
    LibraryTables.matchesOf_recordCompletedCacheEntry, hsorted, hids]
  simp [completion, LibraryTables.completionEntry, hrows]

/-! ## The two outcomes -/

/-- What is left by the three ways that take every paper from the store. -/
def cachedOutcome (l : LibraryTables) (request : ArxivRequest) : Outcome :=
  let papers := storedPapers l (requestedIds request)
  completion l papers (some papers.length)

/-- What is left by the merge of the stored papers with the listed ones. -/
def mergedOutcome (l : LibraryTables) (listed : List ArxivPaper) (request : ArxivRequest) :
    Outcome :=
  let ids := requestedIds request
  let papers := oncePerId (ids.filterMap (met l listed ids))
  completion l papers (some papers.length)

/-- Everything is stored: the papers that were listed as well. -/
def whole (l : LibraryTables) (listed : List ArxivPaper) (timestamp : Int) : LibraryTables :=
  (l.upsertPapers listed timestamp).2

/-- The stored versions of a versionless id. -/
def versionsOf (l : LibraryTables) (arxivId : String) : List String :=
  let baseId := Keys.arxivIdFamilyBase arxivId
  (l.papers.map (·.arxivId)).filter fun id =>
    LibraryTables.likePrefix (baseId ++ "v") id && (Keys.arxivVersion id).isSome &&
      Keys.arxivIdFamilyBase id = baseId

/-- The row is the id's own, or of no lower version than any other. -/
def Highest (l : LibraryTables) (arxivId row : String) : Prop :=
  if (l.paper? arxivId).isSome then row = arxivId
  else ∀ id ∈ versionsOf l arxivId, LibraryTables.mergeVersion id ≤ LibraryTables.mergeVersion row

/-- All ways of completing the request agree, for this split of the papers. -/
structure PathsAgree (l : LibraryTables) (listed : List ArxivPaper) (timestamp : Int)
    (request : ArxivRequest) : Prop where
  same : mergedOutcome l listed request = cachedOutcome (whole l listed timestamp) request
  counted : (cachedOutcome (whole l listed timestamp) request).totalResults =
    some (cachedOutcome (whole l listed timestamp) request).resultCount
  highest : ∀ id ∈ requestedIds request, Keys.arxivVersion id = none →
    (∀ paper, (whole l listed timestamp).getPaper id = some paper →
      Highest (whole l listed timestamp) id paper.arxivId) ∧
    ∀ paper, met l listed (requestedIds request) id = some paper →
      Highest (whole l listed timestamp) id (l.rowId paper)

/-- The row an id comes to: its own, the base row of its family, or the highest version stored. -/
def ComesTo (l : LibraryTables) (arxivId row : String) : Prop :=
  match l.paper? arxivId with
  | some own => row = l.rowId own.toArxivPaper
  | none =>
      if (Keys.arxivVersion arxivId).isSome then row = Keys.arxivIdFamilyBase arxivId
      else row ∈ versionsOf l arxivId ∧
        ∀ id ∈ versionsOf l arxivId,
          LibraryTables.mergePreference id ≤ LibraryTables.mergePreference row

/-- No id is requested beside another that comes to the same row, as a versionless one and its
highest version do, or that is met with a paper of the same id; and each id is met with a paper of
the row it comes to when everything is stored, a versionless one without a row of its own with the
highest version. -/
structure Unambiguous (l : LibraryTables) (listed : List ArxivPaper) (timestamp : Int)
    (request : ArxivRequest) : Prop where
  onePaperEach : ∀ id ∈ requestedIds request, ∀ other ∈ requestedIds request, ∀ arxivId,
    (met l listed (requestedIds request) id).map (·.arxivId) = some arxivId →
      (met l listed (requestedIds request) other).map (·.arxivId) = some arxivId → id = other
  oneRowEach : ∀ id ∈ requestedIds request, ∀ other ∈ requestedIds request, ∀ row,
    ComesTo (whole l listed timestamp) id row → ComesTo (whole l listed timestamp) other row →
      id = other
  firstIsHighest : ∀ id ∈ requestedIds request, ∀ paper,
    met l listed (requestedIds request) id = some paper →
      ComesTo (whole l listed timestamp) id (l.rowId paper)

section Agreement

variable {l : LibraryTables} {listed : List ArxivPaper} {timestamp : Int} {request : ArxivRequest}

theorem settled_of_getPaper {id : String} {paper : ArxivPaper} (h : l.getPaper id = some paper) :
    l.Settled paper := by
  intro hoai
  rcases LibraryTables.getPaper_row h with ⟨row, hrow, rfl⟩
  simpa [hrow] using hoai

theorem settled_of_mem_stored {ids : List String} {paper : ArxivPaper}
    (h : paper ∈ storedPapers l ids) : l.Settled paper := by
  rcases List.mem_filterMap.1 h with ⟨id, _, hpaper⟩
  exact settled_of_getPaper hpaper

/-- What an id is met with was listed or is stored. -/
theorem met_cases {ids : List String} {id : String} {paper : ArxivPaper}
    (h : met l listed ids id = some paper) : paper ∈ listed ∨ l.Settled paper := by
  unfold met at h
  rcases Option.or_eq_some_iff.1 h with h | ⟨_, h⟩
  · exact Or.inl (by simpa using List.mem_of_find?_eq_some h)
  rcases Option.or_eq_some_iff.1 h with h | ⟨_, h⟩
  · exact Or.inr (settled_of_mem_stored (by simpa using List.mem_of_find?_eq_some h))
  rcases Option.or_eq_some_iff.1 h with h | ⟨_, h⟩
  · exact Or.inr (settled_of_getPaper h)
  rcases Option.or_eq_some_iff.1 h with h | ⟨_, h⟩
  · exact Or.inr (settled_of_mem_stored (List.mem_of_find?_eq_some h))
  · exact Or.inl (List.mem_of_find?_eq_some h)

theorem settled_of_met (hlegacy : ∀ paper ∈ listed, paper.oaiIdentifier = none) {ids : List String}
    {id : String} {paper : ArxivPaper} (h : met l listed ids id = some paper) :
    l.Settled paper := by
  rcases met_cases h with hlisted | hsettled
  · intro hoai
    simp [hlegacy paper hlisted] at hoai
  · exact hsettled

theorem length_filterMap_of_isSome {α β : Type} {f : α → Option β} {xs : List α}
    (h : ∀ x ∈ xs, (f x).isSome) : (xs.filterMap f).length = xs.length := by
  induction xs with
  | nil => rfl
  | cons x xs ih =>
      rcases Option.isSome_iff_exists.1 (h x List.mem_cons_self) with ⟨y, hy⟩
      simp [hy, ih fun z hz => h z (List.mem_cons_of_mem x hz)]

/-- Lists of answers agree where the answers do. -/
theorem filterMap_eq_iff {α β : Type} {f g : α → Option β} {xs : List α}
    (hf : ∀ x ∈ xs, (f x).isSome) (hg : ∀ x ∈ xs, (g x).isSome) :
    xs.filterMap f = xs.filterMap g ↔ ∀ x ∈ xs, f x = g x := by
  induction xs with
  | nil => simp
  | cons x xs ih =>
      rcases Option.isSome_iff_exists.1 (hf x List.mem_cons_self) with ⟨y, hy⟩
      rcases Option.isSome_iff_exists.1 (hg x List.mem_cons_self) with ⟨z, hz⟩
      have hrest := ih (fun a ha => hf a (List.mem_cons_of_mem x ha))
        (fun a ha => hg a (List.mem_cons_of_mem x ha))
      simp [hy, hz, hrest]

/-- A read of a versionless id without a row finds the preferred one of its versions. -/
theorem getPaper_preferred {id : String} {paper : ArxivPaper}
    (hversionless : Keys.arxivVersion id = none) (hown : l.paper? id = none)
    (h : l.getPaper id = some paper) :
    ∃ first rest, versionsOf l id = first :: rest ∧
      paper.arxivId = LibraryTables.preferredId first rest ∧ ¬ l.GoesToBase paper := by
  unfold LibraryTables.getPaper at h
  rcases Option.map_eq_some_iff.1 h with ⟨row, hrow, rfl⟩
  have hlatest : l.latestVersionedPaperRowForBaseRead id = some row := by
    simpa [hown, LibraryTables.oaiBasePaperRowForVersionedRead, hversionless] using hrow
  unfold LibraryTables.latestVersionedPaperRowForBaseRead at hlatest
  simp only [hversionless, Option.isSome_none, Bool.false_eq_true, if_false] at hlatest
  rw [← versionsOf] at hlatest
  cases hversions : versionsOf l id with
  | nil => simp [hversions] at hlatest
  | cons first rest =>
      rw [hversions] at hlatest
      dsimp only at hlatest
      have hid := LibraryTables.paper?_arxivId hlatest
      refine ⟨first, rest, rfl, hid, ?_⟩
      -- The row is a version of its family, which therefore has no base row alone.
      intro hbase
      have hmem := LibraryTables.preferredId_mem first rest
      rw [← hversions, versionsOf, List.mem_filter, ← hid] at hmem
      simp only [Bool.and_eq_true, decide_eq_true_eq] at hmem
      have hnone := hbase.alone.alone row.arxivId (by rw [hid, hlatest]; rfl)
        (by simp [LibraryTables.inVersionFamily, hmem.2.2, hmem.2.1.1])
      simp [hnone] at hmem

theorem getPaper_own {id : String} {own : PaperRow} (hown : l.paper? id = some own) :
    l.getPaper id = some own.toArxivPaper := by
  simp [LibraryTables.getPaper, hown]

/-- A read of a versionless id finds its own row, or the highest version. -/
theorem getPaper_highest {id : String} {paper : ArxivPaper}
    (hversionless : Keys.arxivVersion id = none) (h : l.getPaper id = some paper) :
    Highest l id paper.arxivId ∧ ¬ l.GoesToBase paper := by
  cases hown : l.paper? id with
  | some own =>
      have hpaper : own.toArxivPaper = paper := Option.some.inj ((getPaper_own hown).symm.trans h)
      have hid : paper.arxivId = id := by rw [← hpaper, LibraryTables.paper?_arxivId hown]
      refine ⟨?_, ?_⟩
      · unfold Highest
        rw [if_pos (by simp [hown]), hid]
      · intro hbase
        have hversioned := hbase.versioned
        rw [hid, hversionless] at hversioned
        cases hversioned
  | none =>
      rcases getPaper_preferred hversionless hown h with ⟨first, rest, hversions, hid, hnot⟩
      refine ⟨?_, hnot⟩
      unfold Highest
      rw [if_neg (by simp [hown]), hversions, hid]
      exact LibraryTables.mergeVersion_le_preferredId first rest

/-- A read answers with a paper of the row the id comes to. -/
theorem comesTo_getPaper {id : String} {paper : ArxivPaper} (h : l.getPaper id = some paper) :
    ComesTo l id (l.rowId paper) := by
  unfold ComesTo
  cases hown : l.paper? id with
  | some own =>
      have hpaper : own.toArxivPaper = paper := Option.some.inj ((getPaper_own hown).symm.trans h)
      exact congrArg l.rowId hpaper.symm
  | none =>
      cases hversion : Keys.arxivVersion id with
      | none =>
          rcases getPaper_preferred hversion hown h with ⟨first, rest, hversions, hid, hnot⟩
          rw [LibraryTables.rowId_own hnot, hid, hversions]
          exact ⟨LibraryTables.preferredId_mem first rest,
            LibraryTables.mergePreference_le_preferredId first rest⟩
      | some version =>
          rcases Option.map_eq_some_iff.1 h with ⟨row, hrow, rfl⟩
          -- No version of a versioned id is looked for: it is the base row.
          have hbase : l.oaiBasePaperRowForVersionedRead id = some row := by
            simpa [hown, LibraryTables.latestVersionedPaperRowForBaseRead, hversion] using hrow
          unfold LibraryTables.oaiBasePaperRowForVersionedRead at hbase
          dsimp only at hbase
          split at hbase
          case isTrue => cases hbase
          case isFalse =>
            rcases Option.filter_eq_some_iff.1 hbase with ⟨hstored, hoai⟩
            have hnot : ¬ l.GoesToBase row.toArxivPaper := fun hgoes => by
              rw [hgoes.legacy] at hoai
              cases hoai
            rw [LibraryTables.rowId_own hnot]
            exact LibraryTables.paper?_arxivId hstored

theorem ComesTo.unique {id row row' : String} (h : ComesTo l id row) (h' : ComesTo l id row') :
    row = row' := by
  unfold ComesTo at h h'
  cases hown : l.paper? id with
  | some own =>
      rw [hown] at h h'
      exact h.trans h'.symm
  | none =>
      rw [hown] at h h'
      dsimp only at h h'
      split at h
      case isTrue hversioned =>
        rw [if_pos hversioned] at h'
        exact h.trans h'.symm
      case isFalse hversionless =>
        rw [if_neg hversionless] at h'
        apply LibraryTables.mergePreference_injective
        exact le_antisymm (h'.2 row h.1) (h.2 row' h'.1)

theorem comesTo_iff {id row : String} (h : (l.getPaper id).isSome) :
    ComesTo l id row ↔ (l.getPaper id).map l.rowId = some row := by
  rcases Option.isSome_iff_exists.1 h with ⟨paper, hpaper⟩
  have hcomes := comesTo_getPaper hpaper
  rw [hpaper, Option.map_some, Option.some.injEq]
  constructor
  · exact fun hrow => hcomes.unique hrow
  · rintro rfl
    exact hcomes

/-- The answers to distinct keys differ exactly if no two keys have one answer. -/
theorem nodup_filterMap_iff {α β : Type} {f : α → Option β} {xs : List α} (hnodup : xs.Nodup) :
    (xs.filterMap f).Nodup ↔
      ∀ x ∈ xs, ∀ y ∈ xs, ∀ b, f x = some b → f y = some b → x = y := by
  constructor
  · intro hanswers
    induction xs with
    | nil => simp
    | cons first rest ih =>
        rw [List.nodup_cons] at hnodup
        have hrest : (rest.filterMap f).Nodup := by
          cases hfirst : f first with
          | none => simpa [hfirst] using hanswers
          | some a => exact (List.nodup_cons.1 (by simpa [hfirst] using hanswers)).2
        -- No key of the rest has the answer of the first.
        have hfresh : ∀ y ∈ rest, ∀ b, f first = some b → f y ≠ some b := by
          intro y hy b hfirst hanswer
          rw [List.filterMap_cons_some hfirst, List.nodup_cons] at hanswers
          exact hanswers.1 (List.mem_filterMap.2 ⟨y, hy, hanswer⟩)
        intro x hx y hy b hfx hfy
        rcases List.mem_cons.1 hx with rfl | hxrest
        · rcases List.mem_cons.1 hy with rfl | hyrest
          · rfl
          · exact absurd hfy (hfresh y hyrest b hfx)
        · rcases List.mem_cons.1 hy with rfl | hyrest
          · exact absurd hfx (hfresh x hxrest b hfy)
          · exact ih hnodup.2 hrest x hxrest y hyrest b hfx hfy
  · intro hone
    rw [List.Nodup, List.pairwise_filterMap]
    refine hnodup.imp_of_mem ?_
    rintro x y hx hy hne b hb c hc rfl
    exact hne (hone x hx y hy b hb hc)

/-- The conditions by the lists of the papers met and of the rows found. -/
theorem unambiguous_iff
    (hstored : ∀ id ∈ requestedIds request, ((whole l listed timestamp).getPaper id).isSome)
    (hmet : ∀ id ∈ requestedIds request, (met l listed (requestedIds request) id).isSome) :
    Unambiguous l listed timestamp request ↔
      (((requestedIds request).filterMap
          (met l listed (requestedIds request))).map (·.arxivId)).Nodup ∧
        ((storedPapers (whole l listed timestamp) (requestedIds request)).map
          (whole l listed timestamp).rowId).Nodup ∧
        ∀ id ∈ requestedIds request, (met l listed (requestedIds request) id).map l.rowId =
          ((whole l listed timestamp).getPaper id).map (whole l listed timestamp).rowId := by
  have hnodup := requestedIds_nodup request
  rw [storedPapers, List.map_filterMap, List.map_filterMap, nodup_filterMap_iff hnodup,
    nodup_filterMap_iff hnodup]
  constructor
  · rintro ⟨hpapers, hrows, hhighest⟩
    refine ⟨hpapers, ?_, ?_⟩
    · intro id hid other hother row hrow hrow'
      exact hrows id hid other hother row ((comesTo_iff (hstored id hid)).2 hrow)
        ((comesTo_iff (hstored other hother)).2 hrow')
    · intro id hid
      rcases Option.isSome_iff_exists.1 (hmet id hid) with ⟨paper, hpaper⟩
      rw [hpaper, (comesTo_iff (hstored id hid)).1 (hhighest id hid paper hpaper), Option.map_some]
  · rintro ⟨hpapers, hrows, hsame⟩
    refine ⟨hpapers, ?_, ?_⟩
    · intro id hid other hother row hrow hrow'
      exact hrows id hid other hother row ((comesTo_iff (hstored id hid)).1 hrow)
        ((comesTo_iff (hstored other hother)).1 hrow')
    · intro id hid paper hpaper
      apply (comesTo_iff (hstored id hid)).2
      rw [← hsame id hid, hpaper, Option.map_some]

/-- The ways agree exactly on the unambiguous splits. -/
theorem pathsAgree_iff
    (hmet : ∀ id ∈ requestedIds request, (met l listed (requestedIds request) id).isSome)
    (hstored : ∀ id ∈ requestedIds request, ((whole l listed timestamp).getPaper id).isSome) :
    PathsAgree l listed timestamp request ↔ Unambiguous l listed timestamp request := by
  have hmetLength := length_filterMap_of_isSome hmet
  have hstoredLength := length_filterMap_of_isSome hstored
  have hsameRows : ((requestedIds request).filterMap
        (met l listed (requestedIds request))).map l.rowId =
      (storedPapers (whole l listed timestamp) (requestedIds request)).map
        (whole l listed timestamp).rowId ↔
      ∀ id ∈ requestedIds request, (met l listed (requestedIds request) id).map l.rowId =
        ((whole l listed timestamp).getPaper id).map (whole l listed timestamp).rowId := by
    rw [storedPapers, List.map_filterMap, List.map_filterMap]
    refine filterMap_eq_iff ?_ ?_
    · simpa using hmet
    · simpa using hstored
  rw [unambiguous_iff hstored hmet]
  constructor
  · rintro ⟨hsame, hcounted, _⟩
    simp only [mergedOutcome, cachedOutcome, completion, Outcome.mk.injEq,
      Option.some.injEq] at hsame
    simp only [cachedOutcome, completion, Option.some.injEq] at hcounted
    have hrows : ((storedPapers (whole l listed timestamp) (requestedIds request)).map
        (whole l listed timestamp).rowId).Nodup := by
      apply nodup_of_length_eraseDups
      rw [← hcounted, List.length_map]
    have honce : (oncePerId ((requestedIds request).filterMap
        (met l listed (requestedIds request)))).length =
          ((requestedIds request).filterMap (met l listed (requestedIds request))).length := by
      rw [hsame.2.2, hmetLength]
      exact hstoredLength
    have hpapers := nodup_of_length_oncePerId honce
    refine ⟨hpapers, hrows, hsameRows.1 ?_⟩
    have hmatched := hsame.1
    rw [oncePerId_of_nodup hpapers, eraseDups_of_nodup hrows] at hmatched
    -- No repetition was erased on the other side either: the lists are of one length.
    have hnodup : (((requestedIds request).filterMap
        (met l listed (requestedIds request))).map l.rowId).Nodup := by
      apply nodup_of_length_eraseDups
      rw [hmatched, List.length_map, List.length_map, hmetLength]
      exact hstoredLength
    rwa [eraseDups_of_nodup hnodup] at hmatched
  · rintro ⟨hpapers, hrows, hsame⟩
    have hmatched := hsameRows.2 hsame
    refine ⟨?_, ?_, ?_⟩
    · simp only [mergedOutcome, cachedOutcome, completion, oncePerId_of_nodup hpapers, hmatched]
      rw [hmetLength]
      exact congrArg _ (congrArg some hstoredLength.symm)
    · simp only [cachedOutcome, completion, Option.some.injEq]
      rw [eraseDups_of_nodup hrows, List.length_map]
    · intro id hid hversionless
      refine ⟨fun paper hpaper => (getPaper_highest hversionless hpaper).1, ?_⟩
      intro paper hpaper
      rcases Option.isSome_iff_exists.1 (hstored id hid) with ⟨stored, hfound⟩
      have hrow : l.rowId paper = (whole l listed timestamp).rowId stored := by
        simpa [hpaper, hfound] using hsame id hid
      rcases getPaper_highest hversionless hfound with ⟨hhighest, hown⟩
      rw [hrow, LibraryTables.rowId_own hown]
      exact hhighest

end Agreement

end IdLists

end Huldra
