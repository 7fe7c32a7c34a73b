import Huldra.Keys
import Mathlib.Data.List.Sort

/-!
# Library — papers, OAI records, and the completed cache entries built from them

`papers` and `oai_records` are what has been fetched, `cache_entries` and `cache_matches` are the
result lists served from it.  A paper is stored under one id of its version family, so an upsert
first decides which row of the family it is about.
-/

namespace Huldra

/-- A row of `papers`. -/
structure PaperRow extends ArxivPaper where
  firstSeenAt : Int
  lastSeenAt : Int
  deriving DecidableEq, Repr

/-- A row of `oai_records`. -/
structure OaiRecordRow where
  oaiIdentifier : String
  metadataPrefix : OaiMetadataPrefix
  arxivId : Option String
  datestamp : Option Int
  deleted : Bool
  setSpecs : List String
  rawXml : Option String
  firstSeenAt : Int
  lastSeenAt : Int
  deriving DecidableEq, Repr

/-- A row of `cache_matches`. -/
structure MatchRow where
  cacheKey : CacheKey
  arxivId : String
  sortPosition : Nat
  matchedAt : Int
  deriving DecidableEq, Repr

structure LibraryTables where
  papers : List PaperRow := []
  oaiRecords : List OaiRecordRow := []
  cacheEntries : List CacheEntry := []
  cacheMatches : List MatchRow := []
  deriving DecidableEq

namespace LibraryTables

/-! ## Papers -/

def paper? (l : LibraryTables) (arxivId : String) : Option PaperRow :=
  l.papers.find? fun row => row.arxivId = arxivId

/-- `s LIKE 'p%'`, where `p` is matched literally and without regard to ASCII case. -/
def likePrefix (p s : String) : Bool :=
  (p.toList.map Text.lowerAscii).isPrefixOf (s.toList.map Text.lowerAscii)

/-- `_paper_arxiv_ids_in_version_family` -/
def paperArxivIdsInVersionFamily (l : LibraryTables) (arxivId : String) : List String :=
  let baseId := Keys.arxivIdFamilyBase arxivId
  let rows := (l.papers.map (·.arxivId)).filter fun id =>
    id = baseId || likePrefix (baseId ++ "v") id
  rows.filter fun id => id = baseId || Keys.arxivIdFamilyBase id = baseId

/-- `arxiv_version(arxiv_id) or -1` -/
def mergeVersion (arxivId : String) : Int :=
  match Keys.arxivVersion arxivId with
  | none => -1
  | some version => if version = 0 then -1 else version

/-- Order of `_version_family_merge_preference`. -/
def mergePreferenceLt (a b : String) : Bool :=
  mergeVersion a < mergeVersion b ||
    (mergeVersion a = mergeVersion b && decide (a.toList < b.toList))

/-- `max(ids, key=_version_family_merge_preference)` -/
def preferredId (first : String) (rest : List String) : String :=
  rest.foldl (fun best id => if mergePreferenceLt best id then id else best) first

def canonicalUrl (arxivId : String) : String :=
  "https://arxiv.org/abs/" ++ arxivId

/-- `_oai_paper_for_existing_version_family` -/
def oaiPaperForExistingVersionFamily (l : LibraryTables) (paper : ArxivPaper) : ArxivPaper :=
  match l.paperArxivIdsInVersionFamily paper.arxivId with
  | [] => paper
  | first :: rest =>
      if (first :: rest).contains paper.arxivId then paper
      else
        let target := preferredId first rest
        { paper with
          arxivId := target
          canonicalUrl := canonicalUrl target
          version := (Keys.arxivVersion target).or paper.version }

/-- `_legacy_paper_for_existing_oai_base_row` -/
def legacyPaperForExistingOaiBaseRow (l : LibraryTables) (paper : ArxivPaper) : ArxivPaper :=
  if paper.oaiIdentifier.isSome || (Keys.arxivVersion paper.arxivId).isNone then paper
  else
    let baseId := Keys.arxivIdFamilyBase paper.arxivId
    let arxivIds := l.paperArxivIdsInVersionFamily paper.arxivId
    let oaiBase := (l.paper? baseId).any fun row => row.oaiIdentifier.isSome
    if arxivIds.contains baseId && !(arxivIds.any fun id => (Keys.arxivVersion id).isSome) &&
        oaiBase then
      { paper with
        arxivId := baseId
        version := Keys.arxivVersion baseId
        canonicalUrl := canonicalUrl baseId }
    else paper

/-- `ON CONFLICT(arxiv_id) DO UPDATE`: the OAI columns change only when the paper carries an OAI
identifier. -/
def mergePaperRow (old : PaperRow) (paper : ArxivPaper) (timestamp : Int) : PaperRow :=
  let fromOai := paper.oaiIdentifier.isSome
  { paper with
    oaiIdentifier := if fromOai then paper.oaiIdentifier else old.oaiIdentifier
    oaiDatestamp := if fromOai then paper.oaiDatestamp else old.oaiDatestamp
    oaiSetSpecs := if fromOai then paper.oaiSetSpecs else old.oaiSetSpecs
    deleted := if fromOai then paper.deleted else old.deleted
    firstSeenAt := old.firstSeenAt
    lastSeenAt := timestamp }

/-- `_upsert_paper_conn`: the id the paper was stored under. -/
def upsertPaper (l : LibraryTables) (paper : ArxivPaper) (timestamp : Int) :
    String × LibraryTables :=
  let paper := l.legacyPaperForExistingOaiBaseRow paper
  match l.paper? paper.arxivId with
  | some _ =>
      (paper.arxivId,
        { l with
          papers := l.papers.map fun row =>
            if row.arxivId = paper.arxivId then mergePaperRow row paper timestamp else row })
  | none =>
      (paper.arxivId,
        { l with
          papers := l.papers ++
            [{ paper with firstSeenAt := timestamp, lastSeenAt := timestamp }] })

/-- The upserts of a list of papers, and the ids they were stored under. -/
def upsertPapers (l : LibraryTables) (papers : List ArxivPaper) (timestamp : Int) :
    List String × LibraryTables :=
  papers.foldl
    (fun acc paper =>
      let (arxivId, l) := acc.2.upsertPaper paper timestamp
      (acc.1 ++ [arxivId], l))
    ([], l)

/-- `_oai_base_paper_row_for_versioned_read` -/
def oaiBasePaperRowForVersionedRead (l : LibraryTables) (arxivId : String) : Option PaperRow :=
  let baseId := Keys.arxivIdFamilyBase arxivId
  if (Keys.arxivVersion arxivId).isNone || baseId = arxivId then none
  else (l.paper? baseId).filter fun row => row.oaiIdentifier.isSome

/-- `_latest_versioned_paper_row_for_base_read` -/
def latestVersionedPaperRowForBaseRead (l : LibraryTables) (arxivId : String) :
    Option PaperRow :=
  if (Keys.arxivVersion arxivId).isSome then none
  else
    let baseId := Keys.arxivIdFamilyBase arxivId
    let candidates := (l.papers.map (·.arxivId)).filter fun id =>
      likePrefix (baseId ++ "v") id && (Keys.arxivVersion id).isSome &&
        Keys.arxivIdFamilyBase id = baseId
    match candidates with
    | [] => none
    | first :: rest => l.paper? (preferredId first rest)

/-- `get_paper`: the row itself, the OAI row of its base, or the latest version of the base. -/
def getPaper (l : LibraryTables) (arxivId : String) : Option ArxivPaper :=
  ((l.paper? arxivId).or
    ((l.oaiBasePaperRowForVersionedRead arxivId).or
      (l.latestVersionedPaperRowForBaseRead arxivId))).map (·.toArxivPaper)

def getPapersByIds (l : LibraryTables) (arxivIds : List String) : List (String × ArxivPaper) :=
  arxivIds.eraseDups.filterMap fun arxivId =>
    (l.getPaper arxivId).map fun paper => (arxivId, paper)

/-! ## OAI records -/

def oaiRecord? (l : LibraryTables) (oaiIdentifier : String) (metadataPrefix : OaiMetadataPrefix) :
    Option OaiRecordRow :=
  l.oaiRecords.find? fun row =>
    row.oaiIdentifier = oaiIdentifier && row.metadataPrefix = metadataPrefix

/-- Insert or overwrite the row of an OAI record. -/
def upsertOaiRecordRow (l : LibraryTables) (record : OaiRecord) (timestamp : Int) :
    LibraryTables :=
  let row (firstSeenAt : Int) : OaiRecordRow :=
    { oaiIdentifier := record.oaiIdentifier
      metadataPrefix := record.metadataPrefix
      arxivId := record.arxivId
      datestamp := record.datestamp
      deleted := record.deleted
      setSpecs := record.setSpecs
      rawXml := record.rawXml
      firstSeenAt := firstSeenAt
      lastSeenAt := timestamp }
  match l.oaiRecord? record.oaiIdentifier record.metadataPrefix with
  | some existing =>
      { l with
        oaiRecords := l.oaiRecords.map fun r =>
          if r.oaiIdentifier = record.oaiIdentifier ∧ r.metadataPrefix = record.metadataPrefix then
            row existing.firstSeenAt
          else r }
  | none => { l with oaiRecords := l.oaiRecords ++ [row timestamp] }

/-- Mark every stored version of a deleted record's paper. -/
def tombstone (l : LibraryTables) (record : OaiRecord) (arxivId : String) (timestamp : Int) :
    LibraryTables :=
  let arxivIds := l.paperArxivIdsInVersionFamily arxivId
  { l with
    papers := l.papers.map fun row =>
      if arxivIds.contains row.arxivId then
        { row with
          deleted := true
          oaiIdentifier := some record.oaiIdentifier
          oaiDatestamp := record.datestamp.or row.oaiDatestamp
          oaiSetSpecs := record.setSpecs
          lastSeenAt := timestamp }
      else row }

/-- One round of the loop of `_upsert_oai_records_conn`. -/
def upsertOaiRecord (l : LibraryTables) (record : OaiRecord) (timestamp : Int) : LibraryTables :=
  let l := match record.paper with
    | some paper =>
        if record.deleted then l
        else (l.upsertPaper (l.oaiPaperForExistingVersionFamily paper) timestamp).2
    | none => l
  let l := l.upsertOaiRecordRow record timestamp
  match record.arxivId with
  | some arxivId =>
      if record.deleted && arxivId ≠ "" then l.tombstone record arxivId timestamp else l
  | none => l

/-- `mark_paper_deleted`: the one row of that id. -/
def markPaperDeleted (l : LibraryTables) (arxivId : String) (oaiIdentifier : Option String)
    (oaiDatestamp : Option Int) (oaiSetSpecs : List String) (timestamp : Int) : LibraryTables :=
  { l with
    papers := l.papers.map fun row =>
      if row.arxivId = arxivId then
        { row with
          deleted := true
          oaiIdentifier := oaiIdentifier.or row.oaiIdentifier
          oaiDatestamp := oaiDatestamp.or row.oaiDatestamp
          oaiSetSpecs := oaiSetSpecs
          lastSeenAt := timestamp }
      else row }

/-- The records of a page that store a paper. -/
def liveRecord (record : OaiRecord) : Bool :=
  record.paper.isSome && !record.deleted

/-- `_upsert_oai_records_conn`: how many records were processed, upserted and deleted. -/
def upsertOaiRecords (l : LibraryTables) (records : List OaiRecord) (timestamp : Int) :
    (Nat × Nat × Nat) × LibraryTables :=
  ((records.length, records.countP liveRecord, records.countP (·.deleted)),
    records.foldl (fun l record => l.upsertOaiRecord record timestamp) l)

/-! ## Cache entries -/

def cacheEntryOf? (l : LibraryTables) (cacheKey : CacheKey) : Option CacheEntry :=
  l.cacheEntries.find? fun entry => entry.cacheKey = cacheKey

def putCacheEntry (l : LibraryTables) (entry : CacheEntry) : LibraryTables :=
  match l.cacheEntryOf? entry.cacheKey with
  | some _ =>
      { l with
        cacheEntries := l.cacheEntries.map fun e =>
          if e.cacheKey = entry.cacheKey then entry else e }
  | none => { l with cacheEntries := l.cacheEntries ++ [entry] }

structure CompletedCacheWrite where
  cacheKey : CacheKey
  request : ArxivRequest
  papers : List ArxivPaper
  totalResults : Option Nat
  coverageStatus : CoverageStatus := .slice
  upstreamStatus : Int := 200
  upstreamRequestCount : Nat := 1
  requestedAt : Int
  completedAt : Int
  deriving DecidableEq, Repr

def recordCompletedCacheEntry (l : LibraryTables) (w : CompletedCacheWrite) : LibraryTables :=
  let (arxivIds, l) := l.upsertPapers w.papers w.completedAt
  let matched := arxivIds.eraseDups
  let previous := (l.cacheEntryOf? w.cacheKey).map (·.upstreamRequestsTotal)
  let l := l.putCacheEntry
    { cacheKey := w.cacheKey
      request := w.request.stored
      status := .completed
      requestedAt := w.requestedAt
      completedAt := some w.completedAt
      refreshAfter := some (w.completedAt + seconds w.request.refreshIntervalSeconds)
      cooldownUntil := none
      upstreamStatus := some w.upstreamStatus
      upstreamRequestsTotal := previous.getD 0 + w.upstreamRequestCount
      resultCount := matched.length
      totalResults := w.totalResults
      coverageStatus := w.coverageStatus
      errorCategory := none
      errorMessage := none }
  { l with
    cacheMatches := (l.cacheMatches.filter fun m => m.cacheKey ≠ w.cacheKey) ++
      matched.zipIdx.map fun (arxivId, position) =>
        { cacheKey := w.cacheKey
          arxivId := arxivId
          sortPosition := position
          matchedAt := w.completedAt } }

structure CacheFailureWrite where
  cacheKey : CacheKey
  request : ArxivRequest
  errorCategory : String
  errorMessage : String
  status : CacheStatus := .failed
  cooldownUntil : Option Int := none
  upstreamStatus : Option Int := none
  upstreamRequestCount : Nat := 1
  requestedAt : Int
  deriving DecidableEq, Repr

def recordCacheFailure (l : LibraryTables) (w : CacheFailureWrite) : LibraryTables :=
  let message := String.ofList (w.errorMessage.toList.take 1000)
  match l.cacheEntryOf? w.cacheKey with
  | some previous =>
      l.putCacheEntry
        { previous with
          request := w.request.stored
          status := if previous.status = .completed then .completed else w.status
          requestedAt := w.requestedAt
          cooldownUntil := w.cooldownUntil
          upstreamStatus := w.upstreamStatus
          upstreamRequestsTotal := previous.upstreamRequestsTotal + w.upstreamRequestCount
          errorCategory := some w.errorCategory
          errorMessage := some message }
  | none =>
      l.putCacheEntry
        { cacheKey := w.cacheKey
          request := w.request.stored
          status := w.status
          requestedAt := w.requestedAt
          cooldownUntil := w.cooldownUntil
          upstreamStatus := w.upstreamStatus
          upstreamRequestsTotal := w.upstreamRequestCount
          errorCategory := some w.errorCategory
          errorMessage := some message }

/-- `SELECT COUNT(*) FROM cache_matches WHERE cache_key = ?` -/
def matchCount (l : LibraryTables) (cacheKey : CacheKey) : Nat :=
  l.cacheMatches.countP fun m => m.cacheKey = cacheKey

/-- The same count, joined with `papers`. -/
def joinedCount (l : LibraryTables) (cacheKey : CacheKey) : Nat :=
  l.cacheMatches.countP fun m => m.cacheKey = cacheKey && (l.paper? m.arxivId).isSome

/-- `SELECT sort_position … ORDER BY sort_position ASC` -/
def matchPositions (l : LibraryTables) (cacheKey : CacheKey) : List Nat :=
  ((l.cacheMatches.filter fun m => m.cacheKey = cacheKey).map
    (·.sortPosition)).insertionSort (· ≤ ·)

/-- `get_cached_papers` -/
def getCachedPapers (l : LibraryTables) (cacheKey : CacheKey) : List ArxivPaper :=
  (((l.cacheMatches.filter fun m => m.cacheKey = cacheKey).insertionSort
    fun a b => a.sortPosition ≤ b.sortPosition).filterMap fun m => l.paper? m.arxivId).map
      (·.toArxivPaper)

/-- `apply_migrations`: fill the columns that older versions left empty. -/
def backfillCacheEntries (l : LibraryTables) : LibraryTables :=
  { l with
    cacheEntries := l.cacheEntries.map fun entry =>
      if entry.status = .completed then
        { entry with
          refreshAfter := entry.refreshAfter.or entry.completedAt
          coverageStatus :=
            if entry.coverageStatus = .unknown then .slice else entry.coverageStatus }
      else entry }

end LibraryTables

end Huldra
