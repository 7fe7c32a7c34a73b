import Huldra.Keys.Minutes
import Huldra.Keys.Wrappers
import Huldra.Raising
import Huldra.Xml

/-!
# OaiPmh — reading a `ListRecords` response

`parse_oai_pmh_list_records` reads every record element of a response or none of them.  What it
takes from the standard library beyond the tree itself is a parameter: the check `urlparse` makes of
a network location, the two parsers of dates, and the text of an element.
-/

namespace Huldra
namespace OaiPmh

open Text Xml Raising

def oaiNs : String := "http://www.openarchives.org/OAI/2.0/"

def arxivNs : String := "http://arxiv.org/OAI/arXiv/"

def arxivRawNs : String := "http://arxiv.org/OAI/arXivRaw/"

/-! ## Dates -/

/-- A `datetime`: the microseconds its clock shows, counted from 1970, and what that clock is ahead
of UTC, if it says so. -/
structure Datetime where
  shown : Int
  offset : Option Int
  deriving DecidableEq, Repr

namespace Datetime

/-- `value.replace(tzinfo=UTC)` -/
def replaceUtc (value : Datetime) : Datetime :=
  { value with offset := some 0 }

/-- `value.astimezone(UTC)`, of a value that has an offset. -/
def astimezoneUtc (value : Datetime) (offset : Int) : Except Exn Datetime :=
  let shown := value.shown - offset
  if Keys.dateMin * 86400000000 ≤ shown ∧ shown < (Keys.dateMax + 1) * 86400000000 then
    .ok ⟨shown, some 0⟩
  else .error .overflowError

/-- The microseconds that are stored of a value in UTC. -/
def instant (value : Datetime) : Int :=
  value.shown - value.offset.getD 0

end Datetime

/-- What is taken from the standard library. -/
structure Stdlib where
  /-- `urlsplit` raises for this network location. -/
  rejects : Text → Bool
  /-- `datetime.fromisoformat(value)`, or its `ValueError`. -/
  fromIsoformat : Text → Option Datetime
  /-- `datetime.strptime(value, format)`, which shows no offset, or its `ValueError`. -/
  strptime : Text → String → Option Int
  /-- `ElementTree.tostring(element, encoding="unicode")` -/
  tostring : Element → String

section
variable (lib : Stdlib)

/-- `_parse_oai_datestamp` -/
def parseOaiDatestamp (value : Option Text) : Except Exn (Option Datetime) :=
  match value with
  | none | some [] => .ok none
  | some value =>
      let raw := value.flatMap fun c => if c = 'Z' then "+00:00".toList else [c]
      match lib.fromIsoformat raw with
      | none => .ok none
      | some parsed =>
          if raw.length = 10 then .ok (some parsed.replaceUtc)
          else match parsed.offset with
            | none => .ok (some parsed.replaceUtc)
            | some offset => (parsed.astimezoneUtc offset).map some

/-- `_parse_arxiv_date` -/
def parseArxivDate (value : Option Text) : Except Exn (Option Datetime) :=
  match value with
  | none | some [] => .ok none
  | some value =>
      match ["%Y-%m-%d", "%a, %d %b %Y %H:%M:%S %Z"].findSome? (lib.strptime value) with
      | some shown => .ok (some ⟨shown, some 0⟩)
      | none => parseOaiDatestamp lib (some value)

/-! ## Identifiers -/

/-- `urlparse(raw).path` -/
def parsedPath (raw : Text) : Text :=
  let url := (raw.dropWhile fun c => c.toNat ≤ 32).filter
    fun c => c != '\t' && c != '\r' && c != '\n'
  let (scheme, rest) := Keys.splitScheme url
  let (_, rest) := Keys.splitNetloc rest
  let path := (splitAtFirst (· == '?') (splitAtFirst (· == '#') rest).1).1
  if Keys.usesParams.contains (String.ofList scheme) then Keys.splitParams path else path

/-- `path.rsplit("/", 1)[-1]` -/
def lastSegment (path : Text) : Text :=
  (path.reverse.takeWhile (· != '/')).reverse

/-- `_arxiv_id_from_oai_identifier` -/
def arxivIdFromOaiIdentifier (identifier : Text) : Except Exn (Option String) :=
  let raw := strip identifier
  if "oai:arXiv.org:".toList.isPrefixOf raw then
    (Keys.normalizeArxivId? lib.rejects
      (String.ofList (removePrefix "oai:arXiv.org:".toList raw))).map some
  else if lib.rejects (Keys.urlNetloc raw) then .error (.valueError "Invalid IPv6 URL")
  else if parsedPath raw ≠ [] then
    (Keys.normalizeArxivId? lib.rejects (String.ofList (lastSegment (parsedPath raw)))).map some
  else .ok none

/-- The id a paper is read from: the first of these texts, else the OAI identifier. -/
def rawArxivId (texts : List (Option Text)) (identifier : Text) : Except Exn String :=
  match texts.findSome? id with
  | some text => .ok (String.ofList text)
  | none => (arxivIdFromOaiIdentifier lib identifier).map (·.getD "")

/-! ## The metadata of a record -/

/-- What a record knows of its paper beside the metadata. -/
structure Header where
  metadataPrefix : OaiMetadataPrefix
  identifier : Text
  datestamp : Datetime
  setSpecs : List Text
  rawXml : String

def strings (texts : List Text) : List String :=
  texts.map String.ofList

/-- `_normalize_space(value or "") or None` -/
def spacedOrNone (value : Option Text) : Option String :=
  (orNone (normalizeSpace (value.getD []))).map String.ofList

/-- The links of a paper. -/
def links (arxivId : String) : List Json.Object :=
  [[("href", .string ("https://arxiv.org/abs/" ++ arxivId)), ("rel", .string "alternate")],
    [("href", .string ("https://arxiv.org/pdf/" ++ arxivId)), ("rel", .string "pdf")]]

/-- The `raw_metadata` of a paper. -/
def Header.rawMetadata (header : Header) : Json.Object :=
  [("metadata_prefix", .string header.metadataPrefix.text), ("raw_xml", .string header.rawXml)]

/-- A row of `_authors_detail`. -/
structure AuthorDetail where
  name : Text
  affiliation : Option Text
  deriving DecidableEq, Repr

def AuthorDetail.json (author : AuthorDetail) : Json.Object :=
  [("affiliation", .ofText (author.affiliation.map String.ofList)),
    ("name", .string (String.ofList author.name))]

/-- `_authors_detail` -/
def authorsDetail (arxiv : Element) : List AuthorDetail :=
  match arxiv.find (qualified arxivNs "authors") with
  | none => []
  | some parent =>
      ((parent.findall (qualified arxivNs "author")).map fun author =>
        { name := normalizeSpace (joinSpaces ((["forenames", "keyname", "suffix"].map fun part =>
            childText author part arxivNs).reduceOption))
          affiliation := childText author "affiliation" arxivNs }).filter (·.name ≠ [])

/-- `_paper_from_oai_metadata`, once the element `arXiv` is found. -/
def paperFromArxiv (arxiv : Element) (header : Header) : Except Exn ArxivPaper := do
  let raw ← rawArxivId lib [childText arxiv "id" arxivNs] header.identifier
  let arxivId ← Keys.normalizeArxivId? lib.rejects raw
  let categories := splitSpaces ((childText arxiv "categories" arxivNs).getD [])
  let authorsDetail := authorsDetail arxiv
  let created ← parseArxivDate lib (childText arxiv "created" arxivNs)
  let updated ← parseArxivDate lib (childText arxiv "updated" arxivNs)
  .ok
    { arxivId := arxivId
      canonicalUrl := LibraryTables.canonicalUrl arxivId
      content :=
        { title := String.ofList (normalizeSpace ((childText arxiv "title" arxivNs).getD []))
          abstract_ := spacedOrNone (childText arxiv "abstract" arxivNs)
          authors := strings (authorsDetail.map (·.name))
          primaryCategory := (strings categories).head?
          categories := strings categories
          publishedAt := created.map (·.instant)
          updatedAt := (updated.or created).map (·.instant)
          comment := (childText arxiv "comments" arxivNs).map String.ofList
          journalRef := (childText arxiv "journal-ref" arxivNs).map String.ofList
          doi := (childText arxiv "doi" arxivNs).map String.ofList
          authorsDetail := authorsDetail.map (·.json)
          license := (childText arxiv "license" arxivNs).map String.ofList
          links := links arxivId
          rawMetadata := header.rawMetadata }
      oaiIdentifier := some (String.ofList header.identifier)
      oaiDatestamp := some header.datestamp.instant
      oaiSetSpecs := strings header.setSpecs }

/-! ### The format `arXivRaw` -/

/-- `_raw_child_text` -/
def rawChildText (parent : Element) (localName : String) : Option Text :=
  (childText parent localName arxivRawNs).or (childText parent localName arxivNs)

/-- `_raw_child` -/
def rawChild (parent : Element) (localName : String) : Option Element :=
  (parent.find (qualified arxivRawNs localName)).or (parent.find (qualified arxivNs localName))

/-- The separators of `str.splitlines`. -/
def isLineBreak (c : Char) : Bool :=
  let n := c.toNat
  (10 ≤ n && n ≤ 13) || (28 ≤ n && n ≤ 30) || n == 0x85 || n == 0x2028 || n == 0x2029

/-- `value.split(separator)`, with what has been read of the current part. -/
def splitOnText (separator : Text) : Nat → Text → Text → List Text
  | 0, part, rest => [part.reverse ++ rest]
  | _ + 1, part, [] => [part.reverse]
  | n + 1, part, c :: rest =>
      if separator.isPrefixOf (c :: rest) then
        part.reverse :: splitOnText separator n [] ((c :: rest).drop separator.length)
      else splitOnText separator n (c :: part) rest

/-- The parts that are not blank. -/
def spacedParts (parts : List Text) : List Text :=
  (parts.map normalizeSpace).filter (· ≠ [])

/-- `_raw_authors` -/
def rawAuthors (raw : Element) : List Text :=
  match rawChild raw "authors" with
  | none => []
  | some parent =>
      let nested := spacedParts (parent.children.map fun child => joinSpaces child.itertext)
      let text := normalizeSpace (joinSpaces parent.itertext)
      let byAnd := splitOnText " and ".toList (text.length + 1) [] text
      if nested ≠ [] then nested
      else if text = [] then []
      else if text.contains ';' then spacedParts (text.splitOnP (· == ';'))
      else if 1 < byAnd.length then spacedParts byAnd
      else
        let lines := spacedParts (text.splitOnP isLineBreak)
        if lines = [] then [text] else lines

/-- A row of `_raw_versions`. -/
structure RawVersion where
  version : Option Text
  versionNumber : Option Nat
  date : Option Text
  size : Option Text
  sourceType : Option Text
  deriving DecidableEq, Repr

/-- A field that is left out where it would be `None`. -/
def optionalField (name : String) (value : Option Text) : Json.Object :=
  (value.map fun value => (name, Json.string (String.ofList value))).toList

def RawVersion.json (version : RawVersion) : Json.Object :=
  [("date", Json.ofText (version.date.map String.ofList))] ++ optionalField "size" version.size ++
    optionalField "source_type" version.sourceType ++
    [("version", .ofText (version.version.map String.ofList)),
      ("version_number", .ofNumber version.versionNumber)]

/-- One element of `_raw_versions`. -/
def rawVersion (element : Element) : Except Exn RawVersion := do
  let label := ((element.get "version").filter (· ≠ [])).or (rawChildText element "version")
  let number ← Keys.arxivVersion? (String.ofList (label.getD []))
  .ok
    { version := label
      versionNumber := number
      date := rawChildText element "date"
      size := rawChildText element "size"
      sourceType := rawChildText element "source_type" }

/-- `_raw_versions` -/
def rawVersions (raw : Element) : Except Exn (List RawVersion) :=
  match rawChild raw "versions" with
  | none => .ok []
  | some parent => parent.children.mapM rawVersion

/-- `_latest_raw_version_number` -/
def latestRawVersionNumber (versions : List RawVersion) : Option Nat :=
  (versions.filterMap (·.versionNumber)).max?

/-- `_paper_from_arxiv_raw` -/
def paperFromArxivRaw (raw : Element) (header : Header) : Except Exn ArxivPaper := do
  let rawId ← rawArxivId lib [childText raw "id" arxivRawNs, childText raw "id" arxivNs]
    header.identifier
  let arxivId ← Keys.normalizeArxivId? lib.rejects rawId
  let title := (rawChildText raw "title").getD arxivId.toList
  let categories := splitSpaces ((rawChildText raw "categories").getD [])
  let authors := rawAuthors raw
  let versions ← rawVersions raw
  let versionDates ← (versions.filterMap (·.date)).mapM fun date => parseArxivDate lib (some date)
  .ok
    { arxivId := arxivId
      version := latestRawVersionNumber versions
      canonicalUrl := LibraryTables.canonicalUrl arxivId
      content :=
        { title := String.ofList (normalizeSpace title)
          abstract_ := spacedOrNone (rawChildText raw "abstract")
          authors := strings authors
          primaryCategory := (strings categories).head?
          categories := strings categories
          publishedAt := versionDates.head?.join.map (·.instant)
          updatedAt := versionDates.getLast?.join.map (·.instant)
          comment := (rawChildText raw "comments").map String.ofList
          journalRef := (rawChildText raw "journal-ref").map String.ofList
          doi := (rawChildText raw "doi").map String.ofList
          authorsDetail := authors.map fun author => AuthorDetail.json ⟨author, none⟩
          license := (rawChildText raw "license").map String.ofList
          links := links arxivId
          versions := versions.map (·.json)
          rawMetadata := header.rawMetadata }
      oaiIdentifier := some (String.ofList header.identifier)
      oaiDatestamp := some header.datestamp.instant
      oaiSetSpecs := strings header.setSpecs }

/-- `_paper_from_oai_metadata` -/
def paperFromOaiMetadata (metadata : Element) (header : Header) : Except Exn ArxivPaper :=
  match metadata.find (qualified arxivNs "arXiv") with
  | some arxiv => paperFromArxiv lib arxiv header
  | none =>
      match metadata.find (qualified arxivRawNs "arXivRaw") with
      | some raw => paperFromArxivRaw lib raw header
      | none => .error (.valueError "OAI metadata missing arXiv payload")

/-! ## Records and pages -/

/-- `status == "deleted"` -/
def saysDeleted (header : Element) : Bool :=
  header.get "status" == some "deleted".toList

/-- The header of a record, and whether it says that the record is deleted. -/
def headerFromElement (metadataPrefix : OaiMetadataPrefix) (record : Element) :
    Except Exn (Header × Bool) := do
  match record.find (qualified oaiNs "header") with
  | none => .error (.valueError "OAI record missing header")
  | some header =>
      match childText header "identifier" oaiNs with
      | none => .error (.valueError "OAI record missing identifier")
      | some identifier =>
          match childText header "datestamp" oaiNs with
          | none => .error (.valueError "OAI record missing datestamp")
          | some rawDatestamp => do
              let datestamp ← parseOaiDatestamp lib (some rawDatestamp)
              match datestamp with
              | none =>
                  .error (.valueError ("OAI record " ++ String.ofList identifier ++
                    " has invalid datestamp"))
              | some datestamp =>
                  .ok
                    ({ metadataPrefix := metadataPrefix
                       identifier := identifier
                       datestamp := datestamp
                       setSpecs := (header.findall (qualified oaiNs "setSpec")).filterMap
                         fun element => text (some element)
                       rawXml := lib.tostring record },
                      saysDeleted header)

/-- `_record_from_element` -/
def recordFromElement (metadataPrefix : OaiMetadataPrefix) (record : Element) :
    Except Exn OaiRecord := do
  let (header, deleted) ← headerFromElement lib metadataPrefix record
  let arxivId ← arxivIdFromOaiIdentifier lib header.identifier
  let base : OaiRecord :=
    { oaiIdentifier := String.ofList header.identifier
      arxivId := arxivId
      metadataPrefix := metadataPrefix
      datestamp := some header.datestamp.instant
      setSpecs := strings header.setSpecs
      deleted := deleted
      rawXml := some header.rawXml }
  if deleted then .ok base
  else
    match record.find (qualified oaiNs "metadata") with
    | none =>
        .error (.valueError ("OAI record " ++ String.ofList header.identifier ++
          " missing metadata"))
    | some metadata => do
        let paper ← paperFromOaiMetadata lib metadata header
        .ok { base with arxivId := some paper.arxivId, paper := some paper }

/-- `OaiPmhProtocolError` -/
structure ProtocolError where
  code : Option Text
  message : Text
  deriving DecidableEq, Repr

/-- A page, with the errors the response names. -/
structure ParsedPage extends OaiPmhPage where
  errors : List ProtocolError
  deriving DecidableEq, Repr

def protocolErrors (root : Element) : List ProtocolError :=
  (root.findall (qualified oaiNs "error")).map fun element =>
    { code := element.get "code", message := normalizeSpace (element.text.getD []) }

def token (listRecords : Element) : Option ResumptionToken :=
  (childText listRecords "resumptionToken" oaiNs).bind fun value =>
    if h : String.ofList value ≠ "" then some ⟨String.ofList value, h⟩ else none

/-- `parse_oai_pmh_list_records`, of a text that is parsed. -/
def parseOaiPmhListRecords (metadataPrefix : OaiMetadataPrefix) (root : Element) :
    Except Exn ParsedPage :=
  let responseDate := (childText root "responseDate" oaiNs).map String.ofList
  let errors := protocolErrors root
  match root.find (qualified oaiNs "ListRecords") with
  | none =>
      if errors = [] then .error (.valueError "OAI response missing ListRecords")
      else
        .ok
          { records := []
            responseDate := responseDate
            resumptionToken := none
            errors := errors }
  | some listRecords => do
      let records ← (listRecords.findall (qualified oaiNs "record")).mapM
        (recordFromElement lib metadataPrefix)
      .ok
        { records := records
          responseDate := responseDate
          resumptionToken := token listRecords
          errors := errors }

end

/-! ## What a page is read from -/

/-- The record elements of a response. -/
def recordElements (root : Element) : List Element :=
  match root.find (qualified oaiNs "ListRecords") with
  | none => []
  | some listRecords => listRecords.findall (qualified oaiNs "record")

/-- The header of the element has the status `deleted`. -/
def isDeleted (record : Element) : Bool :=
  (record.find (qualified oaiNs "header")).any saysDeleted

/-- The text that the id of a paper is read from. -/
def sourceOfMetadata (lib : Stdlib) (metadata : Element) (identifier : Text) : Except Exn String :=
  match metadata.find (qualified arxivNs "arXiv") with
  | some arxiv => rawArxivId lib [childText arxiv "id" arxivNs] identifier
  | none =>
      match metadata.find (qualified arxivRawNs "arXivRaw") with
      | some raw => rawArxivId lib [childText raw "id" arxivRawNs, childText raw "id" arxivNs]
          identifier
      | none => .ok ""

def sourceArxivId (lib : Stdlib) (record : Element) : Except Exn String :=
  match record.find (qualified oaiNs "header"), record.find (qualified oaiNs "metadata") with
  | some header, some metadata =>
      sourceOfMetadata lib metadata ((childText header "identifier" oaiNs).getD [])
  | _, _ => .ok ""

/-- Every live record has an id to store its paper under. -/
def Identified (lib : Stdlib) (root : Element) : Prop :=
  ∀ element ∈ recordElements root, isDeleted element = false →
    ∀ source, sourceArxivId lib element = .ok source → Keys.normalizeArxivId source ≠ ""

/-- The text of the datestamp of a record. -/
def datestampText (record : Element) : Option Text :=
  (record.find (qualified oaiNs "header")).bind fun header => childText header "datestamp" oaiNs

/-- The record is that of the element, with an identifier and with the datestamp that its text is
read as, in UTC, and either deleted or with a paper of the same id. -/
structure ReadAs (lib : Stdlib) (metadataPrefix : OaiMetadataPrefix) (element : Element)
    (record : OaiRecord) : Prop where
  read : recordFromElement lib metadataPrefix element = .ok record
  identifier : NonBlank record.oaiIdentifier.toList
  datestamp : ∃ raw value, datestampText element = some raw ∧
    parseOaiDatestamp lib (some raw) = .ok (some value) ∧ value.offset = some 0 ∧
      record.datestamp = some value.shown
  paper : record.deleted = true ∧ record.paper = none ∨
    record.deleted = false ∧ ∃ paper, record.paper = some paper ∧ paper.arxivId ≠ "" ∧
      record.arxivId = some paper.arxivId

/-- One record for each record element, in order. -/
def WellFormed (lib : Stdlib) (metadataPrefix : OaiMetadataPrefix) (root : Element)
    (page : ParsedPage) : Prop :=
  List.Forall₂ (ReadAs lib metadataPrefix) (recordElements root) page.records

section
variable {lib : Stdlib} {metadataPrefix : OaiMetadataPrefix}

/-! ### Dates -/

theorem parseOaiDatestamp_utc {value : Option Text} {datestamp : Datetime}
    (h : parseOaiDatestamp lib value = .ok (some datestamp)) : datestamp.offset = some 0 := by
  unfold parseOaiDatestamp at h
  split at h
  · cases h
  · cases h
  · dsimp only at h
    split at h
    · cases h
    · rename_i parsed _
      have hreplaced : parsed.replaceUtc.offset = some 0 := rfl
      split at h
      · cases h
        exact hreplaced
      · split at h
        · cases h
          exact hreplaced
        · rename_i offset _
          unfold Datetime.astimezoneUtc at h
          dsimp only at h
          split at h
          · cases h
            rfl
          · cases h

/-! ### Headers -/

/-- A header that is read has an identifier, the datestamp of its text, and the status of its
element. -/
theorem header_ok {element : Element} {header : Header} {deleted : Bool}
    (h : headerFromElement lib metadataPrefix element = .ok (header, deleted)) :
    NonBlank header.identifier ∧
      (∃ raw, datestampText element = some raw ∧
        parseOaiDatestamp lib (some raw) = .ok (some header.datestamp)) ∧
      deleted = isDeleted element ∧ ∃ found, element.find (qualified oaiNs "header") = some found ∧
        childText found "identifier" oaiNs = some header.identifier := by
  unfold headerFromElement at h
  cases hfound : element.find (qualified oaiNs "header") with
  | none => simp [hfound] at h
  | some found =>
      rw [hfound] at h
      dsimp only at h
      cases hidentifier : childText found "identifier" oaiNs with
      | none => simp [hidentifier] at h
      | some identifier =>
          rw [hidentifier] at h
          dsimp only at h
          cases hraw : childText found "datestamp" oaiNs with
          | none => simp [hraw] at h
          | some raw =>
              rw [hraw] at h
              rcases bind_ok h with ⟨datestamp, hdatestamp, h⟩
              cases datestamp with
              | none => cases h
              | some datestamp =>
                  simp only [Except.ok.injEq, Prod.mk.injEq] at h
                  rcases h with ⟨rfl, rfl⟩
                  have htext : datestampText element = some raw := by
                    rw [datestampText, hfound, Option.bind_some, hraw]
                  refine ⟨nonBlank_of_text hidentifier, ⟨raw, htext, hdatestamp⟩, ?_, found, rfl,
                    hidentifier⟩
                  simp only [isDeleted, hfound, Option.any_some]

/-! ### Papers -/

theorem normalizeArxivId?_ok {rejects : Text → Bool} {value id : String}
    (h : Keys.normalizeArxivId? rejects value = .ok id) : id = Keys.normalizeArxivId value := by
  unfold Keys.normalizeArxivId? at h
  split at h
  · cases h
  · exact (Except.ok.inj h).symm

/-- The id of a paper is its source, normalised. -/
theorem paper_ok {metadata : Element} {header : Header} {paper : ArxivPaper}
    (h : paperFromOaiMetadata lib metadata header = .ok paper) :
    ∃ source, sourceOfMetadata lib metadata header.identifier = .ok source ∧
      paper.arxivId = Keys.normalizeArxivId source := by
  unfold paperFromOaiMetadata at h
  unfold sourceOfMetadata
  split at h
  · unfold paperFromArxiv at h
    rcases bind_ok h with ⟨source, hsource, h⟩
    rcases bind_ok h with ⟨arxivId, hid, h⟩
    rcases bind_ok h with ⟨created, _, h⟩
    rcases bind_ok h with ⟨updated, _, h⟩
    cases h
    exact ⟨source, hsource, normalizeArxivId?_ok hid⟩
  · split at h
    · unfold paperFromArxivRaw at h
      rcases bind_ok h with ⟨source, hsource, h⟩
      rcases bind_ok h with ⟨arxivId, hid, h⟩
      rcases bind_ok h with ⟨versions, _, h⟩
      rcases bind_ok h with ⟨dates, _, h⟩
      cases h
      exact ⟨source, hsource, normalizeArxivId?_ok hid⟩
    · cases h

/-! ### Records -/

/-- A record that is read is deleted and has no paper, or has the paper of its source. -/
theorem record_ok {element : Element} {record : OaiRecord}
    (h : recordFromElement lib metadataPrefix element = .ok record) :
    NonBlank record.oaiIdentifier.toList ∧
      (∃ raw value, datestampText element = some raw ∧
        parseOaiDatestamp lib (some raw) = .ok (some value) ∧ value.offset = some 0 ∧
          record.datestamp = some value.shown) ∧
      record.deleted = isDeleted element ∧
      (record.deleted = true ∧ record.paper = none ∨
        record.deleted = false ∧ ∃ paper source, record.paper = some paper ∧
          record.arxivId = some paper.arxivId ∧ sourceArxivId lib element = .ok source ∧
            paper.arxivId = Keys.normalizeArxivId source) := by
  unfold recordFromElement at h
  rcases bind_ok h with ⟨⟨header, deleted⟩, hheader, h⟩
  rcases bind_ok h with ⟨arxivId, _, h⟩
  rcases header_ok hheader with ⟨hidentifier, ⟨raw, hraw, hread⟩, hdeleted, found, hfound, htext⟩
  have hutc := parseOaiDatestamp_utc hread
  have hinstant : header.datestamp.instant = header.datestamp.shown := by
    simp [Datetime.instant, hutc]
  dsimp only at h
  cases deleted with
  | true =>
      cases h
      exact ⟨by simpa using hidentifier, ⟨raw, header.datestamp, hraw, hread, hutc,
        by rw [hinstant]⟩, hdeleted, .inl ⟨rfl, rfl⟩⟩
  | false =>
      simp only [Bool.false_eq_true, if_false] at h
      cases hmetadata : element.find (qualified oaiNs "metadata") with
      | none => simp [hmetadata] at h
      | some metadata =>
          rw [hmetadata] at h
          rcases bind_ok h with ⟨paper, hpaper, h⟩
          cases h
          rcases paper_ok hpaper with ⟨source, hsource, hid⟩
          refine ⟨by simpa using hidentifier, ⟨raw, header.datestamp, hraw, hread, hutc,
            by rw [hinstant]⟩, hdeleted, .inr ⟨rfl, paper, source, rfl, rfl, ?_, hid⟩⟩
          simpa [sourceArxivId, hfound, hmetadata, htext] using hsource

/-- A page that is returned holds what each of the record elements was read as. -/
theorem page_ok {root : Element} {page : ParsedPage}
    (h : parseOaiPmhListRecords lib metadataPrefix root = .ok page) :
    List.Forall₂ (fun element record => recordFromElement lib metadataPrefix element = .ok record)
      (recordElements root) page.records := by
  unfold parseOaiPmhListRecords at h
  unfold recordElements
  dsimp only at h
  split at h
  · split at h
    · cases h
    · cases h
      exact .nil
  · rcases bind_ok h with ⟨records, hrecords, h⟩
    cases h
    exact mapM_ok_iff.1 hrecords

/-- A page is read in full, and its live records are identified exactly if the texts their ids are
read from are. -/
theorem page_well_formed_iff (lib : Stdlib) (metadataPrefix : OaiMetadataPrefix) {root : Element}
    {page : ParsedPage} (h : parseOaiPmhListRecords lib metadataPrefix root = .ok page) :
    WellFormed lib metadataPrefix root page ↔ Identified lib root := by
  have hpage := page_ok h
  unfold WellFormed Identified
  generalize recordElements root = elements at hpage ⊢
  generalize page.records = records at hpage ⊢
  induction hpage with
  | nil => simp
  | @cons element record elements records hread _ ih =>
      rw [List.forall₂_cons, List.forall_mem_cons]
      refine and_congr ?_ ih
      rcases record_ok hread with ⟨hidentifier, hdatestamp, hstatus, hkind⟩
      constructor
      · intro hreadAs hlive source hsource
        rw [← hstatus] at hlive
        rcases hkind with ⟨hdeleted, _⟩ | ⟨_, paper, source', hpaper, _, hsource', hid⟩
        · rw [hdeleted] at hlive
          cases hlive
        · rw [hsource] at hsource'
          cases hsource'
          rcases hreadAs.paper with ⟨hdeleted, _⟩ | ⟨_, paper', hpaper', hne, _⟩
          · rw [hdeleted] at hlive
            cases hlive
          · rw [hpaper] at hpaper'
            cases hpaper'
            rw [← hid]
            exact hne
      · intro hidentified
        refine ⟨hread, hidentifier, hdatestamp, ?_⟩
        rcases hkind with hdeleted | ⟨hlive, paper, source, hpaper, harxiv, hsource, hid⟩
        · exact .inl hdeleted
        · refine .inr ⟨hlive, paper, hpaper, ?_, harxiv⟩
          rw [hid]
          exact hidentified (hstatus.symm.trans hlive) source hsource

/-! ### A page with one live and one deleted record -/

/-- The standard library, as far as these pages need it. -/
def januarySecond (tostring : Element → String) : Stdlib where
  rejects _ := false
  fromIsoformat raw := if raw = "2024-01-02".toList then some ⟨1704153600000000, none⟩ else none
  strptime _ _ := none
  tostring := tostring

def leaf (namespace_ localName value : String) : Element :=
  { tag := qualified namespace_ localName, text := some value.toList }

def branch (namespace_ localName : String) (children : List Element) : Element :=
  { tag := qualified namespace_ localName, children := children }

def headerElement (status : List (String × Text)) (identifier : String) : Element :=
  { branch oaiNs "header"
      [leaf oaiNs "identifier" identifier, leaf oaiNs "datestamp" "2024-01-02"] with
    attrib := status }

/-- A live record, whose metadata has these children. -/
def liveElement (identifier : String) (children : List Element) : Element :=
  branch oaiNs "record"
    [headerElement [] identifier, branch oaiNs "metadata" [branch arxivNs "arXiv" children]]

def response (records : List Element) : Element :=
  branch oaiNs "OAI-PMH" [branch oaiNs "ListRecords" records]

def twoRecords : Element :=
  response
    [liveElement "oai:arXiv.org:2401.00001" [leaf arxivNs "id" "2401.00001"],
      branch oaiNs "record"
        [headerElement [("status", "deleted".toList)] "oai:arXiv.org:2401.00002"]]

def twoRecordsText (record : Element) : String :=
  if isDeleted record then
    "<ns0:record xmlns:ns0=\"http://www.openarchives.org/OAI/2.0/\">" ++
      "<ns0:header status=\"deleted\">" ++
      "<ns0:identifier>oai:arXiv.org:2401.00002</ns0:identifier>" ++
      "<ns0:datestamp>2024-01-02</ns0:datestamp></ns0:header></ns0:record>"
  else
    "<ns0:record xmlns:ns0=\"http://www.openarchives.org/OAI/2.0/\" " ++
      "xmlns:ns1=\"http://arxiv.org/OAI/arXiv/\"><ns0:header>" ++
      "<ns0:identifier>oai:arXiv.org:2401.00001</ns0:identifier>" ++
      "<ns0:datestamp>2024-01-02</ns0:datestamp></ns0:header><ns0:metadata>" ++
      "<ns1:arXiv><ns1:id>2401.00001</ns1:id></ns1:arXiv></ns0:metadata></ns0:record>"

def twoRecordsPage : ParsedPage :=
  { records :=
      [{ oaiIdentifier := "oai:arXiv.org:2401.00001"
         arxivId := some "2401.00001"
         metadataPrefix := .arXiv
         datestamp := some 1704153600000000
         paper := some
           { arxivId := "2401.00001"
             canonicalUrl := "https://arxiv.org/abs/2401.00001"
             content :=
               { title := ""
                 links := links "2401.00001"
                 rawMetadata :=
                   [("metadata_prefix", .string "arXiv"),
                     ("raw_xml", .string (twoRecordsText (liveElement "" [])))] }
             oaiIdentifier := some "oai:arXiv.org:2401.00001"
             oaiDatestamp := some 1704153600000000 }
         rawXml := some (twoRecordsText (liveElement "" [])) },
        { oaiIdentifier := "oai:arXiv.org:2401.00002"
          arxivId := some "2401.00002"
          metadataPrefix := .arXiv
          datestamp := some 1704153600000000
          deleted := true
          rawXml := some (twoRecordsText
            (branch oaiNs "record" [headerElement [("status", "deleted".toList)] ""])) }]
    responseDate := none
    resumptionToken := none
    errors := [] }

theorem twoRecords_well_formed :
    parseOaiPmhListRecords (januarySecond twoRecordsText) .arXiv twoRecords =
        .ok twoRecordsPage ∧
      (WellFormed (januarySecond twoRecordsText) .arXiv twoRecords twoRecordsPage ↔
        Identified (januarySecond twoRecordsText) twoRecords) :=
  have h : parseOaiPmhListRecords (januarySecond twoRecordsText) .arXiv twoRecords =
      .ok twoRecordsPage := by decide +kernel
  ⟨h, page_well_formed_iff _ _ h⟩

/-- A live record whose identifier ends where the id should stand. -/
def nameless : Element :=
  response [liveElement "oai:arXiv.org:" [leaf arxivNs "title" "A title"]]

def namelessText (_ : Element) : String :=
  "<ns0:record xmlns:ns0=\"http://www.openarchives.org/OAI/2.0/\" " ++
    "xmlns:ns1=\"http://arxiv.org/OAI/arXiv/\"><ns0:header>" ++
    "<ns0:identifier>oai:arXiv.org:</ns0:identifier>" ++
    "<ns0:datestamp>2024-01-02</ns0:datestamp></ns0:header><ns0:metadata>" ++
    "<ns1:arXiv><ns1:title>A title</ns1:title></ns1:arXiv></ns0:metadata></ns0:record>"

def namelessPaper : ArxivPaper :=
  { arxivId := ""
    canonicalUrl := "https://arxiv.org/abs/"
    content :=
      { title := "A title"
        links := links ""
        rawMetadata :=
          [("metadata_prefix", .string "arXiv"), ("raw_xml", .string (namelessText nameless))] }
    oaiIdentifier := some "oai:arXiv.org:"
    oaiDatestamp := some 1704153600000000 }

def namelessPage : ParsedPage :=
  { records :=
      [{ oaiIdentifier := "oai:arXiv.org:"
         arxivId := some ""
         metadataPrefix := .arXiv
         datestamp := some 1704153600000000
         paper := some namelessPaper
         rawXml := some (namelessText nameless) }]
    responseDate := none
    resumptionToken := none
    errors := [] }

theorem nameless_parsed :
    parseOaiPmhListRecords (januarySecond namelessText) .arXiv nameless = .ok namelessPage := by
  decide +kernel

/-- The paper of a record without an id is returned under the empty id. -/
theorem nameless_not_well_formed :
    ¬ ∀ (lib : Stdlib) (metadataPrefix : OaiMetadataPrefix) (root : Element) (page : ParsedPage),
      parseOaiPmhListRecords lib metadataPrefix root = .ok page →
        WellFormed lib metadataPrefix root page := by
  intro h
  cases h _ _ _ _ nameless_parsed with
  | cons hread _ =>
      rcases hread.paper with ⟨hdeleted, _⟩ | ⟨_, paper, hpaper, hne, _⟩
      · cases hdeleted
      · cases hpaper
        exact hne rfl

end

end OaiPmh
end Huldra
