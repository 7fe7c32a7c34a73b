import Huldra.Time.RoundTrip

/-!
# Atom — reading the feed of the legacy API

`parse_arxiv_atom` reads every entry of a feed, or finds that the feed is an error report.  The feed
is taken as `feedparser` gives it: an `Entry` has what `get` answers of it, and the six numbers of
each date it could parse.  What the standard library makes of a network location and of the text of
a date is a parameter.
-/

namespace Huldra
namespace Atom

open Text Xml Keys
open OaiPmh (Datetime Stdlib parsedPath)
open Raising (bind_ok mapM_ok_iff)

/-! ## Feeds -/

/-- The first six fields of a `struct_time`. -/
structure StructTime where
  year : Nat
  month : Nat
  day : Nat
  hour : Nat
  minute : Nat
  second : Nat
  deriving DecidableEq, Repr

structure Link where
  rel : Option Text := none
  href : Option Text := none
  title : Option Text := none
  contentType : Option Text := none
  deriving DecidableEq, Repr

structure Entry where
  id : Option Text := none
  title : Option Text := none
  summary : Option Text := none
  subtitle : Option Text := none
  links : List Link := []
  /-- The `name` of each author. -/
  authors : List (Option Text) := []
  /-- The `term` of each tag. -/
  tags : List (Option Text) := []
  /-- The `term` of `arxiv_primary_category`, if that is there. -/
  primaryCategory : Option (Option Text) := none
  published : Option Text := none
  publishedParsed : Option StructTime := none
  updated : Option Text := none
  updatedParsed : Option StructTime := none
  comment : Option Text := none
  journalRef : Option Text := none
  doi : Option Text := none
  deriving DecidableEq, Repr

structure Feed where
  entries : List Entry := []
  /-- `feed.get("opensearch_totalresults")` -/
  totalResults : Option Text := none
  deriving DecidableEq, Repr

/-! ## What is read -/

/-- `ArxivAtomError` -/
structure ArxivAtomError where
  title : Text
  message : Option Text
  entryId : Option Text
  alternateUrl : Option Text
  deriving DecidableEq, Repr

structure ParsedArxivFeed where
  papers : List ArxivPaper
  totalResults : Option Int
  errors : List ArxivAtomError
  deriving DecidableEq, Repr

/-! ## URLs -/

structure ParsedUrl where
  scheme : Text
  netloc : Text
  path : Text
  fragment : Text
  deriving DecidableEq, Repr

/-- What `urlparse(raw)` finds, as far as it is looked at. -/
def ParsedUrl.of (raw : Text) : ParsedUrl :=
  let url := (raw.dropWhile fun c => c.toNat ≤ 32).filter
    fun c => c != '\t' && c != '\r' && c != '\n'
  { scheme := (splitScheme url).1
    netloc := urlNetloc raw
    path := parsedPath raw
    fragment := (splitAtFirst (· == '#') (splitNetloc (splitScheme url).2).2).2.drop 1 }

/-- `urlparse(raw)`; `rejects` is its check of a network location. -/
def urlparse (rejects : Text → Bool) (raw : Text) : Except Exn ParsedUrl :=
  if rejects (urlNetloc raw) then .error (.valueError "Invalid IPv6 URL") else .ok (.of raw)

/-- `_is_paper_abs_url`, of a value that is not empty. -/
def ParsedUrl.isPaperAbs (parsed : ParsedUrl) : Bool :=
  (parsed.scheme == "http".toList || parsed.scheme == "https".toList) &&
    "arxiv.org".toList.isSuffixOf parsed.netloc &&
      (parsed.path == "/abs".toList || "/abs/".toList.isPrefixOf parsed.path)

/-- `_is_api_error_url`, of a value that is not empty. -/
def ParsedUrl.isApiError (parsed : ParsedUrl) : Bool :=
  let path := (parsed.path.reverse.dropWhile (· == '/')).reverse
  let fragment :=
    ((parsed.fragment.dropWhile (· == '/')).reverse.dropWhile (· == '/')).reverse
  path == "/api/errors".toList || "/api/errors/".toList.isPrefixOf path ||
    fragment == "api/errors".toList || "api/errors/".toList.isPrefixOf fragment

/-- The test of a URL that may be missing or empty. -/
def testUrl (rejects : Text → Bool) (test : ParsedUrl → Bool) (value : Option Text) :
    Except Exn Bool :=
  match value with
  | none | some [] => .ok false
  | some value => (urlparse rejects (strip value)).map test

def isPaperAbsUrl (rejects : Text → Bool) : Option Text → Except Exn Bool :=
  testUrl rejects ParsedUrl.isPaperAbs

def isApiErrorUrl (rejects : Text → Bool) : Option Text → Except Exn Bool :=
  testUrl rejects ParsedUrl.isApiError

def http : Text :=
  ['h', 't', 't', 'p', ':', '/', '/']

/-- `value.replace("http://", "https://")` -/
def toHttps : Text → Text
  | 'h' :: 't' :: 't' :: 'p' :: ':' :: '/' :: '/' :: rest =>
      'h' :: 't' :: 't' :: 'p' :: 's' :: ':' :: '/' :: '/' :: toHttps rest
  | c :: rest => c :: toHttps rest
  | [] => []

/-! ## The fields of an entry -/

/-- `value or ""`, in the sense that an empty text counts as none. -/
def orEmpty (value : Option Text) : Text :=
  value.getD []

/-- `_entry_text` -/
def entryText (value : Option Text) : Option Text :=
  value.bind fun value => orNone (normalizeSpace value)

/-- The stripped text of a `name` or a `term`, if it is not blank. -/
def stripped (value : Option Text) : Option Text :=
  orNone (strip (orEmpty value))

/-- `_alternate_link` -/
def alternateLink (entry : Entry) : Option Text :=
  entry.links.findSome? fun link =>
    if link.rel = some "alternate".toList then orNone (strip (orEmpty link.href)) else none

/-- `_pdf_link` -/
def pdfLink (entry : Entry) : Option Text :=
  entry.links.findSome? fun link =>
    if (orEmpty link.title).map lowerAscii = "pdf".toList ∨
        (orEmpty link.contentType).map lowerAscii = "application/pdf".toList then
      orNone (strip (orEmpty link.href))
    else none

/-- `_primary_category`, or none where that is empty. -/
def primaryCategory (entry : Entry) : Option Text :=
  entry.primaryCategory.bind stripped

/-- `datetime(*parsed[:6], tzinfo=UTC)` -/
def StructTime.datetime (t : StructTime) : Except Exn Datetime :=
  match Time.dayOf t.year t.month t.day with
  | none => .error (.valueError "day is out of range for month")
  | some day =>
      if t.year ≤ 9999 ∧ t.hour < 24 ∧ t.minute < 60 ∧ t.second < 60 then
        .ok
          { shown := ((day * 24 + t.hour) * 60 + t.minute) * 60000000 + t.second * 1000000
            offset := some 0 }
      else .error (.valueError "argument is out of range")

/-- `value.replace("Z", "+00:00")` -/
def withOffset (value : Text) : Text :=
  value.flatMap fun c => if c = 'Z' then "+00:00".toList else [c]

/-- `_entry_datetime` -/
def entryDatetime (lib : Stdlib) (parsed : Option StructTime) (value : Option Text) :
    Except Exn (Option Datetime) :=
  match parsed, value with
  | some parsed, _ => parsed.datetime.map some
  | none, none | none, some [] => .ok none
  | none, some value =>
      match lib.fromIsoformat (withOffset value) with
      | none => .ok none
      | some read => (Time.ensureUtc read).map some

/-- `_coerce_int`: `int` takes a sign, single underscores between the digits, and no more than
`maxStrDigits` of them. -/
def coerceInt (value : Option Text) : Option Int :=
  value.bind fun value =>
    let (sign, body) := match strip value with
      | '-' :: body => (-1, body)
      | '+' :: body => (1, body)
      | body => ((1 : Int), body)
    let groups := body.splitOnP (· == '_')
    if (groups.all fun group => !group.isEmpty && group.all Text.isDigit) &&
        groups.flatten.length ≤ maxStrDigits then
      some (sign * Text.toNat groups.flatten)
    else none

/-! ## Entries -/

section
variable (lib : Stdlib)

/-- The text an id is read from. -/
def rawId (entry : Entry) : Text :=
  orEmpty ((entry.id.filter (· ≠ [])).or (alternateLink entry))

/-- `_alternate_link(entry) or f"https://arxiv.org/abs/{arxiv_id}"` -/
def linkedUrl (entry : Entry) (arxivId : String) : Text :=
  (alternateLink entry).getD (LibraryTables.canonicalUrl arxivId).toList

/-- `raw_atom` -/
def rawAtom (entry : Entry) (arxivId : String) : Json.Object :=
  [("alternate_url", .string (String.ofList (linkedUrl entry arxivId))),
    ("entry_id", .string (String.ofList (rawId entry))),
    ("pdf_url", .ofText ((pdfLink entry).map String.ofList))]

/-- `_paper_from_entry` -/
def paperFromEntry (entry : Entry) : Except Exn ArxivPaper := do
  let arxivId ← normalizeArxivId? lib.rejects (String.ofList (rawId entry))
  let version ← arxivVersion? arxivId
  let authors := entry.authors.filterMap stripped
  let categories := entry.tags.filterMap stripped
  let published ← entryDatetime lib entry.publishedParsed entry.published
  let updated ← entryDatetime lib entry.updatedParsed entry.updated
  .ok
    { arxivId := arxivId
      version := version
      canonicalUrl := String.ofList (toHttps (linkedUrl entry arxivId))
      content :=
        { title := String.ofList (normalizeSpace (orEmpty entry.title))
          abstract_ := (orNone (normalizeSpace (orEmpty entry.summary))).map String.ofList
          authors := authors.map String.ofList
          primaryCategory := ((primaryCategory entry).or categories.head?).map String.ofList
          categories := categories.map String.ofList
          publishedAt := published.map (·.instant)
          updatedAt := updated.map (·.instant)
          comment := (entryText entry.comment).map String.ofList
          journalRef := (entryText entry.journalRef).map String.ofList
          doi := (entryText entry.doi).map String.ofList
          rawAtom := rawAtom entry arxivId } }

/-- `title.lower() != "error"`: no letter outside of ASCII has one of these as its lower case. -/
def titledError (entry : Entry) : Bool :=
  (normalizeSpace (orEmpty entry.title)).map lowerAscii == "error".toList

/-- `_error_feed_entries` -/
def errorFeedEntries (entries : List Entry) : Except Exn (List ArxivAtomError) :=
  match entries with
  | [entry] =>
      if titledError entry then do
        let entryId := strip (orEmpty entry.id)
        let paper ← isPaperAbsUrl lib.rejects (some entryId)
        if paper then .ok []
        else do
          let byId ← isApiErrorUrl lib.rejects (some entryId)
          let byUrl ← if byId then .ok true else isApiErrorUrl lib.rejects (alternateLink entry)
          if byUrl then
            .ok
              [{ title := normalizeSpace (orEmpty entry.title)
                 message := (entryText entry.summary).or (entryText entry.subtitle)
                 entryId := orNone entryId
                 alternateUrl := alternateLink entry }]
          else .ok []
      else .ok []
  | _ => .ok []

/-- `parse_arxiv_atom`, of a text that is parsed. -/
def parseArxivAtom (feed : Feed) : Except Exn ParsedArxivFeed := do
  let errors ← errorFeedEntries lib feed.entries
  if errors = [] then do
    let papers ← feed.entries.mapM (paperFromEntry lib)
    .ok { papers := papers, totalResults := coerceInt feed.totalResults, errors := [] }
  else
    .ok { papers := [], totalResults := coerceInt feed.totalResults, errors := errors }

end

/-! ## What the fields look like -/

/-- The words of a text, one space between each two of them. -/
def Spaced (value : Text) : Prop :=
  normalizeSpace value = value

/-- There is something in the text, and no white space around it. -/
def Trimmed (value : Text) : Prop :=
  strip value = value ∧ NonBlank value

theorem splitSpaces_joinSpaces {parts : List Text}
    (hparts : ∀ part ∈ parts, part ≠ [] ∧ ∀ c ∈ part, isSpace c = false) :
    splitSpaces (joinSpaces parts) = parts := by
  induction parts with
  | nil => rfl
  | cons part rest ih =>
      rw [List.forall_mem_cons] at hparts
      rcases hparts with ⟨⟨hne, hsolid⟩, hrest⟩
      have hone : part.splitOnP isSpace = [part] := List.splitOnP_eq_singleton hsolid
      cases rest with
      | nil => simp [joinSpaces, splitSpaces, hone, hne]
      | cons next rest =>
          have hsplit : splitSpaces (part ++ ' ' :: joinSpaces (next :: rest)) =
              part :: splitSpaces (joinSpaces (next :: rest)) := by
            unfold splitSpaces
            rw [List.splitOnP_append_cons_of_forall_mem hsolid ' ' rfl, List.filter_cons_of_pos]
            simpa using hne
          exact hsplit.trans (congrArg (part :: ·) (ih hrest))

theorem solid_splitSpaces (value : Text) :
    ∀ part ∈ splitSpaces value, part ≠ [] ∧ ∀ c ∈ part, isSpace c = false := by
  intro part hpart
  simp only [splitSpaces, List.mem_filter, decide_eq_true_eq] at hpart
  exact ⟨hpart.2, splitOnP_not part hpart.1⟩

theorem spaced_normalizeSpace (value : Text) : Spaced (normalizeSpace value) :=
  congrArg joinSpaces (splitSpaces_joinSpaces (solid_splitSpaces value))

theorem nonBlank_strip {value : Text} (h : strip value ≠ []) : NonBlank (strip value) := by
  have hprefix : strip value <+: lstrip value := rstrip_prefix_self (lstrip value)
  cases hstrip : strip value with
  | nil => exact absurd hstrip h
  | cons c rest =>
      rw [hstrip] at hprefix
      cases hleft : lstrip value with
      | nil =>
          rw [hleft] at hprefix
          exact absurd (List.prefix_nil.1 hprefix) (List.cons_ne_nil c rest)
      | cons d tail =>
          rw [hleft] at hprefix
          have hhead : c = d := (List.cons_prefix_cons.1 hprefix).1
          have hsolid : isSpace d = false := by
            have hdrop := List.head?_dropWhile_not isSpace value
            have hhead? : (value.dropWhile isSpace).head? = some d := congrArg List.head? hleft
            rw [hhead?] at hdrop
            simpa using hdrop
          exact ⟨c, List.mem_cons_self, by rw [hhead]; exact hsolid⟩

theorem trimmed_of_stripped {value : Option Text} {text : Text} (h : stripped value = some text) :
    Trimmed text := by
  unfold stripped orNone at h
  split at h
  · cases h
  case isFalse hne =>
    cases h
    exact ⟨strip_strip _, nonBlank_strip hne⟩

/-- What has no `h` in it is not made by the replacement. -/
theorem prefix_of_prefix_toHttps {p : Text} (hp : 'h' ∉ p) :
    ∀ {s : Text}, p <+: toHttps s → p <+: s := by
  induction p with
  | nil =>
      intro s _
      exact List.nil_prefix
  | cons c p ih =>
      intro s h
      rw [List.mem_cons, not_or] at hp
      unfold toHttps at h
      split at h
      · -- The replacement begins with an `h`.
        exact absurd (List.cons_prefix_cons.1 h).1.symm hp.1
      · rcases List.cons_prefix_cons.1 h with ⟨rfl, hrest⟩
        exact List.cons_prefix_cons.2 ⟨rfl, ih hp.2 hrest⟩
      · exact absurd (List.prefix_nil.1 h) (List.cons_ne_nil c p)

/-- A character in front makes an `http://` only if it is the `h` of one. -/
theorem http_cons {c : Char} {s : Text} (h : http <:+: c :: s) :
    c = 'h' ∧ http.tail <+: s ∨ http <:+: s := by
  rcases List.infix_cons_iff.1 h with hprefix | hinfix
  · rcases List.cons_prefix_cons.1 hprefix with ⟨hc, hrest⟩
    exact .inl ⟨hc.symm, hrest⟩
  · exact .inr hinfix

theorem http_of_append {skipped s : Text} (hskipped : 'h' ∉ skipped)
    (h : http <:+: skipped ++ s) : http <:+: s := by
  induction skipped with
  | nil => exact h
  | cons c skipped ih =>
      rw [List.mem_cons, not_or] at hskipped
      rcases http_cons h with ⟨hc, _⟩ | h
      · exact absurd hc.symm hskipped.1
      · exact ih hskipped.2 h

/-- No `http://` is left, nor made where the replacements meet the rest. -/
theorem no_http_toHttps (s : Text) : ¬ http <:+: toHttps s := by
  induction s using toHttps.induct with
  | case1 rest ih =>
      rw [toHttps]
      intro h
      rcases http_cons h with ⟨_, hrest⟩ | h
      · -- The `s` of the replacement stands where the colon should.
        simp [http] at hrest
      · have hskipped : 'h' ∉ ['t', 't', 'p', 's', ':', '/', '/'] := by decide
        exact ih (http_of_append hskipped h)
  | case2 c rest hne ih =>
      rw [toHttps]
      · intro h
        rcases http_cons h with ⟨rfl, hrest⟩ | h
        · have hnone : 'h' ∉ http.tail := by decide
          rcases prefix_of_prefix_toHttps hnone hrest with ⟨tail, rfl⟩
          exact hne tail rfl rfl
        · exact ih h
      · exact hne
  | case3 =>
      intro h
      cases List.infix_nil.1 h

/-! ## What is read of an entry -/

/-- The text is missing where that of the entry is blank, and else has its words, a space between
each two of them. -/
structure Cleaned (value : Option Text) (text : Option String) : Prop where
  missing : text = none ↔ splitSpaces (orEmpty value) = []
  spaced : ∀ s, text = some s → Spaced s.toList
  words : ∀ s, text = some s → splitSpaces s.toList = splitSpaces (orEmpty value)

/-- The values that are not blank, in their order and without the white space around them. -/
structure Named (values : List (Option Text)) (names : List String) : Prop where
  listed : names.map String.toList =
    (values.map fun value => strip (orEmpty value)).filter (· ≠ [])
  trimmed : ∀ name ∈ names, Trimmed name.toList

/-- The moment is that of the six numbers in UTC, if the entry has them; or else that of the text,
which is in UTC too if it shows no offset; and it is missing where there is no such text, or none
that can be read. -/
def DatedBy (lib : Stdlib) (parsed : Option StructTime) (value : Option Text) (at_ : Option Int) :
    Prop :=
  match parsed with
  | some t => ∃ day, Time.dayOf t.year t.month t.day = some day ∧
      at_ = some (((day * 24 + t.hour) * 60 + t.minute) * 60000000 + t.second * 1000000)
  | none => at_ = ((value.filter (· ≠ [])).bind fun text => lib.fromIsoformat (withOffset text)).map
      fun read => read.shown - read.offset.getD 0

/-- The paper of an entry, field by field: identified, cleaned, dated in UTC, with what the entry
says and nothing that an OAI record says. -/
structure WellRead (lib : Stdlib) (entry : Entry) (paper : ArxivPaper) : Prop where
  arxivId : paper.arxivId = normalizeArxivId (String.ofList (rawId entry))
  version : paper.version = arxivVersion paper.arxivId
  url : paper.canonicalUrl.toList = toHttps (linkedUrl entry paper.arxivId)
  noHttp : ¬ http <:+: paper.canonicalUrl.toList
  title : Spaced paper.content.title.toList ∧
    splitSpaces paper.content.title.toList = splitSpaces (orEmpty entry.title)
  abstract_ : Cleaned entry.summary paper.content.abstract_
  comment : Cleaned entry.comment paper.content.comment
  journalRef : Cleaned entry.journalRef paper.content.journalRef
  doi : Cleaned entry.doi paper.content.doi
  authors : Named entry.authors paper.content.authors
  categories : Named entry.tags paper.content.categories
  /-- The primary category is the one that is called so, or else the first one. -/
  primaryCategory : paper.content.primaryCategory =
    ((primaryCategory entry).map String.ofList).or paper.content.categories.head?
  publishedAt : DatedBy lib entry.publishedParsed entry.published paper.content.publishedAt
  updatedAt : DatedBy lib entry.updatedParsed entry.updated paper.content.updatedAt
  rawAtom : paper.content.rawAtom = rawAtom entry paper.arxivId
  rest : paper.content.authorsDetail = [] ∧ paper.content.license = none ∧
    paper.content.links = [] ∧ paper.content.versions = [] ∧ paper.content.withdrawn = false ∧
    paper.content.rawMetadata = []
  legacy : paper.oaiIdentifier = none ∧ paper.oaiDatestamp = none ∧ paper.oaiSetSpecs = [] ∧
    paper.deleted = false

section
variable {lib : Stdlib} {entry : Entry}

theorem splitSpaces_normalizeSpace (value : Text) :
    splitSpaces (normalizeSpace value) = splitSpaces value :=
  splitSpaces_joinSpaces (solid_splitSpaces value)

/-- No words are no text. -/
theorem normalizeSpace_eq_nil {value : Text} :
    normalizeSpace value = [] ↔ splitSpaces value = [] := by
  constructor
  · intro h
    rw [← splitSpaces_normalizeSpace, h]
    rfl
  · intro h
    unfold normalizeSpace
    rw [h]
    rfl

theorem cleaned_orNone (value : Option Text) :
    Cleaned value ((orNone (normalizeSpace (orEmpty value))).map String.ofList) := by
  unfold orNone
  split
  · rename_i hnone
    refine ⟨iff_of_true rfl (normalizeSpace_eq_nil.1 hnone), ?_, ?_⟩
    · intro s hs
      cases hs
    · intro s hs
      cases hs
  · rename_i hsome
    refine ⟨iff_of_false (fun h => by cases h) fun h => hsome (normalizeSpace_eq_nil.2 h), ?_, ?_⟩
    · rintro s ⟨⟩
      rw [String.toList_ofList]
      exact spaced_normalizeSpace _
    · rintro s ⟨⟩
      rw [String.toList_ofList]
      exact splitSpaces_normalizeSpace _

/-- A field that is missing reads like an empty one. -/
theorem cleaned_entryText (value : Option Text) :
    Cleaned value ((entryText value).map String.ofList) := by
  cases value with
  | none => exact cleaned_orNone none
  | some value => exact cleaned_orNone (some value)

theorem stripped_of_nonBlank {value : Option Text} (h : strip (orEmpty value) ≠ []) :
    stripped value = some (strip (orEmpty value)) := by
  unfold stripped orNone
  exact if_neg h

theorem stripped_of_blank {value : Option Text} (h : strip (orEmpty value) = []) :
    stripped value = none := by
  unfold stripped orNone
  exact if_pos h

theorem filterMap_stripped (values : List (Option Text)) :
    values.filterMap stripped =
      (values.map fun value => strip (orEmpty value)).filter (· ≠ []) := by
  induction values with
  | nil => rfl
  | cons value rest ih =>
      by_cases hblank : strip (orEmpty value) = []
      · rw [List.filterMap_cons_none (stripped_of_blank hblank), List.map_cons,
          List.filter_cons_of_neg (by simpa using hblank), ih]
      · rw [List.filterMap_cons_some (stripped_of_nonBlank hblank), List.map_cons,
          List.filter_cons_of_pos (by simpa using hblank), ih]

theorem named_stripped (values : List (Option Text)) :
    Named values ((values.filterMap stripped).map String.ofList) := by
  refine ⟨?_, ?_⟩
  · rw [List.map_map, ← filterMap_stripped]
    exact List.map_id'' (fun _ => String.toList_ofList) _
  · intro name hname
    rcases List.mem_map.1 hname with ⟨text, htext, rfl⟩
    rcases List.mem_filterMap.1 htext with ⟨value, _, hvalue⟩
    rw [String.toList_ofList]
    exact trimmed_of_stripped hvalue

theorem instant_ensureUtc {value utc : Datetime} (h : Time.ensureUtc value = .ok utc) :
    utc.instant = value.shown - value.offset.getD 0 := by
  unfold Time.ensureUtc at h
  split at h
  · rename_i hnone
    cases h
    rw [hnone]
    rfl
  · rename_i offset hsome
    unfold Datetime.astimezoneUtc at h
    dsimp only at h
    split at h
    · cases h
      rw [hsome]
      exact Int.sub_zero _
    · cases h

theorem datedBy_entryDatetime {parsed : Option StructTime} {value : Option Text}
    {read : Option Datetime} (h : entryDatetime lib parsed value = .ok read) :
    DatedBy lib parsed value (read.map (·.instant)) := by
  unfold entryDatetime at h
  unfold DatedBy
  split at h
  case h_1 t =>
    unfold StructTime.datetime at h
    cases hday : Time.dayOf t.year t.month t.day with
    | none =>
        rw [hday] at h
        cases h
    | some day =>
        rw [hday] at h
        dsimp only at h
        split at h
        · cases h
          exact ⟨day, hday, congrArg some (Int.sub_zero _)⟩
        · cases h
  case h_2 =>
    cases h
    rfl
  case h_3 =>
    cases h
    rfl
  case h_4 text hnonempty =>
    have hkept : (some text).filter (· ≠ []) = some text := by
      rw [Option.filter_some, if_pos (by simpa using hnonempty)]
    dsimp only
    rw [hkept, Option.bind_some]
    cases hread : lib.fromIsoformat (withOffset text) with
    | none =>
        rw [hread] at h
        cases h
        rfl
    | some shown =>
        rw [hread] at h
        dsimp only at h
        cases hutc : Time.ensureUtc shown with
        | error e =>
            rw [hutc] at h
            cases h
        | ok utc =>
            rw [hutc] at h
            cases h
            exact congrArg some (instant_ensureUtc hutc)

theorem arxivVersion?_ok {value : String} {version : Option Nat}
    (h : arxivVersion? value = .ok version) : version = arxivVersion value := by
  unfold arxivVersion? at h
  unfold arxivVersion
  split at h
  · rename_i hnone
    cases h
    rw [hnone]
    rfl
  · rename_i m hsome
    split at h
    · cases h
    · cases h
      rw [hsome]
      rfl

theorem paper_ok {paper : ArxivPaper} (h : paperFromEntry lib entry = .ok paper) :
    WellRead lib entry paper := by
  unfold paperFromEntry at h
  rcases bind_ok h with ⟨arxivId, hid, h⟩
  rcases bind_ok h with ⟨version, hversion, h⟩
  rcases bind_ok h with ⟨published, hpublished, h⟩
  rcases bind_ok h with ⟨updated, hupdated, h⟩
  cases h
  refine
    { arxivId := OaiPmh.normalizeArxivId?_ok hid
      version := arxivVersion?_ok hversion
      url := String.toList_ofList
      noHttp := ?_
      title := ?_
      abstract_ := cleaned_orNone entry.summary
      comment := cleaned_entryText entry.comment
      journalRef := cleaned_entryText entry.journalRef
      doi := cleaned_entryText entry.doi
      authors := named_stripped entry.authors
      categories := named_stripped entry.tags
      primaryCategory := ?_
      publishedAt := datedBy_entryDatetime hpublished
      updatedAt := datedBy_entryDatetime hupdated
      rawAtom := rfl
      rest := ⟨rfl, rfl, rfl, rfl, rfl, rfl⟩
      legacy := ⟨rfl, rfl, rfl, rfl⟩ }
  · dsimp only
    rw [String.toList_ofList]
    exact no_http_toHttps _
  · dsimp only
    rw [String.toList_ofList]
    exact ⟨spaced_normalizeSpace _, splitSpaces_normalizeSpace _⟩
  · dsimp only
    rw [Option.map_or, List.head?_map]

/-- A feed that is parsed without an error has one paper for each entry, in order. -/
theorem papers_ok {feed : Feed} {parsed : ParsedArxivFeed}
    (h : parseArxivAtom lib feed = .ok parsed) (hnone : parsed.errors = []) :
    List.Forall₂ (WellRead lib) feed.entries parsed.papers := by
  unfold parseArxivAtom at h
  rcases bind_ok h with ⟨errors, herrors, h⟩
  split at h
  · rcases bind_ok h with ⟨papers, hpapers, h⟩
    cases h
    exact (mapM_ok_iff.1 hpapers).imp fun entry paper hread => paper_ok hread
  · rename_i hsome
    cases h
    exact absurd hnone hsome

end

example : toHttps "http://arxiv.org/abs/2401.00001v1".toList =
    "https://arxiv.org/abs/2401.00001v1".toList := by decide

end Atom
end Huldra
