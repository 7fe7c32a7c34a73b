import Huldra.Atom
import Huldra.Library.IdLists
import Huldra.Upstream.RetryAfter

/-!
# Fetcher — one request to the legacy API

`ArxivApiFetcher.fetch` sends one request and either returns what the feed says or raises; the
worker decides by the exception whether the request is put off, tried again or given up.  What is
outside of the program is a parameter: the answer to the request, the checks of the standard
library, and the time at which a `Retry-After` is read.
-/

namespace Huldra
namespace Fetcher

open Text Xml Keys
open Atom
open OaiPmh (Datetime Stdlib)
open Raising (bind_ok exists_bind exists_map exists_mapM)

structure ApiCall where
  params : List (String × String)
  timeoutSeconds : Timeout
  deriving DecidableEq, Repr

structure Response where
  statusCode : Int
  /-- The header `Retry-After`. -/
  retryAfter : Option Text := none
  /-- The text, as `feedparser` gives it. -/
  feed : Feed := {}

/-- `FetchResult` -/
structure ApiResult where
  papers : List ArxivPaper
  totalResults : Option Int
  upstreamStatus : Int
  deriving DecidableEq, Repr

/-- What `client.get` raises: an `httpx.RequestError`, or another exception. -/
inductive ClientError where
  | requestError (message : String)
  | other
  deriving DecidableEq, Repr

structure World where
  /-- `client.get` -/
  get : ApiCall → Except ClientError Response
  lib : Stdlib
  parsedate : Text → Option ParsedDatetime := fun _ => none
  now : Int := 0

/-- The one call that `fetch` makes. -/
def apiCall (settings : HuldraSettings) (request : ArxivRequest) : ApiCall :=
  { params := buildArxivApiParams request
    timeoutSeconds :=
      (request.timeoutSeconds.filter (· ≠ ((0 : Int) : Timeout))).getD
        settings.requestTimeoutSeconds }

/-- `_get_once` -/
def getOnce (w : World) (call : ApiCall) : Except Exn Response :=
  match w.get call with
  | .error (.requestError message) =>
      .error (.transientFetchError ("arXiv API request failed: " ++ message) none)
  | .error .other => .error .unexpected
  | .ok response => .ok response

def returnedHttp (statusCode : Int) : String :=
  "arXiv API returned HTTP " ++ toString statusCode

/-- What `fetch` makes of a feed that is parsed. -/
def resultOf (statusCode : Int) (parsed : ParsedArxivFeed) : Except Exn ApiResult :=
  match parsed.errors with
  | error :: _ =>
      .error (.nonRetryableFetchError
        ("arXiv API returned an error feed: " ++ String.ofList (error.message.getD error.title))
        (some statusCode))
  | [] =>
      .ok
        { papers := parsed.papers
          totalResults := parsed.totalResults
          upstreamStatus := statusCode }

/-- What `fetch` makes of a response. -/
def handle (w : World) (response : Response) : Except Exn ApiResult :=
  if response.statusCode = 429 then
    match parseRetryAfterSeconds w.parsedate response.retryAfter w.now with
    | .error e => .error e
    | .ok retryAfter => .error (.rateLimitedError retryAfter "rate limited" 429)
  else if 500 ≤ response.statusCode then
    .error (.transientFetchError (returnedHttp response.statusCode) (some response.statusCode))
  else if response.statusCode < 200 ∨ 300 ≤ response.statusCode then
    .error (.nonRetryableFetchError (returnedHttp response.statusCode) (some response.statusCode))
  else do
    let parsed ← parseArxivAtom w.lib response.feed
    resultOf response.statusCode parsed

/-- `ArxivApiFetcher.fetch` -/
def fetch (w : World) (settings : HuldraSettings) (request : ArxivRequest) :
    Except Exn ApiResult := do
  let response ← getOnce w (apiCall settings request)
  handle w response

/-! ## What can be read -/

section
variable (lib : Stdlib)

/-- The test of this URL does not raise. -/
def Accepts (value : Option Text) : Prop :=
  ∀ text, value = some text → text ≠ [] → lib.rejects (urlNetloc (strip text)) = false

/-- There is a URL, and the test says yes. -/
def Says (test : ParsedUrl → Bool) (value : Option Text) : Prop :=
  ∃ text, value = some text ∧ text ≠ [] ∧ test (.of (strip text)) = true

/-- The six numbers are those of a moment. -/
def ValidTime (t : StructTime) : Prop :=
  (Time.dayOf t.year t.month t.day).isSome ∧ t.year ≤ 9999 ∧ t.hour < 24 ∧ t.minute < 60 ∧
    t.second < 60

/-- A date that was not parsed is either no date for the standard library too, or, if it shows an
offset, within the calendar in UTC. -/
def ReadableText (value : Option Text) : Prop :=
  ∀ text, value = some text → text ≠ [] → ∀ read offset,
    lib.fromIsoformat (withOffset text) = some read → read.offset = some offset →
      dateMin * 86400000000 ≤ read.shown - offset ∧
        read.shown - offset < (dateMax + 1) * 86400000000

def ReadableDate (parsed : Option StructTime) (value : Option Text) : Prop :=
  (∀ t, parsed = some t → ValidTime t) ∧ (parsed = none → ReadableText lib value)

/-- The version has no more digits than `int` takes. -/
def ShortVersion (arxivId : String) : Prop :=
  ∀ m, versionMatch arxivId.toList = some m → m.2.length ≤ maxStrDigits

structure ReadableEntry (entry : Entry) : Prop where
  id : lib.rejects (urlNetloc (strip (rawId entry))) = false
  version : ShortVersion (normalizeArxivId (String.ofList (rawId entry)))
  published : ReadableDate lib entry.publishedParsed entry.published
  updated : ReadableDate lib entry.updatedParsed entry.updated

/-- The stripped id, as the test of an error feed looks at it. -/
def entryId (entry : Entry) : Option Text :=
  some (strip (orEmpty entry.id))

/-- The entry is an error report: it is called so, its id is no paper's, and one of its URLs is that
of an error. -/
def Reports (entry : Entry) : Prop :=
  titledError entry = true ∧ Accepts lib (entryId entry) ∧
    ¬ Says ParsedUrl.isPaperAbs (entryId entry) ∧
      (Says ParsedUrl.isApiError (entryId entry) ∨
        Accepts lib (alternateLink entry) ∧ Says ParsedUrl.isApiError (alternateLink entry))

/-- The entry is found to be no error report. -/
def Ordinary (entry : Entry) : Prop :=
  titledError entry = true → Accepts lib (entryId entry) ∧
    (Says ParsedUrl.isPaperAbs (entryId entry) ∨
      ¬ Says ParsedUrl.isApiError (entryId entry) ∧ Accepts lib (alternateLink entry) ∧
        ¬ Says ParsedUrl.isApiError (alternateLink entry))

/-- Every entry can be read, and a single one is no error report. -/
structure Proper (feed : Feed) : Prop where
  ordinary : ∀ entry, feed.entries = [entry] → Ordinary lib entry
  readable : ∀ entry ∈ feed.entries, ReadableEntry lib entry

end

variable {lib : Stdlib}

theorem accepts_of_vacant {value : Option Text} (h : ∀ text, value = some text → text = []) :
    Accepts lib value :=
  fun text htext hne => absurd (h text htext) hne

theorem not_says_of_vacant {test : ParsedUrl → Bool} {value : Option Text}
    (h : ∀ text, value = some text → text = []) : ¬ Says test value := by
  rintro ⟨text, htext, hne, _⟩
  exact hne (h text htext)

theorem testUrl_eq (test : ParsedUrl → Bool) (value : Option Text) (b : Bool) :
    testUrl lib.rejects test value = .ok b ↔
      Accepts lib value ∧ (Says test value ↔ b = true) := by
  have hvacant : (∀ text, value = some text → text = []) →
      ((.ok false : Except Exn Bool) = .ok b ↔
        Accepts lib value ∧ (Says test value ↔ b = true)) := by
    intro h
    have haccepts : Accepts lib value := accepts_of_vacant h
    have htells : ¬ Says test value := not_says_of_vacant h
    cases b with
    | false => exact iff_of_true rfl ⟨haccepts, iff_of_false htells Bool.false_ne_true⟩
    | true => exact iff_of_false (fun heq => by cases heq) fun hboth => htells (hboth.2.2 rfl)
  unfold testUrl
  split
  · exact hvacant fun text htext => by cases htext
  · exact hvacant fun text htext => by cases htext; rfl
  · rename_i text hne
    have hsome : text ≠ [] := fun hnil => hne (by rw [hnil])
    unfold urlparse
    by_cases hrejects : lib.rejects (urlNetloc (strip text)) = true
    · rw [if_pos hrejects]
      refine iff_of_false (fun h => by cases h) fun h => ?_
      have haccepts := h.1 text rfl hsome
      rw [hrejects] at haccepts
      cases haccepts
    · rw [if_neg hrejects]
      have haccepts : Accepts lib (some text) := by
        intro text' htext _
        cases htext
        simpa using hrejects
      have htells : Says test (some text) ↔ test (.of (strip text)) = true := by
        constructor
        · rintro ⟨text', htext, _, htest⟩
          cases htext
          exact htest
        · exact fun htest => ⟨text, rfl, hsome, htest⟩
      rw [htells, and_iff_right haccepts, Except.map, Except.ok.injEq]
      exact Bool.eq_iff_iff

theorem testUrl_ok {test : ParsedUrl → Bool} {value : Option Text} {b : Bool}
    (h : testUrl lib.rejects test value = .ok b) :
    Accepts lib value ∧ (Says test value ↔ b = true) :=
  (testUrl_eq test value b).1 h

theorem exists_testUrl (test : ParsedUrl → Bool) {value : Option Text}
    (h : Accepts lib value) : ∃ b, testUrl lib.rejects test value = .ok b := by
  by_cases htells : Says test value
  · exact ⟨true, (testUrl_eq test value true).2 ⟨h, iff_of_true htells rfl⟩⟩
  · exact ⟨false, (testUrl_eq test value false).2 ⟨h, iff_of_false htells Bool.false_ne_true⟩⟩

theorem not_accepts {test : ParsedUrl → Bool} {value : Option Text} {e : Exn}
    (h : testUrl lib.rejects test value = .error e) : ¬ Accepts lib value := by
  intro haccepts
  rcases exists_testUrl test haccepts with ⟨b, hb⟩
  rw [h] at hb
  cases hb

/-! ## Error feeds -/

theorem not_ordinary_of_reports {entry : Entry} (h : Reports lib entry) :
    ¬ Ordinary lib entry := by
  intro hordinary
  rcases h with ⟨htitle, _, hnoPaper, herror⟩
  rcases (hordinary htitle).2 with hpaper | ⟨hnoId, _, hnoUrl⟩
  · exact hnoPaper hpaper
  · rcases herror with hid | ⟨_, hurl⟩
    · exact hnoId hid
    · exact hnoUrl hurl

/-- What the test of a single entry finds, by the URLs it looks at. -/
inductive Found (lib : Stdlib) (entry : Entry) : Except Exn (List ArxivAtomError) → Prop
  | ordinary (h : Ordinary lib entry) : Found lib entry (.ok [])
  | report (h : Reports lib entry) (error : ArxivAtomError) : Found lib entry (.ok [error])
  | raised (hordinary : ¬ Ordinary lib entry) (hreports : ¬ Reports lib entry) (e : Exn) :
      Found lib entry (.error e)

theorem found_errorFeedEntries (entry : Entry) :
    Found lib entry (errorFeedEntries lib [entry]) := by
  unfold errorFeedEntries
  dsimp only
  by_cases htitle : titledError entry = true
  · rw [if_pos htitle]
    have hid : some (strip (orEmpty entry.id)) = entryId entry := rfl
    rw [hid]
    cases hpaper : isPaperAbsUrl lib.rejects (entryId entry) with
    | error e =>
        have hnot := not_accepts hpaper
        exact .raised (fun h => hnot (h htitle).1) (fun h => hnot h.2.1) e
    | ok paper =>
        rcases testUrl_ok hpaper with ⟨haccepts, hsaysPaper⟩
        cases paper with
        | true =>
            have htells := hsaysPaper.2 rfl
            exact .ordinary fun _ => ⟨haccepts, .inl htells⟩
        | false =>
            have hnoPaper : ¬ Says ParsedUrl.isPaperAbs (entryId entry) :=
              fun h => Bool.false_ne_true (hsaysPaper.1 h)
            rcases exists_testUrl ParsedUrl.isApiError haccepts with ⟨byId, hbyId⟩
            have hsaysId := (testUrl_ok hbyId).2
            have hread : isApiErrorUrl lib.rejects (entryId entry) = .ok byId := hbyId
            cases byId with
            | true =>
                simp only [hread]
                exact .report ⟨htitle, haccepts, hnoPaper, .inl (hsaysId.2 rfl)⟩ _
            | false =>
                have hnoId : ¬ Says ParsedUrl.isApiError (entryId entry) :=
                  fun h => Bool.false_ne_true (hsaysId.1 h)
                cases hurl : isApiErrorUrl lib.rejects (alternateLink entry) with
                | error e =>
                    have hnot := not_accepts hurl
                    simp only [hread]
                    refine .raised (fun h => ?_) (fun h => ?_) e
                    · rcases (h htitle).2 with hpaperUrl | hrest
                      · exact hnoPaper hpaperUrl
                      · exact hnot hrest.2.1
                    · rcases h.2.2.2 with hbad | hrest
                      · exact hnoId hbad
                      · exact hnot hrest.1
                | ok byUrl =>
                    rcases testUrl_ok hurl with ⟨haccepts', hsaysUrl⟩
                    simp only [hread]
                    cases byUrl with
                    | true =>
                        exact .report ⟨htitle, haccepts, hnoPaper,
                          .inr ⟨haccepts', hsaysUrl.2 rfl⟩⟩ _
                    | false =>
                        exact .ordinary fun _ => ⟨haccepts, .inr ⟨hnoId, haccepts',
                          fun h => Bool.false_ne_true (hsaysUrl.1 h)⟩⟩
  · rw [if_neg htitle]
    exact .ordinary fun h => absurd h htitle

/-- Only single entries are reports. -/
theorem errorFeedEntries_of_many {entries : List Entry} (h : ∀ entry, entries ≠ [entry]) :
    errorFeedEntries lib entries = .ok [] := by
  unfold errorFeedEntries
  split
  · rename_i entry
    exact absurd rfl (h entry)
  · rfl

/-! ## Entries -/

theorem exists_datetime (t : StructTime) : (∃ read, t.datetime = .ok read) ↔ ValidTime t := by
  unfold StructTime.datetime ValidTime
  cases Time.dayOf t.year t.month t.day with
  | none => simp
  | some day =>
      dsimp only
      split
      · rename_i hvalid
        exact iff_of_true ⟨_, rfl⟩ ⟨rfl, hvalid⟩
      · rename_i hvalid
        refine iff_of_false ?_ fun h => hvalid h.2
        rintro ⟨read, h⟩
        cases h

theorem exists_ensureUtc (read : Datetime) :
    (∃ utc, Time.ensureUtc read = .ok utc) ↔ ∀ offset, read.offset = some offset →
      dateMin * 86400000000 ≤ read.shown - offset ∧
        read.shown - offset < (dateMax + 1) * 86400000000 := by
  unfold Time.ensureUtc
  cases hoffset : read.offset with
  | none => exact iff_of_true ⟨_, rfl⟩ fun offset h => by cases h
  | some offset =>
      unfold Datetime.astimezoneUtc
      dsimp only
      split
      · rename_i hin
        refine iff_of_true ⟨_, rfl⟩ fun offset' h => ?_
        cases h
        exact hin
      · rename_i hout
        refine iff_of_false ?_ fun h => hout (h offset rfl)
        rintro ⟨utc, h⟩
        cases h

theorem exists_entryDatetime (parsed : Option StructTime) (value : Option Text) :
    (∃ read, entryDatetime lib parsed value = .ok read) ↔ ReadableDate lib parsed value := by
  unfold entryDatetime ReadableDate
  cases parsed with
  | some t =>
      dsimp only
      rw [exists_map, exists_datetime]
      constructor
      · intro h
        exact ⟨fun t' ht => by cases ht; exact h, fun hnone => by cases hnone⟩
      · exact fun h => h.1 t rfl
  | none =>
      have hvacant : (∀ text, value = some text → text = []) →
          (∀ t, (none : Option StructTime) = some t → ValidTime t) ∧
            ((none : Option StructTime) = none → ReadableText lib value) := by
        intro h
        refine ⟨?_, fun _ text htext hne => absurd (h text htext) hne⟩
        intro t ht
        cases ht
      cases value with
      | none => exact iff_of_true ⟨_, rfl⟩ (hvacant fun text h => by cases h)
      | some text =>
          cases text with
          | nil => exact iff_of_true ⟨_, rfl⟩ (hvacant fun text h => by cases h; rfl)
          | cons c text =>
              dsimp only
              have hreadable : ReadableText lib (some (c :: text)) ↔ ∀ read,
                  lib.fromIsoformat (withOffset (c :: text)) = some read →
                    ∃ utc, Time.ensureUtc read = .ok utc := by
                constructor
                · intro h read hread
                  exact (exists_ensureUtc read).2 fun offset =>
                    h _ rfl (List.cons_ne_nil c text) read offset hread
                · intro h text' htext' _ read offset hread hoffset
                  cases htext'
                  exact (exists_ensureUtc read).1 (h read hread) offset hoffset
              constructor
              · intro hok
                refine ⟨?_, fun _ => hreadable.2 fun read hread => ?_⟩
                · intro t ht
                  cases ht
                rw [hread] at hok
                exact exists_map.1 hok
              · intro h
                have hall := hreadable.1 (h.2 rfl)
                split
                · exact ⟨_, rfl⟩
                · rename_i read hread
                  exact exists_map.2 (hall read hread)

theorem exists_normalizeArxivId? (value : Text) :
    (∃ id, normalizeArxivId? lib.rejects (String.ofList value) = .ok id) ↔
      lib.rejects (urlNetloc (strip value)) = false := by
  unfold normalizeArxivId?
  rw [String.toList_ofList]
  split
  · rename_i hrejects
    rw [hrejects]
    refine iff_of_false ?_ Bool.false_ne_true.symm
    rintro ⟨id, h⟩
    cases h
  · rename_i hrejects
    exact iff_of_true ⟨_, rfl⟩ (by simpa using hrejects)

theorem exists_arxivVersion? (value : String) :
    (∃ version, arxivVersion? value = .ok version) ↔ ShortVersion value := by
  unfold arxivVersion? ShortVersion
  cases versionMatch value.toList with
  | none => exact iff_of_true ⟨none, rfl⟩ fun m h => by cases h
  | some m =>
      dsimp only
      split
      · rename_i hlong
        refine iff_of_false ?_ fun h => absurd (h m rfl) (Nat.not_le.2 hlong)
        rintro ⟨version, h⟩
        cases h
      · rename_i hshort
        refine iff_of_true ⟨_, rfl⟩ fun m' h => ?_
        cases h
        exact Nat.not_lt.1 hshort

theorem exists_paperFromEntry (entry : Entry) :
    (∃ paper, paperFromEntry lib entry = .ok paper) ↔ ReadableEntry lib entry := by
  unfold paperFromEntry
  constructor
  · rintro ⟨paper, h⟩
    rcases bind_ok h with ⟨arxivId, hid, h⟩
    rcases bind_ok h with ⟨version, hversion, h⟩
    rcases bind_ok h with ⟨published, hpublished, h⟩
    rcases bind_ok h with ⟨updated, hupdated, _⟩
    refine
      { id := (exists_normalizeArxivId? _).1 ⟨arxivId, hid⟩
        version := ?_
        published := (exists_entryDatetime _ _).1 ⟨published, hpublished⟩
        updated := (exists_entryDatetime _ _).1 ⟨updated, hupdated⟩ }
    rw [← OaiPmh.normalizeArxivId?_ok hid]
    exact (exists_arxivVersion? arxivId).1 ⟨version, hversion⟩
  · intro h
    rcases (exists_normalizeArxivId? _).2 h.id with ⟨arxivId, hid⟩
    have hshort := h.version
    rw [← OaiPmh.normalizeArxivId?_ok hid] at hshort
    rcases (exists_arxivVersion? arxivId).2 hshort with ⟨version, hversion⟩
    rcases (exists_entryDatetime _ _).2 h.published with ⟨published, hpublished⟩
    rcases (exists_entryDatetime _ _).2 h.updated with ⟨updated, hupdated⟩
    exact exists_bind.2 ⟨arxivId, hid, exists_bind.2 ⟨version, hversion, exists_bind.2 ⟨published,
      hpublished, exists_bind.2 ⟨updated, hupdated, _, rfl⟩⟩⟩⟩

/-! ## Feeds -/

theorem parse_of_report {feed : Feed} {error : ArxivAtomError}
    (h : errorFeedEntries lib feed.entries = .ok [error]) :
    parseArxivAtom lib feed =
      .ok { papers := [], totalResults := coerceInt feed.totalResults, errors := [error] } := by
  unfold parseArxivAtom
  rw [h]
  rfl

theorem parse_of_ordinary {feed : Feed} (h : errorFeedEntries lib feed.entries = .ok []) :
    (∃ parsed, parseArxivAtom lib feed = .ok parsed ∧ parsed.errors = []) ↔
      ∀ entry ∈ feed.entries, ReadableEntry lib entry := by
  have hreads : (∀ entry ∈ feed.entries, ReadableEntry lib entry) ↔
      ∃ papers, feed.entries.mapM (paperFromEntry lib) = .ok papers := by
    rw [exists_mapM]
    exact forall₂_congr fun entry _ => (exists_paperFromEntry entry).symm
  have hparse : parseArxivAtom lib feed =
      (feed.entries.mapM (paperFromEntry lib) >>= fun papers =>
        .ok { papers := papers, totalResults := coerceInt feed.totalResults, errors := [] }) := by
    unfold parseArxivAtom
    rw [h]
    rfl
  rw [hreads, hparse]
  constructor
  · rintro ⟨parsed, hparsed, _⟩
    rcases bind_ok hparsed with ⟨papers, hpapers, _⟩
    exact ⟨papers, hpapers⟩
  · rintro ⟨papers, hpapers⟩
    rw [hpapers]
    exact ⟨_, rfl, rfl⟩

/-- A feed that is nothing but the report of an error. -/
def ErrorFeed (lib : Stdlib) (feed : Feed) : Prop :=
  ∃ entry, feed.entries = [entry] ∧ Reports lib entry

theorem exists_parse_iff (feed : Feed) :
    (∃ parsed, parseArxivAtom lib feed = .ok parsed ∧ parsed.errors = []) ↔
      Proper lib feed := by
  by_cases hone : ∃ entry, feed.entries = [entry]
  · rcases hone with ⟨entry, hentries⟩
    have hfound : Found lib entry (errorFeedEntries lib [entry]) :=
      found_errorFeedEntries entry
    rw [← hentries] at hfound
    cases herrors : errorFeedEntries lib feed.entries with
    | error e =>
        rw [herrors] at hfound
        cases hfound with
        | raised hordinary _ _ =>
            refine iff_of_false ?_ fun h => hordinary (h.ordinary entry hentries)
            rintro ⟨parsed, hparsed, _⟩
            unfold parseArxivAtom at hparsed
            rw [herrors] at hparsed
            cases hparsed
    | ok errors =>
        rw [herrors] at hfound
        cases hfound with
        | ordinary hordinary =>
            rw [parse_of_ordinary herrors]
            refine ⟨fun h => ⟨fun entry' hentry' => ?_, h⟩, fun h => h.readable⟩
            rw [hentries] at hentry'
            cases hentry'
            exact hordinary
        | report hreports error =>
            rw [parse_of_report herrors]
            refine iff_of_false ?_ fun h => ?_
            · rintro ⟨parsed, hparsed, hnone⟩
              cases hparsed
              cases hnone
            · exact not_ordinary_of_reports hreports (h.ordinary entry hentries)
  · have hmany : ∀ entry, feed.entries ≠ [entry] := fun entry h => hone ⟨entry, h⟩
    rw [parse_of_ordinary (errorFeedEntries_of_many hmany)]
    exact ⟨fun h => ⟨fun entry hentry => absurd hentry (hmany entry), h⟩, fun h => h.readable⟩

theorem exists_report_iff (feed : Feed) :
    (∃ parsed, parseArxivAtom lib feed = .ok parsed ∧ parsed.errors ≠ []) ↔
      ErrorFeed lib feed := by
  constructor
  · rintro ⟨parsed, hparsed, hsome⟩
    unfold parseArxivAtom at hparsed
    rcases bind_ok hparsed with ⟨errors, herrors, hrest⟩
    split at hrest
    · rcases bind_ok hrest with ⟨papers, _, hrest⟩
      cases hrest
      exact absurd rfl hsome
    · rename_i hne
      by_cases hone : ∃ entry, feed.entries = [entry]
      · rcases hone with ⟨entry, hentries⟩
        have hfound : Found lib entry (errorFeedEntries lib [entry]) :=
          found_errorFeedEntries entry
        rw [← hentries, herrors] at hfound
        cases hfound with
        | ordinary _ => exact absurd rfl hne
        | report hreports error => exact ⟨entry, hentries, hreports⟩
      · rw [errorFeedEntries_of_many fun entry h => hone ⟨entry, h⟩] at herrors
        cases herrors
        exact absurd rfl hne
  · rintro ⟨entry, hentries, hreports⟩
    have hfound : Found lib entry (errorFeedEntries lib [entry]) :=
      found_errorFeedEntries entry
    rw [← hentries] at hfound
    cases herrors : errorFeedEntries lib feed.entries with
    | error e =>
        rw [herrors] at hfound
        cases hfound with
        | raised _ hnot _ => exact absurd hreports hnot
    | ok errors =>
        rw [herrors] at hfound
        cases hfound with
        | ordinary hordinary => exact absurd hordinary (not_ordinary_of_reports hreports)
        | report _ error => exact ⟨_, parse_of_report herrors, List.cons_ne_nil _ _⟩

/-! ## Exceptions -/

/-- An exception that no handler of the worker is written for. -/
def Escapes (e : Exn) : Prop :=
  (∃ message, e = .valueError message) ∨ e = .overflowError

/-- The computation raises no other exceptions than these. -/
def RaisesOnly {α : Type} (P : Exn → Prop) (x : Except Exn α) : Prop :=
  ∀ e, x = .error e → P e

section
variable {α β : Type} {P : Exn → Prop}

theorem RaisesOnly.bind {x : Except Exn α} {f : α → Except Exn β} (hx : RaisesOnly P x)
    (hf : ∀ a, RaisesOnly P (f a)) : RaisesOnly P (x >>= f) := by
  intro e he
  cases x with
  | error e' =>
      cases he
      exact hx e rfl
  | ok a => exact hf a e he

theorem raisesOnly_ok (a : α) : RaisesOnly P (.ok a) := by
  intro e he
  cases he

theorem RaisesOnly.map {x : Except Exn α} (hx : RaisesOnly P x) (f : α → β) :
    RaisesOnly P (x.map f) := by
  intro e he
  cases x with
  | error e' =>
      cases he
      exact hx e rfl
  | ok a => cases he

theorem RaisesOnly.mapM {f : α → Except Exn β} (hf : ∀ a, RaisesOnly P (f a)) (items : List α) :
    RaisesOnly P (items.mapM f) := by
  induction items with
  | nil => exact raisesOnly_ok []
  | cons item items ih =>
      rw [List.mapM_cons]
      exact (hf item).bind fun b => ih.bind fun bs => raisesOnly_ok _

end

theorem escapes_testUrl (test : ParsedUrl → Bool) (value : Option Text) :
    RaisesOnly Escapes (testUrl lib.rejects test value) := by
  unfold testUrl
  split
  · exact raisesOnly_ok false
  · exact raisesOnly_ok false
  · refine RaisesOnly.map ?_ test
    unfold urlparse
    split
    · intro e he
      cases he
      exact .inl ⟨_, rfl⟩
    · exact raisesOnly_ok _

theorem escapes_entryDatetime (parsed : Option StructTime) (value : Option Text) :
    RaisesOnly Escapes (entryDatetime lib parsed value) := by
  unfold entryDatetime
  split
  · refine RaisesOnly.map ?_ some
    unfold StructTime.datetime
    intro e he
    split at he
    · cases he
      exact .inl ⟨_, rfl⟩
    · split at he
      · cases he
      · cases he
        exact .inl ⟨_, rfl⟩
  · exact raisesOnly_ok none
  · exact raisesOnly_ok none
  · split
    · exact raisesOnly_ok none
    · refine RaisesOnly.map ?_ some
      unfold Time.ensureUtc Datetime.astimezoneUtc
      intro e he
      split at he
      · cases he
      · dsimp only at he
        split at he
        · cases he
        · cases he
          exact .inr rfl

theorem escapes_arxivVersion? (value : String) : RaisesOnly Escapes (arxivVersion? value) := by
  unfold arxivVersion?
  split
  · exact raisesOnly_ok none
  · split
    · intro e he
      cases he
      exact .inl ⟨_, rfl⟩
    · exact raisesOnly_ok _

theorem escapes_paperFromEntry (entry : Entry) :
    RaisesOnly Escapes (paperFromEntry lib entry) := by
  unfold paperFromEntry
  refine RaisesOnly.bind ?_ fun arxivId => ?_
  · unfold normalizeArxivId?
    intro e he
    split at he
    · cases he
      exact .inl ⟨_, rfl⟩
    · cases he
  · refine (escapes_arxivVersion? arxivId).bind fun version => ?_
    exact (escapes_entryDatetime _ _).bind fun published =>
      (escapes_entryDatetime _ _).bind fun updated => raisesOnly_ok _

theorem escapes_errorFeedEntries (entries : List Entry) :
    RaisesOnly Escapes (errorFeedEntries lib entries) := by
  unfold errorFeedEntries
  split
  · split
    · refine (escapes_testUrl _ _).bind fun paper => ?_
      split
      · exact raisesOnly_ok []
      · have hanswer : ∀ (byUrl : Bool) (error : ArxivAtomError), RaisesOnly Escapes
            (if byUrl = true then .ok [error] else .ok [] : Except Exn (List ArxivAtomError)) := by
          intro byUrl error
          split
          · exact raisesOnly_ok _
          · exact raisesOnly_ok []
        refine (escapes_testUrl _ _).bind fun byId => ?_
        dsimp only
        split
        · exact (raisesOnly_ok true).bind fun byUrl => hanswer byUrl _
        · exact (escapes_testUrl _ _).bind fun byUrl => hanswer byUrl _
    · exact raisesOnly_ok []
  · exact raisesOnly_ok []

theorem escapes_parseArxivAtom (feed : Feed) : RaisesOnly Escapes (parseArxivAtom lib feed) := by
  unfold parseArxivAtom
  refine (escapes_errorFeedEntries _).bind fun errors => ?_
  split
  · exact (RaisesOnly.mapM escapes_paperFromEntry _).bind fun papers => raisesOnly_ok _
  · exact raisesOnly_ok _

/-! ## One request -/

section
variable (w : World) (settings : HuldraSettings) (request : ArxivRequest)

/-- The server answers the request with this response. -/
def Answers (response : Response) : Prop :=
  w.get (apiCall settings request) = .ok response

def Response.successful (response : Response) : Prop :=
  200 ≤ response.statusCode ∧ response.statusCode < 300

/-- When `fetch` returns a result, and when it raises what the worker handles: exactly these. -/
structure Classified (fetched : Except Exn ApiResult) : Prop where
  result : (∃ result, fetched = .ok result) ↔
    ∃ response, Answers w settings request response ∧ response.successful ∧
      Proper w.lib response.feed
  rateLimited : ∀ retryAfter,
    fetched = .error (.rateLimitedError retryAfter "rate limited" 429) ↔
      ∃ response, Answers w settings request response ∧ response.statusCode = 429 ∧
        parseRetryAfterSeconds w.parsedate response.retryAfter w.now = .ok retryAfter
  transient : (∃ message statusCode, fetched = .error (.transientFetchError message statusCode)) ↔
    (∃ message, w.get (apiCall settings request) = .error (.requestError message)) ∨
      ∃ response, Answers w settings request response ∧ 500 ≤ response.statusCode
  nonRetryable :
    (∃ message statusCode, fetched = .error (.nonRetryableFetchError message statusCode)) ↔
      ∃ response, Answers w settings request response ∧
        ((response.statusCode < 200 ∨ 300 ≤ response.statusCode ∧ response.statusCode < 500 ∧
            response.statusCode ≠ 429) ∨
          response.successful ∧ ErrorFeed w.lib response.feed)
  unexpected : fetched = .error .unexpected ↔ w.get (apiCall settings request) = .error .other
  /-- Whatever else is raised escapes the handlers of the worker. -/
  escapes : ∀ e, fetched = .error e →
    (∃ retryAfter, e = .rateLimitedError retryAfter "rate limited" 429) ∨
      (∃ message statusCode, e = .transientFetchError message statusCode) ∨
        (∃ message statusCode, e = .nonRetryableFetchError message statusCode) ∨
          e = .unexpected ∨ Escapes e

end

theorem escapes_parseRetryAfterSeconds (parsedate : Text → Option ParsedDatetime)
    (raw : Option Text) (now : Int) :
    RaisesOnly Escapes (parseRetryAfterSeconds parsedate raw now) := by
  unfold parseRetryAfterSeconds
  split
  · exact raisesOnly_ok none
  · dsimp only
    split
    · exact raisesOnly_ok none
    · split
      · refine RaisesOnly.map ?_ _
        unfold int
        intro e he
        split at he
        · cases he
          exact .inl ⟨_, rfl⟩
        · split at he
          · cases he
            exact .inl ⟨_, rfl⟩
          · cases he
      · split
        · exact raisesOnly_ok none
        · refine RaisesOnly.map ?_ _
          unfold ensureUtc
          intro e he
          split at he
          · cases he
          · split at he
            · cases he
              exact .inr rfl
            · cases he

/-- What becomes of a feed that came with success. -/
inductive FeedRead (w : World) (response : Response) : Except Exn ApiResult → Prop
  | result (h : Proper w.lib response.feed) (result : ApiResult) :
      FeedRead w response (.ok result)
  | report (h : ErrorFeed w.lib response.feed) (message : String) (statusCode : Option Int) :
      FeedRead w response (.error (.nonRetryableFetchError message statusCode))
  | raised (hproper : ¬ Proper w.lib response.feed)
      (hreport : ¬ ErrorFeed w.lib response.feed) {e : Exn} (h : Escapes e) :
      FeedRead w response (.error e)

theorem feedRead (w : World) (response : Response) :
    FeedRead w response
      (parseArxivAtom w.lib response.feed >>= resultOf response.statusCode) := by
  have hproper : (∃ parsed, parseArxivAtom w.lib response.feed = .ok parsed ∧
      parsed.errors = []) ↔ Proper w.lib response.feed := exists_parse_iff response.feed
  have hreport : (∃ parsed, parseArxivAtom w.lib response.feed = .ok parsed ∧
      parsed.errors ≠ []) ↔ ErrorFeed w.lib response.feed := exists_report_iff response.feed
  have hescapes : RaisesOnly Escapes (parseArxivAtom w.lib response.feed) :=
    escapes_parseArxivAtom response.feed
  cases hparse : parseArxivAtom w.lib response.feed with
  | error e =>
      rw [hparse] at hproper hreport hescapes
      refine .raised (fun h => ?_) (fun h => ?_) (hescapes e rfl)
      · rcases hproper.2 h with ⟨parsed, hparsed, _⟩
        cases hparsed
      · rcases hreport.2 h with ⟨parsed, hparsed, _⟩
        cases hparsed
  | ok parsed =>
      rw [hparse] at hproper hreport
      show FeedRead w response (resultOf response.statusCode parsed)
      unfold resultOf
      cases herrors : parsed.errors with
      | nil => exact .result (hproper.1 ⟨parsed, rfl, herrors⟩) _
      | cons error rest =>
          refine .report (hreport.1 ⟨parsed, rfl, ?_⟩) _ _
          rw [herrors]
          exact List.cons_ne_nil error rest

/-- A feed is not both. -/
theorem not_proper_of_errorFeed {feed : Feed} (h : ErrorFeed lib feed) :
    ¬ Proper lib feed := by
  intro hproper
  rcases h with ⟨entry, hentries, hreports⟩
  exact not_ordinary_of_reports hreports (hproper.ordinary entry hentries)

/-- What becomes of a response, by its status. -/
inductive Handled (w : World) (response : Response) : Except Exn ApiResult → Prop
  | rateLimited (hstatus : response.statusCode = 429) {retryAfter : Option Int}
      (hread : parseRetryAfterSeconds w.parsedate response.retryAfter w.now = .ok retryAfter) :
      Handled w response (.error (.rateLimitedError retryAfter "rate limited" 429))
  | unreadable (hstatus : response.statusCode = 429) {e : Exn}
      (hread : parseRetryAfterSeconds w.parsedate response.retryAfter w.now = .error e) :
      Handled w response (.error e)
  | transient (hstatus : 500 ≤ response.statusCode) (message : String) (statusCode : Option Int) :
      Handled w response (.error (.transientFetchError message statusCode))
  | final (hstatus : response.statusCode < 200 ∨ 300 ≤ response.statusCode ∧
      response.statusCode < 500 ∧ response.statusCode ≠ 429) (message : String)
      (statusCode : Option Int) :
      Handled w response (.error (.nonRetryableFetchError message statusCode))
  | read (hstatus : response.successful) {fetched : Except Exn ApiResult}
      (hread : FeedRead w response fetched) : Handled w response fetched

theorem handled (w : World) (response : Response) :
    Handled w response (handle w response) := by
  unfold handle
  split
  · rename_i hstatus
    cases hread : parseRetryAfterSeconds w.parsedate response.retryAfter w.now with
    | error e => exact .unreadable hstatus hread
    | ok retryAfter => exact .rateLimited hstatus hread
  · split
    · rename_i hstatus
      exact .transient hstatus _ _
    · split
      · refine .final ?_ _ _
        omega
      · refine .read ?_ (feedRead w response)
        unfold Response.successful
        omega

variable {w : World} {settings : HuldraSettings} {request : ArxivRequest}

/-- No response came. -/
theorem classified_of_unanswered {e : ClientError}
    (hget : w.get (apiCall settings request) = .error e) :
    Classified w settings request
      (match e with
      | .requestError message =>
          .error (.transientFetchError ("arXiv API request failed: " ++ message) none)
      | .other => .error .unexpected) := by
  have hnone : ∀ response, ¬ Answers w settings request response := by
    intro response h
    rw [Answers, hget] at h
    cases h
  cases e with
  | requestError message =>
      constructor
      · simp [hnone]
      · simp [hnone]
      · simp [hget]
      · simp [hnone]
      · simp [hget]
      · intro e he
        cases he
        exact .inr (.inl ⟨_, none, rfl⟩)
  | other =>
      constructor
      · simp [hnone]
      · simp [hnone]
      · simp [hnone, hget]
      · simp [hnone]
      · simp [hget]
      · intro e he
        cases he
        exact .inr (.inr (.inr (.inl rfl)))

theorem answers_iff {response : Response}
    (hget : w.get (apiCall settings request) = .ok response) (other : Response) :
    Answers w settings request other ↔ other = response := by
  rw [Answers, hget, Except.ok.injEq, eq_comm]

/-- What escapes the handlers is right where the response calls for nothing else. -/
theorem classified_of_escapes {response : Response} {e : Exn}
    (hget : w.get (apiCall settings request) = .ok response) (hescapes : Escapes e)
    (hresult : ¬ (response.successful ∧ Proper w.lib response.feed))
    (hlimited : ∀ retryAfter, ¬ (response.statusCode = 429 ∧
      parseRetryAfterSeconds w.parsedate response.retryAfter w.now = .ok retryAfter))
    (htransient : ¬ 500 ≤ response.statusCode)
    (hfinal : ¬ ((response.statusCode < 200 ∨ 300 ≤ response.statusCode ∧
        response.statusCode < 500 ∧ response.statusCode ≠ 429) ∨
      response.successful ∧ ErrorFeed w.lib response.feed)) :
    Classified w settings request (.error e) := by
  have hanswers := answers_iff hget
  have hnot : (∀ retryAfter, e ≠ .rateLimitedError retryAfter "rate limited" 429) ∧
      (∀ message statusCode, e ≠ .transientFetchError message statusCode) ∧
        (∀ message statusCode, e ≠ .nonRetryableFetchError message statusCode) ∧
          e ≠ .unexpected := by
    rcases hescapes with ⟨message, rfl⟩ | rfl <;> simp
  constructor
  · simp only [hanswers, exists_eq_left, hresult, iff_false]
    rintro ⟨result, h⟩
    cases h
  · intro retryAfter
    simp only [hanswers, exists_eq_left, hlimited, iff_false, Except.error.injEq]
    exact hnot.1 retryAfter
  · simp only [hanswers, exists_eq_left, htransient, hget, or_false, Except.error.injEq]
    constructor
    · rintro ⟨message, statusCode, h⟩
      exact absurd h (hnot.2.1 message statusCode)
    · rintro ⟨message, h⟩
      cases h
  · simp only [hanswers, exists_eq_left, hfinal, iff_false, Except.error.injEq]
    rintro ⟨message, statusCode, h⟩
    exact hnot.2.2.1 message statusCode h
  · simp [hget, hnot.2.2.2]
  · intro e' he
    cases he
    exact .inr (.inr (.inr (.inr hescapes)))

theorem classified_of_feedRead {response : Response} {fetched : Except Exn ApiResult}
    (hget : w.get (apiCall settings request) = .ok response) (hstatus : response.successful)
    (hread : FeedRead w response fetched) : Classified w settings request fetched := by
  have hanswers := answers_iff hget
  have hlow := hstatus.1
  have hhigh := hstatus.2
  have hnot429 : response.statusCode ≠ 429 := by omega
  have hnot500 : ¬ 500 ≤ response.statusCode := by omega
  have hnotFinal : ¬ (response.statusCode < 200 ∨ 300 ≤ response.statusCode ∧
      response.statusCode < 500 ∧ response.statusCode ≠ 429) := by omega
  cases hread with
  | result hproper result =>
      have hnoReport : ¬ ErrorFeed w.lib response.feed :=
        fun h => not_proper_of_errorFeed h hproper
      constructor
      · simp [hanswers, hstatus, hproper]
      · simp [hanswers, hnot429]
      · simp [hget, hanswers, hnot500]
      · simp [hanswers, hnotFinal, hnoReport]
      · simp [hget]
      · intro e he
        cases he
  | report hreport message statusCode =>
      have hnotProper := not_proper_of_errorFeed hreport
      constructor
      · simp [hanswers, hnotProper]
      · simp [hanswers, hnot429]
      · simp [hget, hanswers, hnot500]
      · simp [hanswers, hstatus, hreport]
      · simp [hget]
      · intro e he
        cases he
        exact .inr (.inr (.inl ⟨message, statusCode, rfl⟩))
  | raised hnotProper hnoReport hescapes =>
      refine classified_of_escapes hget hescapes ?_ ?_ hnot500 ?_
      · exact fun h => hnotProper h.2
      · exact fun retryAfter h => hnot429 h.1
      · rintro (h | h)
        · exact hnotFinal h
        · exact hnoReport h.2

theorem classified_of_handled {response : Response} {fetched : Except Exn ApiResult}
    (hget : w.get (apiCall settings request) = .ok response)
    (hhandled : Handled w response fetched) : Classified w settings request fetched := by
  have hanswers := answers_iff hget
  cases hhandled with
  | rateLimited hstatus hread =>
      constructor
      · simp [hanswers, Response.successful, hstatus]
      · simp [hanswers, hstatus, hread]
      · simp [hget, hanswers, hstatus]
      · simp [hanswers, Response.successful, hstatus]
      · simp [hget]
      · intro e he
        cases he
        exact .inl ⟨_, rfl⟩
  | unreadable hstatus hread =>
      refine classified_of_escapes hget (escapes_parseRetryAfterSeconds _ _ _ _ hread) ?_ ?_ ?_ ?_
      · simp [Response.successful, hstatus]
      · simp [hread]
      · simp [hstatus]
      · simp [Response.successful, hstatus]
  | transient hstatus message statusCode =>
      have hfailed : ¬ response.successful := fun h => by
        have := h.2
        omega
      have hnot429 : response.statusCode ≠ 429 := by omega
      have hnotFinal : ¬ (response.statusCode < 200 ∨ 300 ≤ response.statusCode ∧
          response.statusCode < 500 ∧ response.statusCode ≠ 429) := by omega
      constructor
      · simp [hanswers, hfailed]
      · simp [hanswers, hnot429]
      · simp [hget, hanswers, hstatus]
      · simp only [hanswers, exists_eq_left, hfailed, hnotFinal, false_and, or_false, iff_false]
        rintro ⟨message', statusCode', h⟩
        cases h
      · simp [hget]
      · intro e he
        cases he
        exact .inr (.inl ⟨message, statusCode, rfl⟩)
  | final hstatus message statusCode =>
      have hfailed : ¬ response.successful := fun h => by
        have := h.1
        have := h.2
        omega
      have hnot429 : response.statusCode ≠ 429 := by omega
      have hnot500 : ¬ 500 ≤ response.statusCode := by omega
      constructor
      · simp [hanswers, hfailed]
      · simp [hanswers, hnot429]
      · simp [hget, hanswers, hnot500]
      · simp only [hanswers, exists_eq_left, hstatus, true_or, iff_true]
        exact ⟨message, statusCode, rfl⟩
      · simp [hget]
      · intro e he
        cases he
        exact .inr (.inr (.inl ⟨message, statusCode, rfl⟩))
  | read hstatus hread => exact classified_of_feedRead hget hstatus hread

open LibraryTables

/-- The paper says nothing that only an OAI record says. -/
def Legacy (paper : ArxivPaper) : Prop :=
  paper.oaiIdentifier = none ∧ paper.oaiDatestamp = none ∧ paper.oaiSetSpecs = [] ∧
    paper.deleted = false

/-- The OAI columns of every row are as they were, and those of a new row are empty. -/
structure OaiKept (l l' : LibraryTables) : Prop where
  old : ∀ arxivId row, l.paper? arxivId = some row → ∃ row', l'.paper? arxivId = some row' ∧
    row'.oaiIdentifier = row.oaiIdentifier ∧ row'.oaiDatestamp = row.oaiDatestamp ∧
      row'.oaiSetSpecs = row.oaiSetSpecs ∧ row'.deleted = row.deleted
  new : ∀ arxivId row', l.paper? arxivId = none → l'.paper? arxivId = some row' →
    Legacy row'.toArxivPaper

theorem OaiKept.refl (l : LibraryTables) : OaiKept l l where
  old arxivId row hrow := ⟨row, hrow, rfl, rfl, rfl, rfl⟩
  new arxivId row' hnone hsome := by
    rw [hnone] at hsome
    cases hsome

theorem legacy_legacyPaper {paper : ArxivPaper} (h : Legacy paper) (l : LibraryTables) :
    Legacy (l.legacyPaperForExistingOaiBaseRow paper) := by
  by_cases hbase : l.GoesToBase paper
  · rw [legacyPaper_base hbase]
    exact ⟨h.1, h.2.1, h.2.2.1, h.2.2.2⟩
  · rw [legacyPaper_own hbase]
    exact h

theorem OaiKept.upsertPaper {l₀ l : LibraryTables} (h : OaiKept l₀ l) {paper : ArxivPaper}
    (hlegacy : Legacy paper) (timestamp : Int) :
    OaiKept l₀ (l.upsertPaper paper timestamp).2 := by
  have hstored := legacy_legacyPaper hlegacy l
  have hmerged : ∀ row : PaperRow,
      storedRow (some row) (l.legacyPaperForExistingOaiBaseRow paper) timestamp =
        { storedRow (some row) (l.legacyPaperForExistingOaiBaseRow paper) timestamp with
          oaiIdentifier := row.oaiIdentifier
          oaiDatestamp := row.oaiDatestamp
          oaiSetSpecs := row.oaiSetSpecs
          deleted := row.deleted } := by
    intro row
    simp [storedRow, mergePaperRow, hlegacy.1]
  refine ⟨?_, ?_⟩
  · intro arxivId row hrow
    rcases h.old arxivId row hrow with ⟨row', hrow', hsame⟩
    rw [paper?_upsertPaper, hrow']
    split
    · refine ⟨_, rfl, ?_⟩
      rw [hmerged row']
      exact hsame
    · exact ⟨row', rfl, hsame⟩
  · intro arxivId row' hnone hsome
    rw [paper?_upsertPaper] at hsome
    split at hsome
    · cases hold : l.paper? arxivId with
      | none =>
          rw [hold] at hsome
          cases hsome
          exact hstored
      | some old =>
          rw [hold] at hsome
          cases hsome
          rw [hmerged old]
          exact h.new arxivId old hnone hold
    · exact h.new arxivId row' hnone hsome

theorem oaiKept_recordCompletedCacheEntry (l : LibraryTables) {write : CompletedCacheWrite}
    (hlegacy : ∀ paper ∈ write.papers, Legacy paper) :
    OaiKept l (l.recordCompletedCacheEntry write) := by
  have hupserts : OaiKept l (l.upsertPapers write.papers write.completedAt).2 :=
    upsertPapers_induction (P := OaiKept l)
      (fun l' paper hmem h => h.upsertPaper (hlegacy paper hmem) write.completedAt) l (.refl l)
  have hpapers : ∀ arxivId, (l.recordCompletedCacheEntry write).paper? arxivId =
      (l.upsertPapers write.papers write.completedAt).2.paper? arxivId := by
    intro arxivId
    simp only [paper?, recordCompletedCacheEntry_papers]
  refine ⟨?_, ?_⟩
  · intro arxivId row hrow
    rw [hpapers]
    exact hupserts.old arxivId row hrow
  · intro arxivId row' hnone hsome
    rw [hpapers] at hsome
    exact hupserts.new arxivId row' hnone hsome

theorem handle_ok {response : Response} {result : ApiResult}
    (h : handle w response = .ok result) : ∃ parsed,
      parseArxivAtom w.lib response.feed = .ok parsed ∧ parsed.errors = [] ∧
        parsed.papers = result.papers := by
  unfold handle at h
  by_cases h429 : response.statusCode = 429
  · rw [if_pos h429] at h
    cases hread : parseRetryAfterSeconds w.parsedate response.retryAfter w.now with
    | error e =>
        rw [hread] at h
        cases h
    | ok retryAfter =>
        rw [hread] at h
        cases h
  · rw [if_neg h429] at h
    by_cases h500 : 500 ≤ response.statusCode
    · rw [if_pos h500] at h
      cases h
    · rw [if_neg h500] at h
      by_cases hfailed : response.statusCode < 200 ∨ 300 ≤ response.statusCode
      · rw [if_pos hfailed] at h
        cases h
      · rw [if_neg hfailed] at h
        rcases bind_ok h with ⟨parsed, hparsed, hresult⟩
        unfold resultOf at hresult
        cases herrors : parsed.errors with
        | cons error rest =>
            rw [herrors] at hresult
            cases hresult
        | nil =>
            rw [herrors] at hresult
            cases hresult
            exact ⟨parsed, hparsed, herrors, rfl⟩

theorem fetch_ok {result : ApiResult} (h : fetch w settings request = .ok result) :
    ∃ response, Answers w settings request response ∧ handle w response = .ok result := by
  unfold fetch getOnce at h
  cases hget : w.get (apiCall settings request) with
  | error e =>
      rw [hget] at h
      cases e <;> cases h
  | ok response =>
      rw [hget] at h
      exact ⟨response, hget, h⟩

theorem legacy_of_wellRead {lib : Stdlib} {entries : List Entry} {papers : List ArxivPaper}
    (h : List.Forall₂ (WellRead lib) entries papers) : ∀ paper ∈ papers, Legacy paper := by
  intro paper hmem
  induction h with
  | nil => cases hmem
  | cons hread _ ih =>
      cases hmem with
      | head => exact hread.legacy
      | tail _ hmem => exact ih hmem

/-- What `fetch` returns is one paper for each entry of the response, in order and well read; and to
store it as the result of a request revives no deleted paper and touches no OAI column. -/
theorem fetched_well_read (w : World) (settings : HuldraSettings) (request : ArxivRequest)
    {result : ApiResult} (h : fetch w settings request = .ok result) :
    ∃ response, Answers w settings request response ∧
      List.Forall₂ (WellRead w.lib) response.feed.entries result.papers ∧
      ∀ (l : LibraryTables) (write : CompletedCacheWrite),
        write.papers = result.papers →
          OaiKept l (l.recordCompletedCacheEntry write) := by
  rcases fetch_ok h with ⟨response, hanswers, hhandle⟩
  rcases handle_ok hhandle with ⟨parsed, hparsed, hnone, hpapers⟩
  have hread := papers_ok hparsed hnone
  rw [hpapers] at hread
  refine ⟨response, hanswers, hread, fun l write hwrite => ?_⟩
  refine oaiKept_recordCompletedCacheEntry l fun paper hmem => ?_
  rw [hwrite] at hmem
  exact legacy_of_wellRead hread paper hmem

/-- A server that knows one paper, asked from CPython. -/
def knowsOne : World where
  lib :=
    { rejects := fun _ => false
      fromIsoformat := Time.fromisoformat
      strptime := fun _ _ => none
      tostring := fun _ => "" }
  get := fun _ => .ok
    { statusCode := 200
      feed :=
        { entries :=
            [{ id := some "http://arxiv.org/abs/2401.00001v1".toList
               title := some " One\n  paper ".toList
               publishedParsed := some ⟨2024, 1, 31, 23, 59, 59⟩ }] } }

def askedForOne : ArxivRequest :=
  { clientId := "alpha", idList := ["2401.00001v1"] }

theorem fetched_well_read_one : ∃ result, fetch knowsOne .defaults askedForOne = .ok result ∧
    result.papers.map (fun paper => (paper.arxivId, paper.content.title)) =
      [("2401.00001v1", "One paper")] ∧
    ∃ response, Answers knowsOne .defaults askedForOne response ∧
      List.Forall₂ (WellRead knowsOne.lib) response.feed.entries result.papers ∧
      ∀ (l : LibraryTables) (write : CompletedCacheWrite),
        write.papers = result.papers →
          OaiKept l (l.recordCompletedCacheEntry write) := by
  have hread : (fetch knowsOne .defaults askedForOne).map (fun result =>
      result.papers.map fun paper => (paper.arxivId, paper.content.title)) =
        .ok [("2401.00001v1", "One paper")] := by decide +kernel
  cases h : fetch knowsOne .defaults askedForOne with
  | error e =>
      rw [h] at hread
      cases hread
  | ok result =>
      rw [h] at hread
      exact ⟨result, rfl, Except.ok.inj hread, fetched_well_read knowsOne .defaults askedForOne h⟩

end Fetcher
end Huldra
