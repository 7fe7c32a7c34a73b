import Huldra.Broker

/-!
# Requests — what a request must satisfy, and what its cache key stands for

Two callers whose requests share a cache key share one queue item and one entry, so everything done
with a request has to depend on what the key keeps of it.  It does, but for one case: the validator
keeps a blank `search_query` as the empty text, which the key reads as absent and the test for an
id list does not.
-/

namespace Huldra

open Text

/-! ## The validators -/

namespace ArxivRequest

/-- `"submitteddate:" in query.lower()` -/
def namesSubmittedDate (query : String) : Bool :=
  decide ("submitteddate:".toList <:+: query.toList.map lowerAscii)

/-- `_datetime_to_utc`, on a bound that is in UTC already. -/
def minutePrecise (bound : Option Int) : Bool :=
  bound.all fun t => t % 60000000 = 0

/-- `self.search_query.strip() if self.search_query else None` -/
def shapeQuery (query : Option String) : Option String :=
  match query with
  | none => none
  | some text => if text = "" then none else some (String.ofList (strip text.toList))

/-- `tuple(item.strip() for item in self.id_list if item.strip())` -/
def shapeIds (ids : List String) : List String :=
  (ids.map fun id => String.ofList (strip id.toList)).filter (· ≠ "")

/-- `not query` -/
def noQuery (query : Option String) : Bool :=
  query.all (· = "")

/-- What `_validate_request_shape` objects to, given the cleaned query and ids. -/
def shapeComplaint (raw : ArxivRequest) (query : Option String) (ids : List String) :
    Option String :=
  if noQuery query && ids.isEmpty then some "search_query or id_list is required"
  else if raw.submittedStart.isNone ≠ raw.submittedEnd.isNone then
    some "submitted_start and submitted_end must be provided together"
  else if raw.submittedStart.any fun start => raw.submittedEnd.any fun end_ => end_ ≤ start then
    some "submitted_start must be before submitted_end"
  else if raw.submittedStart.isSome && (!noQuery query && query.any namesSubmittedDate) then
    some "do not combine submittedDate in search_query with submitted_start/submitted_end"
  else if !ids.isEmpty && noQuery query && raw.submittedStart.isNone && raw.submittedEnd.isNone &&
      raw.start = 0 && raw.sortBy = .submittedDate && raw.sortOrder = .descending &&
      raw.maxResults < ids.length then
    some "max_results must be at least the number of requested IDs"
  else none

/-- What the validators of single fields object to first. -/
def fieldComplaint (raw : ArxivRequest) : Option String :=
  if strip raw.clientId.toList = [] then some "client_id cannot be blank"
  else if raw.maxResults < 1 then some "Input should be greater than or equal to 1"
  else if 2000 < raw.maxResults then some "Input should be less than or equal to 2000"
  else if raw.timeoutSeconds.any (· ≤ ((0 : Int) : Timeout)) then
    some "Input should be greater than 0"
  else if raw.refreshIntervalSeconds < 60 then some "Input should be greater than or equal to 60"
  else if 2592000 < raw.refreshIntervalSeconds then
    some "Input should be less than or equal to 2592000"
  else if raw.apiFamily ≠ .legacySearch then
    some "ArxivRequest only supports api_family='legacy_search'; use OaiHarvestRequest"
  else if !(minutePrecise raw.submittedStart && minutePrecise raw.submittedEnd) then
    some "submitted-date bounds must use UTC minute precision"
  else none

/-- The request with its texts cleaned. -/
def cleaned (raw : ArxivRequest) : ArxivRequest :=
  { raw with
    clientId := String.ofList (strip raw.clientId.toList)
    searchQuery := shapeQuery raw.searchQuery
    idList := shapeIds raw.idList }

/-- `ArxivRequest(…)`: the validation of the fields, and then of the shape. -/
def validate (raw : ArxivRequest) : Except Exn ArxivRequest :=
  match raw.fieldComplaint.or (raw.shapeComplaint raw.cleaned.searchQuery raw.cleaned.idList) with
  | some complaint => .error (.valueError complaint)
  | none => .ok raw.cleaned

/-- `ArxivRequest.model_validate_json(request.model_dump_json())`: the fields come back as they were
written, and are validated once more. -/
def reload (request : ArxivRequest) : Except Exn ArxivRequest :=
  request.validate

end ArxivRequest

/-! ## `build_arxiv_api_params` -/

namespace Keys

/-- The civil date of a day count from 1970-01-01: year, month and day of month. -/
def civilDate (days : Int) : Int × Int × Int :=
  -- Years run from March here, so that the leap day is the last of its year.
  let z := days + 719468
  let era := z / 146097
  let dayOfEra := z % 146097
  let yearOfEra := (dayOfEra - dayOfEra / 1460 + dayOfEra / 36524 - dayOfEra / 146096) / 365
  let dayOfYear := dayOfEra - (365 * yearOfEra + yearOfEra / 4 - yearOfEra / 100)
  let monthFromMarch := (5 * dayOfYear + 2) / 153
  let day := dayOfYear - (153 * monthFromMarch + 2) / 5 + 1
  let month := if monthFromMarch < 10 then monthFromMarch + 3 else monthFromMarch - 9
  let year := yearOfEra + era * 400
  (if month ≤ 2 then year + 1 else year, month, day)

/-- A number written with at least `width` digits. -/
def padded (width : Nat) (n : Int) : String :=
  let digits := (toString n).toList
  String.ofList (List.replicate (width - digits.length) '0' ++ digits)

/-- `_format_arxiv_datetime`: `%Y%m%d%H%M`. -/
def formatArxivDatetime (t : Int) : String :=
  let minutes := t / 60000000
  let date := civilDate (minutes / 1440)
  padded 4 date.1 ++ padded 2 date.2.1 ++ padded 2 date.2.2 ++ padded 2 (minutes % 1440 / 60) ++
    padded 2 (minutes % 60)

def sortByText : SortBy → String
  | .relevance => "relevance"
  | .lastUpdatedDate => "lastUpdatedDate"
  | .submittedDate => "submittedDate"

def sortOrderText : SortOrder → String
  | .ascending => "ascending"
  | .descending => "descending"

/-- The query with the date filter, where both bounds are given. -/
def datedQuery (request : ArxivRequest) : Option String :=
  let query := normalizeSearchQuery request.searchQuery
  match request.submittedStart, request.submittedEnd with
  | some start, some end_ =>
      let filter := "submittedDate:[" ++ formatArxivDatetime start ++ " TO " ++
        formatArxivDatetime (end_ - seconds 1) ++ "]"
      match query with
      | some query => some ("(" ++ query ++ ") AND " ++ filter)
      | none => some filter
  | _, _ => query

/-- `build_arxiv_api_params` -/
def buildArxivApiParams (request : ArxivRequest) : List (String × String) :=
  [("start", toString request.start), ("max_results", toString request.maxResults),
    ("sortBy", sortByText request.sortBy), ("sortOrder", sortOrderText request.sortOrder)] ++
    (match datedQuery request with
    | some query => [("search_query", query)]
    | none => []) ++
    (if request.idList.isEmpty then []
    else [("id_list", ",".intercalate (request.idList.map normalizeArxivId))])

example : formatArxivDatetime 1767225599000000 = "202512312359" := by decide

end Keys

/-! ## Validated requests -/

namespace ArxivRequest

variable {raw r : ArxivRequest}

theorem eq_cleaned_of_validate (h : raw.validate = .ok r) : r = raw.cleaned := by
  unfold validate at h
  split at h
  · cases h
  · cases h
    rfl

theorem shapeQuery_shapeQuery (query : Option String) :
    shapeQuery (shapeQuery query) = (shapeQuery query).filter (· ≠ "") := by
  cases query with
  | none => rfl
  | some text =>
      by_cases hempty : text = ""
      · simp [shapeQuery, hempty]
      · by_cases hblank : String.ofList (strip text.toList) = ""
        · simp [shapeQuery, hempty, hblank, Option.filter]
        · simp [shapeQuery, hempty, hblank, strip_strip, Option.filter]

theorem shapeIds_shapeIds (ids : List String) : shapeIds (shapeIds ids) = shapeIds ids := by
  have hfixed : ∀ id ∈ shapeIds ids, String.ofList (strip id.toList) = id := by
    intro id hmem
    rcases List.mem_map.1 (List.mem_filter.1 hmem).1 with ⟨raw, _, rfl⟩
    simp [strip_strip]
  have hkept : ∀ id ∈ shapeIds ids, decide (id ≠ "") = true := fun id hmem =>
    (List.mem_filter.1 hmem).2
  calc
    shapeIds (shapeIds ids)
        = ((shapeIds ids).map id).filter (· ≠ "") := by
          rw [shapeIds, List.map_congr_left hfixed]
          rfl
    _ = shapeIds ids := by
          rw [List.map_id]
          exact List.filter_eq_self.2 hkept

theorem noQuery_filter (query : Option String) :
    noQuery (query.filter (· ≠ "")) = noQuery query := by
  cases query with
  | none => rfl
  | some text =>
      by_cases hempty : text = ""
      · simp [noQuery, hempty, Option.filter]
      · simp [noQuery, hempty, Option.filter]

theorem searched_filter (query : Option String) (p : String → Bool) :
    (!noQuery (query.filter (· ≠ "")) && (query.filter (· ≠ "")).any p) =
      (!noQuery query && query.any p) := by
  cases query with
  | none => rfl
  | some text =>
      by_cases hempty : text = ""
      · simp [noQuery, hempty, Option.filter]
      · simp [noQuery, hempty, Option.filter]

theorem cleaned_cleaned (raw : ArxivRequest) : raw.cleaned.cleaned =
    { raw.cleaned with searchQuery := raw.cleaned.searchQuery.filter (· ≠ "") } := by
  simp [cleaned, shapeQuery_shapeQuery, shapeIds_shapeIds, strip_strip]

theorem fieldComplaint_cleaned (raw : ArxivRequest) :
    raw.cleaned.fieldComplaint = raw.fieldComplaint := by
  simp [fieldComplaint, cleaned, strip_strip]

theorem shapeComplaint_cleaned (raw : ArxivRequest) (query : Option String) (ids : List String) :
    raw.cleaned.shapeComplaint (query.filter (· ≠ "")) ids = raw.shapeComplaint query ids := by
  unfold shapeComplaint
  rw [searched_filter]
  simp only [noQuery_filter, cleaned]
  rfl

/-- A stored request is read back as it was, except that a blank query is now an absent one. -/
theorem reload_of_validate (h : raw.validate = .ok r) :
    r.reload = .ok { r with searchQuery := r.searchQuery.filter (· ≠ "") } := by
  have hr := eq_cleaned_of_validate h
  have hnone : raw.fieldComplaint.or
      (raw.shapeComplaint raw.cleaned.searchQuery raw.cleaned.idList) = none := by
    unfold validate at h
    split at h
    · cases h
    · assumption
  have hagain : raw.cleaned.fieldComplaint.or
      (raw.cleaned.shapeComplaint raw.cleaned.cleaned.searchQuery raw.cleaned.cleaned.idList) =
        none := by
    rw [fieldComplaint_cleaned, cleaned_cleaned, shapeComplaint_cleaned]
    exact hnone
  rw [hr, reload, validate, hagain, cleaned_cleaned]

end ArxivRequest

/-! ## What the cache key decides -/

/-- Whatever is asked of the server, and the way the answer is completed, is the same. -/
structure SameWork (r₁ r₂ : ArxivRequest) : Prop where
  params : Keys.buildArxivApiParams r₁ = Keys.buildArxivApiParams r₂
  broker : Broker.isPureIdListRequest r₁ = Broker.isPureIdListRequest r₂
  worker : Worker.isPureIdListRequest r₁ = Worker.isPureIdListRequest r₂

/-- The requests the caller or the store may hold for `r`: itself, and what it is read back as. -/
def Stored (r r' : ArxivRequest) : Prop :=
  r' = r ∨ r.reload = .ok r'

/-- However two requests of one cache key are held, they ask for the same work. -/
def KeySound (r₁ r₂ : ArxivRequest) : Prop :=
  ∀ r₁' r₂', Stored r₁ r₁' → Stored r₂ r₂' → SameWork r₁' r₂'

/-- Ids alone are asked for, but with a blank query that was kept as the empty text. -/
def BlankIdList (r : ArxivRequest) : Prop :=
  r.searchQuery = some "" ∧
    Worker.isPureIdListRequest { r with searchQuery := none } = true

section Soundness

variable {r₁ r₂ : ArxivRequest}

/-- Everything sent to the server is in the fingerprint. -/
theorem params_eq_of_key
    (h : Keys.requestFingerprintPayload r₁ = Keys.requestFingerprintPayload r₂) :
    Keys.buildArxivApiParams r₁ = Keys.buildArxivApiParams r₂ := by
  simp only [Keys.requestFingerprintPayload, Fingerprint.mk.injEq] at h
  rcases h with ⟨-, hquery, hids, hsortBy, hsortOrder, hstart, hmax, hsubmittedStart,
    hsubmittedEnd⟩
  have hempty : r₁.idList.isEmpty = r₂.idList.isEmpty := by
    have hlength := congrArg List.isEmpty hids
    simpa using hlength
  have hdated : Keys.datedQuery r₁ = Keys.datedQuery r₂ := by
    simp only [Keys.datedQuery, hquery, hsubmittedStart, hsubmittedEnd]
  simp only [Keys.buildArxivApiParams, hdated, hempty, hids, hsortBy, hsortOrder, hstart, hmax]

/-- What the test for an id list looks at besides the query is in the fingerprint. -/
theorem pure_eq_of_key
    (h : Keys.requestFingerprintPayload r₁ = Keys.requestFingerprintPayload r₂)
    (hquery : r₁.searchQuery.isNone = r₂.searchQuery.isNone) :
    Worker.isPureIdListRequest r₁ = Worker.isPureIdListRequest r₂ := by
  simp only [Keys.requestFingerprintPayload, Fingerprint.mk.injEq] at h
  rcases h with ⟨-, -, hids, hsortBy, hsortOrder, hstart, hmax, hsubmittedStart, hsubmittedEnd⟩
  have hlength : r₁.idList.length = r₂.idList.length := by
    simpa using congrArg List.length hids
  have hempty : r₁.idList.isEmpty = r₂.idList.isEmpty := by
    simpa using congrArg List.isEmpty hids
  simp only [Worker.isPureIdListRequest, hquery, hempty, hlength, hsortBy, hsortOrder, hstart,
    hmax, hsubmittedStart, hsubmittedEnd]

theorem broker_eq_worker (r : ArxivRequest) :
    Broker.isPureIdListRequest r = Worker.isPureIdListRequest r := rfl

/-- A request with a query is no id list; otherwise the query does not matter. -/
theorem pure_eq (r : ArxivRequest) : Worker.isPureIdListRequest r =
    (r.searchQuery.isNone && Worker.isPureIdListRequest { r with searchQuery := none }) := by
  cases hquery : r.searchQuery with
  | none => simp [Worker.isPureIdListRequest, hquery]
  | some query => simp [Worker.isPureIdListRequest, hquery]

theorem pure_shape_eq (h : Keys.requestFingerprintPayload r₁ = Keys.requestFingerprintPayload r₂) :
    Worker.isPureIdListRequest { r₁ with searchQuery := none } =
      Worker.isPureIdListRequest { r₂ with searchQuery := none } := by
  refine pure_eq_of_key ?_ rfl
  simp only [Keys.requestFingerprintPayload, Fingerprint.mk.injEq] at h ⊢
  exact ⟨h.1, trivial, h.2.2⟩

/-- A cleaned query is absent for the key when it is absent or blank. -/
theorem isNone_filter_shapeQuery (query : Option String) :
    ((ArxivRequest.shapeQuery query).filter (· ≠ "")).isNone =
      (Keys.normalizeSearchQuery (ArxivRequest.shapeQuery query)).isNone := by
  cases query with
  | none => rfl
  | some text =>
      by_cases hempty : text = ""
      · simp [ArxivRequest.shapeQuery, hempty, Keys.normalizeSearchQuery]
      · by_cases hblank : strip text.toList = []
        · have hnone : Keys.normalizeSearchQuery (some "") = none := by
            decide
          simp [ArxivRequest.shapeQuery, hempty, hblank, Option.filter, hnone]
        · have hcollapsed : collapseSpaces (strip text.toList) ≠ [] := fun h =>
            hblank (collapseSpaces_eq_nil.1 h)
          simp [ArxivRequest.shapeQuery, hempty, hblank, Keys.normalizeSearchQuery, Option.filter,
            strip_strip, hcollapsed]

/-- Reading a stored request back does not change its key. -/
theorem key_filter (r : ArxivRequest) :
    Keys.requestFingerprintPayload { r with searchQuery := r.searchQuery.filter (· ≠ "") } =
      Keys.requestFingerprintPayload r := by
  have hquery : Keys.normalizeSearchQuery (r.searchQuery.filter (· ≠ "")) =
      Keys.normalizeSearchQuery r.searchQuery := by
    cases hsearch : r.searchQuery with
    | none => rfl
    | some text =>
        by_cases hempty : text = ""
        · subst hempty
          decide
        · simp [Option.filter, hempty]
  simp only [Keys.requestFingerprintPayload, hquery]

/-- What a request may be held as, once it is valid. -/
theorem stored_cases {raw r r' : ArxivRequest} (h : raw.validate = .ok r) (hstored : Stored r r') :
    r' = r ∨ r' = { r with searchQuery := r.searchQuery.filter (· ≠ "") } := by
  rcases hstored with rfl | hreload
  · exact Or.inl rfl
  · rw [ArxivRequest.reload_of_validate h] at hreload
    exact Or.inr (Except.ok.inj hreload).symm

theorem key_of_stored {raw r r' : ArxivRequest} (h : raw.validate = .ok r)
    (hstored : Stored r r') :
    Keys.requestFingerprintPayload r' = Keys.requestFingerprintPayload r := by
  rcases stored_cases h hstored with rfl | rfl
  · rfl
  · exact key_filter r

/-- Where no blank query was kept, the key says whether there is a query. -/
theorem isNone_of_stored {raw r r' : ArxivRequest} (h : raw.validate = .ok r)
    (hstored : Stored r r') (hblank : r.searchQuery ≠ some "") :
    r'.searchQuery.isNone = (Keys.normalizeSearchQuery r.searchQuery).isNone := by
  have hr : r.searchQuery = ArxivRequest.shapeQuery raw.searchQuery := by
    rw [ArxivRequest.eq_cleaned_of_validate h]
    rfl
  have hsame : r.searchQuery.filter (· ≠ "") = r.searchQuery := by
    cases hsearch : r.searchQuery with
    | none => rfl
    | some text =>
        have hne : text ≠ "" := fun hempty => hblank (by rw [hsearch, hempty])
        simp [Option.filter, hne]
  have hnone := isNone_filter_shapeQuery raw.searchQuery
  rw [← hr, hsame] at hnone
  rcases stored_cases h hstored with rfl | rfl
  · exact hnone
  · rw [← hnone, hsame]

/-- A blank id list and the other request, read back, are classified differently. -/
theorem not_keySound_of_blank {raw₂ : ArxivRequest} (h₂ : raw₂.validate = .ok r₂)
    (hkey : Keys.requestFingerprintPayload r₁ = Keys.requestFingerprintPayload r₂)
    (hblank : BlankIdList r₁) :
    ∃ r₂', Stored r₂ r₂' ∧ Worker.isPureIdListRequest r₁ ≠ Worker.isPureIdListRequest r₂' := by
  have hreload := ArxivRequest.reload_of_validate h₂
  refine ⟨_, Or.inr hreload, ?_⟩
  have hquery : r₂.searchQuery = ArxivRequest.shapeQuery raw₂.searchQuery := by
    rw [ArxivRequest.eq_cleaned_of_validate h₂]
    rfl
  have hnormalized : Keys.normalizeSearchQuery r₂.searchQuery = none := by
    have hsame := congrArg Fingerprint.searchQuery hkey
    simp only [Keys.requestFingerprintPayload, hblank.1] at hsame
    rw [← hsame]
    decide
  have hnone : (r₂.searchQuery.filter (· ≠ "")).isNone = true := by
    rw [hquery, isNone_filter_shapeQuery, ← hquery, hnormalized]
    rfl
  have hkey' : Keys.requestFingerprintPayload { r₁ with searchQuery := none } =
      Keys.requestFingerprintPayload
        { r₂ with searchQuery := r₂.searchQuery.filter (· ≠ "") } := by
    rw [key_filter, ← hkey]
    have hempty : Keys.normalizeSearchQuery none = Keys.normalizeSearchQuery (some "") := by
      decide
    simp only [Keys.requestFingerprintPayload, hblank.1, hempty]
  have hpure := pure_eq_of_key hkey' (by rw [hnone]; rfl)
  rw [← hpure, hblank.2, pure_eq r₁, hblank.1]
  simp

/-- Two valid requests of one cache key ask for the same work, whichever of them were stored and
read back, exactly when neither is an id list with a blank query. -/
theorem key_sound_iff (raw₁ raw₂ r₁ r₂ : ArxivRequest) (h₁ : raw₁.validate = .ok r₁)
    (h₂ : raw₂.validate = .ok r₂)
    (hkey : Keys.requestFingerprintPayload r₁ = Keys.requestFingerprintPayload r₂) :
    KeySound r₁ r₂ ↔ ¬ BlankIdList r₁ ∧ ¬ BlankIdList r₂ := by
  constructor
  · intro hsound
    constructor
    · intro hblank
      rcases not_keySound_of_blank h₂ hkey hblank with ⟨r₂', hstored, hne⟩
      exact hne (hsound r₁ r₂' (Or.inl rfl) hstored).worker
    · intro hblank
      rcases not_keySound_of_blank h₁ hkey.symm hblank with ⟨r₁', hstored, hne⟩
      exact hne (hsound r₁' r₂ hstored (Or.inl rfl)).worker.symm
  · rintro ⟨hblank₁, hblank₂⟩ r₁' r₂' hstored₁ hstored₂
    have hkey' : Keys.requestFingerprintPayload r₁' = Keys.requestFingerprintPayload r₂' := by
      rw [key_of_stored h₁ hstored₁, key_of_stored h₂ hstored₂, hkey]
    have hworker : Worker.isPureIdListRequest r₁' = Worker.isPureIdListRequest r₂' := by
      by_cases hshape : Worker.isPureIdListRequest { r₁ with searchQuery := none } = true
      · -- Ids alone are asked for, so the queries must be absent in fact.
        have hshape₂ := pure_shape_eq hkey
        refine pure_eq_of_key hkey' ?_
        rw [isNone_of_stored h₁ hstored₁ fun h => hblank₁ ⟨h, hshape⟩,
          isNone_of_stored h₂ hstored₂ fun h => hblank₂ ⟨h, hshape₂ ▸ hshape⟩]
        exact congrArg Option.isNone (congrArg Fingerprint.searchQuery hkey)
      · have hfalse : ∀ r r' : ArxivRequest,
            Keys.requestFingerprintPayload r' = Keys.requestFingerprintPayload r →
            Worker.isPureIdListRequest { r with searchQuery := none } = false →
            Worker.isPureIdListRequest r' = false := by
          intro r r' hkeys hnot
          rw [pure_eq, pure_shape_eq hkeys, hnot, Bool.and_false]
        rw [hfalse r₁ r₁' (key_of_stored h₁ hstored₁) (by simpa using hshape),
          hfalse r₁ r₂' ((key_of_stored h₂ hstored₂).trans hkey.symm) (by simpa using hshape)]
    exact
      { params := params_eq_of_key hkey'
        broker := hworker
        worker := hworker }

/-- Ways to ask for one paper: plainly, by another client in other words, and with a blank query. -/
def plainIdList : ArxivRequest :=
  { clientId := "a", idList := ["2401.00001"] }

def spelledIdList : ArxivRequest :=
  { clientId := "b", idList := ["arXiv:2401.00001"], priority := 7 }

def blankIdList : ArxivRequest :=
  { clientId := "a", idList := ["2401.00001"], searchQuery := some " " }

theorem key_sound_plain :
    plainIdList.cleaned ≠ spelledIdList.cleaned ∧
      KeySound plainIdList.cleaned spelledIdList.cleaned := by
  refine ⟨by decide, ?_⟩
  exact (key_sound_iff plainIdList spelledIdList plainIdList.cleaned spelledIdList.cleaned
    (by decide) (by decide) (by decide)).2 (by unfold BlankIdList; decide)

/-- Both are valid and share their key, and only one of them is an id list. -/
theorem key_not_sound :
    ∃ r₁ r₂, plainIdList.validate = .ok r₁ ∧ blankIdList.validate = .ok r₂ ∧
      Keys.requestFingerprintPayload r₁ = Keys.requestFingerprintPayload r₂ ∧
      Worker.isPureIdListRequest r₁ = true ∧ Worker.isPureIdListRequest r₂ = false := by
  exact ⟨plainIdList.cleaned, blankIdList.cleaned, by decide, by decide, by decide, by decide,
    by decide⟩

end Soundness

end Huldra
