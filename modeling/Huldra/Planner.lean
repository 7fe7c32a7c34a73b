import Huldra.Keys.Minutes
import Huldra.Raising

/-!
# Planner — one request per query and day

`build_submitted_date_windows` gives every day of a range a half-open window for each query.  The
filter that `build_arxiv_api_params` makes of a window has inclusive bounds, a second before the
end and cut to the minute; together they tile the range.
-/

namespace Huldra

open Text

namespace Keys

/-- The bounds of the date filter of a request. -/
def dateFilter (request : ArxivRequest) : Option (String × String) :=
  match request.submittedStart, request.submittedEnd with
  | some start, some end_ =>
      some (formatArxivDatetime start, formatArxivDatetime (end_ - seconds 1))
  | _, _ => none

/-- The filter is the one in the query that is sent. -/
theorem datedQuery_eq (request : ArxivRequest) :
    datedQuery request =
      match dateFilter request, normalizeSearchQuery request.searchQuery with
      | some bounds, some query =>
          some ("(" ++ query ++ ") AND " ++
            ("submittedDate:[" ++ bounds.1 ++ " TO " ++ bounds.2 ++ "]"))
      | some bounds, none => some ("submittedDate:[" ++ bounds.1 ++ " TO " ++ bounds.2 ++ "]")
      | none, query => query := by
  unfold datedQuery dateFilter
  cases request.submittedStart with
  | none => rfl
  | some start =>
      cases request.submittedEnd with
      | none => rfl
      | some end_ => cases normalizeSearchQuery request.searchQuery <;> rfl

/-- The minute lies between the bounds, both included. -/
def filterContains (request : ArxivRequest) (minute : Int) : Bool :=
  (dateFilter request).any fun bounds =>
    bounds.1 ≤ formatArxivDatetime (minute * 60000000) &&
      formatArxivDatetime (minute * 60000000) ≤ bounds.2

end Keys

namespace Planner

open Keys

/-! ## `build_submitted_date_windows` -/

/-- `[query.strip() for query in search_queries if query.strip()]` -/
def normalizedQueries (searchQueries : List String) : List String :=
  (searchQueries.map fun query => String.ofList (strip query.toList)).filter (· ≠ "")

/-- Midnight of a day. -/
def midnight (day : Int) : Int :=
  day * 86400000000

def windowRequest (clientId : String) (maxResults : Nat) (day : Int) (query : String) :
    ArxivRequest :=
  { clientId := clientId
    searchQuery := some query
    submittedStart := some (midnight day)
    submittedEnd := some (midnight (day + 1))
    maxResults := maxResults }

/-- The loop over the days: so many of them from `current` on. -/
def windowsFrom (clientId : String) (maxResults : Nat) (queries : List String) :
    Nat → Int → Except Exn (List ArxivRequest)
  | 0, _ => .ok []
  | n + 1, current =>
      if dateMax ≤ current then .error .overflowError
      else do
        let requests ← queries.mapM fun query =>
          (windowRequest clientId maxResults current query).validate
        let rest ← windowsFrom clientId maxResults queries n (current + 1)
        pure (requests ++ rest)

def buildSubmittedDateWindows (searchQueries : List String) (startDate endDate : Int)
    (maxResults : Nat) (clientId : String) : Except Exn (List ArxivRequest) :=
  if endDate < startDate then .error (.valueError "start_date must be on or before end_date")
  else if normalizedQueries searchQueries = [] then
    .error (.valueError "search_queries cannot be empty")
  else
    windowsFrom clientId maxResults (normalizedQueries searchQueries)
      (endDate - startDate + 1).toNat startDate

/-! ## What is planned -/

section Planned

variable {clientId : String} {maxResults : Nat} {queries : List String}

/-- The requests of a day are the queries' own, cleaned. -/
theorem day_eq {current : Int} {day : List ArxivRequest}
    (h : (queries.mapM fun query => (windowRequest clientId maxResults current query).validate) =
      .ok day) :
    day = queries.map fun query => (windowRequest clientId maxResults current query).cleaned := by
  have hday := ((Raising.mapM_ok_iff.1 h).imp fun _ _ hrequest =>
    ArxivRequest.eq_cleaned_of_validate hrequest).flip
  have hmap := List.forall₂_map_right_iff.2 hday
  rwa [List.forall₂_eq_eq_eq] at hmap

/-- The days in their order, and for each of them the queries in theirs. -/
def planned (clientId : String) (maxResults : Nat) (queries : List String) (n : Nat)
    (current : Int) : List ArxivRequest :=
  (List.range n).flatMap fun i : Nat =>
    queries.map fun query => (windowRequest clientId maxResults (current + i) query).cleaned

theorem planned_succ (n : Nat) (current : Int) :
    planned clientId maxResults queries (n + 1) current =
      (queries.map fun query => (windowRequest clientId maxResults current query).cleaned) ++
        planned clientId maxResults queries n (current + 1) := by
  have hday : ∀ i : Nat, current + ((i + 1 : Nat) : Int) = current + 1 + i := by
    intro i
    omega
  simp only [planned, List.range_succ_eq_map, List.flatMap_cons, List.flatMap_map, hday]
  simp

theorem windowsFrom_eq {n : Nat} {current : Int} {requests : List ArxivRequest}
    (h : windowsFrom clientId maxResults queries n current = .ok requests) :
    requests = planned clientId maxResults queries n current := by
  induction n generalizing current requests with
  | zero =>
      cases h
      rfl
  | succ n ih =>
      rw [windowsFrom] at h
      split at h
      · cases h
      case isFalse =>
        cases hday : queries.mapM fun query =>
            (windowRequest clientId maxResults current query).validate with
        | error e =>
            rw [hday] at h
            cases h
        | ok day =>
            rw [hday] at h
            cases hrest : windowsFrom clientId maxResults queries n (current + 1) with
            | error e =>
                simp only [hrest] at h
                cases h
            | ok rest =>
                simp only [hrest] at h
                cases h
                rw [day_eq hday, ih hrest]
                exact (planned_succ ..).symm

end Planned

/-! ## The requests of one query -/

/-- The requests made for the `j`-th of `m` queries, a day after another. -/
def queryRequests (m j : Nat) (requests : List ArxivRequest) : List ArxivRequest :=
  (List.range (requests.length / m)).filterMap fun i => requests[i * m + j]?

section Queries

variable {clientId : String} {maxResults : Nat} {queries : List String}

theorem length_planned (n : Nat) (current : Int) :
    (planned clientId maxResults queries n current).length = n * queries.length := by
  simp [planned, List.length_flatMap]

/-- Day by day a row of requests, one for each query. -/
theorem getElem?_planned (n : Nat) (current : Int) {i j : Nat} (hi : i < n)
    (hj : j < queries.length) :
    (planned clientId maxResults queries n current)[i * queries.length + j]? =
      some (windowRequest clientId maxResults (current + i) queries[j]).cleaned := by
  induction n generalizing current i with
  | zero => omega
  | succ n ih =>
      rw [planned_succ]
      cases i with
      | zero =>
          rw [Nat.zero_mul, Nat.zero_add, List.getElem?_append_left (by simpa using hj)]
          simp [hj]
      | succ i =>
          have hlater : queries.length ≤ (i + 1) * queries.length + j := by
            rw [Nat.succ_mul]
            omega
          have hindex : (i + 1) * queries.length + j - queries.length = i * queries.length + j := by
            rw [Nat.succ_mul]
            omega
          have hday : current + 1 + (i : Int) = current + (i + 1 : Nat) := by omega
          rw [List.getElem?_append_right (by simpa using hlater), List.length_map, hindex,
            ih (current + 1) (by omega), hday]

theorem queryRequests_planned (n : Nat) (current : Int) {j : Nat} (hj : j < queries.length) :
    queryRequests queries.length j (planned clientId maxResults queries n current) =
      (List.range n).map fun i : Nat =>
        (windowRequest clientId maxResults (current + i) queries[j]).cleaned := by
  have hdays : n * queries.length / queries.length = n := Nat.mul_div_cancel n (by omega)
  rw [queryRequests, length_planned, hdays, ← List.filterMap_eq_map]
  refine List.filterMap_congr fun i hi => ?_
  exact getElem?_planned n current (List.mem_range.1 hi) hj

end Queries

/-! ## The window of a day -/

/-- A query as the planner leaves it: something, without blanks around it. -/
theorem of_mem_normalizedQueries {searchQueries : List String} {query : String}
    (h : query ∈ normalizedQueries searchQueries) :
    query ≠ "" ∧ String.ofList (strip query.toList) = query := by
  rcases List.mem_filter.1 h with ⟨hmem, hsome⟩
  rcases List.mem_map.1 hmem with ⟨raw, _, rfl⟩
  exact ⟨by simpa using hsome, by simp [strip_strip]⟩

section Window

variable {clientId : String} {maxResults : Nat} {day : Int} {query : String}

theorem searchQuery_cleaned (hquery : query ≠ "" ∧ String.ofList (strip query.toList) = query) :
    (windowRequest clientId maxResults day query).cleaned.searchQuery = some query := by
  change ArxivRequest.shapeQuery (some query) = some query
  rw [ArxivRequest.shapeQuery, if_neg hquery.1, hquery.2]

theorem normalizeSearchQuery_ne_none
    (hquery : query ≠ "" ∧ String.ofList (strip query.toList) = query) :
    ∃ normalized, normalizeSearchQuery (some query) = some normalized := by
  have hstrip : strip query.toList ≠ [] := by
    intro hblank
    rw [hblank] at hquery
    exact hquery.1 hquery.2.symm
  have hcollapsed : (collapseSpaces (strip query.toList)).isEmpty = false := by
    simpa using fun h => hstrip (collapseSpaces_eq_nil.1 h)
  refine ⟨String.ofList (collapseSpaces (strip query.toList)), ?_⟩
  simp [normalizeSearchQuery, hcollapsed]

theorem dateFilter_cleaned :
    dateFilter (windowRequest clientId maxResults day query).cleaned =
      some (formatArxivDatetime (midnight day),
        formatArxivDatetime (midnight (day + 1) - seconds 1)) := rfl

/-- The filter is in the query that is sent. -/
theorem sent_cleaned (hquery : query ≠ "" ∧ String.ofList (strip query.toList) = query) :
    ∃ normalized, normalizeSearchQuery (some query) = some normalized ∧
      ("search_query", "(" ++ normalized ++ ") AND " ++
        ("submittedDate:[" ++ formatArxivDatetime (midnight day) ++ " TO " ++
          formatArxivDatetime (midnight (day + 1) - seconds 1) ++ "]")) ∈
        buildArxivApiParams (windowRequest clientId maxResults day query).cleaned := by
  rcases normalizeSearchQuery_ne_none hquery with ⟨normalized, hnormalized⟩
  refine ⟨normalized, hnormalized, ?_⟩
  have hdated : datedQuery (windowRequest clientId maxResults day query).cleaned =
      some ("(" ++ normalized ++ ") AND " ++
        ("submittedDate:[" ++ formatArxivDatetime (midnight day) ++ " TO " ++
          formatArxivDatetime (midnight (day + 1) - seconds 1) ++ "]")) := by
    rw [datedQuery_eq, dateFilter_cleaned, searchQuery_cleaned hquery, hnormalized]
  simp only [buildArxivApiParams, hdated]
  simp

/-- A second before midnight is the last minute of the day, so the two bounds hold the minutes of
the day and no other. -/
theorem filterContains_cleaned {minute : Int} (hfirst : dateMin ≤ day) (hlast : day < dateMax)
    (hminute : InCalendar minute) :
    filterContains (windowRequest clientId maxResults day query).cleaned minute =
      decide (day = minute / 1440) := by
  have hstart : midnight day / 60000000 = day * 1440 := by
    simp only [midnight]
    omega
  have hend : (midnight (day + 1) - seconds 1) / 60000000 = day * 1440 + 1439 := by
    simp only [midnight, seconds]
    omega
  have hsame : minute * 60000000 / 60000000 = minute := by omega
  have hstart' : InCalendar (midnight day / 60000000) := by
    simp only [hstart, InCalendar, dateMin, dateMax] at *
    omega
  have hend' : InCalendar ((midnight (day + 1) - seconds 1) / 60000000) := by
    simp only [hend, InCalendar, dateMin, dateMax] at *
    omega
  have hminute' : InCalendar (minute * 60000000 / 60000000) := by rwa [hsame]
  have hlower := formatArxivDatetime_le_iff hstart' hminute'
  have hupper := formatArxivDatetime_le_iff hminute' hend'
  rw [hsame, hstart] at hlower
  rw [hsame, hend] at hupper
  simp only [filterContains, dateFilter_cleaned, Option.any_some, hlower, hupper,
    ← Bool.decide_and]
  refine decide_eq_decide.2 ?_
  omega

end Window

/-! ## What is accepted -/

section Accepted

variable {clientId : String} {maxResults : Nat}

/-- A short query cannot have a date filter of its own. -/
theorem namesSubmittedDate_of_short {query : String} (h : query.toList.length < 14) :
    ArxivRequest.namesSubmittedDate query = false := by
  refine decide_eq_false fun hinfix => ?_
  have hlength := hinfix.length_le
  rw [List.length_map] at hlength
  exact absurd hlength (by simpa using h)

/-- The requests of a named client for an allowed number of results pass the validators, unless
the query has a date filter of its own. -/
theorem validate_windowRequest {day : Int} {query : String}
    (hclient : strip clientId.toList ≠ []) (hmax : 1 ≤ maxResults ∧ maxResults ≤ 2000)
    (hquery : query ≠ "" ∧ String.ofList (strip query.toList) = query)
    (hnames : ArxivRequest.namesSubmittedDate query = false) :
    (windowRequest clientId maxResults day query).validate =
      .ok (windowRequest clientId maxResults day query).cleaned := by
  have hfields : (windowRequest clientId maxResults day query).fieldComplaint = none := by
    have hprecise : ∀ d, ArxivRequest.minutePrecise (some (midnight d)) = true := by
      intro d
      refine decide_eq_true ?_
      simp only [midnight]
      omega
    have hlow : ¬ maxResults < 1 := by omega
    have hhigh : ¬ 2000 < maxResults := by omega
    simp only [ArxivRequest.fieldComplaint, windowRequest, hprecise, hclient, hlow, hhigh]
    rfl
  have hshape : (windowRequest clientId maxResults day query).shapeComplaint (some query)
      (windowRequest clientId maxResults day query).cleaned.idList = none := by
    have horder : ¬ midnight (day + 1) ≤ midnight day := by
      simp only [midnight]
      omega
    simp [ArxivRequest.shapeComplaint, windowRequest, ArxivRequest.noQuery, hquery.1, hnames,
      horder]
  rw [ArxivRequest.validate, hfields, searchQuery_cleaned hquery, Option.none_or, hshape]

theorem windowsFrom_ok {queries : List String} {n : Nat} {current : Int}
    (hclient : strip clientId.toList ≠ []) (hmax : 1 ≤ maxResults ∧ maxResults ≤ 2000)
    (hqueries : ∀ query ∈ queries, (query ≠ "" ∧ String.ofList (strip query.toList) = query) ∧
      ArxivRequest.namesSubmittedDate query = false)
    (hlast : current + n ≤ dateMax) :
    windowsFrom clientId maxResults queries n current =
      .ok (planned clientId maxResults queries n current) := by
  induction n generalizing current with
  | zero => rfl
  | succ n ih =>
      have hday : (queries.mapM fun query =>
          (windowRequest clientId maxResults current query).validate) =
          .ok (queries.map fun query =>
            (windowRequest clientId maxResults current query).cleaned) := by
        rw [Raising.mapM_ok_iff, List.forall₂_map_right_iff, List.forall₂_same]
        intro query hquery
        exact validate_windowRequest hclient hmax (hqueries query hquery).1
          (hqueries query hquery).2
      rw [windowsFrom, if_neg (by omega), hday, ih (by omega), planned_succ]
      rfl

end Accepted

/-! ## Tiling the range -/

/-- Of consecutive days exactly one is the day asked for, where it is among them. -/
theorem countP_days (first : Int) (n : Nat) (day : Int) :
    ((List.range n).countP fun i : Nat => decide (first + i = day)) =
      if first ≤ day ∧ day < first + n then 1 else 0 := by
  induction n with
  | zero =>
      rw [List.range_zero, List.countP_nil, if_neg (by omega)]
  | succ n ih =>
      rw [List.range_succ, List.countP_append, ih, List.countP_singleton]
      simp only [decide_eq_true_eq]
      by_cases hbefore : first ≤ day ∧ day < first + (n : Int)
      · rw [if_pos hbefore, if_neg (by omega), if_pos (by omega)]
      · rw [if_neg hbefore]
        by_cases hday : first + (n : Int) = day
        · rw [if_pos hday, if_pos (by omega)]
        · rw [if_neg hday, if_neg (by omega)]

/-- The requests for one query: one for every day from the first to the last, each with its filter
in the query it sends, and every minute of the range in exactly one of the filters. -/
structure Tiles (firstDay lastDay : Int) (query : String)
    (requests : List ArxivRequest) : Prop where
  query_eq : ∀ request ∈ requests, request.searchQuery = some query
  sent : ∀ request ∈ requests, ∃ bounds normalized, dateFilter request = some bounds ∧
    normalizeSearchQuery (some query) = some normalized ∧
    ("search_query", "(" ++ normalized ++ ") AND " ++
      ("submittedDate:[" ++ bounds.1 ++ " TO " ++ bounds.2 ++ "]")) ∈ buildArxivApiParams request
  length : requests.length = (lastDay - firstDay + 1).toNat
  day : ∀ day, (requests.countP fun request =>
      request.submittedStart = some (midnight day) ∧
        request.submittedEnd = some (midnight (day + 1))) =
    if firstDay ≤ day ∧ day ≤ lastDay then 1 else 0
  minute : ∀ minute, InCalendar minute → requests.countP (filterContains · minute) =
    if firstDay * 1440 ≤ minute ∧ minute < (lastDay + 1) * 1440 then 1 else 0

theorem tiles_days {clientId query : String} {maxResults : Nat} {firstDay lastDay : Int}
    (hquery : query ≠ "" ∧ String.ofList (strip query.toList) = query)
    (hfirst : dateMin ≤ firstDay) (horder : firstDay ≤ lastDay) (hlast : lastDay < dateMax) :
    Tiles firstDay lastDay query ((List.range (lastDay - firstDay + 1).toNat).map fun i : Nat =>
      (windowRequest clientId maxResults (firstDay + i) query).cleaned) := by
  have hcount : (((lastDay - firstDay + 1).toNat : Nat) : Int) = lastDay - firstDay + 1 := by omega
  refine ⟨?_, ?_, by simp, ?_, ?_⟩
  · intro request hrequest
    rcases List.mem_map.1 hrequest with ⟨i, _, rfl⟩
    exact searchQuery_cleaned hquery
  · intro request hrequest
    rcases List.mem_map.1 hrequest with ⟨i, _, rfl⟩
    rcases sent_cleaned hquery with ⟨normalized, hnormalized, hsent⟩
    exact ⟨_, normalized, dateFilter_cleaned, hnormalized, hsent⟩
  · intro day
    have hsame : ∀ i ∈ List.range (lastDay - firstDay + 1).toNat,
        ((fun request : ArxivRequest => decide (request.submittedStart = some (midnight day) ∧
            request.submittedEnd = some (midnight (day + 1)))) ∘ fun i : Nat =>
          (windowRequest clientId maxResults (firstDay + i) query).cleaned) i = true ↔
        decide (firstDay + (i : Int) = day) = true := by
      intro i _
      simp only [Function.comp_apply, decide_eq_true_eq, windowRequest, ArxivRequest.cleaned,
        Option.some.injEq, midnight]
      omega
    rw [List.countP_map, List.countP_congr hsame, countP_days, hcount]
    refine if_congr ?_ rfl rfl
    omega
  · intro minute hminute
    have hsame : ∀ i ∈ List.range (lastDay - firstDay + 1).toNat,
        ((filterContains · minute) ∘ fun i : Nat =>
          (windowRequest clientId maxResults (firstDay + i) query).cleaned) i = true ↔
        decide (firstDay + (i : Int) = minute / 1440) = true := by
      intro i hi
      have hi := List.mem_range.1 hi
      rw [Function.comp_apply, filterContains_cleaned (by omega) (by omega) hminute]
    rw [List.countP_map, List.countP_congr hsame, countP_days, hcount]
    refine if_congr ?_ rfl rfl
    omega

/-- Whatever is accepted tiles the range, for each of the queries. -/
theorem windows_tile {searchQueries : List String} {firstDay lastDay : Int} {maxResults : Nat}
    {clientId : String} {requests : List ArxivRequest} (hfirst : dateMin ≤ firstDay)
    (horder : firstDay ≤ lastDay) (hlast : lastDay < dateMax)
    (h : buildSubmittedDateWindows searchQueries firstDay lastDay maxResults clientId =
      .ok requests) :
    requests.length =
        (lastDay - firstDay + 1).toNat * (normalizedQueries searchQueries).length ∧
      ∀ j (hj : j < (normalizedQueries searchQueries).length),
        Tiles firstDay lastDay (normalizedQueries searchQueries)[j]
          (queryRequests (normalizedQueries searchQueries).length j requests) := by
  rw [buildSubmittedDateWindows, if_neg (by omega)] at h
  split at h
  · cases h
  · rw [windowsFrom_eq h]
    refine ⟨length_planned _ _, fun j hj => ?_⟩
    rw [queryRequests_planned _ _ hj]
    exact tiles_days (of_mem_normalizedQueries (List.getElem_mem hj)) hfirst horder hlast

/-- Two queries, one of them with blanks, over the leap day of 2024. -/
theorem windows_tile_leap_day :
    ∃ requests, buildSubmittedDateWindows ["cat:cs.AI ", "", " all:graph"] 19781 19783
      100 "huldra" =
        .ok requests ∧
      requests.length = 3 * (normalizedQueries ["cat:cs.AI ", "", " all:graph"]).length ∧
      ∀ j (hj : j < (normalizedQueries ["cat:cs.AI ", "", " all:graph"]).length),
        Tiles 19781 19783 (normalizedQueries ["cat:cs.AI ", "", " all:graph"])[j]
          (queryRequests (normalizedQueries ["cat:cs.AI ", "", " all:graph"]).length j
            requests) := by
  have hnames : ∀ query ∈ normalizedQueries ["cat:cs.AI ", "", " all:graph"],
      query.toList.length < 14 := by decide
  have haccepted : buildSubmittedDateWindows ["cat:cs.AI ", "", " all:graph"] 19781 19783 100
      "huldra" = .ok (planned "huldra" 100 (normalizedQueries ["cat:cs.AI ", "", " all:graph"]) 3
        19781) := by
    rw [buildSubmittedDateWindows, if_neg (by decide), if_neg (by decide)]
    exact windowsFrom_ok (by decide) (by decide)
      (fun query hquery => ⟨of_mem_normalizedQueries hquery,
        namesSubmittedDate_of_short (hnames query hquery)⟩) (by decide)
  exact ⟨_, haccepted, windows_tile (by decide) (by decide) (by decide) haccepted⟩

end Planner
end Huldra
