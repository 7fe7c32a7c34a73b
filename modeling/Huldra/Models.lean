import Huldra.Config
import Huldra.Json
import Mathlib.Data.Int.Order.Basic
import Mathlib.Data.List.Infix
import Mathlib.Order.WithBot

/-!
# Models — the values the programs pass around and the store keeps

Requests, papers, queue items, the rate state and the OAI-PMH types, field by field.  A column that
holds JSON of one of these holds the value itself here; a `uuid4` is a natural number drawn from
a counter.
-/

namespace Huldra

abbrev Uuid := Nat

/-! ## Enumerations -/

inductive CachePolicy where
  | cacheOnly | cacheOrEnqueue | waitUntilReady | staleWhileRevalidate
  deriving DecidableEq, Repr

inductive ReadinessMode where
  | rawCompleted | analysisReady
  deriving DecidableEq, Repr

inductive RequestStatus where
  | queued | delayed | claimed | completed | failed
  deriving DecidableEq, Repr

inductive QueueWorkKind where
  | fetchMissing | refreshCompleted
  deriving DecidableEq, Repr

inductive CoverageStatus where
  | slice | complete | partial_ | overflow | unknown
  deriving DecidableEq, Repr

inductive OaiHarvestMode where
  | initial | incremental
  deriving DecidableEq, Repr

inductive SortBy where
  | relevance | lastUpdatedDate | submittedDate
  deriving DecidableEq, Repr

inductive SortOrder where
  | ascending | descending
  deriving DecidableEq, Repr

/-- The statuses of `cache_entries`. -/
inductive CacheStatus where
  | completed | failed | rateLimited
  deriving DecidableEq, Repr

/-- The statuses of `oai_harvest_jobs` and `oai_pages`. -/
inductive OaiStatus where
  | running | completed | failed | rateLimited | coolingDown | blocked | transientFailure
  | budgetExceeded
  deriving DecidableEq, Repr

/-- `ApiFamily`; the validator of `ArxivRequest` admits `legacySearch` only. -/
inductive ApiFamily where
  | legacySearch | oaiPmh
  deriving DecidableEq, Repr

inductive OaiMetadataPrefix where
  | arXiv | arXivRaw
  deriving DecidableEq, Repr

/-- The value of a metadata prefix. -/
def OaiMetadataPrefix.text : OaiMetadataPrefix → String
  | .arXiv => "arXiv"
  | .arXivRaw => "arXivRaw"

namespace RequestStatus

/-- The statuses of the partial unique index: `IN ('queued', 'delayed', 'claimed')`. -/
def pending : RequestStatus → Bool
  | .queued | .delayed | .claimed => true
  | .completed | .failed => false

end RequestStatus

/-! ## Names in the store -/

/-- Who holds a lease, a claim or a reservation.  The source keeps these as strings: the token of a
worker process, the `uuid4` of a worker made for one pass, `oai:{harvest_id}` and
`oai-harvest:{uuid4}`. -/
inductive OwnerToken where
  | worker (pid : Nat)
  | inlineWorker (uuid : Uuid)
  | oai (harvestId : Uuid)
  | oaiHarvest (uuid : Uuid)
  deriving DecidableEq, Repr

/-- The parts `_oai_scope_lease_name` hashes into a lease name. -/
inductive OaiScope where
  | sharedWatermarkWriter (metadataPrefix : OaiMetadataPrefix) (setKey : String)
  | window (metadataPrefix : OaiMetadataPrefix) (setKey : String) (fromKey untilKey : String)
      (mode : OaiHarvestMode)
  deriving DecidableEq, Repr

inductive LeaseName where
  | upstreamFetch
  | oaiHarvest (scope : OaiScope)
  deriving DecidableEq, Repr

/-! ## Legacy search -/

/-- A timeout: a duration, or `inf`, which a `float` of seconds may be too. -/
abbrev Timeout := WithTop Int

/-! The order of durations, with `inf` above them all.  The instances are named here, so that
none of them comes by way of a completion of the integers, which does not compute. -/

namespace Timeout

instance : LinearOrder Timeout :=
  @WithTop.linearOrder Int Int.instLinearOrder

instance : PartialOrder Timeout :=
  LinearOrder.toPartialOrder

instance : Preorder Timeout :=
  PartialOrder.toPreorder

instance : LE Timeout :=
  Preorder.toLE

instance : LT Timeout :=
  Preorder.toLT

instance : Max Timeout :=
  LinearOrder.toMax

instance : Min Timeout :=
  LinearOrder.toMin

instance : DecidableLE Timeout :=
  LinearOrder.toDecidableLE

instance : DecidableLT Timeout :=
  LinearOrder.toDecidableLT

instance : Zero Timeout :=
  ⟨((0 : Int) : WithTop Int)⟩

end Timeout

structure ArxivRequest where
  clientId : String
  searchQuery : Option String := none
  idList : List String := []
  sortBy : SortBy := .submittedDate
  sortOrder : SortOrder := .descending
  start : Nat := 0
  maxResults : Nat := 50
  submittedStart : Option Int := none
  submittedEnd : Option Int := none
  cachePolicy : CachePolicy := .cacheOrEnqueue
  readiness : ReadinessMode := .rawCompleted
  maturityLagDays : Option Int := none
  priority : Int := 0
  timeoutSeconds : Option Timeout := none
  refreshIntervalSeconds : Nat := 3600
  apiFamily : ApiFamily := .legacySearch
  deriving DecidableEq, Repr

/-- The request that `model_validate_json` reads of what `model_dump_json` writes: JSON has no
infinity, and a timeout of `inf` is written as `null`. -/
def ArxivRequest.stored (request : ArxivRequest) : ArxivRequest :=
  { request with timeoutSeconds := request.timeoutSeconds.filter (· ≠ ⊤) }

theorem ArxivRequest.timeoutSeconds_stored (request : ArxivRequest) :
    request.stored.timeoutSeconds ≠ some ⊤ := by
  intro h
  simpa using (Option.filter_eq_some_iff.1 h).2

/-- The columns of a paper that are carried along and never looked at: a column of JSON holds the
value itself. -/
structure PaperContent where
  title : String
  abstract_ : Option String := none
  authors : List String := []
  primaryCategory : Option String := none
  categories : List String := []
  publishedAt : Option Int := none
  updatedAt : Option Int := none
  comment : Option String := none
  journalRef : Option String := none
  doi : Option String := none
  rawAtom : Json.Object := []
  authorsDetail : List Json.Object := []
  license : Option String := none
  links : List Json.Object := []
  versions : List Json.Object := []
  withdrawn : Bool := false
  rawMetadata : Json.Object := []
  deriving DecidableEq, Repr

structure ArxivPaper where
  arxivId : String
  version : Option Nat := none
  canonicalUrl : String
  content : PaperContent
  oaiIdentifier : Option String := none
  oaiDatestamp : Option Int := none
  oaiSetSpecs : List String := []
  deleted : Bool := false
  deriving DecidableEq, Repr

structure RateState where
  name : String
  lastRequestAt : Option Int := none
  cooldownUntil : Option Int := none
  consecutive429Total : Nat := 0
  upstream429Total : Nat := 0
  consecutiveRateLimitTotal : Nat := 0
  upstreamRateLimitedTotal : Nat := 0
  upstreamOai503RetryAfterTotal : Nat := 0
  lastStatus : Option Int := none
  lastErrorMessage : Option String := none
  lastRequestStartedAt : Option Int := none
  lastRateWaitSeconds : Option Int := none
  lastRequestLatencyMs : Option Rat := none
  lastRetryAfterSeconds : Option Int := none
  lastEffectiveCooldownSeconds : Option Rat := none
  lastRateLimitKind : Option String := none
  lastApiFamily : Option String := none
  deriving DecidableEq

/-- What `request_cache_key` hashes: two requests share a cache key when these agree. -/
structure Fingerprint where
  apiFamily : ApiFamily
  searchQuery : Option String
  idList : List String
  sortBy : SortBy
  sortOrder : SortOrder
  start : Nat
  maxResults : Nat
  submittedStart : Option Int
  submittedEnd : Option Int
  deriving DecidableEq, Repr

abbrev CacheKey := Fingerprint

structure QueueItem where
  requestId : Uuid
  cacheKey : CacheKey
  clientId : String
  request : ArxivRequest
  priority : Int
  status : RequestStatus
  workKind : QueueWorkKind
  upstreamBudgetId : Option Uuid := none
  createdAt : Int
  updatedAt : Int
  claimedBy : Option OwnerToken := none
  claimedUntil : Option Int := none
  attemptsTotal : Nat := 0
  nextAttemptAt : Option Int := none
  completedAt : Option Int := none
  errorCategory : Option String := none
  errorMessage : Option String := none
  deriving DecidableEq, Repr

structure CacheEntry where
  cacheKey : CacheKey
  request : ArxivRequest
  status : CacheStatus
  requestedAt : Int
  completedAt : Option Int := none
  refreshAfter : Option Int := none
  cooldownUntil : Option Int := none
  upstreamStatus : Option Int := none
  upstreamRequestsTotal : Nat := 0
  resultCount : Nat := 0
  totalResults : Option Nat := none
  coverageStatus : CoverageStatus := .unknown
  errorCategory : Option String := none
  errorMessage : Option String := none
  deriving DecidableEq, Repr

structure FetchResult where
  papers : List ArxivPaper
  totalResults : Option Nat
  upstreamStatus : Int := 200
  deriving DecidableEq, Repr

/-! ## OAI-PMH -/

/-- A resumption token: the validators and the parser make a blank one `None`. -/
structure ResumptionToken where
  text : String
  nonempty : text ≠ "" := by decide
  deriving DecidableEq, Repr

/-- A date sent to the server: a UTC day, or text that is not a date and is passed on as it is. -/
inductive OaiDatestamp where
  | day (d : Int)
  | raw (text : String)
  deriving DecidableEq, Repr

structure OaiHarvestRequest where
  clientId : String := "huldra-oai"
  metadataPrefix : OaiMetadataPrefix := .arXiv
  setSpec : Option String := none
  fromDatestamp : Option String := none
  untilDatestamp : Option String := none
  resumptionToken : Option ResumptionToken := none
  mode : OaiHarvestMode := .incremental
  maxPages : Nat := 1000
  maxRequests : Nat := 1000
  runtimeBudgetSeconds : Int := seconds 3600
  deriving DecidableEq, Repr

structure OaiRecord where
  oaiIdentifier : String
  arxivId : Option String := none
  metadataPrefix : OaiMetadataPrefix
  datestamp : Option Int := none
  setSpecs : List String := []
  deleted : Bool := false
  paper : Option ArxivPaper := none
  rawXml : Option String := none
  deriving DecidableEq, Repr

/-- The parameters of one `ListRecords` request (`build_list_records_params`). -/
inductive OaiRequestParams where
  | resumption (token : ResumptionToken)
  | initial (metadataPrefix : OaiMetadataPrefix) (setSpec : Option String)
      (from_ until_ : Option OaiDatestamp)
  deriving DecidableEq, Repr

structure OaiPmhPage where
  records : List OaiRecord
  responseDate : Option String
  resumptionToken : Option ResumptionToken
  deriving DecidableEq, Repr

structure OaiHarvestResult where
  harvestId : Option Uuid
  status : OaiStatus
  metadataPrefix : OaiMetadataPrefix
  setSpec : Option String
  mode : OaiHarvestMode
  recordsProcessed : Nat := 0
  papersUpserted : Nat := 0
  deletedRecords : Nat := 0
  pagesTotal : Nat := 0
  requestsTotal : Nat := 0
  currentWatermark : Option OaiDatestamp := none
  resumptionToken : Option ResumptionToken := none
  errorCategory : Option String := none
  errorMessage : Option String := none
  deadlineAt : Option Int := none
  deriving DecidableEq, Repr

/-! ## Exceptions -/

/-- What the code can raise, and two it does not raise itself: `unexpected` is any other
`Exception` (a locked database, a failure of a library), `interrupt` one that is no `Exception`
and that only `finally` sees. -/
inductive Exn where
  | unexpected
  | interrupt
  | integrityError
  | runtimeError (message : String)
  | valueError (message : String)
  | assertionError
  | keyError
  | overflowError
  | rateLimitedError (retryAfterSeconds : Option Int) (message : String) (statusCode : Int)
  | transientFetchError (message : String) (statusCode : Option Int)
  | nonRetryableFetchError (message : String) (statusCode : Option Int)
  | huldraFetchError (message : String) (statusCode : Option Int)
  deriving DecidableEq, Repr

namespace Exn

/-- What `int` raises of a text with more than `sys.int_info.default_max_str_digits` digits. -/
def tooManyDigits (digits : Nat) : Exn :=
  .valueError ("Exceeds the limit (4300 digits) for integer string conversion: value has " ++
    toString digits ++ " digits; use sys.set_int_max_str_digits() to increase the limit")

/-- `str(exc)`. -/
def message : Exn → String
  | .unexpected => "unexpected error"
  | .interrupt => ""
  | .integrityError => "UNIQUE constraint failed"
  | .assertionError => ""
  | .keyError => "missing key"
  | .overflowError => "date value out of range"
  | .runtimeError m | .valueError m | .rateLimitedError _ m _ | .transientFetchError m _
  | .nonRetryableFetchError m _ | .huldraFetchError m _ => m

end Exn

end Huldra
