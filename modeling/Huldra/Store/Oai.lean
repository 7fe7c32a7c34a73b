import Huldra.Models
import Mathlib.Data.List.Sort
import Mathlib.Logic.Function.Basic

/-!
# Oai — harvest jobs, their pages, and the watermarks

The tables behind `harvest_oai`.  A job carries the cursor of a harvest; a page row is the audit
trail of one page of it; a watermark is what the next incremental harvest of the scope starts
from.
-/

namespace Huldra

/-- A row of `oai_harvest_jobs`. -/
structure OaiJobRow where
  harvestId : Uuid
  request : OaiHarvestRequest
  status : OaiStatus
  recordsProcessed : Nat := 0
  papersUpserted : Nat := 0
  deletedRecords : Nat := 0
  pagesTotal : Nat := 0
  requestsTotal : Nat := 0
  currentWatermark : Option OaiDatestamp := none
  resumptionToken : Option ResumptionToken
  lastResponseDate : Option Int := none
  lastDatestampSeen : Option Int := none
  deadlineAt : Option Int
  finishedPaging : Bool := false
  errorCategory : Option String := none
  errorMessage : Option String := none
  startedAt : Int
  updatedAt : Int
  completedAt : Option Int := none
  deriving DecidableEq, Repr

/-- A row of `oai_pages`. -/
structure OaiPageRow where
  harvestId : Uuid
  pageIndex : Nat
  requestParams : OaiRequestParams
  resumptionTokenHash : Option String
  status : OaiStatus
  responseDate : Option String := none
  recordsCount : Nat := 0
  nextResumptionTokenHash : Option String := none
  errorCategory : Option String := none
  errorMessage : Option String := none
  createdAt : Int
  deriving DecidableEq, Repr

/-- A row of `oai_watermarks`; both dates are UTC days. -/
structure OaiWatermarkRow where
  lastResponseDate : Option Int
  lastDatestampSeen : Option Int
  lastSuccessfulHarvestId : Uuid
  updatedAt : Int
  deriving DecidableEq, Repr

/-- `(metadata_prefix, _oai_set_key(set_spec))` -/
structure WatermarkKey where
  metadataPrefix : OaiMetadataPrefix
  setKey : String
  deriving DecidableEq, Repr

structure OaiTables where
  jobs : List OaiJobRow := []
  pages : List OaiPageRow := []
  watermarks : WatermarkKey → Option OaiWatermarkRow := fun _ => none

/-- `_oai_set_key` -/
def oaiSetKey (setSpec : Option String) : String :=
  setSpec.getD ""

def watermarkKey (request : OaiHarvestRequest) : WatermarkKey :=
  ⟨request.metadataPrefix, oaiSetKey request.setSpec⟩

/-- `_same_oai_resume_scope` -/
def sameOaiResumeScope (left right : OaiHarvestRequest) : Bool :=
  left.metadataPrefix = right.metadataPrefix && left.setSpec = right.setSpec &&
    left.fromDatestamp = right.fromDatestamp && left.untilDatestamp = right.untilDatestamp &&
    left.mode = right.mode

namespace OaiTables

def job? (o : OaiTables) (harvestId : Uuid) : Option OaiJobRow :=
  o.jobs.find? fun job => job.harvestId = harvestId

def page? (o : OaiTables) (harvestId : Uuid) (pageIndex : Nat) : Option OaiPageRow :=
  o.pages.find? fun page => page.harvestId = harvestId && page.pageIndex = pageIndex

/-- `UPDATE oai_harvest_jobs SET … WHERE harvest_id=?` -/
def updateJob (o : OaiTables) (harvestId : Uuid) (f : OaiJobRow → OaiJobRow) : OaiTables :=
  { o with jobs := o.jobs.map fun job => if job.harvestId = harvestId then f job else job }

/-- `INSERT INTO oai_pages … ON CONFLICT(harvest_id, page_index) DO UPDATE`, which keeps
`created_at`. -/
def putPage (o : OaiTables) (page : OaiPageRow) : OaiTables :=
  match o.page? page.harvestId page.pageIndex with
  | some _ =>
      { o with
        pages := o.pages.map fun p =>
          if p.harvestId = page.harvestId ∧ p.pageIndex = page.pageIndex then
            { page with createdAt := p.createdAt }
          else p }
  | none => { o with pages := o.pages ++ [page] }

/-- The rows of the request's prefix and set. -/
def jobsOfSet (o : OaiTables) (request : OaiHarvestRequest) : List OaiJobRow :=
  o.jobs.filter fun job =>
    job.request.metadataPrefix = request.metadataPrefix &&
      oaiSetKey job.request.setSpec = oaiSetKey request.setSpec

/-! ## Starting and resuming -/

def createOaiHarvestJob (o : OaiTables) (fresh : Uuid) (request : OaiHarvestRequest)
    (resumptionToken : Option ResumptionToken) (started : Int) : OaiTables :=
  { o with
    jobs := o.jobs ++
      [{ harvestId := fresh
         request := request
         status := .running
         resumptionToken := resumptionToken
         deadlineAt := some (started + request.runtimeBudgetSeconds)
         startedAt := started
         updatedAt := started }] }

/-- `get_running_oai_harvest`: the latest running job that the request may continue. -/
def getRunningOaiHarvest (o : OaiTables) (request : OaiHarvestRequest) : Option OaiJobRow :=
  let rows := ((o.jobsOfSet request).filter fun job => job.status = .running).insertionSort
    fun a b => b.updatedAt ≤ a.updatedAt
  (rows.take 50).find? fun job =>
    sameOaiResumeScope job.request request &&
      (request.resumptionToken.isNone || job.resumptionToken = request.resumptionToken)

def resumableStatus : OaiStatus → Bool
  | .rateLimited | .coolingDown | .blocked | .transientFailure | .budgetExceeded => true
  | .running | .completed | .failed => false

/-- `ORDER BY completed_at DESC, started_at DESC`: a job that has not completed comes last. -/
def completedBefore (a b : OaiJobRow) : Prop :=
  match a.completedAt, b.completedAt with
  | some s, some t => t < s ∨ (s = t ∧ b.startedAt ≤ a.startedAt)
  | some _, none => True
  | none, some _ => False
  | none, none => b.startedAt ≤ a.startedAt

instance (a b : OaiJobRow) : Decidable (completedBefore a b) := by
  unfold completedBefore
  cases a.completedAt <;> cases b.completedAt <;> infer_instance

/-- `get_latest_resumable_oai_harvest_token`: the token of the latest job of the same scope, if
that job stopped early. -/
def getLatestResumableOaiHarvestToken (o : OaiTables) (request : OaiHarvestRequest) :
    Option ResumptionToken :=
  let rows := (o.jobsOfSet request).insertionSort completedBefore
  match (rows.take 50).find? fun job => sameOaiResumeScope job.request request with
  | some job => if resumableStatus job.status then job.resumptionToken else none
  | none => none

def oaiHarvestResult (job : OaiJobRow) : OaiHarvestResult :=
  { harvestId := some job.harvestId
    status := job.status
    metadataPrefix := job.request.metadataPrefix
    setSpec := job.request.setSpec
    mode := job.request.mode
    recordsProcessed := job.recordsProcessed
    papersUpserted := job.papersUpserted
    deletedRecords := job.deletedRecords
    pagesTotal := job.pagesTotal
    requestsTotal := job.requestsTotal
    currentWatermark := job.currentWatermark
    resumptionToken := job.resumptionToken
    errorCategory := job.errorCategory
    errorMessage := job.errorMessage
    deadlineAt := job.deadlineAt }

/-- `ensure_oai_harvest_deadline` -/
def ensureOaiHarvestDeadline (o : OaiTables) (harvestId : Uuid) (deadlineAt timestamp : Int) :
    Except Exn Int × OaiTables :=
  let o := o.updateJob harvestId fun job =>
    if job.status = .running then
      { job with deadlineAt := job.deadlineAt.or (some deadlineAt), updatedAt := timestamp }
    else job
  match o.job? harvestId with
  | none => (.error (.valueError "unknown OAI harvest"), o)
  | some job =>
      match job.deadlineAt with
      | none => (.error (.valueError "OAI harvest is not running"), o)
      | some persisted => (.ok persisted, o)

/-! ## Progress -/

/-- `record_oai_request_started` -/
def recordOaiRequestStarted (o : OaiTables) (harvestId : Uuid) (timestamp : Int) :
    Except Exn Nat × OaiTables :=
  let o := o.updateJob harvestId fun job =>
    if job.status = .running then
      { job with requestsTotal := job.requestsTotal + 1, updatedAt := timestamp }
    else job
  match o.job? harvestId with
  | none => (.error (.valueError "unknown OAI harvest"), o)
  | some job => (.ok job.requestsTotal, o)

/-- The arguments of `checkpoint_oai_page`. -/
structure Checkpoint where
  harvestId : Uuid
  pageIndex : Nat
  requestParams : OaiRequestParams
  records : List OaiRecord
  responseDate : Option String
  consumedResumptionToken : Option ResumptionToken
  consumedResumptionTokenHash : Option String
  nextResumptionToken : Option ResumptionToken
  nextResumptionTokenHash : Option String
  lastResponseDate : Option Int
  lastDatestampSeen : Option Int
  terminalErrorCategory : Option String
  terminalErrorMessage : Option String
  timestamp : Int
  deriving DecidableEq, Repr

/-- The checkpoint still matches the durable cursor of its job. -/
def matchesCursor (o : OaiTables) (c : Checkpoint) : Bool :=
  match o.job? c.harvestId with
  | some job =>
      job.status = .running && job.pagesTotal = c.pageIndex &&
        job.resumptionToken = c.consumedResumptionToken
  | none => false

/-- The page row a checkpoint commits. -/
def Checkpoint.page (c : Checkpoint) : OaiPageRow :=
  { harvestId := c.harvestId
    pageIndex := c.pageIndex
    requestParams := c.requestParams
    resumptionTokenHash := c.consumedResumptionTokenHash
    status := .completed
    responseDate := c.responseDate
    recordsCount := c.records.length
    nextResumptionTokenHash := c.nextResumptionTokenHash
    createdAt := c.timestamp }

/-- What a checkpoint does to its job, given how many records were processed, upserted and
deleted. -/
def Checkpoint.advance (c : Checkpoint) (counts : Nat × Nat × Nat) (job : OaiJobRow) : OaiJobRow :=
  if job.status = .running then
    { job with
      recordsProcessed := job.recordsProcessed + counts.1
      papersUpserted := job.papersUpserted + counts.2.1
      deletedRecords := job.deletedRecords + counts.2.2
      pagesTotal := max job.pagesTotal (c.pageIndex + 1)
      resumptionToken := c.nextResumptionToken
      lastResponseDate := c.lastResponseDate.or job.lastResponseDate
      lastDatestampSeen := c.lastDatestampSeen.or job.lastDatestampSeen
      finishedPaging := c.nextResumptionToken.isNone
      errorCategory := c.terminalErrorCategory
      errorMessage := c.terminalErrorMessage.map fun m => String.ofList (m.toList.take 1000)
      updatedAt := c.timestamp }
  else job

/-- The part of `checkpoint_oai_page` that commits the page and moves the cursor. -/
def checkpointPage (o : OaiTables) (c : Checkpoint) (counts : Nat × Nat × Nat) : OaiTables :=
  (o.putPage c.page).updateJob c.harvestId (c.advance counts)

/-- `get_oai_consumed_token_hashes` -/
def getOaiConsumedTokenHashes (o : OaiTables) (harvestId : Uuid) : List String :=
  (o.pages.filter fun page => page.harvestId = harvestId).filterMap (·.resumptionTokenHash)

/-! ## Watermarks and the end of a job -/

/-- The newer of two days, as the `CASE` of `set_oai_watermark` picks it. -/
def newerDay (excluded stored : Option Int) : Option Int :=
  match excluded, stored with
  | none, s => s
  | some d, none => some d
  | some d, some s => if s ≤ d then some d else some s

/-- The day is given and not older than the stored one. -/
def advancesDay (excluded stored : Option Int) : Bool :=
  match excluded, stored with
  | none, _ => false
  | some _, none => true
  | some d, some s => s ≤ d

def setOaiWatermark (o : OaiTables) (key : WatermarkKey)
    (lastResponseDate lastDatestampSeen : Option Int) (harvestId : Uuid) (timestamp : Int) :
    OaiTables :=
  let row := match o.watermarks key with
    | none =>
        { lastResponseDate := lastResponseDate
          lastDatestampSeen := lastDatestampSeen
          lastSuccessfulHarvestId := harvestId
          updatedAt := timestamp }
    | some stored =>
        let advances := advancesDay lastResponseDate stored.lastResponseDate ||
          advancesDay lastDatestampSeen stored.lastDatestampSeen
        { lastResponseDate := newerDay lastResponseDate stored.lastResponseDate
          lastDatestampSeen := newerDay lastDatestampSeen stored.lastDatestampSeen
          lastSuccessfulHarvestId :=
            if advances then harvestId else stored.lastSuccessfulHarvestId
          updatedAt := if advances then timestamp else stored.updatedAt : OaiWatermarkRow }
  { o with watermarks := Function.update o.watermarks key (some row) }

/-- The arguments of `complete_oai_harvest_job`. -/
structure Completion where
  harvestId : Uuid
  status : OaiStatus
  recordsProcessed : Nat
  papersUpserted : Nat
  deletedRecords : Nat
  pagesTotal : Nat
  currentWatermark : Option OaiDatestamp
  resumptionToken : Option ResumptionToken
  errorCategory : Option String
  errorMessage : Option String
  completed : Int
  deriving DecidableEq, Repr

def completeOaiHarvestJob (o : OaiTables) (c : Completion) : OaiTables :=
  o.updateJob c.harvestId fun job =>
    { job with
      status := c.status
      recordsProcessed := c.recordsProcessed
      papersUpserted := c.papersUpserted
      deletedRecords := c.deletedRecords
      pagesTotal := c.pagesTotal
      currentWatermark := c.currentWatermark
      resumptionToken := c.resumptionToken
      errorCategory := c.errorCategory
      errorMessage := match c.errorMessage with
        | some m => if m = "" then none else some (String.ofList (m.toList.take 1000))
        | none => none
      updatedAt := c.completed
      completedAt := some c.completed }

end OaiTables

end Huldra
