import Huldra.Process.View
import Huldra.Worker.Routine
import Huldra.Clients

/-!
# Stand — where a harvest process stands in the chain of its job

`Walk` follows the request for the next page; here we follow the pages.  A process stands where the
row of its job stood when it was read, and each page it commits moves it by one.  `Allowed` says
what it may write from there: the checkpoint of the page it has come to, the audit row of that
page, the watermark of a chain that it has walked to its end, and the end of its job.
-/

namespace Huldra
namespace Harvest

open Process (Prog Discipline)
open Process.System (Monitor)

/-- `sha256` of a token, as pages and checkpoints carry it. -/
def hashOf (d : Deployment) (token : Option ResumptionToken) : Option String :=
  token.map fun t => d.sha256 t.text

structure Stand where
  harvestId : Uuid
  request : OaiHarvestRequest
  cursor : Cursor
  /-- The token error that the last page was committed with. -/
  pendingErrorCategory : Option String := none
  /-- The tokens that the job has consumed have been read. -/
  informed : Bool := false

namespace Stand

/-- Where a job is left. -/
def ofRow (row : OaiJobRow) : Stand :=
  { harvestId := row.harvestId
    request := row.request
    cursor :=
      { resumptionToken := row.resumptionToken
        pageIndex := row.pagesTotal
        requestsTotal := row.requestsTotal
        recordsProcessed := row.recordsProcessed
        papersUpserted := row.papersUpserted
        deletedRecords := row.deletedRecords
        responseWatermark := row.lastResponseDate
        maxDatestampSeen := row.lastDatestampSeen
        finishedPaging := row.finishedPaging }
    pendingErrorCategory := row.errorCategory }

end Stand

/-- The cursor after the page of a checkpoint. -/
def Cursor.commit (cursor : Cursor) (c : OaiTables.Checkpoint) (counts : Nat × Nat × Nat) :
    Cursor :=
  { cursor with
    recordsProcessed := cursor.recordsProcessed + counts.1
    papersUpserted := cursor.papersUpserted + counts.2.1
    deletedRecords := cursor.deletedRecords + counts.2.2
    responseWatermark := c.lastResponseDate
    maxDatestampSeen := c.lastDatestampSeen
    pageIndex := cursor.pageIndex + 1
    consumedTokenHashes := cursor.consumedTokenHashes ++ c.consumedResumptionTokenHash.toList
    resumptionToken := c.nextResumptionToken
    finishedPaging := c.nextResumptionToken.isNone }

namespace Stand

def commit (st : Stand) (c : OaiTables.Checkpoint) (counts : Nat × Nat × Nat) : Stand :=
  { st with
    cursor := st.cursor.commit c counts
    pendingErrorCategory := c.terminalErrorCategory }

def step (x : Option Stand) (o : Op) (r : Except Exn o.Res) : Option Stand :=
  match o, r with
  | .oai (.getRunningOaiHarvest _), .ok (some row) => some (.ofRow row)
  | .oai (.createOaiHarvestJob request token _), .ok harvestId =>
      some
        { harvestId := harvestId
          request := request
          cursor := { resumptionToken := token } }
  | .oai (.getOaiConsumedTokenHashes _), .ok hashes =>
      x.map fun st =>
        { st with
          cursor := { st.cursor with consumedTokenHashes := hashes }
          informed := true }
  | .oai (.recordOaiRequestStarted _ _), .ok total =>
      x.map fun st => { st with cursor := { st.cursor with requestsTotal := total } }
  | .checkpointOaiPage c, .ok counts => x.map fun st => st.commit c counts
  -- The page may have been committed all the same; the process goes no further.
  | .checkpointOaiPage _, .error _ => none
  | _, _ => x

/-- The next page may be fetched and committed. -/
structure Open (st : Stand) : Prop where
  unfinished : st.cursor.finishedPaging = false
  sound : st.pendingErrorCategory = none
  informed : st.informed = true

/-- The chain was walked to its end. -/
structure Finished (st : Stand) : Prop where
  finished : st.cursor.finishedPaging = true
  sound : st.pendingErrorCategory = none

/-- What a completion says of a chain that was walked to its end. -/
structure Completes (st : Stand) (c : OaiTables.Completion) : Prop where
  finished : st.Finished
  recordsProcessed : c.recordsProcessed = st.cursor.recordsProcessed
  papersUpserted : c.papersUpserted = st.cursor.papersUpserted
  deletedRecords : c.deletedRecords = st.cursor.deletedRecords
  pagesTotal : c.pagesTotal = st.cursor.pageIndex
  token : c.resumptionToken = none

/-- What a process may write from where it stands. -/
def Allowed (d : Deployment) (x : Option Stand) : Op → Prop
  | .oai (.getOaiConsumedTokenHashes harvestId) => ∃ st, x = some st ∧ harvestId = st.harvestId
  | .oai (.recordOaiPage page) =>
      ∃ st, x = some st ∧ page.harvestId = st.harvestId ∧ page.pageIndex = st.cursor.pageIndex ∧
        page.resumptionTokenHash = hashOf d st.cursor.resumptionToken ∧ page.status ≠ .completed
  | .checkpointOaiPage c =>
      ∃ st, x = some st ∧ st.Open ∧ ∃ (j : Job) (page : OaiPmhPage) (t : Int),
        j.deployment = d ∧ j.harvestId = st.harvestId ∧ c = j.checkpointOf st.cursor page t
  | .oai (.setOaiWatermark key lastResponseDate lastDatestampSeen harvestId _) =>
      ∃ st, x = some st ∧ st.Finished ∧ shouldCommitOaiWatermark st.request = true ∧
        key = watermarkKey st.request ∧ lastResponseDate = st.cursor.responseWatermark ∧
          lastDatestampSeen = st.cursor.maxDatestampSeen ∧ harvestId = st.harvestId
  | .oai (.completeOaiHarvestJob c) =>
      ∃ st, x = some st ∧ c.harvestId = st.harvestId ∧ c.status ≠ .running ∧
        (c.status = .completed → st.Completes c) ∧
          (c.status ≠ .completed → c.resumptionToken = st.cursor.resumptionToken)
  | .upstream (.listRecordsBegin call) =>
      ∃ st, x = some st ∧ st.Open ∧ call.harvestId = st.harvestId ∧
        call.pageIndex = st.cursor.pageIndex ∧
          ∀ token ∈ st.cursor.resumptionToken, call.params = .resumption token
  | _ => True

end Stand

/-- Follow where a process stands. -/
def standMonitor {Client Out : Type} {program : Client → Nat → Process.Prog huldra Out} :
    Monitor (storeSystem Client Out program) (Option Stand) where
  initial _ := none
  start _ _ _ := none
  step x o r _ := Stand.step x o r
  crash _ := none
  clock _ := 0
  clock_initial _ := Process.System.no_time
  clock_start _ _ _ h := h
  clock_step _ _ _ _ h := h
  clock_crash _ := Int.le_refl 0

/-- The discipline of the chain: what a process may write, and how it moves. -/
def stands (d : Deployment) : Discipline huldra (Option Stand) where
  allow := Stand.Allowed d
  next x o r x' := ∃ t s s', (0 : Int) ≤ t ∧ Store.Performed o t r s s' ∧ x' = Stand.step x o r

/-! ## Operations that neither move a process nor write for its job -/

def Quiet : Op → Prop
  | .oai (.getRunningOaiHarvest _) | .oai (.createOaiHarvestJob ..)
  | .oai (.getOaiConsumedTokenHashes _) | .oai (.recordOaiRequestStarted ..)
  | .oai (.recordOaiPage _) | .oai (.setOaiWatermark ..) | .oai (.completeOaiHarvestJob _)
  | .checkpointOaiPage _ | .upstream (.listRecordsBegin _) => False
  | _ => True

section Stages

variable {β : Type} {d : Deployment} {x : Option Stand} {st : Stand} {o : Op}

theorem Quiet.allowed (ho : Quiet o) (x : Option Stand) : Stand.Allowed d x o := by
  unfold Stand.Allowed
  split <;> first | exact trivial | exact ho.elim

theorem Quiet.step (ho : Quiet o) (x : Option Stand) (r : Except Exn o.Res) :
    Stand.step x o r = x := by
  unfold Stand.step
  split <;> first | rfl | exact ho.elim

theorem quiet_of_passing (ho : Worker.Passing o) : Quiet o := by
  unfold Worker.Passing at ho
  split at ho
  case h_7 =>
    unfold Worker.Limiting at ho
    split at ho <;> first | exact trivial | exact ho.elim
  all_goals exact trivial

theorem quiet_of_limiting (ho : Worker.Limiting o) : Quiet o :=
  quiet_of_passing ho.passing

theorem quiet_of_feeding (ho : Worker.Feeding o) : Quiet o := by
  unfold Worker.Feeding at ho
  split at ho <;> first | exact trivial | exact ho.elim

/-- What may be asked for without moving. -/
def Closing (d : Deployment) (st : Stand) (o : Op) : Prop :=
  Stand.Allowed d (some st) o ∧ ∀ r, Stand.step (some st) o r = some st

theorem Quiet.closing (ho : Quiet o) : Closing d st o :=
  ⟨ho.allowed _, ho.step _⟩

theorem wp_quiet {p : Program β} (hp : p.AllOps Quiet) (x : Option Stand) :
    p.wp (stands d) (fun x' _ => x' = x) (fun x' _ => x' = x) x := by
  refine hp.wp ?_ x rfl
  rintro o ho x' rfl
  refine ⟨ho.allowed x', ?_⟩
  rintro r x'' ⟨t, s, s', _, _, rfl⟩
  exact ho.step x' r

theorem wp_closing {p : Program β} (hp : p.AllOps (Closing d st)) :
    p.wp (stands d) (fun x _ => x = some st) (fun x _ => x = some st) (some st) := by
  refine hp.wp ?_ (some st) rfl
  rintro o ho x' rfl
  refine ⟨ho.1, ?_⟩
  rintro r x'' ⟨t, s, s', _, _, rfl⟩
  exact ho.2 r

/-! ## Endings -/

variable {j : Job} {c : Cursor}

/-- The process stands where the cursor `c` of the job `j` does. -/
def Job.at (j : Job) (c : Cursor) (error : Option String) : Stand :=
  { harvestId := j.harvestId
    request := j.effectiveRequest
    cursor := c
    pendingErrorCategory := error
    informed := true }

theorem quiet_utcNow : utcNow.AllOps Quiet :=
  .call trivial

theorem closing_utcNow : utcNow.AllOps (Closing d st) :=
  quiet_utcNow.mono fun _ ho => ho.closing

theorem closing_completeOaiHarvestJob {completion : Int → OaiTables.Completion}
    (hid : ∀ t, (completion t).harvestId = st.harvestId)
    (hstatus : ∀ t, (completion t).status ≠ .running)
    (hcompletes : ∀ t, (completion t).status = .completed → st.Completes (completion t))
    (htoken : ∀ t, (completion t).status ≠ .completed →
      (completion t).resumptionToken = st.cursor.resumptionToken) :
    (completeOaiHarvestJob completion).AllOps (Closing d st) := by
  refine .bind closing_utcNow fun t => .bind (.call ?_) fun _ =>
    .bind (.call (Quiet.closing trivial)) fun r => ?_
  · exact ⟨⟨st, rfl, hid t, hstatus t, hcompletes t, htoken t⟩, fun r => rfl⟩
  · cases r with
    | none => exact .raise _
    | some r => exact .ret r

/-- A job that ends early is not completed. -/
theorem closing_finishAt (hid : st.harvestId = j.harvestId)
    (htoken : st.cursor.resumptionToken = c.resumptionToken) {status : OaiStatus}
    (hrunning : status ≠ .running) (hcompleted : status ≠ .completed) (pagesTotal : Nat)
    (category message : String) :
    (j.finishAt c status pagesTotal category message).AllOps (Closing d st) :=
  closing_completeOaiHarvestJob (fun _ => hid.symm) (fun _ => hrunning)
    (fun _ h => absurd h hcompleted) fun _ _ => htoken.symm

theorem closing_releaseAndFinish (hid : st.harvestId = j.harvestId)
    (htoken : st.cursor.resumptionToken = c.resumptionToken) (category message : String) :
    (j.releaseAndFinish c category message).AllOps (Closing d st) :=
  .bind (.call (Quiet.closing trivial)) fun _ =>
    closing_finishAt hid htoken (by decide) (by decide) _ _ _

/-- The audit row of a page that was not fetched, and the end. -/
theorem closing_recordAndFinish (hdeployment : j.deployment = d) {error : Option String}
    {status : OaiStatus} (hrunning : status ≠ .running) (hcompleted : status ≠ .completed)
    (category pageMessage message : String) :
    (j.recordAndFinish c status category pageMessage message).AllOps
      (Closing d (j.at c error)) := by
  subst hdeployment
  refine .bind (.bind closing_utcNow fun t => .call ?_) fun _ =>
    closing_finishAt rfl rfl hrunning hcompleted _ _ _
  exact ⟨⟨_, rfl, rfl, rfl, rfl, hcompleted⟩, fun r => rfl⟩

theorem closing_ownershipLost : j.ownershipLost.AllOps (Closing d st) := by
  refine .bind (.call (Quiet.closing trivial)) fun current => ?_
  cases current with
  | none => exact .ret _
  | some current =>
      dsimp only
      split
      · exact .ret _
      · exact .ret _

/-- The watermark and the terminal state of a chain that has ended. -/
theorem closing_finishCompleted (hfinished : c.finishedPaging = true) :
    (j.finishCompleted c).AllOps (Closing d (j.at c none)) := by
  have hfinish : ∀ watermark, (j.finish c
      { status := .completed
        pagesTotal := c.pageIndex
        currentWatermark := watermark
        token := none
        errorCategory := none
        errorMessage := none }).AllOps (Closing d (j.at c none)) := fun watermark =>
    closing_completeOaiHarvestJob (fun _ => rfl) (fun _ h => by cases h)
      (fun _ _ => ⟨⟨hfinished, rfl⟩, rfl, rfl, rfl, rfl, rfl⟩) fun _ h => absurd rfl h
  unfold Job.finishCompleted
  cases hunbounded : shouldCommitOaiWatermark j.effectiveRequest with
  | true =>
      refine .bind (.bind closing_utcNow fun t => .call ?_) fun _ => hfinish _
      exact ⟨⟨_, rfl, ⟨hfinished, rfl⟩, hunbounded, rfl, rfl, rfl, rfl⟩, fun r => rfl⟩
  | false => exact hfinish _

theorem closing_finishRefused (hdeployment : j.deployment = d) {error : Option String}
    (decision : RateLimitDecision) :
    (j.finishRefused c decision).AllOps (Closing d (j.at c error)) := by
  refine closing_recordAndFinish hdeployment ?_ ?_ _ _ _
  · split <;> decide
  · split <;> decide

/-! ## One page -/

/-- A round ends the walk, or moves the process to the next page. -/
def Steps (j : Job) (x : Option Stand) (round : Job.Round) : Prop :=
  ∀ moved, round = .next moved → x = some (j.at moved none)

abbrev StepsFrom (d : Deployment) (j : Job) (p : Program Job.Round) (st : Stand) : Prop :=
  p.wp (stands d) (Steps j) (fun _ _ => True) (some st)

/-- A program that ends the walk. -/
theorem steps_done {p : Program OaiHarvestResult} (hp : p.AllOps (Closing d st)) :
    StepsFrom d j (do
      let result ← p
      pure (.done result)) st := by
  refine (Prog.wp_bind _ _ _ _ _).2 (Prog.wp_mono ?_ (fun _ _ _ => trivial) _ _ (wp_closing hp))
  intro x' result _ moved h
  cases h

theorem steps_after {p : Program β} {f : β → Program Job.Round} (hp : p.AllOps Quiet)
    (hf : ∀ b, StepsFrom d j (f b) st) : StepsFrom d j (p >>= f) st := by
  refine (Prog.wp_bind _ _ _ _ _).2 (Prog.wp_mono ?_ (fun _ _ _ => trivial) _ _ (wp_quiet hp _))
  rintro _ b rfl
  exact hf b

theorem quiet_of_limited {p : Program β} (hp : p.AllOps Worker.Limiting) : p.AllOps Quiet :=
  hp.mono fun _ => quiet_of_limiting

/-- The commit moves the process as it moves the cursor. -/
theorem at_commit (page : OaiPmhPage) (t : Int) (counts : Nat × Nat × Nat) :
    (j.at c none).commit (j.checkpointOf c page t) counts =
      j.at (j.advance c page counts) (j.tokenError c page) := by
  cases hhash : j.hashToken c.resumptionToken with
  | none => simp [Stand.commit, Cursor.commit, Job.at, Job.checkpointOf, Job.advance, hhash]
  | some consumed =>
      simp [Stand.commit, Cursor.commit, Job.at, Job.checkpointOf, Job.advance, hhash]

theorem steps_commitPage (hdeployment : j.deployment = d) (hopen : c.finishedPaging = false)
    (page : OaiPmhPage) : StepsFrom d j (j.commitPage c page) (j.at c none) := by
  have hfailed : ∀ (e : Exn) (x : Option Stand) {Q : Option Stand → Nat × Nat × Nat → Prop},
      (if e = Exn.interrupt then (.raise e : Program (Nat × Nat × Nat))
      else do
        Limiter.afterFailure j.ownerToken none ("OAI checkpoint failed: " ++ e.message)
        .raise e).wp (stands d) Q (fun _ _ => True) x := by
    intro e x Q
    by_cases he : e = Exn.interrupt
    · rw [if_pos he]
      trivial
    · rw [if_neg he]
      exact (Prog.wp_bind _ _ _ _ _).2 (Prog.wp_mono (fun _ _ _ => trivial)
        (fun _ _ _ => trivial) _ _
        (wp_quiet (quiet_of_limited (Worker.limiting_afterFailure _ _ _)) _))
  refine (Prog.wp_bind _ _ _ _ _).2 ((Prog.wp_tryExcept _ _ _ _ _).2
    ((Prog.wp_bind _ _ _ _ _).2 (Prog.wp_mono ?_ ?_ _ _ (wp_quiet quiet_utcNow _))))
  · rintro x₁ timestamp rfl
    refine (Prog.wp_call _ _ _ _).2
      ⟨⟨_, rfl, ⟨hopen, rfl, rfl⟩, j, page, timestamp, hdeployment, rfl, rfl⟩, ?_, ?_⟩
    · rintro counts x' ⟨t, s, s', _, _, rfl⟩
      have hmoved : Stand.step (some (j.at c none))
          (.checkpointOaiPage (j.checkpointOf c page timestamp)) (.ok counts) =
            some (j.at (j.advance c page counts) (j.tokenError c page)) :=
        congrArg some (at_commit page timestamp counts)
      rw [hmoved]
      refine steps_after (quiet_of_limited (Worker.limiting_afterSuccess _ _)) fun _ => ?_
      dsimp only
      cases htoken : j.tokenError c page with
      | some error => exact steps_done (closing_finishAt rfl rfl (by decide) (by decide) _ _ _)
      | none =>
          intro moved h
          cases h
          rfl
    · rintro e x' ⟨t, s, s', _, _, rfl⟩
      exact hfailed e none
  · rintro x₁ e rfl
    exact hfailed e _

theorem steps_onFetchError (hdeployment : j.deployment = d) (e : Exn) :
    StepsFrom d j (j.onFetchError c e) (j.at c none) := by
  have hrecorded : ∀ {status : OaiStatus} (category pageMessage message : String),
      status ≠ .running → status ≠ .completed → StepsFrom d j (do
        let result ← j.recordAndFinish c status category pageMessage message
        pure (.done result)) (j.at c none) := fun _ _ _ hrunning hcompleted =>
    steps_done (closing_recordAndFinish hdeployment hrunning hcompleted _ _ _)
  cases e with
  | rateLimitedError retryAfter message statusCode =>
      exact steps_after (quiet_of_limited (Worker.limiting_afterRateLimit _ _ _ _ _))
        fun _ => hrecorded _ _ _ (by decide) (by decide)
  | transientFetchError message statusCode =>
      exact steps_after (quiet_of_limited (Worker.limiting_afterFailure _ _ _))
        fun _ => hrecorded _ _ _ (by decide) (by decide)
  | nonRetryableFetchError message statusCode =>
      exact steps_after (quiet_of_limited (Worker.limiting_afterFailure _ _ _))
        fun _ => hrecorded _ _ _ (by decide) (by decide)
  | _ => trivial

/-- Where there is a token, it is all that is asked with. -/
theorem params_of_token : ∀ token ∈ c.resumptionToken, j.params c = .resumption token := by
  intro token htoken
  rw [Job.params, Option.mem_def.1 htoken]
  rfl

theorem steps_fetchFenced (hdeployment : j.deployment = d) (hopen : c.finishedPaging = false)
    (requestTimeout : Int) : StepsFrom d j (j.fetchFenced c requestTimeout) (j.at c none) := by
  refine steps_after quiet_utcNow fun now => ?_
  split
  · exact steps_done (closing_releaseAndFinish rfl rfl _ _)
  · refine (Prog.wp_handle _ _ _ _ _ _).2 ((Prog.wp_call_handle _ _ _ _ _ _).2
      ⟨⟨_, rfl, ⟨hopen, rfl, rfl⟩, rfl, rfl, params_of_token⟩, ?_, ?_⟩)
    · rintro r x' ⟨t, s, s', _, _, rfl⟩
      have hend : (perform (.upstream .listRecordsEnd)).AllOps Quiet := .call trivial
      refine Prog.wp_mono ?_ ?_ _ _ (wp_quiet hend (some (j.at c none)))
      · rintro x₁ page rfl
        exact steps_commitPage hdeployment hopen page
      · rintro x₁ e rfl
        exact steps_onFetchError hdeployment e
    · rintro e x' ⟨t, s, s', _, _, rfl⟩
      exact steps_onFetchError hdeployment e

theorem steps_fenceAndFetch (hdeployment : j.deployment = d) (hopen : c.finishedPaging = false) :
    StepsFrom d j (j.fenceAndFetch c) (j.at c none) := by
  refine steps_after quiet_utcNow fun now => ?_
  split
  · exact steps_done (closing_releaseAndFinish rfl rfl _ _)
  · refine steps_after (.call trivial) fun renewed => ?_
    split
    · exact steps_after (.call trivial) fun _ => steps_done closing_ownershipLost
    · exact steps_fetchFenced hdeployment hopen _

theorem steps_fetchAdmitted (hdeployment : j.deployment = d) (hopen : c.finishedPaging = false)
    (waitSeconds : Int) : StepsFrom d j (j.fetchAdmitted c waitSeconds) (j.at c none) := by
  have hcount : StepsFrom d j (j.countAndFetch c) (j.at c none) := by
    refine steps_after quiet_utcNow fun now => ?_
    cases j.budgetError c now with
    | some error => exact steps_done (closing_releaseAndFinish rfl rfl _ _)
    | none =>
        refine (Prog.wp_bind _ _ _ _ _).2 ((Prog.wp_bind _ _ _ _ _).2 (Prog.wp_mono ?_
          (fun _ _ _ => trivial) _ _ (wp_quiet quiet_utcNow _)))
        rintro x₁ timestamp rfl
        refine (Prog.wp_call _ _ _ _).2 ⟨trivial, ?_, fun _ _ _ => trivial⟩
        rintro total x' ⟨t, s, s', _, _, rfl⟩
        exact steps_fenceAndFetch (c := { c with requestsTotal := total }) hdeployment hopen
  refine steps_after quiet_utcNow fun now => ?_
  split
  · exact steps_done (closing_releaseAndFinish rfl rfl _ _)
  · split
    · exact steps_after (.bind (.call trivial) fun _ => .call trivial) fun _ => hcount
    · exact hcount

theorem steps_harvestPage (hdeployment : j.deployment = d) (hopen : c.finishedPaging = false) :
    StepsFrom d j (j.harvestPage c) (j.at c none) := by
  refine steps_after (.call trivial) fun renewed => ?_
  split
  · exact steps_done closing_ownershipLost
  · refine steps_after quiet_utcNow fun now => ?_
    split
    · exact steps_done (closing_finishAt rfl rfl (by decide) (by decide) _ _ _)
    · refine steps_after (quiet_of_limited (Worker.limiting_beforeRequest _ _)) fun decision => ?_
      split
      · exact steps_fetchAdmitted hdeployment hopen _
      · exact steps_done (closing_finishRefused hdeployment _)

/-! ## The whole job -/

theorem wp_closing_end {p : Program β} (hp : p.AllOps (Closing d st)) :
    p.wp (stands d) (fun _ _ => True) (fun _ _ => True) (some st) :=
  Prog.wp_mono (fun _ _ _ => trivial) (fun _ _ _ => trivial) _ _ (wp_closing hp)

theorem wp_quiet_end {p : Program β} (hp : p.AllOps Quiet) (x : Option Stand) :
    p.wp (stands d) (fun _ _ => True) (fun _ _ => True) x :=
  Prog.wp_mono (fun _ _ _ => trivial) (fun _ _ _ => trivial) _ _ (wp_quiet hp x)

theorem stands_harvestPages (hdeployment : j.deployment = d) (pagesLeft : Nat) : ∀ c : Cursor,
    (j.harvestPages pagesLeft c).wp (stands d) (fun _ _ => True) (fun _ _ => True)
      (some (j.at c none)) := by
  induction pagesLeft with
  | zero =>
      intro c
      unfold Job.harvestPages
      split
      · rename_i hfinished
        exact wp_closing_end (closing_finishCompleted hfinished)
      · rename_i hopen
        refine (Prog.wp_bind _ _ _ _ _).2 (Prog.wp_mono ?_ (fun _ _ h => h) _ _
          (steps_harvestPage hdeployment (by simpa using hopen)))
        intro x' round _
        cases round <;> trivial
  | succ pagesLeft ih =>
      intro c
      unfold Job.harvestPages
      split
      · rename_i hfinished
        exact wp_closing_end (closing_finishCompleted hfinished)
      · rename_i hopen
        refine (Prog.wp_bind _ _ _ _ _).2 (Prog.wp_mono ?_ (fun _ _ h => h) _ _
          (steps_harvestPage hdeployment (by simpa using hopen)))
        intro x' round hsteps
        cases round with
        | done result => trivial
        | next moved =>
            rw [hsteps moved rfl]
            exact ih moved

/-! ## Starting -/

/-- Where a process stands that is about to read the consumed tokens. -/
def Start.stand (start : Start) : Stand :=
  { harvestId := start.harvestId
    request := start.effectiveRequest
    cursor := start.cursor
    pendingErrorCategory := start.pendingErrorCategory }

theorem stands_walk {start : Start} (hdeployment : j.deployment = d)
    (hid : j.harvestId = start.harvestId) (hrequest : j.effectiveRequest = start.effectiveRequest) :
    (walk j start).wp (stands d) (fun _ _ => True) (fun _ _ => True) (some start.stand) := by
  refine (Prog.wp_bind _ _ _ _ _).2 ((Prog.wp_call _ _ _ _).2
    ⟨⟨_, rfl, rfl⟩, ?_, fun _ _ _ => trivial⟩)
  rintro hashes x' ⟨t, s, s', _, _, rfl⟩
  have hstand : Stand.step (some start.stand)
      (.oai (.getOaiConsumedTokenHashes start.harvestId)) (.ok hashes) =
        some (j.at { start.cursor with consumedTokenHashes := hashes }
          start.pendingErrorCategory) := by
    rw [Job.at, hid, hrequest]
    rfl
  rw [hstand]
  dsimp only
  cases start.pendingErrorCategory with
  | some category => exact wp_closing_end (closing_finishAt rfl rfl (by decide) (by decide) _ _ _)
  | none => exact stands_harvestPages hdeployment _ _

theorem quiet_oaiStartDatestamp (request : OaiHarvestRequest) :
    (oaiStartDatestamp d request).AllOps Quiet := by
  unfold oaiStartDatestamp
  split
  · exact .ret _
  · split
    · exact .ret _
    · refine .bind (.call trivial) fun watermark => ?_
      cases watermark with
      | none => exact .ret _
      | some row => exact .ret _

theorem stands_harvestFrom {start : Start} (name : LeaseName) (owner : OwnerToken)
    (leaseSeconds : Int) :
    (harvestFrom d name owner leaseSeconds start).wp (stands d) (fun _ _ => True)
      (fun _ _ => True) (some start.stand) := by
  unfold harvestFrom
  cases start.cursor.resumptionToken with
  | some token => exact stands_walk rfl rfl rfl
  | none =>
      refine (Prog.wp_bind _ _ _ _ _).2 (Prog.wp_mono ?_ (fun _ _ _ => trivial) _ _
        (wp_quiet (quiet_oaiStartDatestamp start.effectiveRequest) _))
      rintro _ fromDatestamp rfl
      exact stands_walk rfl rfl rfl

theorem stands_startRunning (running : OaiJobRow) :
    (startRunning running).wp (stands d) (fun x start => x = some start.stand) (fun _ _ => True)
      (some (.ofRow running)) := by
  unfold startRunning
  cases running.deadlineAt with
  | some deadlineAt => rfl
  | none =>
      have hensure : ∀ deadlineAt,
          (ensureOaiHarvestDeadline running.harvestId deadlineAt).AllOps Quiet :=
        fun _ => .bind quiet_utcNow fun _ => .call trivial
      refine (Prog.wp_bind _ _ _ _ _).2 (Prog.wp_mono ?_ (fun _ _ _ => trivial) _ _
        (wp_quiet quiet_utcNow _))
      rintro _ now rfl
      refine (Prog.wp_bind _ _ _ _ _).2 (Prog.wp_mono ?_ (fun _ _ _ => trivial) _ _
        (wp_quiet (hensure _) _))
      rintro _ deadlineAt rfl
      rfl

theorem stands_startNew (request : OaiHarvestRequest) (x : Option Stand) :
    (startNew request).wp (stands d) (fun x start => x = some start.stand) (fun _ _ => True)
      x := by
  have hcreate : ∀ token, (createAndStart request token).wp (stands d)
      (fun x start => x = some start.stand) (fun _ _ => True) x := by
    intro token
    refine (Prog.wp_bind _ _ _ _ _).2 ((Prog.wp_bind _ _ _ _ _).2 (Prog.wp_mono ?_
      (fun _ _ _ => trivial) _ _ (wp_quiet quiet_utcNow x)))
    rintro x₁ started rfl
    refine (Prog.wp_call _ _ _ _).2 ⟨trivial, ?_, fun _ _ _ => trivial⟩
    rintro harvestId x' ⟨t, s, s', _, _, rfl⟩
    have hread : (getOaiHarvestResult harvestId).AllOps Quiet := .call trivial
    refine (Prog.wp_bind _ _ _ _ _).2 (Prog.wp_mono ?_ (fun _ _ _ => trivial) _ _
      (wp_quiet hread _))
    rintro x₂ created rfl
    split
    · trivial
    · rfl
  unfold startNew
  cases request.resumptionToken with
  | some token => exact hcreate (some token)
  | none =>
      have hread : (getLatestResumableOaiHarvestToken request).AllOps Quiet := .call trivial
      refine (Prog.wp_bind _ _ _ _ _).2 (Prog.wp_mono ?_ (fun _ _ _ => trivial) _ _
        (wp_quiet hread x))
      rintro _ token rfl
      exact hcreate token

theorem stands_harvestOaiOwned (request : OaiHarvestRequest) (name : LeaseName)
    (owner : OwnerToken) (leaseSeconds : Int) (x : Option Stand) :
    (harvestOaiOwned d request name owner leaseSeconds).wp (stands d) (fun _ _ => True)
      (fun _ _ => True) x := by
  refine (Prog.wp_bind _ _ _ _ _).2 ((Prog.wp_call _ _ _ _).2 ⟨trivial, ?_, fun _ _ _ => trivial⟩)
  rintro running x' ⟨t, s, s', _, _, rfl⟩
  cases running with
  | none =>
      refine (Prog.wp_bind _ _ _ _ _).2 (Prog.wp_mono ?_ (fun _ _ _ => trivial) _ _
        (stands_startNew request _))
      rintro x₁ start rfl
      exact stands_harvestFrom _ _ _
  | some running =>
      refine (Prog.wp_bind _ _ _ _ _).2 (Prog.wp_mono ?_ (fun _ _ _ => trivial) _ _
        (stands_startRunning running))
      rintro x₁ start rfl
      exact stands_harvestFrom _ _ _

end Stages

/-- A whole harvest, from the start of its process. -/
theorem stands_harvestOai (d : Deployment) (request : OaiHarvestRequest) :
    (harvestOai d request).Keeps (stands d) none := by
  refine (Prog.wp_bind _ _ _ _ _).2 (Prog.wp_mono ?_ (fun _ _ _ => trivial) _ _
    (wp_quiet (p := uuid4) (.call trivial) none))
  rintro x₁ uuid rfl
  refine (Prog.wp_bind _ _ _ _ _).2 (Prog.wp_mono ?_ (fun _ _ _ => trivial) _ _
    (wp_quiet (p := acquireLease (oaiScopeLeaseName request) (.oaiHarvest uuid)
      (scopeLeaseSeconds d)) (.call trivial) _))
  rintro x₂ acquired rfl
  cases acquired with
  | false =>
      -- Another process holds the scope: the job is read, and nothing follows.
      refine (Prog.wp_bind _ _ _ _ _).2 ((Prog.wp_call _ _ _ _).2
        ⟨trivial, ?_, fun _ _ _ => trivial⟩)
      rintro running x₃ ⟨t₃, s₃, s₃', _, _, rfl⟩
      cases running with
      | none => trivial
      | some running =>
          have hread : (getOaiHarvestResult running.harvestId).AllOps Quiet := .call trivial
          refine (Prog.wp_bind _ _ _ _ _).2 (Prog.wp_mono ?_ (fun _ _ _ => trivial) _ _
            (wp_quiet hread _))
          rintro _ active rfl
          cases active <;> trivial
  | true =>
      have hrelease : (releaseLease (oaiScopeLeaseName request) (.oaiHarvest uuid)).AllOps Quiet :=
        .call trivial
      exact (Prog.wp_tryFinally _ _ _ _ _).2 (Prog.wp_mono (fun x _ _ => wp_quiet_end hrelease x)
        (fun x _ _ => wp_quiet_end hrelease x) _ _ (stands_harvestOaiOwned request _ _ _ _))

/-! ## Every run -/

/-- Every client keeps to the discipline from the start of its process. -/
theorem stands_program (d : Deployment) (c : Client) (pid : Nat) :
    (c.program d pid).Keeps (stands d) none := by
  have hfeeding := Worker.feeding_program d c pid
  have hquiet : ∀ {β : Type} {p : Program β}, p.AllOps Quiet → p.Keeps (stands d) none :=
    fun hp => Prog.keeps_of_wp (wp_quiet hp none)
  have hfed : ∀ {β : Type} {p : Program β}, p.AllOps Worker.Feeding → p.Keeps (stands d) none :=
    fun hp => hquiet (hp.mono fun _ => quiet_of_feeding)
  cases c with
  | runOnce targets =>
      have hpass := (Worker.passing_runOnce (w := ⟨d, .worker pid⟩) targets).mono
        fun _ => quiet_of_passing
      exact hquiet (.bind hpass fun _ => .ret _)
  | harvestOai request =>
      exact (Prog.wp_bind _ _ _ _ _).2 (Prog.wp_mono (fun _ _ _ => trivial)
        (fun _ _ _ => trivial) _ _ (stands_harvestOai d request))
  | enqueueRequestForWork request cacheKey workKind budgetId => exact hfed hfeeding
  | enqueueRefreshIfDue request cacheKey => exact hfed hfeeding
  | createUpstreamRequestBudget maxRequests deadlineAt => exact hfed hfeeding
  | failActiveUpstreamBudgetItems budgetId category message => exact hfed hfeeding

open Process.System (Config Throughout Disciplined History Event)

section Seen

variable {d : Deployment}

/-- Where the process `p` stands. -/
abbrev standOf (p : Nat) (h : History (fleet d)) : Option Stand :=
  (standMonitor : Monitor (fleet d) (Option Stand)).view p h

variable (pre : History (fleet d)) {e : Event (fleet d)}

theorem standOf_of_ne {p : Nat} (hne : e.pid ≠ p) : standOf p (e :: pre) = standOf p pre :=
  standMonitor.view_of_ne pre hne

theorem standOf_of_op {o : Op} {r : Except Exn o.Res} (ha : e.action = .op o r) :
    standOf e.pid (e :: pre) = Stand.step (standOf e.pid pre) o r :=
  standMonitor.view_of_op pre ha

theorem standOf_of_start {c : Client} (ha : e.action = .start c) :
    standOf e.pid (e :: pre) = none :=
  standMonitor.view_of_start pre ha

theorem standOf_of_crash (ha : e.action = .crash) : standOf e.pid (e :: pre) = none :=
  standMonitor.view_of_crash pre ha

end Seen

/-- In every run of the fleet, every operation was allowed to the process where it stood. -/
theorem stands_after (d : Deployment) (sched : List (Config.Choice (fleet d))) :
    Throughout (Disciplined (stands d) (standMonitor : Monitor (fleet d) (Option Stand)).view)
      (Config.after (fleet d) sched).history := by
  have hkept : (standMonitor : Monitor (fleet d) (Option Stand)).Kept fun _ _ => True :=
    { initial := fun _ => trivial
      start := fun _ _ _ _ _ => trivial
      step := fun _ _ _ _ _ _ => trivial
      crash := fun _ _ _ => trivial }
  exact (standMonitor : Monitor (fleet d) (Option Stand)).disciplined_after hkept
    (fun pid _ c _ _ _ => stands_program d c pid) sched

end Harvest
end Huldra
