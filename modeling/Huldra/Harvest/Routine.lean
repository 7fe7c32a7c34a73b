import Huldra.Harvest
import Huldra.Worker.Routine

/-!
# Routine of a harvest — what a harvest asks for, whatever it is answered

A harvest works with the clock, the leases, the rate state, its own tables and its server; it never
touches the queue.  One lemma for each stage says so.
-/

namespace Huldra
namespace Harvest

open Process (Prog)

/-- What a harvest asks for. -/
def Harvesting : Op → Prop
  | .clock _ | .lease _ | .rate _ | .oai _ | .checkpointOaiPage _
  | .upstream (.listRecordsBegin _) | .upstream .listRecordsEnd => True
  | _ => False

/-- What a harvest asks for to create its job. -/
def Starting : Op → Prop
  | .clock _ | .oai (.getLatestResumableOaiHarvestToken _) | .oai (.createOaiHarvestJob ..)
  | .oai (.getOaiHarvestResult _) => True
  | _ => False

/-- What a harvest asks for of a running job, to take it up or to report it. -/
def Resuming : Op → Prop
  | .clock _ | .oai (.ensureOaiHarvestDeadline ..) | .oai (.getRunningOaiHarvest _)
  | .oai (.getOaiHarvestResult _) => True
  | _ => False

/-- What a harvest asks for that has its job. -/
def Underway : Op → Prop
  | .oai (.getLatestResumableOaiHarvestToken _) | .oai (.createOaiHarvestJob ..) => False
  | .clock _ | .lease _ | .rate _ | .oai _ | .checkpointOaiPage _
  | .upstream (.listRecordsBegin _) | .upstream .listRecordsEnd => True
  | _ => False

/-- What a harvest asks for on its way from page to page. -/
def Onwards (j : Job) : Op → Prop
  | .oai (.getLatestResumableOaiHarvestToken _) | .oai (.createOaiHarvestJob ..)
  | .oai (.getOaiWatermark _) => False
  | .upstream (.listRecordsBegin call) => ∃ c, call.params = j.params c
  | .clock _ | .lease _ | .rate _ | .oai _ | .checkpointOaiPage _
  | .upstream .listRecordsEnd => True
  | _ => False

section Stages

variable {j : Job} {c : Cursor} {d : Deployment}

theorem Onwards.underway {o : Op} (ho : Onwards j o) : Underway o := by
  cases o with
  | oai o => cases o <;> first | exact ho.elim | exact trivial
  | upstream o => cases o <;> first | exact ho.elim | exact trivial
  | _ => first | exact ho.elim | exact trivial

theorem Underway.harvesting {o : Op} (ho : Underway o) : Harvesting o := by
  unfold Underway at ho
  split at ho <;> first | exact trivial | exact ho.elim

theorem Starting.harvesting {o : Op} (ho : Starting o) : Harvesting o := by
  unfold Starting at ho
  split at ho <;> first | exact trivial | exact ho.elim

theorem Resuming.underway {o : Op} (ho : Resuming o) : Underway o := by
  unfold Resuming at ho
  split at ho <;> first | exact trivial | exact ho.elim

theorem onwards_of_beside {o : Op} (ho : Worker.Beside o) : Onwards j o := by
  unfold Worker.Beside at ho
  split at ho <;> first | exact trivial | exact ho.elim

theorem onwards_utcNow : utcNow.AllOps (Onwards j) :=
  .call trivial

theorem onwards_releaseLease (name : LeaseName) (owner : OwnerToken) :
    (releaseLease name owner).AllOps (Onwards j) :=
  .call trivial

theorem onwards_completeOaiHarvestJob (completion : Int → OaiTables.Completion) :
    (completeOaiHarvestJob completion).AllOps (Onwards j) := by
  refine .bind onwards_utcNow fun _ => .bind (.call trivial) fun _ =>
    .bind (.call trivial) fun r => ?_
  cases r with
  | none => exact .raise _
  | some r => exact .ret r

/-- A program, and its result wrapped up. -/
theorem onwards_done {β γ : Type} {p : Program β} {f : β → γ} (hp : p.AllOps (Onwards j)) :
    (do
      let r ← p
      pure (f r)).AllOps (Onwards j) :=
  .bind hp fun _ => .ret _

theorem onwards_ownershipLost : j.ownershipLost.AllOps (Onwards j) := by
  refine .bind (.call trivial) fun current => ?_
  cases current with
  | none => exact .ret _
  | some current =>
      simp only
      split
      · exact .ret _
      · exact .ret _

theorem onwards_recordAndFinish (status : OaiStatus) (category pageMessage message : String) :
    (j.recordAndFinish c status category pageMessage message).AllOps (Onwards j) :=
  .bind (.bind onwards_utcNow fun _ => .call trivial) fun _ =>
    onwards_completeOaiHarvestJob _

theorem onwards_releaseAndFinish (category message : String) :
    (j.releaseAndFinish c category message).AllOps (Onwards j) :=
  .bind (onwards_releaseLease _ _) fun _ => onwards_completeOaiHarvestJob _

theorem onwards_onFetchError (e : Exn) : (j.onFetchError c e).AllOps (Onwards j) := by
  have hbeside : ∀ {β : Type} {p : Program β}, p.AllOps Worker.Beside → p.AllOps (Onwards j) :=
    fun hp => hp.mono fun _ => onwards_of_beside
  cases e with
  | rateLimitedError retryAfter message statusCode =>
      exact .bind (hbeside (Worker.beside_afterRateLimit _ _ _ _ _)) fun _ =>
        onwards_done (onwards_recordAndFinish _ _ _ _)
  | transientFetchError message statusCode =>
      exact .bind (hbeside (Worker.beside_afterFailure _ _ _)) fun _ =>
        onwards_done (onwards_recordAndFinish _ _ _ _)
  | nonRetryableFetchError message statusCode =>
      exact .bind (hbeside (Worker.beside_afterFailure _ _ _)) fun _ =>
        onwards_done (onwards_recordAndFinish _ _ _ _)
  | _ => exact .raise _

theorem onwards_commitPage (page : OaiPmhPage) : (j.commitPage c page).AllOps (Onwards j) := by
  have hbeside : ∀ {β : Type} {p : Program β}, p.AllOps Worker.Beside → p.AllOps (Onwards j) :=
    fun hp => hp.mono fun _ => onwards_of_beside
  refine .bind (.tryExcept (.bind onwards_utcNow fun _ => .call trivial) fun e => ?_)
    fun counts => .bind (hbeside (Worker.beside_afterSuccess _ _)) fun _ => ?_
  · dsimp only
    split
    · exact .raise _
    · exact .bind (hbeside (Worker.beside_afterFailure _ _ _)) fun _ => .raise _
  · dsimp only
    split
    · exact onwards_done (onwards_completeOaiHarvestJob _)
    · exact .ret _

theorem onwards_fetchFenced (requestTimeout : Int) :
    (j.fetchFenced c requestTimeout).AllOps (Onwards j) := by
  refine .bind onwards_utcNow fun now => ?_
  split
  · exact onwards_done (onwards_releaseAndFinish _ _)
  · exact .handle (.bind (.call ⟨c, rfl⟩) fun _ => .call trivial) onwards_commitPage
      onwards_onFetchError

theorem onwards_fenceAndFetch : (j.fenceAndFetch c).AllOps (Onwards j) := by
  refine .bind onwards_utcNow fun now => ?_
  split
  · exact onwards_done (onwards_releaseAndFinish _ _)
  · refine .bind (.call trivial) fun renewed => ?_
    split
    · exact .bind (onwards_releaseLease _ _) fun _ => onwards_done onwards_ownershipLost
    · exact onwards_fetchFenced _

theorem onwards_fetchAdmitted (waitSeconds : Int) :
    (j.fetchAdmitted c waitSeconds).AllOps (Onwards j) := by
  have hrest : (j.countAndFetch c).AllOps (Onwards j) := by
    refine .bind onwards_utcNow fun now => ?_
    cases j.budgetError c now with
    | some error => exact onwards_done (onwards_releaseAndFinish _ _)
    | none =>
        exact .bind (.bind onwards_utcNow fun _ => .call trivial) fun _ =>
          onwards_fenceAndFetch
  refine .bind onwards_utcNow fun now => ?_
  split
  · exact onwards_done (onwards_releaseAndFinish _ _)
  · split
    · exact .bind (.bind (.call trivial) fun _ => .call trivial) fun _ => hrest
    · exact hrest

theorem onwards_harvestPage : (j.harvestPage c).AllOps (Onwards j) := by
  refine .bind (.call trivial) fun renewed => ?_
  split
  · exact onwards_done onwards_ownershipLost
  · refine .bind onwards_utcNow fun now => ?_
    split
    · exact onwards_done (onwards_completeOaiHarvestJob _)
    · refine .bind ((Worker.beside_beforeRequest _ _).mono fun _ => onwards_of_beside)
        fun decision => ?_
      split
      · exact onwards_fetchAdmitted _
      · exact onwards_done (onwards_recordAndFinish _ _ _ _)

theorem onwards_finishCompleted : (j.finishCompleted c).AllOps (Onwards j) := by
  unfold Job.finishCompleted
  cases shouldCommitOaiWatermark j.effectiveRequest with
  | true =>
      exact .bind (.bind onwards_utcNow fun _ => .call trivial) fun _ =>
        onwards_completeOaiHarvestJob _
  | false => exact onwards_completeOaiHarvestJob _

theorem onwards_harvestPages (pagesLeft : Nat) :
    ∀ c : Cursor, (j.harvestPages pagesLeft c).AllOps (Onwards j) := by
  induction pagesLeft with
  | zero =>
      intro c
      unfold Job.harvestPages
      split
      · exact onwards_finishCompleted
      · refine .bind onwards_harvestPage fun round => ?_
        cases round with
        | done result => exact .ret _
        | next moved => exact .raise _
  | succ pagesLeft ih =>
      intro c
      unfold Job.harvestPages
      split
      · exact onwards_finishCompleted
      · refine .bind onwards_harvestPage fun round => ?_
        cases round with
        | done result => exact .ret _
        | next moved => exact ih moved

theorem underway_oaiStartDatestamp (request : OaiHarvestRequest) :
    (oaiStartDatestamp d request).AllOps Underway := by
  unfold oaiStartDatestamp
  split
  · exact .ret _
  · split
    · exact .ret _
    · refine .bind (.call trivial) fun watermark => ?_
      cases watermark with
      | none => exact .ret _
      | some row => exact .ret _

theorem starting_startNew (request : OaiHarvestRequest) :
    (startNew request).AllOps Starting := by
  have hrest : ∀ token, (createAndStart request token).AllOps Starting := by
    intro token
    refine .bind (.bind (.call trivial) fun _ => .call trivial) fun harvestId =>
      .bind (.call trivial) fun created => ?_
    split
    · exact .raise _
    · exact .ret _
  unfold startNew
  cases request.resumptionToken with
  | some token => exact .bind (.ret _) hrest
  | none => exact .bind (.call trivial) hrest

theorem resuming_startRunning (running : OaiJobRow) :
    (startRunning running).AllOps Resuming := by
  unfold startRunning
  cases running.deadlineAt with
  | some deadlineAt => exact .bind (.ret _) fun _ => .ret _
  | none =>
      exact .bind (.call trivial) fun _ =>
        .bind (.bind (.call trivial) fun _ => .call trivial) fun _ => .ret _

theorem onwards_walk (start : Start) : (walk j start).AllOps (Onwards j) := by
  refine .bind (.call trivial) fun consumed => ?_
  simp only
  split
  · exact onwards_completeOaiHarvestJob _
  · exact onwards_harvestPages _ _

theorem underway_harvestFrom (name : LeaseName) (owner : OwnerToken) (leaseSeconds : Int)
    (start : Start) : (harvestFrom d name owner leaseSeconds start).AllOps Underway := by
  have hwalk : ∀ job, (walk job start).AllOps Underway :=
    fun job => (onwards_walk start).mono fun _ => Onwards.underway
  unfold harvestFrom
  cases start.cursor.resumptionToken with
  | some token => exact .bind (.ret _) fun _ => hwalk _
  | none => exact .bind (underway_oaiStartDatestamp _) fun _ => hwalk _

theorem harvesting_harvestOaiOwned (request : OaiHarvestRequest) (name : LeaseName)
    (owner : OwnerToken) (leaseSeconds : Int) :
    (harvestOaiOwned d request name owner leaseSeconds).AllOps Harvesting := by
  have hfrom : ∀ start, (harvestFrom d name owner leaseSeconds start).AllOps Harvesting :=
    fun start => (underway_harvestFrom _ _ _ start).mono fun _ => Underway.harvesting
  refine .bind (.call trivial) fun running => ?_
  cases running with
  | none => exact .bind ((starting_startNew request).mono fun _ => Starting.harvesting) hfrom
  | some running =>
      exact .bind ((resuming_startRunning running).mono fun _ ho => ho.underway.harvesting) hfrom

theorem resuming_harvestInProgress (request : OaiHarvestRequest) :
    (harvestInProgress request).AllOps Resuming := by
  refine .bind (.call trivial) fun running => ?_
  cases running with
  | none => exact .ret _
  | some running =>
      refine .bind (.call trivial) fun active => ?_
      cases active with
      | none => exact .ret _
      | some active => exact .ret _

/-- A whole harvest. -/
theorem harvesting_harvestOai (request : OaiHarvestRequest) :
    (harvestOai d request).AllOps Harvesting := by
  refine .bind (.call trivial) fun scopeUuid => .bind (.call trivial) fun acquired => ?_
  split
  · exact (resuming_harvestInProgress request).mono fun _ ho => ho.underway.harvesting
  · exact .tryFinally (harvesting_harvestOaiOwned _ _ _ _) (.call trivial)

end Stages

end Harvest
end Huldra
