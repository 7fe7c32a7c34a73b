import Huldra.Process.View
import Huldra.Worker.Routine
import Huldra.Clients

/-!
# Walk — a harvest process and the job it works on

A harvest process holds the lease of its scope under a token of its own and walks one job.
`WalkView` remembers which job that is, where its cursor stands, and how far the request for the
next page has come; `Allowed` says what the process may ask for there: it counts a request within
the request budget, calls the server for a request that was counted and fenced, and commits a page
within the page budget.
-/

namespace Huldra
namespace Harvest

open Process (Prog Discipline)
open Process.System (Monitor)

/-- How far the request for the next page has come. -/
inductive Progress where
  | between
  /-- The request is counted. -/
  | counted
  /-- Both leases were fenced after that. -/
  | fenced
  /-- The call has begun. -/
  | asked
  deriving DecidableEq

/-- A job, and the cursor a process has on it. -/
structure Walk where
  harvestId : Uuid
  request : OaiHarvestRequest
  token : Option ResumptionToken
  pageIndex : Nat
  requestsTotal : Nat
  progress : Progress

namespace Walk

/-- The walk that goes on where the row of its job stands. -/
def ofRow (row : OaiJobRow) : Walk :=
  { harvestId := row.harvestId
    request := row.request
    token := row.resumptionToken
    pageIndex := row.pagesTotal
    requestsTotal := row.requestsTotal
    progress := .between }

/-- After a renewal of leases that was granted. -/
def fence (w : Walk) : Walk :=
  { w with progress := if w.progress = .counted then .fenced else w.progress }

@[simp] theorem fence_harvestId (w : Walk) : w.fence.harvestId = w.harvestId := rfl

@[simp] theorem fence_request (w : Walk) : w.fence.request = w.request := rfl

theorem fence_of_ne {w : Walk} (h : w.progress ≠ .counted) : w.fence = w := by
  simp [fence, h]

end Walk

structure WalkView where
  /-- What the scope owner's token is made from. -/
  uuid : Option Uuid := none
  /-- The scope lease the process has acquired. -/
  scope : Option LeaseName := none
  walk : Option Walk := none

namespace WalkView

def step (x : WalkView) (o : Op) (r : Except Exn o.Res) : WalkView :=
  match o, r with
  | .clock .uuid4, .ok uuid => { x with uuid := some uuid }
  | .lease (.acquireLease name _ _), .ok true =>
      if name = Limiter.leaseName then x else { x with scope := some name }
  | .lease (.renewLeasesIfOwned _), .ok true => { x with walk := x.walk.map Walk.fence }
  | .oai (.getRunningOaiHarvest _), .ok (some row) =>
      if x.scope.isSome then { x with walk := some (.ofRow row) } else x
  | .oai (.createOaiHarvestJob request token _), .ok harvestId =>
      { x with
        walk := some
          { harvestId := harvestId
            request := request
            token := token
            pageIndex := 0
            requestsTotal := 0
            progress := .between } }
  | .oai (.recordOaiRequestStarted _ _), .ok total =>
      { x with walk := x.walk.map fun w => { w with requestsTotal := total, progress := .counted } }
  | .upstream (.listRecordsBegin _), _ =>
      { x with walk := x.walk.map fun w => { w with progress := .asked } }
  | .checkpointOaiPage c, .ok _ =>
      { x with
        walk := x.walk.map fun w =>
          { w with
            token := c.nextResumptionToken
            pageIndex := w.pageIndex + 1
            progress := .between } }
  | _, _ => x

/-- The lease of the scope is named in the renewals, under the token of the process. -/
def FencesScope (x : WalkView) (renewals : List LeaseRenewal) : Prop :=
  ∃ renewal ∈ renewals, x.scope = some renewal.name ∧
    ∃ uuid, x.uuid = some uuid ∧ renewal.ownerToken = .oaiHarvest uuid

/-- What a process may ask for. -/
def Allowed (x : WalkView) : Op → Prop
  | .clock .uuid4 => x.uuid = none
  | .lease (.acquireLease name owner _) =>
      name = Limiter.leaseName ∨
        (x.scope = none ∧ ∃ uuid, x.uuid = some uuid ∧ owner = .oaiHarvest uuid)
  | .lease (.renewLeasesIfOwned renewals) =>
      ∀ w, x.walk = some w → w.progress = .counted → x.FencesScope renewals
  | .oai (.getRunningOaiHarvest request) =>
      ∀ name, x.scope = some name → name = oaiScopeLeaseName request
  | .oai (.createOaiHarvestJob request _ _) => x.scope = some (oaiScopeLeaseName request)
  | .oai (.recordOaiRequestStarted harvestId _) =>
      ∃ w, x.walk = some w ∧ w.harvestId = harvestId ∧ w.progress = .between ∧
        w.requestsTotal < w.request.maxRequests
  | .oai (.completeOaiHarvestJob c) => c.status ≠ .running
  | .upstream (.listRecordsBegin call) =>
      ∃ w, x.walk = some w ∧ w.harvestId = call.harvestId ∧ w.progress = .fenced
  | .checkpointOaiPage c =>
      ∃ w, x.walk = some w ∧ w.harvestId = c.harvestId ∧ w.progress = .asked ∧
        w.pageIndex = c.pageIndex ∧ w.pageIndex < w.request.maxPages
  | _ => True

end WalkView

/-- Follow a process along its harvests. -/
def walkMonitor {Client Out : Type} {program : Client → Nat → Process.Prog huldra Out} :
    Monitor (storeSystem Client Out program) WalkView where
  initial _ := {}
  start _ _ _ := {}
  step x o r _ := x.step o r
  crash _ := {}
  clock _ := 0
  clock_initial _ := Process.System.no_time
  clock_start _ _ _ h := h
  clock_step _ _ _ _ h := h
  clock_crash _ := Int.le_refl 0

/-- The discipline of a harvest: what it may ask for, and how its view moves. -/
def walks : Discipline huldra WalkView where
  allow := WalkView.Allowed
  next x o r x' := ∃ t s s', (0 : Int) ≤ t ∧ Store.Performed o t r s s' ∧ x' = x.step o r

/-! ## Operations the view does not look at -/

/-- The operation neither renews a lease nor moves the view. -/
def Still : Op → Prop
  | .clock .uuid4 | .lease (.renewLeasesIfOwned _) | .oai (.getRunningOaiHarvest _)
  | .oai (.createOaiHarvestJob ..) | .oai (.recordOaiRequestStarted ..)
  | .upstream (.listRecordsBegin _) | .checkpointOaiPage _ => False
  | .lease (.acquireLease name _ _) => name = Limiter.leaseName
  | .oai (.completeOaiHarvestJob c) => c.status ≠ .running
  | _ => True

theorem Still.allowed {o : Op} (ho : Still o) (x : WalkView) : x.Allowed o := by
  unfold WalkView.Allowed
  split <;> first | exact trivial | exact ho | exact Or.inl ho | exact ho.elim

theorem Still.step {o : Op} (ho : Still o) (x : WalkView) (r : Except Exn o.Res) :
    x.step o r = x := by
  unfold WalkView.step
  split <;> first | rfl | exact ho.elim | exact if_pos ho

/-- The other operations, one by one. -/
inductive Moving : Op → Prop
  | drawn : Moving (.clock .uuid4)
  | acquired (name : LeaseName) (owner : OwnerToken) (timeout : Int)
      (ne : name ≠ Limiter.leaseName) : Moving (.lease (.acquireLease name owner timeout))
  | renewed (renewals : List LeaseRenewal) : Moving (.lease (.renewLeasesIfOwned renewals))
  | found (request : OaiHarvestRequest) : Moving (.oai (.getRunningOaiHarvest request))
  | created (request : OaiHarvestRequest) (token : Option ResumptionToken) (started : Int) :
      Moving (.oai (.createOaiHarvestJob request token started))
  | counted (harvestId : Uuid) (timestamp : Int) :
      Moving (.oai (.recordOaiRequestStarted harvestId timestamp))
  | called (call : ListRecordsCall) : Moving (.upstream (.listRecordsBegin call))
  | committed (c : OaiTables.Checkpoint) : Moving (.checkpointOaiPage c)
  | reopened (c : OaiTables.Completion) (running : c.status = .running) :
      Moving (.oai (.completeOaiHarvestJob c))

theorem still_or_moving (o : Op) : Still o ∨ Moving o := by
  by_cases ho : Still o
  · exact Or.inl ho
  · right
    unfold Still at ho
    split at ho
    · exact .drawn
    · exact .renewed _
    · exact .found _
    · exact .created _ _ _
    · exact .counted _ _
    · exact .called _
    · exact .committed _
    · exact .acquired _ _ _ ho
    · exact .reopened _ (not_not.1 ho)
    · exact absurd trivial ho

theorem step_acquired (x : WalkView) {name : LeaseName} (hne : name ≠ Limiter.leaseName)
    {owner : OwnerToken} {timeout : Int} :
    x.step (.lease (.acquireLease name owner timeout)) (.ok true) = { x with scope := some name } :=
  if_neg hne

theorem step_found {x : WalkView} (hscope : x.scope.isSome = true) {request : OaiHarvestRequest}
    {row : OaiJobRow} :
    x.step (.oai (.getRunningOaiHarvest request)) (.ok (some row)) =
      { x with walk := some (.ofRow row) } :=
  if_pos hscope

/-- The same, or a renewal. -/
def Calm (o : Op) : Prop :=
  Still o ∨ ∃ renewals, o = .lease (.renewLeasesIfOwned renewals)

/-- No request of the process is counted and not yet fenced. -/
def Uncounted (x : WalkView) : Prop :=
  ∀ w, x.walk = some w → w.progress ≠ .counted

theorem calm_of_limiting {o : Op} (ho : Worker.Limiting o) : Calm o := by
  unfold Worker.Limiting at ho
  split at ho
  case h_8 => exact Or.inr ⟨_, rfl⟩
  all_goals first | exact Or.inl trivial | exact Or.inl ho | exact ho.elim

theorem calm_of_passing {o : Op} (ho : Worker.Passing o) : Calm o := by
  unfold Worker.Passing at ho
  split at ho <;> first | exact Or.inl trivial | exact calm_of_limiting ho

section Stages

variable {β γ : Type} {x : WalkView}

theorem wp_still {p : Program β} (hp : p.AllOps Still) (x : WalkView) :
    p.wp walks (fun x' _ => x' = x) (fun x' _ => x' = x) x := by
  refine hp.wp ?_ x rfl
  rintro o ho x' rfl
  refine ⟨ho.allowed x', ?_⟩
  rintro r x'' ⟨t, s, s', _, _, rfl⟩
  exact ho.step x' r

theorem step_renew {x : WalkView} (hx : Uncounted x) (renewals : List LeaseRenewal)
    (r : Except Exn Bool) : x.step (.lease (.renewLeasesIfOwned renewals)) r = x := by
  have hwalk : x.walk.map Walk.fence = x.walk := by
    cases hw : x.walk with
    | none => rfl
    | some w => simp [Walk.fence_of_ne (hx w hw)]
  cases r with
  | error e => rfl
  | ok granted =>
      cases granted with
      | false => rfl
      | true => simp [WalkView.step, hwalk]

theorem wp_calm {p : Program β} (hp : p.AllOps Calm) (hx : Uncounted x) :
    p.wp walks (fun x' _ => x' = x) (fun x' _ => x' = x) x := by
  refine hp.wp ?_ x rfl
  rintro o ho x' rfl
  rcases ho with hstill | ⟨renewals, rfl⟩
  · refine ⟨hstill.allowed x', ?_⟩
    rintro r x'' ⟨t, s, s', _, _, rfl⟩
    exact hstill.step x' r
  · refine ⟨fun w hw hcounted => absurd hcounted (hx w hw), ?_⟩
    rintro r x'' ⟨t, s, s', _, _, rfl⟩
    exact step_renew hx renewals r

/-! ## Endings -/

theorem still_utcNow : utcNow.AllOps Still :=
  .call trivial

theorem still_completeOaiHarvestJob {completion : Int → OaiTables.Completion}
    (hstatus : ∀ t, (completion t).status ≠ .running) :
    (completeOaiHarvestJob completion).AllOps Still := by
  refine .bind still_utcNow fun t => .bind (.call (hstatus t)) fun _ =>
    .bind (.call trivial) fun r => ?_
  cases r with
  | none => exact .raise _
  | some r => exact .ret r

variable {j : Job} {c : Cursor} {d : Deployment} {progress : Progress}

theorem still_finishAt {status : OaiStatus} (hstatus : status ≠ .running) (pagesTotal : Nat)
    (category message : String) : (j.finishAt c status pagesTotal category message).AllOps Still :=
  still_completeOaiHarvestJob fun _ => hstatus

theorem still_releaseAndFinish (category message : String) :
    (j.releaseAndFinish c category message).AllOps Still :=
  .bind (.call trivial) fun _ => still_finishAt (by decide) _ _ _

theorem still_recordAndFinish {status : OaiStatus} (hstatus : status ≠ .running)
    (category pageMessage message : String) :
    (j.recordAndFinish c status category pageMessage message).AllOps Still :=
  .bind (.bind still_utcNow fun _ => .call trivial) fun _ => still_finishAt hstatus _ _ _

theorem still_ownershipLost : j.ownershipLost.AllOps Still := by
  refine .bind (.call trivial) fun current => ?_
  cases current with
  | none => exact .ret _
  | some current =>
      dsimp only
      split
      · exact .ret _
      · exact .ret _

theorem still_finishCompleted : (j.finishCompleted c).AllOps Still := by
  have hfinish : ∀ e : Job.Ending, e.status = .completed → (j.finish c e).AllOps Still := by
    intro e he
    refine still_completeOaiHarvestJob fun t => ?_
    simp [he]
  unfold Job.finishCompleted
  cases shouldCommitOaiWatermark j.effectiveRequest with
  | true => exact .bind (.bind still_utcNow fun _ => .call trivial) fun _ => hfinish _ rfl
  | false => exact hfinish _ rfl

theorem still_finishRefused (decision : RateLimitDecision) :
    (j.finishRefused c decision).AllOps Still := by
  refine still_recordAndFinish ?_ _ _ _
  split <;> decide

/-! ## One page -/

/-- The process walks the job `j` with the cursor `c`. -/
structure Walking (j : Job) (c : Cursor) (progress : Progress) (x : WalkView) : Prop where
  owner : ∃ uuid, x.uuid = some uuid ∧ j.scopeOwner = .oaiHarvest uuid
  scope : x.scope = some j.scopeLeaseName
  walk : x.walk = some
    { harvestId := j.harvestId
      request := j.effectiveRequest
      token := c.resumptionToken
      pageIndex := c.pageIndex
      requestsTotal := c.requestsTotal
      progress := progress }

theorem Walking.uncounted (hx : Walking j c progress x) (h : progress ≠ .counted) :
    Uncounted x := by
  intro w hw
  rw [hx.walk] at hw
  cases hw
  exact h

/-- A round ends the walk, or moves its cursor to the next page. -/
def Moves (j : Job) (x : WalkView) (round : Job.Round) : Prop :=
  ∀ moved, round = .next moved → Walking j moved .between x

/-- The wp of a round. -/
abbrev RoundFrom (j : Job) (p : Program Job.Round) (x : WalkView) : Prop :=
  p.wp walks (Moves j) (fun _ _ => True) x

/-- A program that ends the walk. -/
theorem round_done {p : Program OaiHarvestResult} (hp : p.AllOps Still) (x : WalkView) :
    RoundFrom j (do
      let result ← p
      pure (.done result)) x := by
  refine (Prog.wp_bind _ _ _ _ _).2 (Prog.wp_mono ?_ (fun _ _ _ => trivial) _ _ (wp_still hp x))
  intro x' result _ moved h
  cases h

/-- What comes before a round and leaves the view alone. -/
theorem round_after {p : Program β} {f : β → Program Job.Round} (hp : p.AllOps Calm)
    (hx : Uncounted x) (hf : ∀ b, RoundFrom j (f b) x) : RoundFrom j (p >>= f) x := by
  refine (Prog.wp_bind _ _ _ _ _).2 (Prog.wp_mono ?_ (fun _ _ _ => trivial) _ _ (wp_calm hp hx))
  rintro _ b rfl
  exact hf b

theorem round_afterStill {p : Program β} {f : β → Program Job.Round} (hp : p.AllOps Still)
    (hf : ∀ b, RoundFrom j (f b) x) : RoundFrom j (p >>= f) x := by
  refine (Prog.wp_bind _ _ _ _ _).2 (Prog.wp_mono ?_ (fun _ _ _ => trivial) _ _ (wp_still hp x))
  rintro _ b rfl
  exact hf b

theorem calm_of_limited {p : Program β} (hp : p.AllOps Worker.Limiting) : p.AllOps Calm :=
  hp.mono fun _ => calm_of_limiting

/-- A page has arrived: the commit moves the cursor. -/
theorem round_commitPage (hx : Walking j c .asked x)
    (hpages : c.pageIndex < j.effectiveRequest.maxPages) (page : OaiPmhPage) :
    RoundFrom j (j.commitPage c page) x := by
  have huncounted := hx.uncounted (by decide)
  have hfailed : ∀ (e : Exn) {Q : WalkView → Nat × Nat × Nat → Prop},
      (if e = Exn.interrupt then (.raise e : Program (Nat × Nat × Nat))
      else do
        Limiter.afterFailure j.ownerToken none ("OAI checkpoint failed: " ++ e.message)
        .raise e).wp walks Q (fun _ _ => True) x := by
    intro e Q
    by_cases he : e = Exn.interrupt
    · rw [if_pos he]
      trivial
    · rw [if_neg he]
      exact (Prog.wp_bind _ _ _ _ _).2 (Prog.wp_mono (fun _ _ _ => trivial)
        (fun _ _ _ => trivial) _ _
        (wp_calm (calm_of_limited (Worker.limiting_afterFailure _ _ _)) huncounted))
  refine (Prog.wp_bind _ _ _ _ _).2 ((Prog.wp_tryExcept _ _ _ _ _).2
    ((Prog.wp_bind _ _ _ _ _).2 (Prog.wp_mono ?_ ?_ _ _ (wp_still still_utcNow x))))
  · intro x₁ timestamp hsame
    rw [hsame]
    refine (Prog.wp_call _ _ _ _).2 ⟨⟨_, hx.walk, rfl, rfl, rfl, hpages⟩, ?_, ?_⟩
    · rintro counts x' ⟨t, s, s', _, _, rfl⟩
      have hmoved : Walking j (j.advance c page counts) .between
          (x.step (.checkpointOaiPage (j.checkpointOf c page timestamp)) (.ok counts)) :=
        ⟨hx.owner, hx.scope, by simp [WalkView.step, hx.walk, Job.checkpointOf, Job.advance]⟩
      refine round_after (calm_of_limited (Worker.limiting_afterSuccess _ _))
        (hmoved.uncounted (by decide)) fun _ => ?_
      dsimp only
      split
      · exact round_done (still_finishAt (by decide) _ _ _) _
      · intro moved h
        cases h
        exact hmoved
    · rintro e x' ⟨t, s, s', _, _, rfl⟩
      exact hfailed e
  · intro x₁ e hsame
    rw [hsame]
    exact hfailed e

theorem round_onFetchError (hx : Walking j c .asked x) (e : Exn) :
    RoundFrom j (j.onFetchError c e) x := by
  have huncounted := hx.uncounted (by decide)
  cases e with
  | rateLimitedError retryAfter message statusCode =>
      exact round_after (calm_of_limited (Worker.limiting_afterRateLimit _ _ _ _ _)) huncounted
        fun _ => round_done (still_recordAndFinish (by decide) _ _ _) x
  | transientFetchError message statusCode =>
      exact round_after (calm_of_limited (Worker.limiting_afterFailure _ _ _)) huncounted
        fun _ => round_done (still_recordAndFinish (by decide) _ _ _) x
  | nonRetryableFetchError message statusCode =>
      exact round_after (calm_of_limited (Worker.limiting_afterFailure _ _ _)) huncounted
        fun _ => round_done (still_recordAndFinish (by decide) _ _ _) x
  | _ => trivial

/-- The call begins, whatever becomes of it. -/
theorem round_fetchFenced (hx : Walking j c .fenced x)
    (hpages : c.pageIndex < j.effectiveRequest.maxPages) (requestTimeout : Int) :
    RoundFrom j (j.fetchFenced c requestTimeout) x := by
  refine round_afterStill still_utcNow fun now => ?_
  split
  · exact round_done (still_releaseAndFinish _ _) x
  · have hasked : ∀ r, Walking j c .asked
        (x.step (.upstream (.listRecordsBegin
          { harvestId := j.harvestId
            pageIndex := c.pageIndex
            params := j.params c
            timeoutSeconds := min requestTimeout (j.deadlineAt - now) })) r) :=
      fun _ => ⟨hx.owner, hx.scope, by simp [WalkView.step, hx.walk]⟩
    refine (Prog.wp_handle _ _ _ _ _ _).2 ((Prog.wp_call_handle _ _ _ _ _ _).2
      ⟨⟨_, hx.walk, rfl, rfl⟩, ?_, ?_⟩)
    · rintro r x' ⟨t, s, s', _, _, rfl⟩
      have hend : (perform (.upstream .listRecordsEnd)).AllOps Still := .call trivial
      refine Prog.wp_mono ?_ ?_ _ _ (wp_still hend _)
      · intro x₁ page hsame
        rw [hsame]
        exact round_commitPage (hasked (.ok r)) hpages page
      · intro x₁ e hsame
        rw [hsame]
        exact round_onFetchError (hasked (.ok r)) e
    · rintro e x' ⟨t, s, s', _, _, rfl⟩
      exact round_onFetchError (hasked (.error e)) e

/-- The request is counted: no call before the scope is fenced. -/
theorem round_fenceAndFetch (hx : Walking j c .counted x)
    (hpages : c.pageIndex < j.effectiveRequest.maxPages) :
    RoundFrom j (j.fenceAndFetch c) x := by
  refine round_afterStill still_utcNow fun now => ?_
  split
  · exact round_done (still_releaseAndFinish _ _) x
  · refine (Prog.wp_bind _ _ _ _ _).2 ((Prog.wp_call _ _ _ _).2 ⟨?_, ?_, fun _ _ _ => trivial⟩)
    · intro w _ _
      exact ⟨_, List.mem_cons_self, hx.scope, hx.owner⟩
    · rintro renewed x' ⟨t, s, s', _, _, rfl⟩
      cases renewed with
      | false =>
          have hrelease : (releaseLease Limiter.leaseName j.ownerToken).AllOps Still :=
            .call trivial
          exact round_afterStill hrelease fun _ => round_done still_ownershipLost _
      | true =>
          have hfenced : Walking j c .fenced { x with walk := x.walk.map Walk.fence } :=
            ⟨hx.owner, hx.scope, by simp [hx.walk, Walk.fence]⟩
          exact round_fetchFenced hfenced hpages _

theorem budgetError_eq_none {now : Int} (h : j.budgetError c now = none) :
    c.pageIndex < j.effectiveRequest.maxPages ∧
      c.requestsTotal < j.effectiveRequest.maxRequests := by
  unfold Job.budgetError at h
  split at h
  · cases h
  · split at h
    · cases h
    · omega

theorem round_fetchAdmitted (hx : Walking j c .between x) (waitSeconds : Int) :
    RoundFrom j (j.fetchAdmitted c waitSeconds) x := by
  have hcount : RoundFrom j (j.countAndFetch c) x := by
    refine round_afterStill still_utcNow fun now => ?_
    cases hbudget : j.budgetError c now with
    | some error => exact round_done (still_releaseAndFinish _ _) x
    | none =>
        rcases budgetError_eq_none hbudget with ⟨hpages, hrequests⟩
        refine (Prog.wp_bind _ _ _ _ _).2 ((Prog.wp_bind _ _ _ _ _).2 (Prog.wp_mono ?_
          (fun _ _ _ => trivial) _ _ (wp_still still_utcNow x)))
        intro x₁ timestamp hsame
        rw [hsame]
        refine (Prog.wp_call _ _ _ _).2
          ⟨⟨_, hx.walk, rfl, rfl, hrequests⟩, ?_, fun _ _ _ => trivial⟩
        rintro total x' ⟨t, s, s', _, _, rfl⟩
        refine round_fenceAndFetch ⟨hx.owner, hx.scope, ?_⟩ hpages
        simp [WalkView.step, hx.walk]
  refine round_afterStill still_utcNow fun now => ?_
  split
  · exact round_done (still_releaseAndFinish _ _) x
  · split
    · exact round_afterStill (.bind (.call trivial) fun _ => .call trivial) fun _ => hcount
    · exact hcount

theorem round_harvestPage (hx : Walking j c .between x) : RoundFrom j (j.harvestPage c) x := by
  have huncounted := hx.uncounted (by decide)
  refine round_after (.call (Or.inr ⟨_, rfl⟩)) huncounted fun renewed => ?_
  split
  · exact round_done still_ownershipLost x
  · refine round_afterStill still_utcNow fun now => ?_
    split
    · exact round_done (still_finishAt (by decide) _ _ _) x
    · refine round_after (calm_of_limited (Worker.limiting_beforeRequest _ _)) huncounted
        fun decision => ?_
      split
      · exact round_fetchAdmitted hx _
      · exact round_done (still_finishRefused _) x

/-! ## The whole job -/

theorem wp_still_end {p : Program β} (hp : p.AllOps Still) (x : WalkView) :
    p.wp walks (fun _ _ => True) (fun _ _ => True) x :=
  Prog.wp_mono (fun _ _ _ => trivial) (fun _ _ _ => trivial) _ _ (wp_still hp x)

theorem wp_harvestPages (pagesLeft : Nat) : ∀ (c : Cursor) (x : WalkView),
    Walking j c .between x →
      (j.harvestPages pagesLeft c).wp walks (fun _ _ => True) (fun _ _ => True) x := by
  induction pagesLeft with
  | zero =>
      intro c x hx
      unfold Job.harvestPages
      split
      · exact wp_still_end still_finishCompleted x
      · refine (Prog.wp_bind _ _ _ _ _).2 (Prog.wp_mono ?_ (fun _ _ h => h) _ _
          (round_harvestPage hx))
        intro x' round _
        cases round <;> trivial
  | succ pagesLeft ih =>
      intro c x hx
      unfold Job.harvestPages
      split
      · exact wp_still_end still_finishCompleted x
      · refine (Prog.wp_bind _ _ _ _ _).2 (Prog.wp_mono ?_ (fun _ _ h => h) _ _
          (round_harvestPage hx))
        intro x' round hmoves
        cases round with
        | done result => trivial
        | next moved => exact ih moved x' (hmoves moved rfl)

/-! ## Starting -/

/-- The process has the scope, and a job to start from. -/
structure Started (name : LeaseName) (owner : OwnerToken) (start : Start) (x : WalkView) :
    Prop where
  owner : ∃ uuid, x.uuid = some uuid ∧ owner = .oaiHarvest uuid
  scope : x.scope = some name
  walk : x.walk = some
    { harvestId := start.harvestId
      request := start.effectiveRequest
      token := start.cursor.resumptionToken
      pageIndex := start.cursor.pageIndex
      requestsTotal := start.cursor.requestsTotal
      progress := .between }

theorem still_oaiStartDatestamp (request : OaiHarvestRequest) :
    (oaiStartDatestamp d request).AllOps Still := by
  unfold oaiStartDatestamp
  split
  · exact .ret _
  · split
    · exact .ret _
    · refine .bind (.call trivial) fun watermark => ?_
      cases watermark with
      | none => exact .ret _
      | some row => exact .ret _

variable {name : LeaseName} {owner : OwnerToken}

theorem wp_harvestFrom {start : Start} (hx : Started name owner start x) (leaseSeconds : Int) :
    (harvestFrom d name owner leaseSeconds start).wp walks (fun _ _ => True) (fun _ _ => True)
      x := by
  have hwalk : ∀ fromDatestamp, (walk (jobOf d name owner leaseSeconds start fromDatestamp)
      start).wp walks (fun _ _ => True) (fun _ _ => True) x := by
    intro fromDatestamp
    have hread : (getOaiConsumedTokenHashes start.harvestId).AllOps Still := .call trivial
    refine (Prog.wp_bind _ _ _ _ _).2 (Prog.wp_mono ?_ (fun _ _ _ => trivial) _ _
      (wp_still hread x))
    rintro _ consumed rfl
    dsimp only
    split
    · exact wp_still_end (still_finishAt (by decide) _ _ _) _
    · exact wp_harvestPages _ _ _ ⟨hx.owner, hx.scope, hx.walk⟩
  unfold harvestFrom
  cases start.cursor.resumptionToken with
  | some token => exact hwalk none
  | none =>
      refine (Prog.wp_bind _ _ _ _ _).2 (Prog.wp_mono ?_ (fun _ _ _ => trivial) _ _
        (wp_still (still_oaiStartDatestamp start.effectiveRequest) x))
      rintro _ fromDatestamp rfl
      exact hwalk fromDatestamp

theorem wp_startRunning {running : OaiJobRow}
    (howner : ∃ uuid, x.uuid = some uuid ∧ owner = .oaiHarvest uuid) (hscope : x.scope = some name)
    (hwalk : x.walk = some (.ofRow running)) :
    (startRunning running).wp walks (fun x start => Started name owner start x)
      (fun _ _ => True) x := by
  unfold startRunning
  cases running.deadlineAt with
  | some deadlineAt => exact ⟨howner, hscope, hwalk⟩
  | none =>
      have hensure : ∀ deadlineAt,
          (ensureOaiHarvestDeadline running.harvestId deadlineAt).AllOps Still :=
        fun _ => .bind still_utcNow fun _ => .call trivial
      refine (Prog.wp_bind _ _ _ _ _).2 (Prog.wp_mono ?_ (fun _ _ _ => trivial) _ _
        (wp_still still_utcNow x))
      rintro _ now rfl
      refine (Prog.wp_bind _ _ _ _ _).2 (Prog.wp_mono ?_ (fun _ _ _ => trivial) _ _
        (wp_still (hensure _) _))
      rintro _ deadlineAt rfl
      exact ⟨howner, hscope, hwalk⟩

theorem wp_startNew {request : OaiHarvestRequest}
    (howner : ∃ uuid, x.uuid = some uuid ∧ owner = .oaiHarvest uuid)
    (hscope : x.scope = some (oaiScopeLeaseName request)) :
    (startNew request).wp walks
      (fun x start => Started (oaiScopeLeaseName request) owner start x) (fun _ _ => True) x := by
  have hcreate : ∀ token, (createAndStart request token).wp walks
        (fun x start => Started (oaiScopeLeaseName request) owner start x) (fun _ _ => True) x := by
    intro token
    refine (Prog.wp_bind _ _ _ _ _).2 ((Prog.wp_bind _ _ _ _ _).2 (Prog.wp_mono ?_
      (fun _ _ _ => trivial) _ _ (wp_still still_utcNow x)))
    intro x₁ started hsame
    rw [hsame]
    refine (Prog.wp_call _ _ _ _).2 ⟨hscope, ?_, fun _ _ _ => trivial⟩
    rintro harvestId x' ⟨t, s, s', _, _, rfl⟩
    have hread : (getOaiHarvestResult harvestId).AllOps Still := .call trivial
    refine (Prog.wp_bind _ _ _ _ _).2 (Prog.wp_mono ?_ (fun _ _ _ => trivial) _ _
      (wp_still hread _))
    intro x₂ created hsame'
    rw [hsame']
    split
    · trivial
    · exact ⟨howner, hscope, rfl⟩
  unfold startNew
  cases request.resumptionToken with
  | some token => exact hcreate (some token)
  | none =>
      have hread : (getLatestResumableOaiHarvestToken request).AllOps Still := .call trivial
      refine (Prog.wp_bind _ _ _ _ _).2 (Prog.wp_mono ?_ (fun _ _ _ => trivial) _ _
        (wp_still hread x))
      rintro _ token rfl
      exact hcreate token

/-- The scope is held: the running job of the scope, or a new one. -/
theorem wp_harvestOaiOwned {request : OaiHarvestRequest}
    (howner : ∃ uuid, x.uuid = some uuid ∧ owner = .oaiHarvest uuid)
    (hscope : x.scope = some (oaiScopeLeaseName request)) (leaseSeconds : Int) :
    (harvestOaiOwned d request (oaiScopeLeaseName request) owner leaseSeconds).wp walks
      (fun _ _ => True) (fun _ _ => True) x := by
  have hallowed : x.Allowed (.oai (.getRunningOaiHarvest request)) := by
    intro name hname
    rw [hscope] at hname
    exact (Option.some.inj hname).symm
  refine (Prog.wp_bind _ _ _ _ _).2 ((Prog.wp_call _ _ _ _).2
    ⟨hallowed, ?_, fun _ _ _ => trivial⟩)
  rintro running x' ⟨t, s, s', _, _, rfl⟩
  cases running with
  | none =>
      exact (Prog.wp_bind _ _ _ _ _).2 (Prog.wp_mono (fun _ _ h => wp_harvestFrom h _)
        (fun _ _ _ => trivial) _ _ (wp_startNew howner hscope))
  | some running =>
      have hsome : x.scope.isSome = true := by
        rw [hscope]
        rfl
      rw [step_found hsome]
      exact (Prog.wp_bind _ _ _ _ _).2 (Prog.wp_mono (fun _ _ h => wp_harvestFrom h _)
        (fun _ _ _ => trivial) _ _ (wp_startRunning howner hscope rfl))

end Stages

/-- A whole harvest, from the start of its process. -/
theorem keeps_harvestOai (d : Deployment) (request : OaiHarvestRequest) :
    (harvestOai d request).Keeps walks {} := by
  refine (Prog.wp_bind _ _ _ _ _).2 ((Prog.wp_call _ _ _ _).2 ⟨rfl, ?_, fun _ _ _ => trivial⟩)
  rintro uuid x₁ ⟨t₁, s₁, s₁', _, _, rfl⟩
  refine (Prog.wp_bind _ _ _ _ _).2 ((Prog.wp_call _ _ _ _).2
    ⟨Or.inr ⟨rfl, uuid, rfl, rfl⟩, ?_, fun _ _ _ => trivial⟩)
  rintro acquired x₂ ⟨t₂, s₂, s₂', _, _, rfl⟩
  have hname : oaiScopeLeaseName request ≠ Limiter.leaseName := by
    unfold oaiScopeLeaseName
    split <;> exact LeaseName.noConfusion
  cases acquired with
  | false =>
      -- Another process holds the scope: the job is read, and nothing follows.
      refine (Prog.wp_bind _ _ _ _ _).2 ((Prog.wp_call _ _ _ _).2
        ⟨fun _ h => (nomatch h), ?_, fun _ _ _ => trivial⟩)
      rintro running x₃ ⟨t₃, s₃, s₃', _, _, rfl⟩
      cases running with
      | none => trivial
      | some running =>
          have hread : (getOaiHarvestResult running.harvestId).AllOps Still := .call trivial
          refine (Prog.wp_bind _ _ _ _ _).2 (Prog.wp_mono ?_ (fun _ _ _ => trivial) _ _
            (wp_still hread _))
          rintro _ active rfl
          cases active <;> trivial
  | true =>
      have hrelease : (releaseLease (oaiScopeLeaseName request) (.oaiHarvest uuid)).AllOps Still :=
        .call trivial
      refine (Prog.wp_tryFinally _ _ _ _ _).2 (Prog.wp_mono (fun x _ _ => wp_still_end hrelease x)
        (fun x _ _ => wp_still_end hrelease x) _ _ (wp_harvestOaiOwned ⟨uuid, ?_, rfl⟩ ?_ _))
      · simp [WalkView.step, hname]
      · simp [WalkView.step, hname]

/-! ## Every run -/

theorem calm_of_feeding {o : Op} (ho : Worker.Feeding o) : Calm o := by
  unfold Worker.Feeding at ho
  split at ho <;> first | exact Or.inl trivial | exact ho.elim

theorem keeps_calm {β : Type} {p : Program β} (hp : p.AllOps Calm) : p.Keeps walks {} :=
  Prog.keeps_of_wp (wp_calm hp fun _ h => nomatch h)

/-- Every client keeps to the discipline from the start of its process. -/
theorem keeps_program (d : Deployment) (c : Client) (pid : Nat) :
    (c.program d pid).Keeps walks {} := by
  have hfeeding := Worker.feeding_program d c pid
  have hcalm : ∀ {β : Type} {p : Program β}, p.AllOps Worker.Feeding → p.AllOps Calm :=
    fun hp => hp.mono fun _ => calm_of_feeding
  cases c with
  | runOnce targets =>
      have hpass := (Worker.passing_runOnce (w := ⟨d, .worker pid⟩) targets).mono
        fun _ => calm_of_passing
      exact keeps_calm (.bind hpass fun _ => .ret _)
  | harvestOai request =>
      exact (Prog.wp_bind _ _ _ _ _).2 (Prog.wp_mono (fun _ _ _ => trivial)
        (fun _ _ _ => trivial) _ _ (keeps_harvestOai d request))
  | enqueueRequestForWork request cacheKey workKind budgetId => exact keeps_calm (hcalm hfeeding)
  | enqueueRefreshIfDue request cacheKey => exact keeps_calm (hcalm hfeeding)
  | createUpstreamRequestBudget maxRequests deadlineAt => exact keeps_calm (hcalm hfeeding)
  | failActiveUpstreamBudgetItems budgetId category message => exact keeps_calm (hcalm hfeeding)

open Process.System (Config Throughout Disciplined History Event)

section Seen

variable {d : Deployment}

/-- What is known of the harvest of the process `p`. -/
abbrev walkOf (p : Nat) (h : History (fleet d)) : WalkView :=
  (walkMonitor : Monitor (fleet d) WalkView).view p h

variable (pre : History (fleet d)) {e : Event (fleet d)}

theorem walkOf_of_ne {p : Nat} (hne : e.pid ≠ p) : walkOf p (e :: pre) = walkOf p pre :=
  walkMonitor.view_of_ne pre hne

theorem walkOf_of_op {o : Op} {r : Except Exn o.Res} (ha : e.action = .op o r) :
    walkOf e.pid (e :: pre) = (walkOf e.pid pre).step o r :=
  walkMonitor.view_of_op pre ha

theorem walkOf_of_start {c : Client} (ha : e.action = .start c) : walkOf e.pid (e :: pre) = {} :=
  walkMonitor.view_of_start pre ha

theorem walkOf_of_crash (ha : e.action = .crash) : walkOf e.pid (e :: pre) = {} :=
  walkMonitor.view_of_crash pre ha

end Seen

/-- In every run of the fleet, every operation was allowed to the harvest that asked for it. -/
theorem walks_after (d : Deployment) (sched : List (Config.Choice (fleet d))) :
    Throughout (Disciplined walks (walkMonitor : Monitor (fleet d) WalkView).view)
      (Config.after (fleet d) sched).history := by
  have hkept : (walkMonitor : Monitor (fleet d) WalkView).Kept fun _ _ => True :=
    { initial := fun _ => trivial
      start := fun _ _ _ _ _ => trivial
      step := fun _ _ _ _ _ _ => trivial
      crash := fun _ _ _ => trivial }
  exact (walkMonitor : Monitor (fleet d) WalkView).disciplined_after hkept
    (fun pid _ c _ _ _ => keeps_program d c pid) sched

end Harvest
end Huldra
