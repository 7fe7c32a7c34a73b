import Huldra.Harvest.Resumed
import Huldra.Harvest.Routine
import Huldra.Library.Registers

/-!
# Continued — a chain of pages over several jobs

A job that stops early leaves a token, and the next job of its scope starts from it.  So the pages
of a completed harvest go on where those of earlier jobs ended, back to a request without a token;
unless a request brings a token of its own that no job has left, or a harvest that has fallen
behind ends the job with an older token than its pages leave.
-/

namespace Huldra
namespace Harvest

open Process (Prog Discipline)
open Process.System (Monitor Config Throughout Disciplined History Event Legal stateAfter)
open OaiTables
open LibraryTables Registers Replay

/-! ## The token of a new job -/

/-- What a process was last told to go on with, and for which request. -/
abbrev Heard := Option (OaiHarvestRequest × Option ResumptionToken)

namespace Heard

def step (x : Heard) (o : Op) (r : Except Exn o.Res) : Heard :=
  match o, r with
  | .oai (.getLatestResumableOaiHarvestToken request), .ok token => some (request, token)
  | _, _ => x

/-- A new job starts from the token of its request, or from what an earlier job has left. -/
def Allowed (x : Heard) : Op → Prop
  | .oai (.createOaiHarvestJob request token _) =>
      (∀ explicit ∈ request.resumptionToken, token = some explicit) ∧
        (request.resumptionToken = none → x = some (request, token))
  | _ => True

end Heard

def heardMonitor {Client Out : Type} {program : Client → Nat → Process.Prog huldra Out} :
    Monitor (storeSystem Client Out program) Heard where
  initial _ := none
  start _ _ _ := none
  step x o r _ := Heard.step x o r
  crash _ := none
  clock _ := 0
  clock_initial _ := Process.System.no_time
  clock_start _ _ _ h := h
  clock_step _ _ _ _ h := h
  clock_crash _ := Int.le_refl 0

/-- The discipline of the start of a harvest. -/
def hears : Discipline huldra Heard where
  allow := Heard.Allowed
  next x o r x' := ∃ t s s', (0 : Int) ≤ t ∧ Store.Performed o t r s s' ∧ x' = Heard.step x o r

/-- The operation neither asks for a token to go on with nor creates a job. -/
def Deaf : Op → Prop
  | .oai (.getLatestResumableOaiHarvestToken _) | .oai (.createOaiHarvestJob ..) => False
  | _ => True

section Stages

variable {β : Type} {d : Deployment} {o : Op}

theorem deaf_of_underway (ho : Underway o) : Deaf o := by
  cases o with
  | oai o => cases o <;> first | exact ho.elim | exact trivial
  | _ => exact trivial

theorem deaf_of_passing (ho : Worker.Passing o) : Deaf o := by
  cases o with
  | oai o => exact ho.elim
  | _ => exact trivial

theorem deaf_of_feeding (ho : Worker.Feeding o) : Deaf o := by
  cases o with
  | oai o => exact ho.elim
  | _ => exact trivial

theorem Deaf.allowed (ho : Deaf o) (x : Heard) : x.Allowed o := by
  unfold Heard.Allowed
  split
  · exact ho.elim
  · trivial

theorem Deaf.step (ho : Deaf o) (x : Heard) (r : Except Exn o.Res) : x.step o r = x := by
  unfold Heard.step
  split
  · exact ho.elim
  · rfl

theorem wp_deaf {p : Program β} (hp : p.AllOps Deaf) (x : Heard) :
    p.wp hears (fun x' _ => x' = x) (fun x' _ => x' = x) x := by
  refine hp.wp ?_ x rfl
  rintro o ho x' rfl
  refine ⟨ho.allowed x', ?_⟩
  rintro r x'' ⟨t, s, s', _, _, rfl⟩
  exact ho.step x' r

theorem wp_deaf_end {p : Program β} (hp : p.AllOps Deaf) (x : Heard) :
    p.wp hears (fun _ _ => True) (fun _ _ => True) x :=
  Prog.wp_mono (fun _ _ _ => trivial) (fun _ _ _ => trivial) _ _ (wp_deaf hp x)

theorem hears_createAndStart {request : OaiHarvestRequest} {token : Option ResumptionToken}
    {x : Heard} (hexplicit : ∀ explicit ∈ request.resumptionToken, token = some explicit)
    (hheard : request.resumptionToken = none → x = some (request, token)) :
    (createAndStart request token).wp hears (fun _ _ => True) (fun _ _ => True) x := by
  have hnow : utcNow.AllOps Deaf := .call trivial
  refine (Prog.wp_bind _ _ _ _ _).2 ((Prog.wp_bind _ _ _ _ _).2 (Prog.wp_mono ?_
    (fun _ _ _ => trivial) _ _ (wp_deaf hnow x)))
  rintro _ started rfl
  refine (Prog.wp_call _ _ _ _).2 ⟨⟨hexplicit, hheard⟩, ?_, fun _ _ _ => trivial⟩
  rintro harvestId x' _
  have hread : (getOaiHarvestResult harvestId).AllOps Deaf := .call trivial
  refine wp_deaf_end (.bind hread fun created => ?_) x'
  split
  · exact .raise _
  · exact .ret _

theorem hears_startNew (request : OaiHarvestRequest) (x : Heard) :
    (startNew request).wp hears (fun _ _ => True) (fun _ _ => True) x := by
  unfold startNew
  cases hrequest : request.resumptionToken with
  | some token =>
      refine hears_createAndStart ?_ ?_
      · intro explicit hmem
        rw [hrequest] at hmem
        exact hmem
      · intro hnone
        rw [hrequest] at hnone
        cases hnone
  | none =>
      refine (Prog.wp_bind _ _ _ _ _).2 ((Prog.wp_call _ _ _ _).2
        ⟨trivial, ?_, fun _ _ _ => trivial⟩)
      rintro token x' ⟨t, s, s', _, _, rfl⟩
      refine hears_createAndStart ?_ fun _ => rfl
      intro explicit hmem
      rw [hrequest] at hmem
      cases hmem

theorem hears_harvestOaiOwned (request : OaiHarvestRequest) (name : LeaseName)
    (owner : OwnerToken) (leaseSeconds : Int) (x : Heard) :
    (harvestOaiOwned d request name owner leaseSeconds).wp hears (fun _ _ => True)
      (fun _ _ => True) x := by
  have hfrom : ∀ start x, (harvestFrom d name owner leaseSeconds start).wp hears
      (fun _ _ => True) (fun _ _ => True) x := fun start x =>
    wp_deaf_end ((underway_harvestFrom _ _ _ start).mono fun _ => deaf_of_underway) x
  refine (Prog.wp_bind _ _ _ _ _).2 ((Prog.wp_call _ _ _ _).2 ⟨trivial, ?_, fun _ _ _ => trivial⟩)
  rintro running x' _
  cases running with
  | none =>
      exact (Prog.wp_bind _ _ _ _ _).2 (Prog.wp_mono (fun x start _ => hfrom start x)
        (fun _ _ _ => trivial) _ _ (hears_startNew request x'))
  | some running =>
      exact (Prog.wp_bind _ _ _ _ _).2 (Prog.wp_mono (fun x start _ => hfrom start x)
        (fun _ _ _ => trivial) _ _ (wp_deaf_end ((resuming_startRunning running).mono
          fun _ ho => deaf_of_underway ho.underway) x'))

/-- A whole harvest, from the start of its process. -/
theorem hears_harvestOai (d : Deployment) (request : OaiHarvestRequest) :
    (harvestOai d request).Keeps hears none := by
  have hdraw : uuid4.AllOps Deaf := .call trivial
  refine (Prog.wp_bind _ _ _ _ _).2 (Prog.wp_mono ?_ (fun _ _ _ => trivial) _ _
    (wp_deaf hdraw none))
  rintro x₁ uuid rfl
  have hacquire : (acquireLease (oaiScopeLeaseName request) (.oaiHarvest uuid)
      (scopeLeaseSeconds d)).AllOps Deaf := .call trivial
  refine (Prog.wp_bind _ _ _ _ _).2 (Prog.wp_mono ?_ (fun _ _ _ => trivial) _ _
    (wp_deaf hacquire _))
  rintro x₂ acquired rfl
  cases acquired with
  | false =>
      exact wp_deaf_end ((resuming_harvestInProgress request).mono
        fun _ ho => deaf_of_underway ho.underway) _
  | true =>
      have hrelease : (releaseLease (oaiScopeLeaseName request) (.oaiHarvest uuid)).AllOps Deaf :=
        .call trivial
      exact (Prog.wp_tryFinally _ _ _ _ _).2 (Prog.wp_mono (fun x _ _ => wp_deaf_end hrelease x)
        (fun x _ _ => wp_deaf_end hrelease x) _ _ (hears_harvestOaiOwned request _ _ _ _))

/-- Every client keeps to the discipline from the start of its process. -/
theorem hears_program (d : Deployment) (c : Client) (pid : Nat) :
    (c.program d pid).Keeps hears none := by
  have hfeeding := Worker.feeding_program d c pid
  have hdeaf : ∀ {γ : Type} {p : Program γ}, p.AllOps Deaf → p.Keeps hears none :=
    fun hp => Prog.keeps_of_wp (wp_deaf hp none)
  have hfed : ∀ {γ : Type} {p : Program γ}, p.AllOps Worker.Feeding → p.Keeps hears none :=
    fun hp => hdeaf (hp.mono fun _ => deaf_of_feeding)
  cases c with
  | runOnce targets =>
      have hpass := (Worker.passing_runOnce (w := ⟨d, .worker pid⟩) targets).mono
        fun _ => deaf_of_passing
      exact hdeaf (.bind hpass fun _ => .ret _)
  | harvestOai request =>
      exact (Prog.wp_bind _ _ _ _ _).2 (Prog.wp_mono (fun _ _ _ => trivial)
        (fun _ _ _ => trivial) _ _ (hears_harvestOai d request))
  | enqueueRequestForWork request cacheKey workKind budgetId => exact hfed hfeeding
  | enqueueRefreshIfDue request cacheKey => exact hfed hfeeding
  | createUpstreamRequestBudget maxRequests deadlineAt => exact hfed hfeeding
  | failActiveUpstreamBudgetItems budgetId category message => exact hfed hfeeding

end Stages

section Seen

variable {d : Deployment}

/-- What the process `p` was last told to go on with. -/
abbrev heardOf (p : Nat) (h : History (fleet d)) : Heard :=
  (heardMonitor : Monitor (fleet d) Heard).view p h

variable (pre : History (fleet d)) {e : Event (fleet d)}

theorem heardOf_of_ne {p : Nat} (hne : e.pid ≠ p) : heardOf p (e :: pre) = heardOf p pre :=
  heardMonitor.view_of_ne pre hne

theorem heardOf_of_op {o : Op} {r : Except Exn o.Res} (ha : e.action = .op o r) :
    heardOf e.pid (e :: pre) = (heardOf e.pid pre).step o r :=
  heardMonitor.view_of_op pre ha

theorem heardOf_of_idle (ha : ∀ o r, e.action ≠ .op o r) : heardOf e.pid (e :: pre) = none := by
  cases hact : e.action with
  | start c => exact heardMonitor.view_of_start pre hact
  | op o r => exact absurd hact (ha o r)
  | crash => exact heardMonitor.view_of_crash pre hact

end Seen

/-- In every run of the fleet, every new job starts from the token that it should. -/
theorem hears_after (d : Deployment) (sched : List (Config.Choice (fleet d))) :
    Throughout (Disciplined hears (heardMonitor : Monitor (fleet d) Heard).view)
      (Config.after (fleet d) sched).history := by
  have hkept : (heardMonitor : Monitor (fleet d) Heard).Kept fun _ _ => True :=
    { initial := fun _ => trivial
      start := fun _ _ _ _ _ => trivial
      step := fun _ _ _ _ _ _ => trivial
      crash := fun _ _ _ => trivial }
  exact (heardMonitor : Monitor (fleet d) Heard).disciplined_after hkept
    (fun pid _ c _ _ _ => hears_program d c pid) sched

/-! ## Jobs that have stopped -/

variable {d : Deployment}

/-- A harvest that writes the watermark under the key. -/
def WritesFor (request : OaiHarvestRequest) (key : WatermarkKey) : Prop :=
  watermarkKey request = key ∧ shouldCommitOaiWatermark request = true

/-- A job that writes the watermark has stopped, and stores the token. -/
def LeftBy (t : OaiTables) (key : WatermarkKey) (token : ResumptionToken) : Prop :=
  ∃ job ∈ t.jobs, WritesFor job.request key ∧ job.status ≠ .running ∧
    job.resumptionToken = some token

/-- The request of a job that the event creates. -/
def created? (e : Event (fleet d)) : Option OaiHarvestRequest :=
  match e.action with
  | .op (.oai (.createOaiHarvestJob request _ _)) _ => some request
  | _ => none

/-- What the event says of a job that it ends. -/
def completion? (e : Event (fleet d)) : Option Completion :=
  match e.action with
  | .op (.oai (.completeOaiHarvestJob c)) _ => some c
  | _ => none

/-- A new job that is to write a watermark is asked for without a token, or with one that a stopped
job of that watermark stores. -/
def TokenLeft (_pre : History (fleet d)) (e : Event (fleet d)) : Prop :=
  ∀ request ∈ created? e, shouldCommitOaiWatermark request = true →
    ∀ explicit ∈ request.resumptionToken, LeftBy e.before.oai (watermarkKey request) explicit

/-- Who ends a job early has read all pages that are committed of it. -/
def EndsRead (pre : History (fleet d)) (e : Event (fleet d)) : Prop :=
  ∀ c ∈ completion? e, c.status ≠ .completed →
    ∀ st ∈ standOf e.pid pre, st.cursor.pageIndex = (commits c.harvestId pre).length

/-- The job has stopped where its pages leave the token. -/
def Stopped (h : History (fleet d)) (key : WatermarkKey) (token : ResumptionToken)
    (harvestId : Uuid) : Prop :=
  ∃ job, (stateAfter h).oai.job? harvestId = some job ∧ WritesFor job.request key ∧
    job.status ≠ .running ∧
      nextToken (startToken harvestId h) (commits harvestId h) = some token

section Events

variable {pre : History (fleet d)} {e : Event (fleet d)} {o : Op} {r : Except Exn o.Res}
  {harvestId : Uuid} {key : WatermarkKey} {token : ResumptionToken}

/-- A job that has stopped is not taken further. -/
theorem Turn.stopped (he : Turn pre e o r) (h : Stopped pre key token harvestId) :
    Stopped (e :: pre) key token harvestId := by
  rcases h with ⟨job, hjob, hwrites, hstopped, htoken⟩
  rcases he.effect.rows harvestId job hjob with ⟨job', hjob', heffect⟩
  have hstopped' : job'.status ≠ .running := fun hrunning =>
    hstopped (heffect.running he.completes hrunning).1
  have hcommits : commits harvestId (e :: pre) = commits harvestId pre := by
    have hnone : commit? harvestId e = none := by
      by_cases hcommit : ∃ c, o = .checkpointOaiPage c ∧ c.harvestId = harvestId
      · rcases hcommit with ⟨c, rfl, hid⟩
        rcases checkpoint_effect he.performed with ⟨hsame, _⟩ | ⟨hmatches, _⟩
        · exact he.commit?_of_same harvestId (by rw [hsame])
        · simp [matchesCursor, hid, hjob, hstopped] at hmatches
      · exact he.commit?_of_ne fun c ho hid => hcommit ⟨c, ho, hid⟩
    rw [commits_cons, hnone]
    rfl
  refine ⟨job', hjob', ?_, hstopped', ?_⟩
  · rw [heffect.request_eq]
    exact hwrites
  · rw [hcommits, he.startToken_eq harvestId (by rw [hjob]; rfl)]
    exact htoken

/-- The token that is stored with a job is the one that its pages leave. -/
def Settled (h : History (fleet d)) : Prop :=
  ∀ harvestId job, (stateAfter h).oai.job? harvestId = some job →
    job.resumptionToken = nextToken (startToken harvestId h) (commits harvestId h)

/-- Who ends a job stores the token that its pages leave. -/
theorem Turn.settled_completed (he : Turn pre e o r) (hI : Linked harvestId pre)
    (hread : EndsRead pre e) {c : Completion} (ho : o = .oai (.completeOaiHarvestJob c))
    (hid : c.harvestId = harvestId) :
    c.resumptionToken = nextToken (startToken harvestId pre) (commits harvestId pre) := by
  subst ho hid
  rcases he.allowed with ⟨st, hst, hat, _, hcompletes, hearly⟩
  by_cases hcompleted : c.status = .completed
  · have hdone := hcompletes hcompleted
    rcases (end_of_finished hI hst hat.symm hdone.finished).1 with ⟨k, older, hlog, hnext, _⟩
    rw [hdone.token, hlog]
    exact hnext.symm
  · have hcompletion : completion? e = some c := by simp only [completion?, he.action]
    have hreads := hI.reads hst hat.symm (hread c hcompletion hcompleted st hst)
    rw [hearly hcompleted, hreads.token_eq, token_after]

theorem Turn.settled (he : Turn pre e o r) (hI : Linked harvestId pre) (hread : EndsRead pre e)
    (hS : ∀ job, (stateAfter pre).oai.job? harvestId = some job →
      job.resumptionToken = nextToken (startToken harvestId pre) (commits harvestId pre))
    {job' : OaiJobRow} (hjob' : e.after.oai.job? harvestId = some job') :
    job'.resumptionToken =
      nextToken (startToken harvestId (e :: pre)) (commits harvestId (e :: pre)) := by
  cases hjob : (stateAfter pre).oai.job? harvestId with
  | none =>
      have hlinked := he.linked hI
      rcases he.effect.fresh harvestId job' hjob hjob' with ⟨_, _, _, _, _, hnew⟩
      have hrunning : job'.status = .running := by
        rw [hnew]
        rfl
      have hplace := (hlinked.row job' hjob' hrunning).place
      simp only [Cursor.place, Stand.ofRow, Cursor.mk.injEq] at hplace
      exact hplace.1.trans (token_after _)
  | some job =>
      have hstart := he.startToken_eq harvestId (by rw [hjob]; rfl)
      by_cases hcommit : ∃ c, o = .checkpointOaiPage c
      · rcases hcommit with ⟨c, rfl⟩
        rcases checkpoint_effect he.performed with ⟨hsame, _⟩ | ⟨hmatches, hpage, _⟩
        · rw [hsame, hjob] at hjob'
          cases hjob'
          rw [hstart, commits_cons, he.commit?_of_same harvestId (by rw [hsame])]
          exact hS _ hjob
        · rw [hpage, job?_checkpointPage _ hjob] at hjob'
          cases hjob'
          by_cases hid : c.harvestId = harvestId
          · have hcommit := he.commit?_of_matched rfl hmatches hpage
            rw [hid] at hcommit
            have hrunning : job.status = .running := by
              simp only [matchesCursor, hid, hjob, Bool.and_eq_true, decide_eq_true_eq] at hmatches
              exact hmatches.1.1
            rw [if_pos ((job?_harvestId hjob).trans hid.symm), commits_cons, hcommit]
            simp only [Checkpoint.advance, hrunning, if_true]
            rfl
          · rw [if_neg fun hsame => hid (hsame.symm.trans (job?_harvestId hjob)), hstart,
              commits_cons, he.commit?_of_ne fun c' h => by cases h; exact hid]
            exact hS _ hjob
      · have hother : ∀ c, o ≠ .checkpointOaiPage c := fun c h => hcommit ⟨c, h⟩
        rw [hstart, commits_cons, he.commit?_of_ne fun c h => absurd h (hother c)]
        rcases he.effect.rows harvestId job hjob with ⟨job'', hjob'', heffect⟩
        rw [hjob'] at hjob''
        cases hjob''
        have hstored := hS job hjob
        cases heffect with
        | kept => exact hstored
        | dated deadlineAt timestamp hop => exact hstored
        | counted timestamp hop _ => exact hstored
        | committed c counts hop _ _ _ _ => exact absurd hop (hother c)
        | completed c hop hid =>
            exact he.settled_completed hI hread hop (hid.trans (job?_harvestId hjob))

/-! ## Where a new job starts -/

/-- A token to go on with is one that a job of the scope has left. -/
theorem latest_of_answer {request : OaiHarvestRequest} {t : Int} {s s' : Store}
    (h : Store.Performed (.oai (.getLatestResumableOaiHarvestToken request)) t (.ok (some token))
      s s') :
    ∃ job ∈ s.oai.jobs, sameOaiResumeScope job.request request = true ∧ job.status ≠ .running ∧
      job.resumptionToken = some token := by
  rcases h.of_ok with ⟨input, _, hexec⟩
  simp only [Store.exec, OaiOp.exec, Prod.mk.injEq, Except.ok.injEq] at hexec
  have hlatest := hexec.1
  unfold OaiTables.getLatestResumableOaiHarvestToken at hlatest
  dsimp only at hlatest
  split at hlatest
  · rename_i job hfound
    have hmem := List.mem_of_mem_take (List.mem_of_find?_eq_some hfound)
    rw [List.mem_insertionSort] at hmem
    split at hlatest
    · rename_i hresumable
      refine ⟨job, (List.mem_filter.1 hmem).1, by simpa using List.find?_some hfound, ?_, hlatest⟩
      intro hrunning
      rw [hrunning] at hresumable
      cases hresumable
    · cases hlatest
  · cases hlatest

/-- Requests of one resume scope write one watermark. -/
theorem writesFor_of_sameScope {left right : OaiHarvestRequest}
    (h : sameOaiResumeScope left right = true)
    (hunbounded : shouldCommitOaiWatermark right = true) : WritesFor left (watermarkKey right) := by
  simp only [sameOaiResumeScope, Bool.and_eq_true, decide_eq_true_eq] at h
  rcases h with ⟨⟨⟨⟨hpre, hset⟩, hfrom⟩, huntil⟩, _⟩
  refine ⟨by simp [watermarkKey, hpre, hset], ?_⟩
  rw [← hunbounded]
  simp [shouldCommitOaiWatermark, hfrom, huntil]

/-- What a run keeps of the tokens that jobs leave, and that others start from. -/
structure Backed (h : History (fleet d)) : Prop where
  settled : Settled h
  informed : ∀ p request token, heardOf p h = some (request, some token) →
    shouldCommitOaiWatermark request = true → ∃ id, Stopped h (watermarkKey request) token id
  begun : ∀ harvestId job, (stateAfter h).oai.job? harvestId = some job →
    shouldCommitOaiWatermark job.request = true → ∀ token, startToken harvestId h = some token →
      ∃ earlier < harvestId, Stopped h (watermarkKey job.request) token earlier

/-- The job that leaves a token has stopped where its pages leave it. -/
theorem Settled.stopped {h : History (fleet d)} (hS : Settled h)
    (hfiled : Filed (stateAfter h).nextUuid (stateAfter h).oai) {job : OaiJobRow}
    (hmem : job ∈ (stateAfter h).oai.jobs) (hwrites : WritesFor job.request key)
    (hstopped : job.status ≠ .running) (htoken : job.resumptionToken = some token) :
    Stopped h key token job.harvestId := by
  have hjob := job?_of_mem hfiled hmem
  exact ⟨job, hjob, hwrites, hstopped, (hS _ job hjob).symm.trans htoken⟩

/-- What an event of the run is, for the start of new jobs. -/
structure Hearing (pre : History (fleet d)) (e : Event (fleet d)) : Prop where
  orderly : Orderly pre e
  hears : Disciplined hears (heardMonitor : Monitor (fleet d) Heard).view pre e
  left : TokenLeft pre e
  read : EndsRead pre e

theorem Turn.informed (he : Turn pre e o r) (hB : Backed pre) {p : Nat}
    {request : OaiHarvestRequest} (hheard : heardOf p (e :: pre) = some (request, some token))
    (hunbounded : shouldCommitOaiWatermark request = true) :
    ∃ id, Stopped (e :: pre) (watermarkKey request) token id := by
  have hpersists : heardOf p pre = some (request, some token) →
      ∃ id, Stopped (e :: pre) (watermarkKey request) token id := by
    intro hbefore
    rcases hB.informed p request token hbefore hunbounded with ⟨id, hstopped⟩
    exact ⟨id, he.stopped hstopped⟩
  by_cases hp : e.pid = p
  · subst hp
    rw [heardOf_of_op pre he.action] at hheard
    unfold Heard.step at hheard
    split at hheard
    · cases hheard
      rcases latest_of_answer he.performed with ⟨job, hmem, hscope, hstopped, htoken⟩
      exact ⟨_, he.stopped (hB.settled.stopped he.filed hmem
        (writesFor_of_sameScope hscope hunbounded) hstopped htoken)⟩
    · exact hpersists hheard
  · rw [heardOf_of_ne pre hp] at hheard
    exact hpersists hheard

/-- A new job that is to write a watermark starts from a token that a job of it has left. -/
theorem Turn.left (he : Turn pre e o r) (hB : Backed pre) (h : Hearing pre e)
    {request : OaiHarvestRequest} {started : Int}
    (ho : o = .oai (.createOaiHarvestJob request (some token) started))
    (hunbounded : shouldCommitOaiWatermark request = true) :
    ∃ id, Stopped pre (watermarkKey request) token id := by
  have hallowed : Heard.Allowed (heardOf e.pid pre) o := h.hears.1 o r he.action
  subst ho
  rcases hallowed with ⟨hexplicit, hheard⟩
  cases hrequest : request.resumptionToken with
  | none => exact hB.informed e.pid request token (hheard hrequest) hunbounded
  | some explicit =>
      have hsame := hexplicit explicit hrequest
      cases hsame
      have hcreated : created? e = some request := by simp only [created?, he.action]
      rcases h.left request hcreated hunbounded token hrequest with
        ⟨job, hmem, hwrites, hstopped, htoken⟩
      rw [he.before_eq] at hmem
      exact ⟨_, hB.settled.stopped he.filed hmem hwrites hstopped htoken⟩

theorem Turn.begun (he : Turn pre e o r) (hB : Backed pre) (h : Hearing pre e) {job' : OaiJobRow}
    (hjob' : e.after.oai.job? harvestId = some job')
    (hunbounded : shouldCommitOaiWatermark job'.request = true)
    (htoken : startToken harvestId (e :: pre) = some token) :
    ∃ earlier < harvestId, Stopped (e :: pre) (watermarkKey job'.request) token earlier := by
  cases hjob : (stateAfter pre).oai.job? harvestId with
  | none =>
      rcases he.effect.fresh harvestId job' hjob hjob' with
        ⟨hid, request, token', started, ho, hrow⟩
      have hstart := he.startToken_created ho hjob hjob'
      rw [htoken] at hstart
      subst hstart
      rw [hrow] at hunbounded ⊢
      rcases he.left hB h ho hunbounded with ⟨earlier, hstopped⟩
      refine ⟨earlier, ?_, he.stopped hstopped⟩
      rcases hstopped with ⟨job, hjob, _⟩
      rw [hid, ← job?_harvestId hjob]
      exact he.filed.drawn job (mem_of_job? hjob)
  | some job =>
      rcases he.effect.rows harvestId job hjob with ⟨job'', hjob'', heffect⟩
      rw [hjob'] at hjob''
      cases hjob''
      rw [heffect.request_eq] at hunbounded ⊢
      rw [he.startToken_eq harvestId (by rw [hjob]; rfl)] at htoken
      rcases hB.begun harvestId job hjob hunbounded token htoken with ⟨earlier, hlt, hstopped⟩
      exact ⟨earlier, hlt, he.stopped hstopped⟩

theorem stopped_idle (hlegal : Legal pre e) (ha : ∀ o r, e.action ≠ .op o r)
    (h : Stopped pre key token harvestId) : Stopped (e :: pre) key token harvestId := by
  have hstate : stateAfter (e :: pre) = stateAfter pre := Queue.after_eq_of_not_op hlegal ha
  unfold Stopped
  rw [hstate, startToken_idle ha, commits_of_ne (worksAt?_of_idle harvestId ha)]
  exact h

theorem backed_idle (hlegal : Legal pre e) (ha : ∀ o r, e.action ≠ .op o r) (hB : Backed pre) :
    Backed (e :: pre) := by
  have hstate : stateAfter (e :: pre) = stateAfter pre := Queue.after_eq_of_not_op hlegal ha
  refine ⟨?_, ?_, ?_⟩
  · intro harvestId job hjob
    rw [hstate] at hjob
    rw [startToken_idle ha, commits_of_ne (worksAt?_of_idle harvestId ha)]
    exact hB.settled harvestId job hjob
  · intro p request token hheard hunbounded
    by_cases hp : e.pid = p
    · subst hp
      rw [heardOf_of_idle pre ha] at hheard
      cases hheard
    · rw [heardOf_of_ne pre hp] at hheard
      rcases hB.informed p request token hheard hunbounded with ⟨id, hstopped⟩
      exact ⟨id, stopped_idle hlegal ha hstopped⟩
  · intro harvestId job hjob hunbounded token htoken
    rw [hstate] at hjob
    rw [startToken_idle ha] at htoken
    rcases hB.begun harvestId job hjob hunbounded token htoken with ⟨earlier, hlt, hstopped⟩
    exact ⟨earlier, hlt, stopped_idle hlegal ha hstopped⟩

theorem backed_step (h : Hearing pre e) (hI : ∀ harvestId, Linked harvestId pre)
    (hB : Backed pre) : Backed (e :: pre) := by
  by_cases ha : ∃ o r, e.action = .op o r
  · rcases ha with ⟨o, r, ha⟩
    have he : Turn pre e o r := h.orderly.turn ha
    refine ⟨?_, ?_, ?_⟩
    · intro harvestId job hjob
      exact he.settled (hI harvestId) h.read (hB.settled harvestId) hjob
    · intro p request token hheard hunbounded
      exact he.informed hB hheard hunbounded
    · intro harvestId job hjob hunbounded token htoken
      exact he.begun hB h hjob hunbounded htoken
  · exact backed_idle h.orderly.legal (fun o r h => ha ⟨o, r, h⟩) hB

theorem backed_nil : Backed ([] : History (fleet d)) where
  settled harvestId job hjob := by cases hjob
  informed p request token hheard := by cases hheard
  begun harvestId job hjob := by cases hjob

end Events

/-! ## The pages of several jobs -/

/-- The pages of the job, and before them those of the jobs that it goes on from: each has stopped,
and stores the token that the next one started with. -/
inductive PagesOf (h : History (fleet d)) (key : WatermarkKey) : Uuid → List Commit → Prop
  | first (harvestId : Uuid) (start : startToken harvestId h = none) :
      PagesOf h key harvestId (commits harvestId h)
  | continued (harvestId earlier : Uuid) (token : ResumptionToken) (job : OaiJobRow)
      (older : List Commit) (start : startToken harvestId h = some token)
      (before : earlier < harvestId) (job_eq : (stateAfter h).oai.job? earlier = some job)
      (writes : WritesFor job.request key) (stopped : job.status ≠ .running)
      (stored : job.resumptionToken = some token) (pages : PagesOf h key earlier older) :
      PagesOf h key harvestId (commits harvestId h ++ older)

section Pages

variable {h : History (fleet d)} {key : WatermarkKey} {harvestId : Uuid}

theorem Backed.exists_pages (hB : Backed h) {job : OaiJobRow}
    (hjob : (stateAfter h).oai.job? harvestId = some job) (hwrites : WritesFor job.request key) :
    ∃ pages, PagesOf h key harvestId pages := by
  induction harvestId using Nat.strong_induction_on generalizing job with
  | h harvestId ih =>
      cases hstart : startToken harvestId h with
      | none => exact ⟨_, .first harvestId hstart⟩
      | some token =>
          rcases hB.begun harvestId job hjob hwrites.2 token hstart with
            ⟨earlier, hlt, job', hjob', hwrites', hstopped, htoken⟩
          rw [hwrites.1] at hwrites'
          rcases ih earlier hlt hjob' hwrites' with ⟨older, holder⟩
          exact ⟨_, .continued harvestId earlier token job' older hstart hlt hjob' hwrites'
            hstopped ((hB.settled earlier job' hjob').trans htoken) holder⟩

theorem nextToken_append (token : Option ResumptionToken) (log older : List Commit) :
    nextToken token (log ++ older) = nextToken (nextToken token older) log := by
  cases log <;> rfl

/-- Pages that start from the token that older ones left follow them. -/
theorem Follows.append {log older : List Commit} (hlog : Follows (nextToken none older) log)
    (holder : Follows none older) (hleft : (nextToken none older).isSome = true) :
    Follows none (log ++ older) := by
  rintro k rest ⟨before, hs⟩
  rcases List.append_eq_append_iff.1 hs with ⟨newer, rfl, hrest⟩ | ⟨newer, rfl, hrest⟩
  · cases newer with
    | nil => exact holder k rest ⟨[], hrest⟩
    | cons k' newer =>
        cases hrest
        rcases hlog k newer ⟨before, rfl⟩ with ⟨htoken, hsome⟩
        refine ⟨htoken.trans (nextToken_append none newer older).symm, fun _ => ?_⟩
        cases newer with
        | nil =>
            rw [htoken]
            exact hleft
        | cons k' newer => exact hsome (List.cons_ne_nil _ _)
  · exact holder k rest ⟨newer, hrest.symm⟩

/-- The pages of the jobs follow each other, and leave what those of the last job leave. -/
theorem PagesOf.follows {pages : List Commit} (hpages : PagesOf h key harvestId pages)
    (hI : ∀ harvestId, Linked harvestId h) (hS : Settled h) : Follows none pages ∧
      nextToken none pages = nextToken (startToken harvestId h) (commits harvestId h) := by
  induction hpages with
  | first harvestId hstart =>
      have hfollows := follows_of_accepted (hI harvestId).accepted
      rw [hstart] at hfollows ⊢
      exact ⟨hfollows, rfl⟩
  | continued harvestId earlier token job older hstart _ hjob _ _ hstored _ ih =>
      have hleft : nextToken none older = some token :=
        ih.2.trans ((hS earlier job hjob).symm.trans hstored)
      have hfollows := follows_of_accepted (hI harvestId).accepted
      rw [hstart, ← hleft] at hfollows ⊢
      refine ⟨hfollows.append ih.1 ?_, nextToken_append none _ older⟩
      rw [hleft]
      rfl

theorem PagesOf.ended {pages : List Commit} (hpages : PagesOf h key harvestId pages)
    (hended : ChainEnded (commits harvestId h)) : ChainEnded pages := by
  cases hpages with
  | first => exact hended
  | continued _ earlier token job older =>
      rcases hended with ⟨k, newer, hlog, hnext, hsound⟩
      rw [hlog]
      exact ⟨k, newer ++ older, rfl, hnext, hsound⟩

end Pages

/-! ## Watermarks and records -/

/-- The watermark that the event writes, and for which harvest. -/
def watermark? (e : Event (fleet d)) : Option (WatermarkKey × Uuid) :=
  match e.action with
  | .op (.oai (.setOaiWatermark key _ _ harvestId _)) _ => some (key, harvestId)
  | _ => none

/-- The harvest has written the watermark under the key. -/
def Wrote (h : History (fleet d)) (key : WatermarkKey) (harvestId : Uuid) : Prop :=
  ∃ e ∈ h, watermark? e = some (key, harvestId)

/-- What a run keeps of the watermarks, and of the records of the pages. -/
structure Recorded (h : History (fleet d)) : Prop where
  written : ∀ key row, (stateAfter h).oai.watermarks key = some row →
    Wrote h key row.lastSuccessfulHarvestId
  /-- A harvest that has written a watermark is one for it, and its chain has ended. -/
  ended : ∀ key harvestId, Wrote h key harvestId → ∃ job,
    (stateAfter h).oai.job? harvestId = some job ∧ WritesFor job.request key ∧
      ChainEnded (commits harvestId h)
  stored : ∀ harvestId, ∀ k ∈ commits harvestId h, ∀ record ∈ k.checkpoint.records,
    (rowOf? (stateAfter h).library.oaiRecords (recordKey record)).isSome = true

section Events

variable {pre : History (fleet d)} {e : Event (fleet d)} {o : Op} {r : Except Exn o.Res}
  {harvestId : Uuid} {key : WatermarkKey}

theorem wrote_cons : Wrote (e :: pre) key harvestId ↔
    watermark? e = some (key, harvestId) ∨ Wrote pre key harvestId := by
  simp only [Wrote, List.mem_cons, exists_eq_or_imp]

/-- Nothing is committed after the end of a chain. -/
theorem ChainEnded.kept (hended : ChainEnded (commits harvestId pre))
    (hI : Linked harvestId (e :: pre)) : ChainEnded (commits harvestId (e :: pre)) := by
  have haccepted := hI.accepted
  rw [commits_cons] at haccepted ⊢
  cases hcommit : commit? harvestId e with
  | none => exact hended
  | some k =>
      rw [hcommit] at haccepted
      have hunfinished := haccepted.1.unfinished
      rcases hended with ⟨k', older, hlog, hnext, _⟩
      rw [hlog] at hunfinished
      change k'.checkpoint.nextResumptionToken.isNone = false at hunfinished
      rw [hnext] at hunfinished
      cases hunfinished

/-- A checkpoint that moves its job has stored the records of its page. -/
theorem checkpoint_library {c : Checkpoint} {t : Int} {r : Except Exn (Nat × Nat × Nat)}
    {s s' : Store} (h : Store.Performed (.checkpointOaiPage c) t r s s')
    (hmoved : s'.oai ≠ s.oai) :
    s'.library = (s.library.upsertOaiRecords c.records c.timestamp).2 := by
  rcases h.state with rfl | ⟨input, rfl⟩
  · exact absurd rfl hmoved
  · simp only [Store.exec, Store.checkpointOaiPage] at hmoved ⊢
    split
    · rfl
    · rename_i hmatches
      rw [if_neg hmatches] at hmoved
      exact absurd rfl hmoved

/-- The row of a watermark names who wrote it before, or who writes it now. -/
theorem Turn.written (he : Turn pre e o r) (hR : Recorded pre) {row : OaiWatermarkRow}
    (hrow : e.after.oai.watermarks key = some row) :
    Wrote (e :: pre) key row.lastSuccessfulHarvestId := by
  have hbefore : ∀ row, (stateAfter pre).oai.watermarks key = some row →
      Wrote (e :: pre) key row.lastSuccessfulHarvestId :=
    fun row hrow => wrote_cons.2 (Or.inr (hR.written key row hrow))
  rcases watermarks_effect he.performed with hsame |
    ⟨key', lastResponseDate, lastDatestampSeen, harvestId, timestamp, ho, hset⟩
  · rw [hsame] at hrow
    exact hbefore row hrow
  · subst ho
    rw [hset] at hrow
    by_cases hkey : key' = key
    · subst hkey
      have hnow : Wrote (e :: pre) key' harvestId :=
        wrote_cons.2 (Or.inl (by simp only [watermark?, he.action]))
      simp only [OaiTables.setOaiWatermark, Function.update_self, Option.some.injEq] at hrow
      subst hrow
      split
      · exact hnow
      · rename_i stored hstored
        dsimp only
        split
        · exact hnow
        · exact hbefore stored hstored
    · simp only [OaiTables.setOaiWatermark, Function.update_of_ne (Ne.symm hkey)] at hrow
      exact hbefore row hrow

theorem Turn.ended (he : Turn pre e o r) (hI : ∀ harvestId, Linked harvestId pre)
    (hI' : Linked harvestId (e :: pre)) (hR : Recorded pre)
    (hwrote : Wrote (e :: pre) key harvestId) : ∃ job, e.after.oai.job? harvestId = some job ∧
      WritesFor job.request key ∧ ChainEnded (commits harvestId (e :: pre)) := by
  have hkept : ∀ job, (stateAfter pre).oai.job? harvestId = some job → WritesFor job.request key →
      ChainEnded (commits harvestId pre) → ∃ job, e.after.oai.job? harvestId = some job ∧
        WritesFor job.request key ∧ ChainEnded (commits harvestId (e :: pre)) := by
    intro job hjob hwrites hended
    rcases he.effect.rows harvestId job hjob with ⟨job', hjob', heffect⟩
    refine ⟨job', hjob', ?_, hended.kept hI'⟩
    rw [heffect.request_eq]
    exact hwrites
  rcases wrote_cons.1 hwrote with hnow | hbefore
  · unfold watermark? at hnow
    rw [he.action] at hnow
    split at hnow
    · rename_i hop
      cases hop
      cases hnow
      rcases he.watermark hI rfl with ⟨hended, _, _, job, hjob, rfl, hunbounded⟩
      exact hkept job hjob ⟨rfl, hunbounded⟩ hended
    · cases hnow
  · rcases hR.ended key harvestId hbefore with ⟨job, hjob, hwrites, hended⟩
    exact hkept job hjob hwrites hended

theorem Turn.stored (he : Turn pre e o r) (hR : Recorded pre) {k : Commit}
    (hk : k ∈ commits harvestId (e :: pre)) {record : OaiRecord}
    (hrecord : record ∈ k.checkpoint.records) :
    (rowOf? e.after.library.oaiRecords (recordKey record)).isSome = true := by
  rw [commits_cons, List.mem_append] at hk
  rcases hk with hnew | hold
  · rw [Option.mem_toList] at hnew
    unfold commit? at hnew
    split at hnew
    · rename_i c r' ha
      split at hnew
      · rename_i hmoved
        cases hnew
        have hsame := he.action.symm.trans ha
        cases hsame
        have hlibrary := checkpoint_library he.performed fun hsame =>
          hmoved.2 (by rw [hsame, he.before_eq])
        rw [hlibrary]
        exact (LibraryStep.records (o := .checkpointOaiPage c) rfl).stored
          (Or.inr ⟨_, rfl, record, hrecord, rfl⟩)
      · cases hnew
    · cases hnew
  · have hthere := hR.stored harvestId k hold record hrecord
    rcases libraryStep_of_performed he.performed with hsame | hstep
    · rw [hsame]
      exact hthere
    · exact hstep.stored (Or.inl hthere)

theorem recorded_idle (hlegal : Legal pre e) (ha : ∀ o r, e.action ≠ .op o r)
    (hR : Recorded pre) : Recorded (e :: pre) := by
  have hstate : stateAfter (e :: pre) = stateAfter pre := Queue.after_eq_of_not_op hlegal ha
  have hcommits : ∀ harvestId, commits harvestId (e :: pre) = commits harvestId pre :=
    fun harvestId => commits_of_ne (worksAt?_of_idle harvestId ha)
  have hwrote : ∀ key harvestId, Wrote (e :: pre) key harvestId → Wrote pre key harvestId := by
    intro key harvestId hwrote
    rcases wrote_cons.1 hwrote with hnow | hbefore
    · unfold watermark? at hnow
      split at hnow
      · exact absurd ‹_› (ha _ _)
      · cases hnow
    · exact hbefore
  refine ⟨?_, ?_, ?_⟩
  · rw [hstate]
    exact fun key row hrow => wrote_cons.2 (Or.inr (hR.written key row hrow))
  · intro key harvestId hwritten
    rw [hstate, hcommits]
    exact hR.ended key harvestId (hwrote key harvestId hwritten)
  · rw [hstate]
    intro harvestId k hk
    rw [hcommits] at hk
    exact hR.stored harvestId k hk

theorem recorded_step (h : Orderly pre e) (hI : ∀ harvestId, Linked harvestId pre)
    (hR : Recorded pre) : Recorded (e :: pre) := by
  by_cases ha : ∃ o r, e.action = .op o r
  · rcases ha with ⟨o, r, ha⟩
    have he := h.turn ha
    exact ⟨fun key row hrow => he.written hR hrow,
      fun key harvestId hwrote => he.ended hI (linked_step h (hI harvestId)) hR hwrote,
      fun harvestId k hk record hrecord => he.stored hR hk hrecord⟩
  · exact recorded_idle h.legal (fun o r h => ha ⟨o, r, h⟩) hR

theorem recorded_nil : Recorded ([] : History (fleet d)) where
  written key row hrow := by cases hrow
  ended := by
    rintro key harvestId ⟨e, he, _⟩
    cases he
  stored harvestId k hk := by cases hk

end Events

/-! ## The theorem -/

/-- Who has written a watermark goes on from jobs that have stopped, back to a request without a
token; their pages follow each other to one without a next token, and all their records are
stored. -/
structure FullChain (h : History (fleet d)) (key : WatermarkKey) (harvestId : Uuid)
    (pages : List Commit) : Prop where
  job : ∃ job, (stateAfter h).oai.job? harvestId = some job ∧ WritesFor job.request key
  jobs : PagesOf h key harvestId pages
  follows : Follows none pages
  ended : ChainEnded pages
  stored : ∀ k ∈ pages, ∀ record ∈ k.checkpoint.records,
    (rowOf? (stateAfter h).library.oaiRecords (recordKey record)).isSome = true

/-- Every watermark was written by harvests of a full chain. -/
structure WatermarksFull (h : History (fleet d)) : Prop where
  written : ∀ key row, (stateAfter h).oai.watermarks key = some row →
    Wrote h key row.lastSuccessfulHarvestId
  full : ∀ key harvestId, Wrote h key harvestId → ∃ pages, FullChain h key harvestId pages

theorem PagesOf.mem {h : History (fleet d)} {key : WatermarkKey} {harvestId : Uuid}
    {pages : List Commit} (hpages : PagesOf h key harvestId pages) {k : Commit} (hk : k ∈ pages) :
    ∃ id, k ∈ commits id h := by
  induction hpages with
  | first harvestId => exact ⟨harvestId, hk⟩
  | continued harvestId earlier token job older _ _ _ _ _ _ _ ih =>
      rcases List.mem_append.1 hk with hnew | hold
      · exact ⟨harvestId, hnew⟩
      · exact ih hold

/-- What a run keeps of jobs that go on from one another. -/
structure Handed (h : History (fleet d)) : Prop where
  linked : ∀ harvestId, Linked harvestId h
  backed : Backed h
  recorded : Recorded h

theorem handed_nil : Handed ([] : History (fleet d)) where
  linked := linked_nil
  backed := backed_nil
  recorded := recorded_nil

theorem handed_step {pre : History (fleet d)} {e : Event (fleet d)} (h : Hearing pre e)
    (hH : Handed pre) : Handed (e :: pre) where
  linked harvestId := linked_step h.orderly (hH.linked harvestId)
  backed := backed_step h hH.linked hH.backed
  recorded := recorded_step h.orderly hH.linked hH.recorded

/-- In every run in which a job that is to write a watermark is given no token but one that a
stopped job of that watermark stores, and who ends a job early has read all of its pages. -/
theorem watermarks_full_chain (d : Deployment) (sched : List (Config.Choice (fleet d)))
    (hleft : Throughout TokenLeft (Config.after (fleet d) sched).history)
    (hread : Throughout EndsRead (Config.after (fleet d) sched).history) :
    WatermarksFull (Config.after (fleet d) sched).history := by
  have hhearing : Throughout Hearing (Config.after (fleet d) sched).history := by
    refine (((orderly_after d sched).and (hears_after d sched)).and (hleft.and hread)).mono ?_
    rintro pre e ⟨⟨horderly, hhears⟩, hleft, hread⟩
    exact ⟨horderly, hhears, hleft, hread⟩
  have hH := hhearing.invariant handed_nil fun _ _ hH he => handed_step he hH
  refine ⟨hH.recorded.written, ?_⟩
  intro key harvestId hwrote
  rcases hH.recorded.ended key harvestId hwrote with ⟨job, hjob, hwrites, hended⟩
  rcases hH.backed.exists_pages hjob hwrites with ⟨pages, hpages⟩
  refine ⟨pages, ⟨job, hjob, hwrites⟩, hpages,
    (hpages.follows hH.linked hH.backed.settled).1, hpages.ended hended, ?_⟩
  intro k hk record hrecord
  rcases hpages.mem hk with ⟨id, hmem⟩
  exact hH.recorded.stored id k hmem record hrecord

/-! ## A token that no job has left -/

instance (request : OaiHarvestRequest) (key : WatermarkKey) : Decidable (WritesFor request key) :=
  inferInstanceAs (Decidable (watermarkKey request = key ∧ shouldCommitOaiWatermark request = true))

instance (t : OaiTables) (key : WatermarkKey) (token : ResumptionToken) :
    Decidable (LeftBy t key token) :=
  inferInstanceAs (Decidable (∃ job ∈ t.jobs, WritesFor job.request key ∧
    job.status ≠ .running ∧ job.resumptionToken = some token))

instance (pre : History (fleet d)) (e : Event (fleet d)) : Decidable (TokenLeft pre e) :=
  inferInstanceAs (Decidable (∀ request ∈ created? e, shouldCommitOaiWatermark request = true →
    ∀ explicit ∈ request.resumptionToken, LeftBy e.before.oai (watermarkKey request) explicit))

instance (pre : History (fleet d)) (e : Event (fleet d)) : Decidable (EndsRead pre e) :=
  inferInstanceAs (Decidable (∀ c ∈ completion? e, c.status ≠ .completed →
    ∀ st ∈ standOf e.pid pre, st.cursor.pageIndex = (commits c.harvestId pre).length))

instance (h : History (fleet d)) (key : WatermarkKey) (harvestId : Uuid) :
    Decidable (Wrote h key harvestId) :=
  inferInstanceAs (Decidable (∃ e ∈ h, watermark? e = some (key, harvestId)))

/-- A page with one deleted record, and no token of another one. -/
def pageAtEnd : Input :=
  { page := .ok
      { records :=
          [{ oaiIdentifier := "oai:arXiv.org:2401.00002"
             metadataPrefix := .arXiv
             deleted := true }]
        responseDate := none
        resumptionToken := none } }

/-- Process 0 commits the first page and ends its job when the server fails; process 1 goes on from
its token to the last page. -/
def takenFurther : List (Config.Choice (fleet {})) :=
  .start 0 (.harvestOai {}) :: runs 0 25 ++ .run 0 (pageBefore firstToken) :: runs 0 17 ++
    .tick 10000000 :: runs 0 8 ++
    .run 0 { page := .error (.transientFetchError "" none) } :: runs 0 11 ++
    .tick 100000000 :: .start 1 (.harvestOai {}) :: runs 1 24 ++ .run 1 pageAtEnd :: runs 1 12

set_option maxRecDepth 8000 in
theorem watermarks_full_taken_further :
    WatermarksFull (Config.after (fleet {}) takenFurther).history ∧
      Wrote (Config.after (fleet {}) takenFurther).history (watermarkKey {}) 15 ∧
      startToken 15 (Config.after (fleet {}) takenFurther).history = some firstToken :=
  ⟨watermarks_full_chain {} takenFurther (by decide +kernel) (by decide +kernel),
    by decide +kernel, by decide +kernel⟩

/-- A harvest of an empty store with a token of its own: its page is the last one. -/
def foreignToken : List (Config.Choice (fleet {})) :=
  .start 0 (.harvestOai { resumptionToken := some firstToken }) :: runs 0 23 ++
    .run 0 pageAtEnd :: runs 0 12

set_option maxRecDepth 8000 in
theorem foreign_token_advances :
    ¬ WatermarksFull (Config.after (fleet {}) foreignToken).history ∧
      ((Config.after (fleet {}) foreignToken).state.oai.watermarks (watermarkKey {})).map
        (·.lastSuccessfulHarvestId) = some 2 ∧
      (commits 2 (Config.after (fleet {}) foreignToken).history).map
        (·.checkpoint.consumedResumptionToken) = [some firstToken] := by
  have hwrote : Wrote (Config.after (fleet {}) foreignToken).history (watermarkKey {}) 2 := by
    decide +kernel
  have hstart : startToken 2 (Config.after (fleet {}) foreignToken).history = some firstToken := by
    decide +kernel
  have hlone : ∀ job ∈ (stateAfter (Config.after (fleet {}) foreignToken).history).oai.jobs,
      job.harvestId = 2 := by
    decide +kernel
  refine ⟨?_, by decide +kernel, by decide +kernel⟩
  intro hfull
  rcases hfull.full _ 2 hwrote with ⟨pages, hchain⟩
  cases hchain.jobs with
  | first _ hnone =>
      rw [hstart] at hnone
      cases hnone
  | continued _ earlier token job older _ hbefore hjob =>
      -- There is no earlier job.
      have hid := hlone job (mem_of_job? hjob)
      rw [job?_harvestId hjob] at hid
      exact absurd hbefore (by rw [hid]; exact Nat.lt_irrefl 2)

end Harvest
end Huldra
