import Huldra.Harvest.Walk
import Huldra.Harvest.Jobs
import Huldra.Harvest.Rounds

/-!
# Bounds — how many requests and pages a job can have

The budgets are checked against counters that a process has read earlier, and the request is counted
in another transaction than the one that lets it out.  What holds the bound is the fence between
the two: a process that has lost its scope gets no request out, so the counter of the one that has
the scope covers every request of the job, also those still to be made by processes that have lost
it since.
-/

namespace Huldra
namespace Harvest

open Process (Prog)
open Process.System (Config Event History Throughout Legal Disciplined stateAfter Monitor)
open OaiTables

section Runs

variable {d : Deployment}

/-! ## Requests and pages -/

/-- The event begins a `ListRecords` call for the job. -/
def callsFor (harvestId : Uuid) (e : Event (fleet d)) : Bool :=
  match e.action with
  | .op (.upstream (.listRecordsBegin call)) _ => call.harvestId = harvestId
  | _ => false

/-- The event commits a page of the job. -/
def commitsFor (harvestId : Uuid) (e : Event (fleet d)) : Bool :=
  match e.action with
  | .op (.checkpointOaiPage c) _ =>
      c.harvestId = harvestId && e.after.oai.job? harvestId ≠ e.before.oai.job? harvestId
  | _ => false

/-- The operation fences a request that the process has counted for the job. -/
def WalkView.fences (x : WalkView) (harvestId : Uuid) (o : Op) (r : Except Exn o.Res) : Bool :=
  match o, r with
  | .lease (.renewLeasesIfOwned _), .ok true =>
      x.walk.any fun w => w.harvestId = harvestId && w.progress = .counted
  | _, _ => false

def fencesFor (harvestId : Uuid) (pre : History (fleet d)) (e : Event (fleet d)) : Bool :=
  match e.action with
  | .op o r => (walkOf e.pid pre).fences harvestId o r
  | _ => false

/-- The processes that have fenced a request for the job, and not yet made it. -/
def tickets (harvestId : Uuid) : History (fleet d) → List Nat
  | [] => []
  | e :: pre =>
      if fencesFor harvestId pre e then e.pid :: tickets harvestId pre
      else if callsFor harvestId e then (tickets harvestId pre).erase e.pid
      else tickets harvestId pre

/-- The requests that were let out: made, or still to be made. -/
def spent (harvestId : Uuid) (h : History (fleet d)) : Nat :=
  h.countP (callsFor harvestId) + (tickets harvestId h).length

/-- A request that is made was let out before; letting one out adds one. -/
theorem spent_cons {harvestId : Uuid} {pre : History (fleet d)} {e : Event (fleet d)}
    (hticket : callsFor harvestId e = true → e.pid ∈ tickets harvestId pre) :
    spent harvestId (e :: pre) =
      spent harvestId pre + if fencesFor harvestId pre e then 1 else 0 := by
  by_cases hfences : fencesFor harvestId pre e = true
  · have hcalls : callsFor harvestId e = false := by
      -- A renewal is not a call.
      unfold fencesFor at hfences
      unfold callsFor
      split at hfences
      · rename_i o r ha
        rw [ha]
        unfold WalkView.fences at hfences
        split at hfences
        · rfl
        · cases hfences
      · cases hfences
    simp only [spent, tickets, hfences, if_true, List.countP_cons, hcalls, List.length_cons,
      Bool.false_eq_true, if_false]
    omega
  · by_cases hcalls : callsFor harvestId e = true
    · have hmem := hticket hcalls
      have hlength := List.length_erase_of_mem hmem
      have hpos := List.length_pos_of_mem hmem
      simp only [spent, tickets, hfences, Bool.false_eq_true, if_false, List.countP_cons, hcalls,
        if_true, hlength]
      omega
    · simp [spent, tickets, hfences, hcalls]

/-! ## The invariant -/

/-- The process has the lease of its scope. -/
def Owns (x : WalkView) (leases : Leases) : Prop :=
  ∃ name uuid, x.scope = some name ∧ x.uuid = some uuid ∧
    leases.ownedBy name (.oaiHarvest uuid) = true

/-- What the counter of the process that has the scope covers. -/
def Covered (spent : Nat) (w : Walk) (job : OaiJobRow) : Prop :=
  match w.progress with
  | .between => spent ≤ w.requestsTotal
  | .counted => spent < w.request.maxRequests ∧
      (job.status = .running → spent < w.requestsTotal ∧ w.requestsTotal ≤ job.requestsTotal)
  | .fenced | .asked => job.status = .running → spent ≤ w.requestsTotal

/-- The view of a process names the scope and the job it stands for. -/
structure Fits (x : WalkView) (t : OaiTables) : Prop where
  named : ∀ name, x.scope = some name → ∃ uuid, x.uuid = some uuid
  known : ∀ w, x.walk = some w → x.scope = some (oaiScopeLeaseName w.request) ∧
    ∃ job, t.job? w.harvestId = some job ∧ job.request = w.request

/-- What every run keeps of the processes: their tokens differ, and their jobs are filed. -/
structure Placed (h : History (fleet d)) : Prop where
  filed : Filed (stateAfter h).nextUuid (stateAfter h).oai
  drawn : ∀ p uuid, (walkOf p h).uuid = some uuid → uuid < (stateAfter h).nextUuid
  distinct : ∀ p q uuid, (walkOf p h).uuid = some uuid → (walkOf q h).uuid = some uuid → p = q
  fits : ∀ p, Fits (walkOf p h) (stateAfter h).oai

/-- What every run keeps of the counters. -/
structure Accounted (h : History (fleet d)) : Prop where
  placed : Placed h
  holding : ∀ p w, (walkOf p h).walk = some w → w.progress = .fenced → p ∈ tickets w.harvestId h
  unknown : ∀ harvestId, (stateAfter h).oai.job? harvestId = none →
    spent harvestId h = 0 ∧ h.countP (commitsFor harvestId) = 0
  requests : ∀ harvestId job, (stateAfter h).oai.job? harvestId = some job →
    spent harvestId h ≤ job.request.maxRequests ∧
      (job.status = .running → spent harvestId h ≤ job.requestsTotal)
  pages : ∀ harvestId job, (stateAfter h).oai.job? harvestId = some job →
    h.countP (commitsFor harvestId) ≤ job.request.maxPages ∧
      (job.status = .running → h.countP (commitsFor harvestId) ≤ job.pagesTotal)
  covered : ∀ p w job, (walkOf p h).walk = some w → Owns (walkOf p h) (stateAfter h).leases →
    (stateAfter h).oai.job? w.harvestId = some job → Covered (spent w.harvestId h) w job

end Runs

/-! ## One operation, and the process that asks for it -/

section Operations

variable {x : WalkView} {o : Op} {t : Int} {r : Except Exn o.Res} {s s' : Store}

theorem Fits.performed (hfits : Fits x s.oai) (heffect : JobsEffect o s.nextUuid s.oai s'.oai) :
    Fits x s'.oai := by
  refine ⟨hfits.named, ?_⟩
  intro w hw
  rcases hfits.known w hw with ⟨hscope, job, hjob, hrequest⟩
  rcases heffect.rows _ job hjob with ⟨job', hjob', hchange⟩
  exact ⟨hscope, job', hjob', hchange.request_eq.trans hrequest⟩

theorem Fits.of_walk {y : WalkView} {tables : OaiTables} (hfits : Fits x tables)
    (hscope : y.scope = x.scope) (huuid : y.uuid = x.uuid)
    (hwalk : ∀ w', y.walk = some w' → ∃ w, x.walk = some w ∧ w'.harvestId = w.harvestId ∧
      w'.request = w.request) : Fits y tables := by
  refine ⟨?_, ?_⟩
  · intro name hname
    rw [hscope] at hname
    rw [huuid]
    exact hfits.named name hname
  · intro w' hw'
    rcases hwalk w' hw' with ⟨w, hw, hid, hrequest⟩
    rw [hscope, hid, hrequest]
    exact hfits.known w hw

/-- The operation of the process itself keeps its view in place. -/
theorem fits_step (hfiled : Filed s.nextUuid s.oai) (hfits : Fits x s.oai) (hallow : x.Allowed o)
    (h : Store.Performed o t r s s') : Fits (x.step o r) s'.oai := by
  have hkept : Fits x s'.oai := hfits.performed (jobsStep_of_performed hfiled h).effect
  rcases still_or_moving o with hstill | hmoving
  · rw [hstill.step]
    exact hkept
  · cases r with
    | error e =>
        cases hmoving with
        | called call =>
            refine hkept.of_walk rfl rfl ?_
            intro w' hw'
            rcases Option.map_eq_some_iff.1 hw' with ⟨w, hw, rfl⟩
            exact ⟨w, hw, rfl, rfl⟩
        | _ => exact hkept
    | ok b =>
        cases hmoving with
        | drawn =>
            exact ⟨fun name _ => ⟨b, rfl⟩, hkept.known⟩
        | acquired name owner timeout hne =>
            cases b with
            | false => exact hkept
            | true =>
                rw [step_acquired x hne]
                rcases hallow with hname | ⟨hnone, uuid, huuid, _⟩
                · exact absurd hname hne
                · refine ⟨fun _ _ => ⟨uuid, huuid⟩, ?_⟩
                  intro w hw
                  have hscope := (hkept.known w hw).1
                  rw [hnone] at hscope
                  cases hscope
        | renewed renewals =>
            cases b with
            | false => exact hkept
            | true =>
                refine hkept.of_walk rfl rfl ?_
                intro w' hw'
                rcases Option.map_eq_some_iff.1 hw' with ⟨w, hw, rfl⟩
                exact ⟨w, hw, rfl, rfl⟩
        | found request =>
            cases b with
            | none => exact hkept
            | some row =>
                rcases running_of_answer h with ⟨hrow, hsame⟩
                rcases getRunningOaiHarvest_spec hrow with ⟨hmem, _, hscope⟩
                cases hx : x.scope with
                | none =>
                    have hstep : x.step (.oai (.getRunningOaiHarvest request)) (.ok (some row)) =
                        x := if_neg (by simp [hx])
                    rw [hstep]
                    exact hkept
                | some name =>
                    rw [step_found (by simp [hx])]
                    refine ⟨hkept.named, ?_⟩
                    intro w hw
                    cases hw
                    refine ⟨?_, row, by rw [hsame]; exact job?_of_mem hfiled hmem, rfl⟩
                    rw [hx, hallow name hx, ← oaiScopeLeaseName_congr hscope]
                    rfl
        | created request token started =>
            refine ⟨hkept.named, ?_⟩
            intro w hw
            cases hw
            exact ⟨hallow, _, (created_of_answer hfiled h).2, rfl⟩
        | counted harvestId timestamp =>
            refine hkept.of_walk rfl rfl ?_
            intro w' hw'
            rcases Option.map_eq_some_iff.1 hw' with ⟨w, hw, rfl⟩
            exact ⟨w, hw, rfl, rfl⟩
        | called call =>
            refine hkept.of_walk rfl rfl ?_
            intro w' hw'
            rcases Option.map_eq_some_iff.1 hw' with ⟨w, hw, rfl⟩
            exact ⟨w, hw, rfl, rfl⟩
        | committed c =>
            refine hkept.of_walk rfl rfl ?_
            intro w' hw'
            rcases Option.map_eq_some_iff.1 hw' with ⟨w, hw, rfl⟩
            exact ⟨w, hw, rfl, rfl⟩
        | reopened c hrunning => exact absurd hrunning hallow

/-- Who has a scope has acquired it before: a process with a job asks for no other. -/
theorem owns_before (hfits : Fits x s.oai) (hallow : x.Allowed o) (h : Store.Performed o t r s s')
    {w : Walk} (hw : x.walk = some w) (howns : Owns x s'.leases) : Owns x s.leases := by
  rcases howns with ⟨name, uuid, hname, huuid, howned⟩
  rcases ownedBy_of_performed h howned with hbefore | ⟨timeout, rfl⟩
  · exact ⟨name, uuid, hname, huuid, hbefore⟩
  · have hscope := (hfits.known w hw).1
    rcases hallow with hlimiter | ⟨hnone, _⟩
    · rw [hname] at hscope
      exact absurd (hlimiter ▸ (Option.some.inj hscope).symm) (oaiScopeLeaseName_ne w.request)
    · rw [hnone] at hscope
      cases hscope

/-- What a counter covers it still covers once the row has moved on. -/
theorem Covered.mono {spent : Nat} {w : Walk} {job job' : OaiJobRow} (h : Covered spent w job)
    (hrunning : job'.status = .running →
      job.status = .running ∧ job.requestsTotal ≤ job'.requestsTotal) : Covered spent w job' := by
  unfold Covered at h ⊢
  cases hprogress : w.progress with
  | between => simpa [hprogress] using h
  | counted =>
      simp only [hprogress] at h ⊢
      refine ⟨h.1, ?_⟩
      intro hrun
      have hbefore := hrunning hrun
      exact ⟨(h.2 hbefore.1).1, Nat.le_trans (h.2 hbefore.1).2 hbefore.2⟩
  | fenced =>
      simp only [hprogress] at h ⊢
      exact fun hrun => h (hrunning hrun).1
  | asked =>
      simp only [hprogress] at h ⊢
      exact fun hrun => h (hrunning hrun).1

theorem Still.fences (ho : Still o) (x : WalkView) (harvestId : Uuid) :
    x.fences harvestId o r = false := by
  unfold WalkView.fences
  split
  · exact ho.elim
  · rfl

/-- The operation of the process itself: what its counter covers once the operation is done. -/
theorem covered_step (hfiled : Filed s.nextUuid s.oai) (hfits : Fits x s.oai)
    (hallow : x.Allowed o) (h : Store.Performed o t r s s') {n : Nat} {w' : Walk}
    {job' : OaiJobRow} (hw' : (x.step o r).walk = some w')
    (hjob' : s'.oai.job? w'.harvestId = some job')
    (hunknown : s.oai.job? w'.harvestId = none → n = 0)
    (hrequests : ∀ job, s.oai.job? w'.harvestId = some job → job.status = .running →
      n ≤ job.requestsTotal)
    (hcovered : ∀ w job, x.walk = some w → w.harvestId = w'.harvestId →
      s.oai.job? w'.harvestId = some job → Covered n w job) :
    Covered (n + if x.fences w'.harvestId o r then 1 else 0) w' job' := by
  have hstep := jobsStep_of_performed hfiled h
  have hcompletes : ∀ c, o = .oai (.completeOaiHarvestJob c) → c.status ≠ .running := by
    rintro c rfl
    exact hallow
  have hbefore : ∀ w, x.walk = some w → w.harvestId = w'.harvestId →
      ∃ job, s.oai.job? w'.harvestId = some job ∧ JobEffect o job job' ∧ Covered n w job := by
    intro w hw hid
    rcases (hfits.known w hw).2 with ⟨job, hjob, _⟩
    rw [hid] at hjob
    rcases hstep.effect.rows _ job hjob with ⟨job'', hjob'', hchange⟩
    rw [hjob'] at hjob''
    cases hjob''
    exact ⟨job, hjob, hchange, hcovered w job hw hid hjob⟩
  have hkept : ∀ w, x.walk = some w → w.harvestId = w'.harvestId → Covered n w job' := by
    intro w hw hid
    rcases hbefore w hw hid with ⟨job, _, hchange, hcov⟩
    refine hcov.mono ?_
    intro hrunning
    have hrow := hchange.running hcompletes hrunning
    exact ⟨hrow.1, hrow.2.1⟩
  -- Where the view does not move, nothing was fenced either.
  have hsame : x.step o r = x → x.fences w'.harvestId o r = false →
      Covered (n + if x.fences w'.harvestId o r then 1 else 0) w' job' := by
    intro hx hfences
    rw [hx] at hw'
    simpa [hfences] using hkept w' hw' rfl
  rcases still_or_moving o with hstill | hmoving
  · exact hsame (hstill.step x r) (hstill.fences x _)
  · cases r with
    | error e =>
        cases hmoving with
        | called call =>
            rcases Option.map_eq_some_iff.1 hw' with ⟨w, hw, rfl⟩
            rcases hallow with ⟨w₀, hw₀, _, hfenced⟩
            rw [hw] at hw₀
            cases hw₀
            have hcov := hkept w hw rfl
            simp only [Covered, hfenced] at hcov
            simpa [Covered, WalkView.fences] using hcov
        | _ => exact hsame rfl rfl
    | ok b =>
        cases hmoving with
        | drawn =>
            -- Nothing is walked before the token is drawn.
            have hw : x.walk = some w' := hw'
            rcases hfits.named _ (hfits.known w' hw).1 with ⟨uuid, huuid⟩
            have hnone : x.uuid = none := hallow
            rw [hnone] at huuid
            cases huuid
        | acquired name owner timeout hne =>
            cases b with
            | false => exact hsame rfl rfl
            | true =>
                rw [step_acquired x hne] at hw'
                simpa [WalkView.fences] using hkept w' hw' rfl
        | renewed renewals =>
            cases b with
            | false => exact hsame rfl rfl
            | true =>
                rcases Option.map_eq_some_iff.1 hw' with ⟨w, hw, rfl⟩
                have hcov := hkept w hw rfl
                by_cases hcounted : w.progress = .counted
                · simp only [Covered, hcounted] at hcov
                  simp only [Covered, WalkView.fences, Walk.fence, hw, hcounted, Option.any_some,
                    if_true, decide_true, Bool.and_self]
                  intro hrunning
                  have hbelow := (hcov.2 hrunning).1
                  omega
                · rw [Walk.fence_of_ne hcounted]
                  simpa [WalkView.fences, hw, hcounted] using hcov
        | found request =>
            cases b with
            | none => exact hsame rfl rfl
            | some row =>
                by_cases hscope : x.scope.isSome = true
                · rw [step_found hscope] at hw'
                  cases hw'
                  rcases getRunningOaiHarvest_spec (running_of_answer h).1 with
                    ⟨hmem, hrunning, _⟩
                  exact hrequests row (job?_of_mem hfiled hmem) hrunning
                · exact hsame (if_neg hscope) rfl
        | created request token started =>
            cases hw'
            have hzero := hunknown (created_of_answer hfiled h).1
            subst hzero
            exact Nat.le_refl 0
        | counted harvestId timestamp =>
            rcases Option.map_eq_some_iff.1 hw' with ⟨w, hw, rfl⟩
            rcases hallow with ⟨w₀, hw₀, hid, hbetween, hbelow⟩
            rw [hw] at hw₀
            cases hw₀
            rcases hbefore w hw rfl with ⟨job, hjob, hchange, hcov⟩
            simp only [Covered, hbetween] at hcov
            refine ⟨Nat.lt_of_le_of_lt hcov hbelow, ?_⟩
            intro hrunning
            have hrow := hchange.running hcompletes hrunning
            have hn := hrequests job hjob hrow.1
            dsimp only at hjob hjob'
            rw [hid] at hjob hjob'
            have htotal := counted_of_answer h hjob hjob'
            have hincreased := htotal.2 hrow.1
            refine ⟨?_, Nat.le_of_eq htotal.1.symm⟩
            show n < b
            omega
        | called call =>
            rcases Option.map_eq_some_iff.1 hw' with ⟨w, hw, rfl⟩
            rcases hallow with ⟨w₀, hw₀, _, hfenced⟩
            rw [hw] at hw₀
            cases hw₀
            have hcov := hkept w hw rfl
            simp only [Covered, hfenced] at hcov
            simpa [Covered, WalkView.fences] using hcov
        | committed c =>
            rcases Option.map_eq_some_iff.1 hw' with ⟨w, hw, rfl⟩
            rcases hallow with ⟨w₀, hw₀, hid, hasked, _⟩
            rw [hw] at hw₀
            cases hw₀
            rcases hbefore w hw rfl with ⟨job, hjob, _, hcov⟩
            simp only [Covered, hasked] at hcov
            have hmatches := matchesCursor_of_answer h
            dsimp only at hjob
            rw [hid] at hjob
            simp only [matchesCursor, hjob, Bool.and_eq_true, decide_eq_true_eq] at hmatches
            exact hcov hmatches.1.1
        | reopened c hrunning => exact absurd hrunning hallow

/-- A fenced request is fenced now, or was and is not made now. -/
theorem fenced_step {w' : Walk} (hw' : (x.step o r).walk = some w')
    (hfenced : w'.progress = .fenced) :
    x.fences w'.harvestId o r = true ∨
      (x.walk = some w' ∧ ∀ call, o ≠ .upstream (.listRecordsBegin call)) := by
  rcases still_or_moving o with hstill | hmoving
  · right
    rw [hstill.step] at hw'
    refine ⟨hw', ?_⟩
    rintro call rfl
    exact hstill
  · cases hmoving with
    | called call =>
        rcases Option.map_eq_some_iff.1 hw' with ⟨w, _, rfl⟩
        cases hfenced
    | renewed renewals =>
        cases r with
        | error e => exact Or.inr ⟨hw', by rintro _ ⟨⟩⟩
        | ok b =>
            cases b with
            | false => exact Or.inr ⟨hw', by rintro _ ⟨⟩⟩
            | true =>
                rcases Option.map_eq_some_iff.1 hw' with ⟨w, hw, rfl⟩
                by_cases hcounted : w.progress = .counted
                · left
                  simp [WalkView.fences, hw, hcounted]
                · right
                  rw [Walk.fence_of_ne hcounted]
                  exact ⟨hw, by rintro _ ⟨⟩⟩
    | acquired name owner timeout hne =>
        right
        refine ⟨?_, by rintro _ ⟨⟩⟩
        cases r with
        | error e => exact hw'
        | ok b =>
            cases b with
            | false => exact hw'
            | true =>
                rw [step_acquired x hne] at hw'
                exact hw'
    | found request =>
        right
        refine ⟨?_, by rintro _ ⟨⟩⟩
        cases r with
        | error e => exact hw'
        | ok b =>
            cases b with
            | none => exact hw'
            | some row =>
                simp only [WalkView.step] at hw'
                split at hw'
                · cases hw'
                  cases hfenced
                · exact hw'
    | created request token started =>
        right
        refine ⟨?_, by rintro _ ⟨⟩⟩
        cases r with
        | error e => exact hw'
        | ok b =>
            cases hw'
            cases hfenced
    | counted harvestId timestamp =>
        right
        refine ⟨?_, by rintro _ ⟨⟩⟩
        cases r with
        | error e => exact hw'
        | ok b =>
            rcases Option.map_eq_some_iff.1 hw' with ⟨w, _, rfl⟩
            cases hfenced
    | committed c =>
        right
        refine ⟨?_, by rintro _ ⟨⟩⟩
        cases r with
        | error e => exact hw'
        | ok b =>
            rcases Option.map_eq_some_iff.1 hw' with ⟨w, _, rfl⟩
            cases hfenced
    | drawn =>
        right
        refine ⟨?_, by rintro _ ⟨⟩⟩
        cases r <;> exact hw'
    | reopened c hrunning => exact Or.inr ⟨hw', by rintro _ ⟨⟩⟩

/-- A process that has a job keeps its scope and its token. -/
theorem holder_step (hfits : Fits x s.oai) (hallow : x.Allowed o) {w' : Walk}
    (hw' : (x.step o r).walk = some w') :
    (x.step o r).scope = x.scope ∧ (x.step o r).uuid = x.uuid := by
  rcases still_or_moving o with hstill | hmoving
  · rw [hstill.step]
    exact ⟨rfl, rfl⟩
  · cases r with
    | error e => cases hmoving <;> exact ⟨rfl, rfl⟩
    | ok b =>
        cases hmoving with
        | drawn =>
            have hw : x.walk = some w' := hw'
            rcases hfits.named _ (hfits.known w' hw).1 with ⟨uuid, huuid⟩
            have hnone : x.uuid = none := hallow
            rw [hnone] at huuid
            cases huuid
        | acquired name owner timeout hne =>
            cases b with
            | false => exact ⟨rfl, rfl⟩
            | true =>
                rw [step_acquired x hne] at hw'
                rcases hallow with hname | ⟨hnone, _⟩
                · exact absurd hname hne
                · have hscope := (hfits.known w' hw').1
                  rw [hnone] at hscope
                  cases hscope
        | renewed renewals => cases b <;> exact ⟨rfl, rfl⟩
        | found request =>
            cases b with
            | none => exact ⟨rfl, rfl⟩
            | some row =>
                simp only [WalkView.step]
                split <;> exact ⟨rfl, rfl⟩
        | created request token started => exact ⟨rfl, rfl⟩
        | counted harvestId timestamp => exact ⟨rfl, rfl⟩
        | called call => exact ⟨rfl, rfl⟩
        | committed c => exact ⟨rfl, rfl⟩
        | reopened c hrunning => exact ⟨rfl, rfl⟩

/-- A process draws its token once, and it is new. -/
theorem drawn_step (h : Store.Performed o t r s s') {uuid : Uuid}
    (huuid : (x.step o r).uuid = some uuid) :
    x.uuid = some uuid ∨ (uuid = s.nextUuid ∧ s'.nextUuid = uuid + 1) := by
  rcases still_or_moving o with hstill | hmoving
  · rw [hstill.step] at huuid
    exact Or.inl huuid
  · cases r with
    | error e => cases hmoving <;> exact Or.inl huuid
    | ok b =>
        cases hmoving with
        | drawn =>
            cases huuid
            exact Or.inr (drawn_of_answer h)
        | acquired name owner timeout hne =>
            left
            cases b with
            | false => exact huuid
            | true =>
                rw [step_acquired x hne] at huuid
                exact huuid
        | renewed renewals => cases b <;> exact Or.inl huuid
        | found request =>
            left
            cases b with
            | none => exact huuid
            | some row =>
                simp only [WalkView.step] at huuid
                split at huuid <;> exact huuid
        | created request token started => exact Or.inl huuid
        | counted harvestId timestamp => exact Or.inl huuid
        | called call => exact Or.inl huuid
        | committed c => exact Or.inl huuid
        | reopened c hrunning => exact Or.inl huuid

/-- Only the owner of the scope fences a request. -/
theorem owns_of_fences (hallow : x.Allowed o) (h : Store.Performed o t r s s') {harvestId : Uuid}
    (hfences : x.fences harvestId o r = true) :
    (∃ renewals, o = .lease (.renewLeasesIfOwned renewals)) ∧
      ∃ w, x.walk = some w ∧ w.harvestId = harvestId ∧ w.progress = .counted ∧
        Owns x s.leases := by
  unfold WalkView.fences at hfences
  split at hfences
  · rename_i renewals
    rcases (Option.any_eq_true_iff_get _ _).1 hfences with ⟨hsome, hw⟩
    simp only [Bool.and_eq_true, decide_eq_true_eq] at hw
    refine ⟨⟨renewals, rfl⟩, x.walk.get hsome, Option.some_get hsome |>.symm, hw.1, hw.2, ?_⟩
    rcases hallow _ (Option.some_get hsome).symm hw.2 with
      ⟨renewal, hmem, hscope, uuid, huuid, hown⟩
    refine ⟨renewal.name, uuid, hscope, huuid, ?_⟩
    rw [← hown]
    exact owned_of_renewed h renewal hmem
  · cases hfences

end Operations

/-! ## One event of a run -/

section Events

variable {d : Deployment} {pre : History (fleet d)} {e : Event (fleet d)} {o : Op}
  {r : Except Exn o.Res}

/-- The event is an operation of its process. -/
structure Performs (pre : History (fleet d)) (e : Event (fleet d)) (o : Op)
    (r : Except Exn o.Res) : Prop where
  action : e.action = .op o r
  allowed : (walkOf e.pid pre).Allowed o
  performed : Store.Performed o e.time r (stateAfter pre) (stateAfter (e :: pre))
  before_eq : e.before = stateAfter pre

namespace Performs

theorem self (he : Performs pre e o r) : walkOf e.pid (e :: pre) = (walkOf e.pid pre).step o r :=
  walkOf_of_op pre he.action

theorem fencesFor (he : Performs pre e o r) (harvestId : Uuid) :
    fencesFor harvestId pre e = (walkOf e.pid pre).fences harvestId o r := by
  simp [Harvest.fencesFor, he.action]

theorem step (he : Performs pre e o r) (hplaced : Placed pre) :
    JobsStep o (stateAfter pre).nextUuid (stateAfter (e :: pre)).nextUuid (stateAfter pre).oai
      (stateAfter (e :: pre)).oai :=
  jobsStep_of_performed hplaced.filed he.performed

theorem completes (he : Performs pre e o r) (c : Completion)
    (ho : o = .oai (.completeOaiHarvestJob c)) : c.status ≠ .running := by
  have hallowed := he.allowed
  subst ho
  exact hallowed

/-- A row of the job after the event comes from one before it, or the event has filed it. -/
theorem row_cases (he : Performs pre e o r) (hplaced : Placed pre) {harvestId : Uuid}
    {job' : OaiJobRow} (hjob' : (stateAfter (e :: pre)).oai.job? harvestId = some job') :
    (∃ job, (stateAfter pre).oai.job? harvestId = some job ∧ JobEffect o job job') ∨
      ((stateAfter pre).oai.job? harvestId = none ∧
        ∃ request token started, o = .oai (.createOaiHarvestJob request token started)) := by
  have heffect := (he.step hplaced).effect
  cases hjob : (stateAfter pre).oai.job? harvestId with
  | none =>
      rcases heffect.fresh harvestId job' hjob hjob' with ⟨_, request, token, started, ho, _⟩
      exact Or.inr ⟨rfl, request, token, started, ho⟩
  | some job =>
      rcases heffect.rows harvestId job hjob with ⟨job'', hjob'', hchange⟩
      rw [hjob'] at hjob''
      cases hjob''
      exact Or.inl ⟨job, rfl, hchange⟩

theorem none_before (he : Performs pre e o r) (hplaced : Placed pre) {harvestId : Uuid}
    (hnone : (stateAfter (e :: pre)).oai.job? harvestId = none) :
    (stateAfter pre).oai.job? harvestId = none := by
  cases hjob : (stateAfter pre).oai.job? harvestId with
  | none => rfl
  | some job =>
      rcases (he.step hplaced).effect.rows harvestId job hjob with ⟨job', hjob', _⟩
      rw [hnone] at hjob'
      cases hjob'

/-- The tokens stay apart, and the views in place. -/
theorem placed (he : Performs pre e o r) (hplaced : Placed pre) : Placed (e :: pre) := by
  have hnext : (stateAfter pre).nextUuid ≤ (stateAfter (e :: pre)).nextUuid :=
    Queue.nextUuid_le he.performed
  have hstep := he.step hplaced
  -- A token of any process is one it had, or the one that is drawn now.
  have htoken : ∀ p uuid, (walkOf p (e :: pre)).uuid = some uuid →
      (walkOf p pre).uuid = some uuid ∨
        (p = e.pid ∧ uuid = (stateAfter pre).nextUuid ∧
          (stateAfter (e :: pre)).nextUuid = uuid + 1) := by
    intro p uuid huuid
    by_cases hp : e.pid = p
    · subst hp
      rw [he.self] at huuid
      exact (drawn_step he.performed huuid).imp id fun h => ⟨rfl, h⟩
    · rw [walkOf_of_ne pre hp] at huuid
      exact Or.inl huuid
  refine ⟨hstep.filed hplaced.filed, ?_, ?_, ?_⟩
  · intro p uuid huuid
    rcases htoken p uuid huuid with hold | ⟨_, _, hnew⟩
    · exact Nat.lt_of_lt_of_le (hplaced.drawn p uuid hold) hnext
    · rw [hnew]
      exact Nat.lt_succ_self uuid
  · intro p q uuid hp hq
    rcases htoken p uuid hp with hpold | ⟨rfl, hpnew, _⟩
    · rcases htoken q uuid hq with hqold | ⟨_, hqnew, _⟩
      · exact hplaced.distinct p q uuid hpold hqold
      · exact absurd (hplaced.drawn p uuid hpold) (by rw [hqnew]; exact Nat.lt_irrefl _)
    · rcases htoken q uuid hq with hqold | ⟨hq, _⟩
      · exact absurd (hplaced.drawn q uuid hqold) (by rw [hpnew]; exact Nat.lt_irrefl _)
      · exact hq.symm
  · intro p
    by_cases hp : e.pid = p
    · subst hp
      rw [he.self]
      exact fits_step hplaced.filed (hplaced.fits e.pid) he.allowed he.performed
    · rw [walkOf_of_ne pre hp]
      exact (hplaced.fits p).performed hstep.effect

/-- A call is made for a request that was let out. -/
theorem ticket (he : Performs pre e o r) (hA : Accounted pre) {harvestId : Uuid}
    (hcalls : callsFor harvestId e = true) : e.pid ∈ tickets harvestId pre := by
  simp only [callsFor, he.action] at hcalls
  split at hcalls
  · rename_i call answer ho
    cases ho
    rcases he.allowed with ⟨w, hw, hid, hfenced⟩
    have hmem := hA.holding e.pid w hw hfenced
    simp only [decide_eq_true_eq] at hcalls
    rw [hid, hcalls] at hmem
    exact hmem
  · cases hcalls

theorem spent (he : Performs pre e o r) (hA : Accounted pre) (harvestId : Uuid) :
    spent harvestId (e :: pre) =
      Harvest.spent harvestId pre +
        if (walkOf e.pid pre).fences harvestId o r then 1 else 0 := by
  rw [spent_cons fun hcalls => he.ticket hA hcalls, he.fencesFor]

/-- Only an owner fences, and the scope has one. -/
theorem fences_same (he : Performs pre e o r) (hplaced : Placed pre) {p : Nat} {w : Walk}
    (hw : (walkOf p pre).walk = some w) (howns : Owns (walkOf p pre) (stateAfter pre).leases)
    (hfences : (walkOf e.pid pre).fences w.harvestId o r = true) : p = e.pid := by
  rcases (owns_of_fences he.allowed he.performed hfences).2 with ⟨v, hv, hid, _, hother⟩
  rcases (hplaced.fits p).known w hw with ⟨hscope, job, hjob, hrequest⟩
  rcases (hplaced.fits e.pid).known v hv with ⟨hscope', job', hjob', hrequest'⟩
  rw [hid, hjob] at hjob'
  cases hjob'
  rcases howns with ⟨name, uuid, hname, huuid, howned⟩
  rcases hother with ⟨name', uuid', hname', huuid', howned'⟩
  -- Both walk one job, so both own the lease of one scope.
  have hsame : name' = name := by
    rw [hname] at hscope
    rw [hname', ← hrequest', hrequest] at hscope'
    exact Option.some.inj (hscope'.trans hscope.symm)
  subst hsame
  rcases Leases.ownedBy_iff.1 howned with ⟨row, hrow, howner⟩
  rcases Leases.ownedBy_iff.1 howned' with ⟨row', hrow', howner'⟩
  rw [hrow] at hrow'
  cases hrow'
  rw [howner] at howner'
  cases howner'
  exact hplaced.distinct p e.pid uuid huuid huuid'

/-- Who owns a scope after the event owned it before. -/
theorem owns_pre (he : Performs pre e o r) (hplaced : Placed pre) {p : Nat} (hne : e.pid ≠ p)
    {w : Walk} (hw : (walkOf p pre).walk = some w)
    (howns : Owns (walkOf p pre) (stateAfter (e :: pre)).leases) :
    Owns (walkOf p pre) (stateAfter pre).leases := by
  rcases howns with ⟨name, uuid, hname, huuid, howned⟩
  rcases ownedBy_of_performed he.performed howned with hbefore | ⟨timeout, ho⟩
  · exact ⟨name, uuid, hname, huuid, hbefore⟩
  · have hallowed := he.allowed
    subst ho
    rcases hallowed with hlimiter | ⟨_, uuid', huuid', howner⟩
    · have hscope := ((hplaced.fits p).known w hw).1
      rw [hname] at hscope
      exact absurd (hlimiter ▸ (Option.some.inj hscope).symm) (oaiScopeLeaseName_ne w.request)
    · cases howner
      exact absurd (hplaced.distinct e.pid p uuid huuid' huuid) hne

theorem holding (he : Performs pre e o r) (hA : Accounted pre) {p : Nat} {w : Walk}
    (hw : (walkOf p (e :: pre)).walk = some w) (hfenced : w.progress = .fenced) :
    p ∈ tickets w.harvestId (e :: pre) := by
  by_cases hp : e.pid = p
  · subst hp
    rw [he.self] at hw
    simp only [tickets, he.fencesFor]
    rcases fenced_step hw hfenced with hfences | ⟨hbefore, hcall⟩
    · simp [hfences]
    · have hmem := hA.holding e.pid w hbefore hfenced
      have hcalls : callsFor w.harvestId e = false := by
        simp only [callsFor, he.action]
        split
        · rename_i call answer ho
          cases ho
          exact absurd rfl (hcall call)
        · rfl
      rw [hcalls]
      split
      · exact List.mem_cons_self
      · exact hmem
  · rw [walkOf_of_ne pre hp] at hw
    have hmem := hA.holding p w hw hfenced
    unfold tickets
    split
    · exact List.mem_cons_of_mem _ hmem
    · split
      · exact (List.mem_erase_of_ne (Ne.symm hp)).2 hmem
      · exact hmem

theorem not_fences_of_none (he : Performs pre e o r) (hplaced : Placed pre) {harvestId : Uuid}
    (hnone : (stateAfter pre).oai.job? harvestId = none) :
    (walkOf e.pid pre).fences harvestId o r = false := by
  cases hfences : (walkOf e.pid pre).fences harvestId o r with
  | false => rfl
  | true =>
      rcases (owns_of_fences he.allowed he.performed hfences).2 with ⟨w, hw, hid, _⟩
      rcases ((hplaced.fits e.pid).known w hw).2 with ⟨job, hjob, _⟩
      rw [hid, hnone] at hjob
      cases hjob

/-- A page is committed by moving the row of the job on. -/
theorem commit_of_commitsFor (he : Performs pre e o r) (hplaced : Placed pre) {harvestId : Uuid}
    (hcommits : commitsFor harvestId e = true) :
    ∃ job job', (stateAfter pre).oai.job? harvestId = some job ∧
      (stateAfter (e :: pre)).oai.job? harvestId = some job' ∧ job.status = .running ∧
      job.pagesTotal < job.request.maxPages ∧ job'.pagesTotal = job.pagesTotal + 1 := by
  simp only [commitsFor, he.action] at hcommits
  split at hcommits
  · rename_i c answer ho
    cases ho
    simp only [Bool.and_eq_true, decide_eq_true_eq] at hcommits
    rcases hcommits with ⟨hid, hchanged⟩
    rcases he.allowed with ⟨w, hw, hwid, _, hindex, hbelow⟩
    rcases ((hplaced.fits e.pid).known w hw).2 with ⟨job, hjob, hrequest⟩
    rw [hwid, hid] at hjob
    rcases (he.step hplaced).effect.rows _ job hjob with ⟨job', hjob', hchange⟩
    refine ⟨job, job', hjob, hjob', ?_⟩
    cases hchange with
    | kept =>
        rw [he.before_eq, hjob] at hchanged
        exact absurd hjob' hchanged
    | dated deadlineAt timestamp op_eq => cases op_eq
    | counted timestamp op_eq running => cases op_eq
    | committed c' counts op_eq harvestId_eq running page_eq token_eq =>
        cases op_eq
        refine ⟨running, ?_, ?_⟩
        · rw [page_eq, hrequest, ← hindex]
          exact hbelow
        · simp only [Checkpoint.advance, running, if_true, page_eq]
          omega
    | completed c' op_eq harvestId_eq => cases op_eq
  · cases hcommits

theorem unknown (he : Performs pre e o r) (hA : Accounted pre) {harvestId : Uuid}
    (hnone : (stateAfter (e :: pre)).oai.job? harvestId = none) :
    Harvest.spent harvestId (e :: pre) = 0 ∧ (e :: pre).countP (commitsFor harvestId) = 0 := by
  have hbefore := he.none_before hA.placed hnone
  rcases hA.unknown harvestId hbefore with ⟨hspent, hcommitted⟩
  refine ⟨?_, ?_⟩
  · rw [he.spent hA, hspent, he.not_fences_of_none hA.placed hbefore]
    rfl
  · have hcommits : commitsFor harvestId e = false := by
      cases hcommits : commitsFor harvestId e with
      | false => rfl
      | true =>
          rcases he.commit_of_commitsFor hA.placed hcommits with ⟨job, _, hjob, _⟩
          rw [hbefore] at hjob
          cases hjob
    rw [List.countP_cons, hcommitted, hcommits]
    rfl

theorem requests (he : Performs pre e o r) (hA : Accounted pre) {harvestId : Uuid}
    {job' : OaiJobRow} (hjob' : (stateAfter (e :: pre)).oai.job? harvestId = some job') :
    Harvest.spent harvestId (e :: pre) ≤ job'.request.maxRequests ∧
      (job'.status = .running → Harvest.spent harvestId (e :: pre) ≤ job'.requestsTotal) := by
  rw [he.spent hA]
  rcases he.row_cases hA.placed hjob' with ⟨job, hjob, hchange⟩ | ⟨hnone, _⟩
  · rcases hA.requests harvestId job hjob with ⟨hmax, htotal⟩
    cases hfences : (walkOf e.pid pre).fences harvestId o r with
    | false =>
        simp only [Bool.false_eq_true, if_false, Nat.add_zero]
        refine ⟨by rw [hchange.request_eq]; exact hmax, ?_⟩
        intro hrunning
        have hrow := hchange.running he.completes hrunning
        exact Nat.le_trans (htotal hrow.1) hrow.2.1
    | true =>
        -- The owner has counted this request, and its counter covers all the others.
        rcases owns_of_fences he.allowed he.performed hfences with
          ⟨⟨renewals, ho⟩, w, hw, hid, hcounted, howns⟩
        subst ho
        have hcov := hA.covered e.pid w job hw howns (by rw [hid]; exact hjob)
        rcases ((hA.placed.fits e.pid).known w hw).2 with ⟨job'', hjob'', hrequest⟩
        rw [hid, hjob] at hjob''
        cases hjob''
        simp only [Covered, hcounted, hid] at hcov
        cases hchange with
        | kept =>
            refine ⟨?_, ?_⟩
            · rw [hrequest]
              exact hcov.1
            · intro hrunning
              have hbelow := hcov.2 hrunning
              simp only [if_true]
              omega
        | dated deadlineAt timestamp op_eq => cases op_eq
        | counted timestamp op_eq running => cases op_eq
        | committed c counts op_eq harvestId_eq running page_eq token_eq => cases op_eq
        | completed c op_eq harvestId_eq => cases op_eq
  · rw [(hA.unknown harvestId hnone).1, he.not_fences_of_none hA.placed hnone]
    exact ⟨Nat.zero_le _, fun _ => Nat.zero_le _⟩

theorem pages (he : Performs pre e o r) (hA : Accounted pre) {harvestId : Uuid}
    {job' : OaiJobRow} (hjob' : (stateAfter (e :: pre)).oai.job? harvestId = some job') :
    (e :: pre).countP (commitsFor harvestId) ≤ job'.request.maxPages ∧
      (job'.status = .running →
        (e :: pre).countP (commitsFor harvestId) ≤ job'.pagesTotal) := by
  rw [List.countP_cons]
  cases hcommits : commitsFor harvestId e with
  | false =>
      simp only [Bool.false_eq_true, if_false, Nat.add_zero]
      rcases he.row_cases hA.placed hjob' with ⟨job, hjob, hchange⟩ | ⟨hnone, _⟩
      · rcases hA.pages harvestId job hjob with ⟨hmax, htotal⟩
        refine ⟨by rw [hchange.request_eq]; exact hmax, ?_⟩
        intro hrunning
        have hrow := hchange.running he.completes hrunning
        exact Nat.le_trans (htotal hrow.1) hrow.2.2
      · rw [(hA.unknown harvestId hnone).2]
        exact ⟨Nat.zero_le _, fun _ => Nat.zero_le _⟩
  | true =>
      rcases he.commit_of_commitsFor hA.placed hcommits with
        ⟨job, job'', hjob, hjob'', hrunning, hbelow, hpages⟩
      rw [hjob'] at hjob''
      cases hjob''
      have htotal := (hA.pages harvestId job hjob).2 hrunning
      have hrequest : job'.request = job.request := by
        rcases he.row_cases hA.placed hjob' with ⟨job₀, hjob₀, hchange⟩ | ⟨hnone, _⟩
        · rw [hjob] at hjob₀
          cases hjob₀
          exact hchange.request_eq
        · rw [hnone] at hjob
          cases hjob
      rw [hrequest, hpages]
      simp only [if_true]
      omega

theorem covered (he : Performs pre e o r) (hA : Accounted pre) {p : Nat} {w : Walk}
    {job' : OaiJobRow} (hw : (walkOf p (e :: pre)).walk = some w)
    (howns : Owns (walkOf p (e :: pre)) (stateAfter (e :: pre)).leases)
    (hjob' : (stateAfter (e :: pre)).oai.job? w.harvestId = some job') :
    Covered (Harvest.spent w.harvestId (e :: pre)) w job' := by
  rw [he.spent hA]
  by_cases hp : e.pid = p
  · subst hp
    rw [he.self] at hw howns
    have hfits := hA.placed.fits e.pid
    refine covered_step hA.placed.filed hfits he.allowed he.performed hw hjob'
      (fun hnone => (hA.unknown _ hnone).1) (fun job hjob => (hA.requests _ job hjob).2) ?_
    intro v job hv hid hjob
    have hholder := holder_step hfits he.allowed hw
    have hbefore : Owns (walkOf e.pid pre) (stateAfter (e :: pre)).leases := by
      simpa only [Owns, hholder.1, hholder.2] using howns
    have hcov := hA.covered e.pid v job hv
      (owns_before hfits he.allowed he.performed hv hbefore) (by rw [hid]; exact hjob)
    rw [hid] at hcov
    exact hcov
  · rw [walkOf_of_ne pre hp] at hw howns
    have hbefore := he.owns_pre hA.placed hp hw howns
    have hfences : (walkOf e.pid pre).fences w.harvestId o r = false := by
      cases hfences : (walkOf e.pid pre).fences w.harvestId o r with
      | false => rfl
      | true => exact absurd (he.fences_same hA.placed hw hbefore hfences).symm hp
    rcases ((hA.placed.fits p).known w hw).2 with ⟨job, hjob, _⟩
    rcases (he.step hA.placed).effect.rows _ job hjob with ⟨job'', hjob'', hchange⟩
    rw [hjob'] at hjob''
    cases hjob''
    rw [hfences]
    refine (hA.covered p w job hw hbefore hjob).mono ?_
    intro hrunning
    have hrow := hchange.running he.completes hrunning
    exact ⟨hrow.1, hrow.2.1⟩

theorem accounted (he : Performs pre e o r) (hA : Accounted pre) : Accounted (e :: pre) where
  placed := he.placed hA.placed
  holding := fun _ _ hw hfenced => he.holding hA hw hfenced
  unknown := fun _ hnone => he.unknown hA hnone
  requests := fun _ _ hjob' => he.requests hA hjob'
  pages := fun _ _ hjob' => he.pages hA hjob'
  covered := fun _ _ _ hw howns hjob' => he.covered hA hw howns hjob'

end Performs

/-- An event that is not an operation leaves the store, and empties the view of its process. -/
theorem accounted_idle (hA : Accounted pre) (hstate : stateAfter (e :: pre) = stateAfter pre)
    (hself : walkOf e.pid (e :: pre) = {}) (hidle : ∀ o r, e.action ≠ .op o r) :
    Accounted (e :: pre) := by
  have hviews : ∀ p, walkOf p (e :: pre) = walkOf p pre ∨ walkOf p (e :: pre) = {} := by
    intro p
    by_cases hp : e.pid = p
    · subst hp
      exact Or.inr hself
    · exact Or.inl (walkOf_of_ne pre hp)
  have hfences : ∀ harvestId, fencesFor harvestId pre e = false := by
    intro harvestId
    unfold fencesFor
    split
    · rename_i ha
      exact absurd ha (hidle _ _)
    · rfl
  have hcalls : ∀ harvestId, callsFor harvestId e = false := by
    intro harvestId
    unfold callsFor
    split
    · rename_i ha
      exact absurd ha (hidle _ _)
    · rfl
  have hcommits : ∀ harvestId, commitsFor harvestId e = false := by
    intro harvestId
    unfold commitsFor
    split
    · rename_i ha
      exact absurd ha (hidle _ _)
    · rfl
  have htickets : ∀ harvestId, tickets harvestId (e :: pre) = tickets harvestId pre := by
    intro harvestId
    simp [tickets, hfences, hcalls]
  have hspent : ∀ harvestId, spent harvestId (e :: pre) = spent harvestId pre := by
    intro harvestId
    simp [spent, htickets, hcalls]
  have hcount : ∀ harvestId, (e :: pre).countP (commitsFor harvestId) =
      pre.countP (commitsFor harvestId) := by
    intro harvestId
    simp [hcommits]
  refine ⟨⟨?_, ?_, ?_, ?_⟩, ?_, ?_, ?_, ?_, ?_⟩
  · rw [hstate]
    exact hA.placed.filed
  · intro p uuid huuid
    rw [hstate]
    rcases hviews p with hp | hp
    · exact hA.placed.drawn p uuid (by rw [← hp]; exact huuid)
    · rw [hp] at huuid
      cases huuid
  · intro p q uuid hpu hqu
    rcases hviews p with hp | hp
    · rcases hviews q with hq | hq
      · rw [hp] at hpu
        rw [hq] at hqu
        exact hA.placed.distinct p q uuid hpu hqu
      · rw [hq] at hqu
        cases hqu
    · rw [hp] at hpu
      cases hpu
  · intro p
    rw [hstate]
    rcases hviews p with hp | hp
    · rw [hp]
      exact hA.placed.fits p
    · rw [hp]
      exact ⟨fun _ h => (nomatch h), fun _ h => (nomatch h)⟩
  · intro p w hw hfenced
    rw [htickets]
    rcases hviews p with hp | hp
    · exact hA.holding p w (by rw [← hp]; exact hw) hfenced
    · rw [hp] at hw
      cases hw
  · intro harvestId
    rw [hstate, hspent, hcount]
    exact hA.unknown harvestId
  · intro harvestId
    rw [hstate, hspent]
    exact hA.requests harvestId
  · intro harvestId
    rw [hstate, hcount]
    exact hA.pages harvestId
  · intro p w
    rw [hstate, hspent]
    rcases hviews p with hp | hp
    · rw [hp]
      exact hA.covered p w
    · rw [hp]
      intro job hw
      cases hw

theorem accounted_step (hlegal : Legal pre e)
    (hdisciplined : Disciplined walks (walkMonitor : Monitor (fleet d) WalkView).view pre e)
    (hA : Accounted pre) : Accounted (e :: pre) := by
  cases ha : e.action with
  | start c =>
      refine accounted_idle hA ?_ (walkOf_of_start pre ha) (by simp [ha])
      exact (hlegal.after_eq_of_start ha).trans hlegal.before_eq
  | crash =>
      refine accounted_idle hA ?_ (walkOf_of_crash pre ha) (by simp [ha])
      exact (hlegal.after_eq_of_crash ha).trans hlegal.before_eq
  | op o r =>
      have hperformed : Store.Performed o e.time r (stateAfter pre) e.after := by
        have h := hlegal.executed ha
        rw [hlegal.before_eq] at h
        exact h
      have he : Performs pre e o r := ⟨ha, hdisciplined.1 o r ha, hperformed, hlegal.before_eq⟩
      exact he.accounted hA

theorem accounted_nil : Accounted ([] : History (fleet d)) where
  placed :=
    { filed := ⟨List.nodup_nil, fun _ h => (nomatch h)⟩
      drawn := fun _ _ h => (nomatch h)
      distinct := fun _ _ _ h => (nomatch h)
      fits := fun _ => ⟨fun _ h => (nomatch h), fun _ h => (nomatch h)⟩ }
  holding := fun _ _ h => (nomatch h)
  unknown := fun _ _ => ⟨rfl, rfl⟩
  requests := fun _ _ h => (nomatch h)
  pages := fun _ _ h => (nomatch h)
  covered := fun _ _ _ h => (nomatch h)

end Events

/-! ## Every run -/

theorem accounted_after (d : Deployment) (sched : List (Config.Choice (fleet d))) :
    Accounted (Config.after (fleet d) sched).history :=
  ((Config.legal_after (fleet d) sched).and (walks_after d sched)).invariant accounted_nil
    fun _ _ hA h => accounted_step h.1 h.2 hA

/-- Over all processes, a job has no more requests and no more committed pages than its request
allows; and the loop, which satisfies the equation of the source's, ends within so many
operations. -/
theorem harvest_bounded (d : Deployment) (sched : List (Config.Choice (fleet d))) :
    (∀ harvestId job,
      (Config.after (fleet d) sched).state.oai.job? harvestId = some job →
        (Config.after (fleet d) sched).history.countP (callsFor harvestId) ≤
            job.request.maxRequests ∧
          (Config.after (fleet d) sched).history.countP (commitsFor harvestId) ≤
            job.request.maxPages) ∧
      ∀ (j : Job) (c : Cursor),
        j.harvestLoop c =
            (if c.finishedPaging then j.finishCompleted c
            else (do
              let round ← j.harvestPage c
              match round with
              | .done result => pure result
              | .next moved => j.harvestLoop moved)) ∧
          (j.harvestLoop c).Within
            (roundOperations * (j.effectiveRequest.maxPages - c.pageIndex + 1) + 5) := by
  refine ⟨?_, ?_⟩
  · intro harvestId job hjob
    have hA := accounted_after d sched
    rw [(Config.explained_after (fleet d) sched).state_eq] at hjob
    have hspent := (hA.requests harvestId job hjob).1
    refine ⟨?_, (hA.pages harvestId job hjob).1⟩
    unfold spent at hspent
    omega
  · intro j c
    exact ⟨harvestLoop_eq j c, within_harvestPages _ c⟩

end Harvest
end Huldra
