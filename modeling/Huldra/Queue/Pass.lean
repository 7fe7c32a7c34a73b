import Huldra.Process.View
import Huldra.Queue.Ledger
import Huldra.Harvest.Routine
import Huldra.Clients

/-!
# Pass — a worker pass and the item it has claimed

A pass works on one item under its own token.  `PassView` remembers which item that is and how far
the pass has come with its budgets, and `Allowed` says what the pass may ask of the queue there: it
fails the item for want of a budget after a verdict only, and fetches after a charge and a fence
only.
-/

namespace Huldra
namespace Queue

open Process (Prog Discipline)
open Process.System (Monitor)

/-- How far a pass has come with the budgets of its item. -/
inductive Stage where
  | claimed
  /-- The budgets of the attempt are charged. -/
  | charged
  /-- They are charged, and the claim was fenced after that. -/
  | ready
  /-- The last verdict went against the item. -/
  | condemned
  | fetched
  deriving DecidableEq

structure PassView where
  pid : Nat
  item : Option QueueItem := none
  stage : Stage := .claimed
  deriving DecidableEq

namespace Stage

/-- After a fence of the claim that was granted. -/
def fenced : Stage → Stage
  | .charged => .ready
  | stage => stage

/-- After a verdict. -/
def afterVerdict (error : String) : Stage :=
  if error = "budget_deferred" then .claimed else .condemned

@[simp] theorem fenced_fenced (stage : Stage) : stage.fenced.fenced = stage.fenced := by
  cases stage <;> rfl

end Stage

namespace PassView

/-- The pass works on the item `requestId`. -/
def On (x : PassView) (requestId : Uuid) : Prop :=
  ∃ item, x.item = some item ∧ item.requestId = requestId

def step (x : PassView) (o : Op) (r : Except Exn o.Res) : PassView :=
  match o, r with
  | .queue (.claimNextQueueItem ..), .ok (some item) =>
      { x with item := some item, stage := .claimed }
  | .queue (.reserveQueueItemUpstreamRequest _), .ok none => { x with stage := .charged }
  | .queue (.reserveQueueItemUpstreamRequest _), .ok (some error)
  | .queue (.checkQueueItemUpstreamRequestDeadlines _), .ok (some error) =>
      { x with stage := .afterVerdict error }
  | .renewWorkerFetchOwnership .., .ok none => { x with stage := x.stage.fenced }
  | .renewWorkerFetchOwnership .., _ => { x with stage := .claimed }
  | .upstream (.fetchBegin _), _ => { x with stage := .fetched }
  | _, _ => x

/-- What a process may ask of the queue. -/
def Allowed (x : PassView) : Op → Prop
  | .queue (.claimNextQueueItem owner _ _) => owner = .worker x.pid ∧ x.item = none
  | .queue (.completeQueueItem r _) => x.On r
  | .queue (.releaseOrDelayQueueItem r _ category _ status _) =>
      x.On r ∧ (status = .delayed ∨
        (status = .failed ∧ (category = some "non_retryable" ∨ x.stage = .condemned)))
  | .queue (.acquireIdFetchReservations _ owner r _) => owner = .worker x.pid ∧ x.On r
  | .queue (.renewIdFetchReservations _ owner _)
  | .queue (.releaseIdFetchReservations _ owner _) => owner = .worker x.pid
  | .queue (.reserveQueueItemUpstreamRequest r)
  | .queue (.checkQueueItemUpstreamRequestDeadlines r) => x.On r
  | .renewWorkerFetchOwnership r owner _ _ _ => owner = .worker x.pid ∧ x.On r
  | .upstream (.fetchBegin call) =>
      x.stage = .ready ∧ ∃ item, x.item = some item ∧ call.requestId = item.requestId ∧
        call.attempt = item.attemptsTotal
  | _ => True

end PassView

/-- Follow a process along its passes. -/
def passMonitor {Client Out : Type} {program : Client → Nat → Process.Prog huldra Out} :
    Monitor (storeSystem Client Out program) PassView where
  initial pid := { pid := pid }
  start x _ _ := { pid := x.pid }
  step x o r _ := x.step o r
  crash x := { pid := x.pid }
  clock _ := 0
  clock_initial _ := Process.System.no_time
  clock_start _ _ _ h := h
  clock_step _ _ _ _ h := h
  clock_crash _ := Int.le_refl 0

/-- The discipline of a pass: what it may ask for, and how its view moves. -/
def passes : Discipline huldra PassView where
  allow := PassView.Allowed
  next x o r x' := ∃ t s s', (0 : Int) ≤ t ∧ Store.Performed o t r s s' ∧ x' = x.step o r

/-! ## Operations the view does not look at -/

/-- Neither the queue is concerned nor a fetch begun. -/
def Away : Op → Prop
  | .queue _ | .renewWorkerFetchOwnership .. | .enqueueRefreshIfDue ..
  | .upstream (.fetchBegin _) => False
  | _ => True

theorem Away.allowed {o : Op} (ho : Away o) (x : PassView) : x.Allowed o := by
  unfold PassView.Allowed
  split <;> first | exact trivial | exact ho.elim

theorem Away.step {o : Op} (ho : Away o) (x : PassView) (r : Except Exn o.Res) :
    x.step o r = x := by
  unfold PassView.step
  split <;> first | rfl | exact ho.elim

theorem away_of_beside {o : Op} (ho : Worker.Beside o) : Away o := by
  unfold Worker.Beside at ho
  split at ho <;> first | exact trivial | exact ho.elim

section Pass

variable {w : WorkerConfig} {item : QueueItem} {pid : Nat} {x : PassView} {β γ : Type}

/-- The pass of the process works on this item. -/
structure Working (pid : Nat) (item : QueueItem) (x : PassView) : Prop where
  pid_eq : x.pid = pid
  item_eq : x.item = some item

theorem Working.on (h : Working pid item x) : x.On item.requestId :=
  ⟨item, h.item_eq, rfl⟩

theorem wp_away {p : Program β} (hp : p.AllOps Away) (x : PassView) :
    p.wp passes (fun x' _ => x' = x) (fun x' _ => x' = x) x := by
  refine hp.wp ?_ x rfl
  rintro o ho x' rfl
  refine ⟨ho.allowed x', ?_⟩
  rintro r x'' ⟨t, s, s', _, _, rfl⟩
  exact ho.step x' r

/-- What is plain leaves the view as it is. -/
theorem wp_plainly (howner : w.ownerToken = .worker pid) (hx : Working pid item x)
    {p : Program β} (hp : Worker.Plainly w item p) :
    p.wp passes (fun x' _ => x' = x) (fun x' _ => x' = x) x := by
  refine hp.wp ?_ x rfl
  rintro o ho x' rfl
  have howner' : w.ownerToken = .worker x'.pid := by
    rw [howner, hx.pid_eq]
  constructor
  · unfold Worker.Plain at ho
    split at ho
    case h_4 => exact ho ▸ hx.on
    case h_5 =>
      refine ⟨ho.1 ▸ hx.on, ho.2.imp id ?_⟩
      rintro ⟨hstatus, hcategory⟩
      exact ⟨hstatus, Or.inl hcategory⟩
    case h_6 => exact ⟨ho.1.trans howner', ho.2 ▸ hx.on⟩
    case h_7 => exact ho.trans howner'
    case h_8 => exact ho.trans howner'
    case h_10 => exact ho.elim
    all_goals exact trivial
  · rintro r x'' ⟨t, s, s', _, _, rfl⟩
    unfold Worker.Plain at ho
    split at ho <;> first | rfl | exact ho.elim

/-- What any stage of the pass may ask for, apart from budgets. -/
def Usual (owner : OwnerToken) (requestId : Uuid) (o : Op) : Prop :=
  Worker.Steady owner requestId o ∨ Away o

/-- A usual program keeps to its item. -/
theorem wp_usual (howner : w.ownerToken = .worker pid) (hx : Working pid item x)
    {p : Program β} (hp : p.AllOps (Usual w.ownerToken item.requestId)) :
    p.wp passes (fun x _ => Working pid item x) (fun x _ => Working pid item x) x := by
  refine hp.wp ?_ x hx
  intro o ho x hx
  rcases ho with (hplain | hlease) | haway
  · have hwp := wp_plainly (β := o.Res) howner hx (Prog.AllOps.call hplain)
    rcases (Prog.wp_call o _ _ x).1 hwp with ⟨hallow, hok, herror⟩
    refine ⟨hallow, ?_⟩
    intro r x' hnext
    cases r with
    | ok r => exact (hok r x' hnext) ▸ hx
    | error e => exact (herror e x' hnext) ▸ hx
  · rcases hlease with rfl | ⟨ttl, ids, rfl⟩
    · refine ⟨trivial, ?_⟩
      rintro r x' ⟨t, s, s', _, _, rfl⟩
      exact hx
    · refine ⟨⟨by rw [howner, hx.pid_eq], hx.on⟩, ?_⟩
      rintro r x' ⟨t, s, s', _, _, rfl⟩
      -- The fence moves the stage and nothing else.
      match r with
      | .ok none => exact ⟨hx.pid_eq, hx.item_eq⟩
      | .ok (some reason) => exact ⟨hx.pid_eq, hx.item_eq⟩
      | .error e => exact ⟨hx.pid_eq, hx.item_eq⟩
  · refine ⟨haway.allowed x, ?_⟩
    rintro r x' ⟨t, s, s', _, _, rfl⟩
    rw [haway.step]
    exact hx

theorem wp_steadily (howner : w.ownerToken = .worker pid) (hx : Working pid item x)
    {p : Program β} (hp : Worker.Steadily w item p) :
    p.wp passes (fun x _ => Working pid item x) (fun x _ => Working pid item x) x :=
  wp_usual howner hx (hp.mono fun _ ho => Or.inl ho)

/-! ## Budgets -/

/-- After a verdict against it the item may be failed. -/
theorem wp_failBudgetedItem (howner : w.ownerToken = .worker pid) (hx : Working pid item x)
    (hcondemned : x.stage = .condemned) (plan : Option IdListFetchPlan) (error : String) :
    (Worker.failBudgetedItem w item plan error).wp passes (fun x _ => Working pid item x)
      (fun x _ => Working pid item x) x := by
  have hrelease : (releaseLease Limiter.leaseName w.ownerToken).AllOps Away := .call trivial
  refine (Prog.wp_bind _ _ _ _ _).2 (Prog.wp_mono ?_ ?_ _ _ (wp_away hrelease x))
  · rintro _ _ rfl
    simp only
    refine (Prog.wp_bind _ _ _ _ _).2 (Prog.wp_mono ?_ ?_ _ _
      (wp_plainly howner hx (Worker.plain_recordCacheFailure _ _ _ _ _ _)))
    · rintro _ _ rfl
      refine (Prog.wp_bind _ _ _ _ _).2 ((Prog.wp_bind _ _ _ _ _).2 (Prog.wp_mono ?_ ?_ _ _
        (wp_plainly howner hx Worker.plain_utcNow)))
      · rintro _ timestamp rfl
        refine (Prog.wp_call _ _ _ _).2
          ⟨⟨hx.on, Or.inr ⟨rfl, Or.inr hcondemned⟩⟩, ?_, ?_⟩
        · rintro r x' ⟨t, s, s', _, _, rfl⟩
          exact wp_steadily howner hx (.bind (Worker.plain_releaseIdPlan plan).steadily
            fun _ => .ret _)
        · rintro e x' ⟨t, s, s', _, _, rfl⟩
          exact hx
      · rintro _ _ rfl
        exact hx
    · rintro _ _ rfl
      exact hx
  · rintro _ _ rfl
    exact hx

/-- The end of an item its budgets do not pay for now. -/
theorem wp_endBudgetedItem (howner : w.ownerToken = .worker pid) (hx : Working pid item x)
    (plan : Option IdListFetchPlan) (error : String) :
    (Worker.endBudgetedItem w item plan error).wp passes (fun x _ => Working pid item x)
      (fun x _ => Working pid item x) { x with stage := .afterVerdict error } := by
  have hx' : Working pid item { x with stage := .afterVerdict error } := ⟨hx.pid_eq, hx.item_eq⟩
  unfold Worker.endBudgetedItem
  by_cases hdeferred : error = "budget_deferred"
  · rw [if_pos hdeferred]
    exact wp_steadily howner hx' (Worker.steadily_deferBudgetedItem plan)
  · rw [if_neg hdeferred]
    exact wp_failBudgetedItem howner hx' (if_neg hdeferred) plan error

/-! ## The gate -/

/-- The gate lets the pass through at this stage, or ends it. -/
structure Gated (pid : Nat) (item : QueueItem) (stage : Stage) (x : PassView)
    (gate : Option IdListFetchPlan × Option WorkerPassResult) : Prop where
  working : Working pid item x
  stage : gate.2 = none → x.stage = stage

/-- The fence is granted, or the pass learns why not. -/
theorem wp_fence (howner : w.ownerToken = .worker pid) (hx : Working pid item x)
    (plan : Option IdListFetchPlan) (ttl : Int) :
    (Worker.fence w item plan ttl).wp passes
      (fun x' reason => Working pid item x' ∧ (reason = none → x'.stage = x.stage.fenced))
      (fun x' _ => Working pid item x') x := by
  refine (Prog.wp_call _ _ _ _).2 ⟨⟨by rw [howner, hx.pid_eq], hx.on⟩, ?_, ?_⟩
  · rintro reason x' ⟨t, s, s', _, _, rfl⟩
    cases reason with
    | none => exact ⟨⟨hx.pid_eq, hx.item_eq⟩, fun _ => rfl⟩
    | some reason => exact ⟨⟨hx.pid_eq, hx.item_eq⟩, fun h => nomatch h⟩
  · rintro e x' ⟨t, s, s', _, _, rfl⟩
    exact ⟨hx.pid_eq, hx.item_eq⟩

/-- A stage that ends the pass at the gate. -/
theorem wp_gateEnding (howner : w.ownerToken = .worker pid) (hx : Working pid item x)
    {stage : Stage} {p : Program (Option IdListFetchPlan × Option WorkerPassResult)}
    (hp : Worker.Steadily w item p) (hreturns : p.Returns fun gate => gate.2.isSome = true) :
    p.wp passes (Gated pid item stage) (fun x _ => Working pid item x) x := by
  refine Prog.wp_mono ?_ (fun _ _ h => h) _ _ (hreturns.wp x (wp_steadily howner hx hp))
  rintro x' gate ⟨hx', hsome⟩
  exact ⟨hx', fun hnone => by simp [hnone] at hsome⟩

/-- The fence was refused. -/
theorem wp_refused (howner : w.ownerToken = .worker pid) (hx : Working pid item x)
    {stage : Stage} (plan : Option IdListFetchPlan) (reason : String) :
    (do
      let failure ← Worker.fetchOwnershipFailure w item plan reason
      pure (plan, some failure)).wp passes (Gated pid item stage)
      (fun x _ => Working pid item x) x :=
  wp_gateEnding howner hx
    (.bind (Worker.steadily_fetchOwnershipFailure plan reason) fun _ => .ret _)
    (.bind fun _ => rfl)

theorem wp_closeGate (howner : w.ownerToken = .worker pid) (hx : Working pid item x)
    {stage : Stage} (hstage : x.stage.fenced = stage) (plan : Option IdListFetchPlan)
    (ttl : Int) :
    (Worker.closeGate w item plan ttl).wp passes (Gated pid item stage)
      (fun x _ => Working pid item x) x := by
  refine (Prog.wp_bind _ _ _ _ _).2 (Prog.wp_mono ?_ (fun _ _ h => h) _ _
    (wp_fence howner hx plan ttl))
  rintro x' reason ⟨hx', hfenced⟩
  cases reason with
  | none => exact ⟨hx', fun _ => (hfenced rfl).trans hstage⟩
  | some reason => exact wp_refused howner hx' plan reason

theorem wp_gatePlan (howner : w.ownerToken = .worker pid) (hx : Working pid item x)
    {stage : Stage} (hstage : x.stage.fenced = stage) (plan : IdListFetchPlan) (ttl : Int) :
    (Worker.gatePlan w item plan ttl).wp passes (Gated pid item stage)
      (fun x _ => Working pid item x) x := by
  refine (Prog.wp_bind _ _ _ _ _).2 (Prog.wp_mono ?_ ?_ _ _
    (wp_plainly howner hx (Worker.plain_revalidate plan ttl)))
  · rintro _ plan' rfl
    simp only
    split
    · exact wp_gateEnding howner hx (Worker.steadily_gateReserved plan' _ _ _)
        (.bind fun _ => .bind fun _ => .bind fun _ => rfl)
    · split
      · exact wp_gateEnding howner hx (Worker.steadily_gateRecorded plan' _)
          (.bind fun _ => .bind fun _ => .bind fun _ => .bind fun _ => rfl)
      · exact wp_closeGate howner hx hstage (some plan') ttl
  · rintro _ _ rfl
    exact hx

/-- A charged pass that the gate lets through is ready to fetch. -/
theorem wp_gateFetchOwnership (howner : w.ownerToken = .worker pid) (hx : Working pid item x)
    (plan : Option IdListFetchPlan) (ttl : Int) :
    (Worker.gateFetchOwnership w item plan ttl).wp passes (Gated pid item x.stage.fenced)
      (fun x _ => Working pid item x) x := by
  refine (Prog.wp_bind _ _ _ _ _).2 (Prog.wp_mono ?_ (fun _ _ h => h) _ _
    (wp_fence howner hx plan ttl))
  rintro x' reason ⟨hx', hfenced⟩
  cases reason with
  | some reason => exact wp_refused howner hx' plan reason
  | none =>
      have hstage : x'.stage.fenced = x.stage.fenced := by
        rw [hfenced rfl, Stage.fenced_fenced]
      refine (Prog.wp_bind _ _ _ _ _).2 (Prog.wp_mono ?_ ?_ _ _
        (wp_plainly howner hx' Worker.plain_getReadableCompletedCache))
      · rintro _ cached rfl
        simp only
        split
        · exact wp_gateEnding howner hx' (Worker.steadily_gateCacheHit plan _)
            (.bind fun _ => .bind fun _ => .bind fun _ => rfl)
        · split
          · exact wp_gatePlan howner hx' hstage _ ttl
          · exact wp_closeGate howner hx' hstage none ttl
      · rintro _ _ rfl
        exact hx'

/-! ## The fetch -/

theorem usual_of_reporting {p : Program β}
    (hp : p.AllOps (Worker.Reporting w.ownerToken item.requestId)) :
    p.AllOps (Usual w.ownerToken item.requestId) :=
  hp.mono fun _ ho => ho.imp id fun hlimiting => away_of_beside hlimiting.beside

/-- The fetch begins in a pass that is ready; what follows is usual. -/
theorem wp_fetchAndReport (howner : w.ownerToken = .worker pid) (hx : Working pid item x)
    (hready : x.stage = .ready) (plan : Option IdListFetchPlan) (request : ArxivRequest) :
    (Worker.fetchAndReport w item plan request).wp passes (fun x _ => Working pid item x)
      (fun x _ => Working pid item x) x := by
  have hbegun : Working pid item { x with stage := .fetched } := ⟨hx.pid_eq, hx.item_eq⟩
  have herror := fun e => wp_usual howner hbegun
    (usual_of_reporting (Worker.reporting_onFetchError plan e))
  refine (Prog.wp_handle _ _ _ _ _ _).2 ((Prog.wp_call_handle _ _ _ _ _ _).2
    ⟨⟨hready, item, hx.item_eq, rfl, rfl⟩, ?_, ?_⟩)
  · rintro r x' ⟨t, s, s', _, _, rfl⟩
    have hend : Prog.AllOps Away (perform (.upstream .fetchEnd)) := .call trivial
    refine Prog.wp_mono ?_ ?_ _ _ (wp_away hend { x with stage := .fetched })
    · rintro _ fetched rfl
      exact wp_usual howner hbegun (usual_of_reporting
        (Worker.reporting_onFetchResult plan fetched))
    · rintro _ e rfl
      exact herror e
  · rintro e x' ⟨t, s, s', _, _, rfl⟩
    exact herror e

/-- The second half of the gate has passed. -/
theorem wp_fetchWithinDeadline (howner : w.ownerToken = .worker pid) (hx : Working pid item x)
    (hready : x.stage = .ready) (plan : Option IdListFetchPlan) :
    (Worker.fetchWithinDeadline w item plan).wp passes (fun x _ => Working pid item x)
      (fun x _ => Working pid item x) x := by
  refine (Prog.wp_bind _ _ _ _ _).2 (Prog.wp_mono ?_ ?_ _ _
    (wp_plainly howner hx Worker.plain_queueItemUpstreamDeadline))
  · rintro _ budgetDeadline rfl
    cases budgetDeadline with
    | none => exact wp_fetchAndReport howner hx hready plan _
    | some deadline =>
        refine (Prog.wp_bind _ _ _ _ _).2 (Prog.wp_mono ?_ ?_ _ _
          (wp_plainly howner hx Worker.plain_utcNow))
        · rintro _ now rfl
          split
          · exact wp_fetchAndReport howner hx hready plan _
          · refine (Prog.wp_bind _ _ _ _ _).2 ((Prog.wp_call _ _ _ _).2 ⟨hx.on, ?_, ?_⟩)
            · rintro budgetError x' ⟨t, s, s', _, _, rfl⟩
              cases budgetError with
              | some error =>
                  exact wp_endBudgetedItem howner hx plan error
              | none =>
                  refine (Prog.wp_bind _ _ _ _ _).2 (Prog.wp_mono ?_ ?_ _ _
                    (wp_plainly howner hx Worker.plain_queueItemUpstreamDeadline))
                  · rintro _ deadline' rfl
                    refine (Prog.wp_bind _ _ _ _ _).2 (Prog.wp_mono ?_ ?_ _ _
                      (wp_plainly howner hx (Worker.plain_remainingAfterRecheck deadline')))
                    · rintro _ remaining rfl
                      exact wp_fetchAndReport howner hx hready plan _
                    · rintro _ _ rfl
                      exact hx
                  · rintro _ _ rfl
                    exact hx
            · rintro e x' ⟨t, s, s', _, _, rfl⟩
              exact hx
        · rintro _ _ rfl
          exact hx
  · rintro _ _ rfl
    exact hx

/-- The budgets are charged. -/
theorem wp_fetchCharged (howner : w.ownerToken = .worker pid) (hx : Working pid item x)
    (hcharged : x.stage = .charged) (plan : Option IdListFetchPlan) (ttl : Int) :
    (Worker.fetchCharged w item plan ttl).wp passes (fun x _ => Working pid item x)
      (fun x _ => Working pid item x) x := by
  refine (Prog.wp_bind _ _ _ _ _).2 (Prog.wp_mono ?_ (fun _ _ h => h) _ _
    (wp_gateFetchOwnership howner hx plan ttl))
  rintro x' ⟨plan', ended⟩ ⟨hx', hgate⟩
  cases ended with
  | some result => exact hx'
  | none =>
      have hready : x'.stage = .ready := by
        rw [hgate rfl, hcharged]
        rfl
      refine (Prog.wp_bind _ _ _ _ _).2 ((Prog.wp_call _ _ _ _).2 ⟨hx'.on, ?_, ?_⟩)
      · rintro budgetError x'' ⟨t, s, s', _, _, rfl⟩
        cases budgetError with
        | some error => exact wp_endBudgetedItem howner hx' plan' error
        | none => exact wp_fetchWithinDeadline howner hx' hready plan'
      · rintro e x'' ⟨t, s, s', _, _, rfl⟩
        exact hx'

theorem wp_chargeAndFetch (howner : w.ownerToken = .worker pid) (hx : Working pid item x)
    (plan : Option IdListFetchPlan) (ttl : Int) :
    (Worker.chargeAndFetch w item plan ttl).wp passes (fun x _ => Working pid item x)
      (fun x _ => Working pid item x) x := by
  refine (Prog.wp_bind _ _ _ _ _).2 ((Prog.wp_call _ _ _ _).2 ⟨hx.on, ?_, ?_⟩)
  · rintro reserveError x' ⟨t, s, s', _, _, rfl⟩
    cases reserveError with
    | some error => exact wp_endBudgetedItem howner hx plan error
    | none =>
        have hcharged : Working pid item { x with stage := .charged } := ⟨hx.pid_eq, hx.item_eq⟩
        refine (Prog.wp_bind _ _ _ _ _).2 ((Prog.wp_call _ _ _ _).2 ⟨hcharged.on, ?_, ?_⟩)
        · rintro budgetError x'' ⟨t', s₁, s₁', _, _, rfl⟩
          cases budgetError with
          | some error => exact wp_endBudgetedItem howner hx plan error
          | none => exact wp_fetchCharged howner hcharged rfl plan ttl
        · rintro e x'' ⟨t', s₁, s₁', _, _, rfl⟩
          exact hcharged
  · rintro e x' ⟨t, s, s', _, _, rfl⟩
    exact hx

/-! ## The pass -/

theorem wp_fetchAdmitted (howner : w.ownerToken = .worker pid) (hx : Working pid item x)
    (plan : Option IdListFetchPlan) (waitSeconds : Int) :
    (Worker.fetchAdmitted w item plan waitSeconds).wp passes (fun x _ => Working pid item x)
      (fun x _ => Working pid item x) x := by
  have hgate : ∀ x : PassView, Working pid item x →
      (Worker.gateAndCharge w item plan).wp passes (fun x _ => Working pid item x)
        (fun x _ => Working pid item x) x := by
    intro x hx
    refine (Prog.wp_bind _ _ _ _ _).2 (Prog.wp_mono ?_ (fun _ _ h => h) _ _
      (wp_gateFetchOwnership howner hx plan _))
    rintro x' ⟨plan', ended⟩ ⟨hx', _⟩
    cases ended with
    | some result => exact hx'
    | none => exact wp_chargeAndFetch howner hx' plan' _
  have hsleep : (timeSleep waitSeconds).AllOps Away := .bind (.call trivial) fun _ => .call trivial
  unfold Worker.fetchAdmitted
  split
  · refine (Prog.wp_bind _ _ _ _ _).2 (Prog.wp_mono ?_ ?_ _ _ (wp_away hsleep x))
    · rintro _ _ rfl
      exact hgate _ hx
    · rintro _ _ rfl
      exact hx
  · exact hgate x hx

theorem wp_passLimiter (howner : w.ownerToken = .worker pid) (hx : Working pid item x)
    (plan : Option IdListFetchPlan) :
    (Worker.passLimiter w item plan).wp passes (fun x _ => Working pid item x)
      (fun x _ => Working pid item x) x := by
  have hlimiter : (Limiter.beforeRequest w.deployment w.ownerToken).AllOps Away :=
    (Worker.beside_beforeRequest _ _).mono fun _ ho => away_of_beside ho
  refine (Prog.wp_bind _ _ _ _ _).2 (Prog.wp_mono ?_ ?_ _ _ (wp_away hlimiter x))
  · rintro _ decision rfl
    split
    · exact wp_fetchAdmitted howner hx plan _
    · exact wp_steadily howner hx (Worker.plain_delayRefused plan decision).steadily
  · rintro _ _ rfl
    exact hx

theorem wp_workPlanned (howner : w.ownerToken = .worker pid) (hx : Working pid item x)
    (plan : Option IdListFetchPlan) :
    (Worker.workPlanned w item plan).wp passes (fun x _ => Working pid item x)
      (fun x _ => Working pid item x) x := by
  unfold Worker.workPlanned
  split
  · exact wp_passLimiter howner hx none
  · split
    · exact wp_steadily howner hx (.bind (Worker.plain_delay _ _ _).steadily fun _ => .ret _)
    · split
      · exact wp_steadily howner hx (.bind (Worker.plain_recordCachedIdList _).steadily fun _ =>
          .bind Worker.plain_completeQueueItem.steadily fun _ => .ret _)
      · exact wp_passLimiter howner hx _

theorem wp_workClaimed (howner : w.ownerToken = .worker pid) (hx : Working pid item x) :
    (Worker.workClaimed w item).wp passes (fun x _ => Working pid item x)
      (fun x _ => Working pid item x) x := by
  refine (Prog.wp_bind _ _ _ _ _).2 (Prog.wp_mono ?_ (fun _ _ h => h) _ _
    (wp_steadily howner hx Worker.plain_getReadableCompletedCache.steadily))
  intro x₁ cached hx₁
  simp only
  split
  · exact wp_steadily howner hx₁ (.bind Worker.plain_completeQueueItem.steadily fun _ => .ret _)
  · exact (Prog.wp_bind _ _ _ _ _).2 (Prog.wp_mono (fun _ plan h => wp_workPlanned howner h plan)
      (fun _ _ h => h) _ _ (wp_steadily howner hx₁ Worker.plain_planIdListFetch.steadily))

end Pass

/-- A whole pass, from a view without an item. -/
theorem wp_runOnce {w : WorkerConfig} {x : PassView} (howner : w.ownerToken = .worker x.pid)
    (hitem : x.item = none) (targets : Option (List CacheKey)) :
    (Worker.runOnce w targets).wp passes (fun _ _ => True) (fun _ _ => True) x := by
  have hinit : initSchema.AllOps Away := .call trivial
  refine (Prog.wp_bind _ _ _ _ _).2 (Prog.wp_mono ?_ (fun _ _ _ => trivial) _ _ (wp_away hinit x))
  rintro _ _ rfl
  refine (Prog.wp_bind _ _ _ _ _).2 ?_
  unfold claimNextQueueItem
  split
  · trivial
  · refine (Prog.wp_call _ _ _ _).2 ⟨⟨howner, hitem⟩, ?_, fun _ _ _ => trivial⟩
    rintro item x' ⟨t, s, s', _, _, rfl⟩
    cases item with
    | none => trivial
    | some item =>
        exact Prog.wp_mono (fun _ _ _ => trivial) (fun _ _ _ => trivial) _ _
          (wp_workClaimed howner ⟨rfl, rfl⟩)

/-! ## Every run -/

theorem away_of_harvesting {o : Op} (ho : Harvest.Harvesting o) : Away o := by
  unfold Harvest.Harvesting at ho
  split at ho <;> first | exact trivial | exact ho.elim

theorem keeps_feeding {β : Type} {p : Program β} (hp : p.AllOps Worker.Feeding) (x : PassView) :
    p.Keeps passes x := by
  have hkept := hp.wp (D := passes) (J := fun _ => True)
    (fun o ho x _ => ⟨?_, fun _ _ _ => trivial⟩)
    x trivial
  · exact Prog.keeps_of_wp hkept
  · unfold Worker.Feeding at ho
    split at ho <;> first | exact trivial | exact ho.elim

/-- Every client keeps to the discipline from a view without an item. -/
theorem keeps_program (d : Deployment) (c : Client) (pid : Nat) :
    (c.program d pid).Keeps passes { pid := pid } := by
  have hfeeding := Worker.feeding_program d c pid
  cases c with
  | runOnce targets =>
      exact (Prog.wp_bind _ _ _ _ _).2 (Prog.wp_mono (fun _ _ _ => trivial)
        (fun _ _ _ => trivial) _ _ (wp_runOnce (w := ⟨d, .worker pid⟩) rfl rfl targets))
  | harvestOai request =>
      have haway := (Harvest.harvesting_harvestOai (d := d) request).mono
        fun _ ho => away_of_harvesting ho
      exact (Prog.wp_bind _ _ _ _ _).2 (Prog.wp_mono (fun _ _ _ => trivial)
        (fun _ _ _ => trivial) _ _ (wp_away haway _))
  | enqueueRequestForWork request cacheKey workKind budgetId => exact keeps_feeding hfeeding _
  | enqueueRefreshIfDue request cacheKey => exact keeps_feeding hfeeding _
  | createUpstreamRequestBudget maxRequests deadlineAt => exact keeps_feeding hfeeding _
  | failActiveUpstreamBudgetItems budgetId category message => exact keeps_feeding hfeeding _

open Process.System (Config Throughout Disciplined History Event Legal)

section Seen

variable {d : Deployment}

/-- What is known of the pass of the process `p`. -/
abbrev pass (p : Nat) (h : History (fleet d)) : PassView :=
  (passMonitor : Monitor (fleet d) PassView).view p h

variable (pre : History (fleet d)) {e : Event (fleet d)}

theorem pass_of_ne {p : Nat} (hne : e.pid ≠ p) : pass p (e :: pre) = pass p pre :=
  passMonitor.view_of_ne pre hne

theorem pass_of_op {o : Op} {r : Except Exn o.Res} (ha : e.action = .op o r) :
    pass e.pid (e :: pre) = (pass e.pid pre).step o r :=
  passMonitor.view_of_op pre ha

theorem pass_of_start {c : Client} (ha : e.action = .start c) :
    pass e.pid (e :: pre) = { pid := (pass e.pid pre).pid } :=
  passMonitor.view_of_start pre ha

theorem pass_of_crash (ha : e.action = .crash) :
    pass e.pid (e :: pre) = { pid := (pass e.pid pre).pid } :=
  passMonitor.view_of_crash pre ha

end Seen

/-- A pass runs under the number of its process. -/
theorem passMonitor_kept (d : Deployment) :
    (passMonitor : Monitor (fleet d) PassView).Kept fun pid x => x.pid = pid where
  initial := fun _ => rfl
  start := fun _ _ _ _ h => h
  step := fun pid x o r t h => by
    have hstep : (x.step o r).pid = x.pid := by
      unfold PassView.step
      split <;> rfl
    exact hstep.trans h
  crash := fun _ _ h => h

theorem pass_pid {d : Deployment} (p : Nat) (h : History (fleet d)) : (pass p h).pid = p :=
  (passMonitor_kept d).view _ p h

/-- In every run of the fleet, every operation was allowed to the pass that asked for it. -/
theorem passes_after (d : Deployment) (sched : List (Config.Choice (fleet d))) :
    Throughout (Disciplined passes (passMonitor : Monitor (fleet d) PassView).view)
      (Config.after (fleet d) sched).history := by
  refine (passMonitor : Monitor (fleet d) PassView).disciplined_after (passMonitor_kept d) ?_ sched
  intro pid x c t hpid _
  have hkeeps := keeps_program d c pid
  rw [← hpid] at hkeeps
  subst hpid
  exact hkeeps

end Queue
end Huldra
