import Huldra.Process.View
import Huldra.Worker.Fetching
import Huldra.Harvest.Routine
import Huldra.Clients
import Mathlib.Algebra.Order.Monoid.Unbundled.WithTop

/-!
# Deadlines — the timeout a pass fetches with

Before its fetch a pass reads the deadline of its item's budgets and the clock, and bounds the
timeout of the request by what is left.  Where nothing is left it asks for a verdict and reads both
once more; what is left then is taken as it is.  So the timeout is never above what the request or
the deadline allows, and it is positive exactly when the deadline read last is still ahead.
-/

namespace Huldra
namespace Worker

open Process (Prog Discipline Leads)
open Process.System (Monitor Config History Event Throughout Disciplined)

/-- What a pass has read on the way to its fetch. -/
structure Readings where
  item : Option QueueItem := none
  /-- The last reading of the clock. -/
  now : Int := 0
  /-- The last reading of the deadline, none where some demand has none. -/
  deadline : Option Int := none
  /-- Some reading since the claim was a deadline. -/
  bounded : Bool := false
  deriving DecidableEq

def Readings.step (x : Readings) (o : Op) (r : Except Exn o.Res) : Readings :=
  match o, r with
  | .queue (.claimNextQueueItem ..), .ok (some item) => { item := some item, now := x.now }
  | .clock .utcNow, .ok now => { x with now := now }
  | .queue (.queueItemUpstreamDeadline _), .ok deadline =>
      { x with deadline := deadline, bounded := x.bounded || deadline.isSome }
  | _, _ => x

/-- The timeout of a fetch is unset or positive, within that of the item's request and within the
deadline that was read last. -/
structure Bounded (d : Deployment) (item : QueueItem) (x : Readings)
    (timeout : Option Timeout) : Prop where
  positive : ∀ t ∈ timeout, 0 < t
  within_request : ∀ t ∈ timeout,
    t ≤ item.request.timeoutSeconds.getD d.settings.requestTimeoutSeconds
  within_deadline : ∀ deadline ∈ x.deadline, ∃ t ∈ timeout, t ≤ (deadline - x.now : Int)

/-- The deadline read last is ahead of the clock; and where the default timeout stands for that of
the request or for the deadline, it is positive. -/
structure InTime (d : Deployment) (item : QueueItem) (x : Readings) : Prop where
  ahead : ∀ deadline ∈ x.deadline, x.now < deadline
  default_pos : x.bounded = true → (x.deadline = none ∨ item.request.timeoutSeconds = none) →
    0 < d.settings.requestTimeoutSeconds

/-- What the validator of `timeout_seconds` admits, whenever a row is read. -/
def ValidTimeout (item : QueueItem) : Prop :=
  ∀ t ∈ item.request.timeoutSeconds, 0 < t

section Timeouts

variable {d : Deployment} {item : QueueItem} {x : Readings} {timeout : Option Timeout}

/-- Without a deadline the timeout is the request's own. -/
theorem bounded_iff_of_unbounded (hvalid : ValidTimeout item) (hdeadline : x.deadline = none)
    (hbounded : x.bounded = false) (htimeout : timeout = item.request.timeoutSeconds) :
    Bounded d item x timeout ↔ InTime d item x := by
  have hnone : ∀ deadline, deadline ∉ x.deadline := by
    intro deadline h
    rw [hdeadline] at h
    cases h
  subst htimeout
  refine iff_of_true ⟨hvalid, ?_, fun _ h => absurd h (hnone _)⟩
    ⟨fun _ h => absurd h (hnone _), fun h => by rw [hbounded] at h; cases h⟩
  intro t ht
  rw [Option.mem_def] at ht
  rw [ht]
  exact le_rfl

/-- Where a deadline was read and the default is positive, so is what the request asks for. -/
theorem InTime.request_pos (h : InTime d item x) (hvalid : ValidTimeout item)
    (hbounded : x.bounded = true) :
    0 < item.request.timeoutSeconds.getD (d.settings.requestTimeoutSeconds : Timeout) := by
  cases hown : item.request.timeoutSeconds with
  | none => exact WithTop.coe_pos.2 (h.default_pos hbounded (Or.inr hown))
  | some t => exact hvalid t hown

/-- `min(timeout or default, remaining)`, by what the deadline leaves. -/
theorem bounded_iff_of_deadline (hvalid : ValidTimeout item) {deadline : Int}
    (hdeadline : x.deadline = some deadline) (hbounded : x.bounded = true)
    (htimeout : timeout = some (min
      (item.request.timeoutSeconds.getD d.settings.requestTimeoutSeconds)
      (deadline - x.now : Int))) :
    Bounded d item x timeout ↔ InTime d item x := by
  subst htimeout
  constructor
  · rintro ⟨hpos, _, _⟩
    have hmin := lt_min_iff.1 (hpos _ rfl)
    refine ⟨?_, ?_⟩
    · intro deadline' h
      rw [hdeadline] at h
      cases h
      exact Int.lt_of_sub_pos (WithTop.coe_pos.1 hmin.2)
    · rintro _ (hnone | hdefault)
      · rw [hdeadline] at hnone
        cases hnone
      · rw [hdefault, Option.getD_none] at hmin
        exact WithTop.coe_pos.1 hmin.1
  · intro hintime
    have hleft : 0 < deadline - x.now := Int.sub_pos.2 (hintime.ahead deadline hdeadline)
    refine ⟨?_, ?_, ?_⟩
    · rintro t ⟨⟩
      exact lt_min (hintime.request_pos hvalid hbounded) (WithTop.coe_pos.2 hleft)
    · rintro t ⟨⟩
      exact min_le_left _ _
    · intro deadline' h
      rw [hdeadline] at h
      cases h
      exact ⟨_, rfl, min_le_right _ _⟩

/-- The same, where the second reading has found no deadline and the default stands for it. -/
theorem bounded_iff_of_released (hvalid : ValidTimeout item) (hdeadline : x.deadline = none)
    (hbounded : x.bounded = true)
    (htimeout : timeout = some (min
      (item.request.timeoutSeconds.getD d.settings.requestTimeoutSeconds)
      (d.settings.requestTimeoutSeconds : Timeout))) :
    Bounded d item x timeout ↔ InTime d item x := by
  have hnone : ∀ deadline, deadline ∉ x.deadline := by
    intro deadline h
    rw [hdeadline] at h
    cases h
  subst htimeout
  constructor
  · rintro ⟨hpos, _, _⟩
    have hmin := lt_min_iff.1 (hpos _ rfl)
    exact ⟨fun _ h => absurd h (hnone _), fun _ _ => WithTop.coe_pos.1 hmin.2⟩
  · intro hintime
    have hpos := hintime.default_pos hbounded (Or.inl hdeadline)
    refine ⟨?_, ?_, fun _ h => absurd h (hnone _)⟩
    · rintro t ⟨⟩
      exact lt_min (hintime.request_pos hvalid hbounded) (WithTop.coe_pos.2 hpos)
    · rintro t ⟨⟩
      exact min_le_left _ _

end Timeouts

/-! ## The discipline -/

/-- A fetch is for the claimed item, and its timeout is right if and only if the pass is in time. -/
def Readings.Allowed (d : Deployment) (x : Readings) : Op → Prop
  | .upstream (.fetchBegin call) => ∃ item, x.item = some item ∧
      (ValidTimeout item → (Bounded d item x call.request.timeoutSeconds ↔ InTime d item x))
  | _ => True

/-- Follow what a process reads along its passes. -/
def readingsMonitor {Client Out : Type} {program : Client → Nat → Process.Prog huldra Out} :
    Monitor (storeSystem Client Out program) Readings where
  initial _ := {}
  start _ _ _ := {}
  step x o r _ := x.step o r
  crash _ := {}
  clock _ := 0
  clock_initial _ := Process.System.no_time
  clock_start _ _ _ h := h
  clock_step _ _ _ _ h := h
  clock_crash _ := Int.le_refl 0

def deadlines (d : Deployment) : Discipline huldra Readings where
  allow := Readings.Allowed d
  next x o r x' := ∃ t s s', (0 : Int) ≤ t ∧ Store.Performed o t r s s' ∧ x' = x.step o r

/-- Anything but the beginning of a fetch. -/
def Unsent : Op → Prop
  | .upstream (.fetchBegin _) => False
  | _ => True

theorem Unsent.allowed {d : Deployment} {o : Op} (h : Unsent o) (x : Readings) : x.Allowed d o := by
  unfold Readings.Allowed
  split
  · exact h.elim
  · trivial

theorem keeps_unsent {β : Type} {d : Deployment} {p : Program β} (hp : p.AllOps Unsent)
    (x : Readings) : p.wp (deadlines d) (fun _ _ => True) (fun _ _ => True) x :=
  hp.wp (J := fun _ => True) (fun _ ho x _ => ⟨ho.allowed x, fun _ _ _ => trivial⟩) x trivial

theorem Quiet.unsent {o : Op} (h : Quiet o) : Unsent o := by
  unfold Unsent
  split
  · exact h
  · trivial

theorem unsent_of_reporting {owner : OwnerToken} {requestId : Uuid} {o : Op}
    (h : Reporting owner requestId o) : Unsent o := by
  unfold Unsent
  split
  · rcases h with (hplain | hlease | ⟨ttl, ids, hlease⟩) | hlimiting
    · exact hplain
    · cases hlease
    · cases hlease
    · exact hlimiting
  · trivial

theorem unsent_of_harvesting {o : Op} (h : Harvest.Harvesting o) : Unsent o := by
  unfold Unsent
  split
  · exact h
  · trivial

theorem unsent_of_feeding {o : Op} (h : Feeding o) : Unsent o := by
  unfold Unsent
  split
  · exact h
  · trivial

/-! ## The pass -/

section Pass

variable {w : WorkerConfig} {item : QueueItem} {x : Readings}

/-- The pass works on the item and has read no deadline since it was claimed. -/
structure Fresh (item : QueueItem) (x : Readings) : Prop where
  item_eq : x.item = some item
  deadline_eq : x.deadline = none
  bounded_eq : x.bounded = false

theorem Fresh.step {o : Op} (ho : Quiet o) (hx : Fresh item x) (r : Except Exn o.Res) :
    Fresh item (x.step o r) := by
  unfold Readings.step
  split
  · exact ho.elim
  · exact ⟨hx.item_eq, hx.deadline_eq, hx.bounded_eq⟩
  · exact ho.elim
  · exact hx

/-- The fetch with a timeout that is right if the pass is in time; nothing is sent after it. -/
theorem wp_fetchAndReport {d : Deployment} (hitem : x.item = some item)
    (plan : Option IdListFetchPlan) {request : ArxivRequest}
    (h : ValidTimeout item → (Bounded d item x request.timeoutSeconds ↔ InTime d item x)) :
    (fetchAndReport w item plan request).wp (deadlines d) (fun _ _ => True) (fun _ _ => True)
      x := by
  refine (Prog.wp_handle ..).2 ((Prog.wp_call_handle ..).2 ⟨⟨item, hitem, h⟩, ?_, ?_⟩)
  · intro _ x' _
    have hend : (perform (.upstream .fetchEnd)).AllOps Unsent := .call trivial
    refine Prog.wp_mono ?_ ?_ _ _ (keeps_unsent hend x')
    · intro x'' fetched _
      exact keeps_unsent ((reporting_onFetchResult plan fetched).mono
        fun _ ho => unsent_of_reporting ho) x''
    · intro x'' e _
      exact keeps_unsent ((reporting_onFetchError plan e).mono
        fun _ ho => unsent_of_reporting ho) x''
  · intro e x' _
    exact keeps_unsent ((reporting_onFetchError plan e).mono
      fun _ ho => unsent_of_reporting ho) x'

/-- The readings before the fetch, and what each of them leaves of the timeout. -/
theorem wp_fetchWithinDeadline {plan : Option IdListFetchPlan} (hplan : PlanOf item plan)
    (hx : Fresh item x) :
    (fetchWithinDeadline w item plan).wp (deadlines w.deployment) (fun _ _ => True)
      (fun _ _ => True) x := by
  have htimeout := timeout_fetchRequestOf hplan
  refine (Prog.wp_bind ..).2 ((Prog.wp_call ..).2 ⟨trivial, ?_, fun _ _ _ => trivial⟩)
  rintro budgetDeadline x₁ ⟨t, s, s', _, _, rfl⟩
  cases budgetDeadline with
  | none =>
      refine wp_fetchAndReport ?_ plan fun hvalid => bounded_iff_of_unbounded hvalid rfl ?_ htimeout
      · exact hx.item_eq
      · simp [Readings.step, hx.bounded_eq]
  | some deadline =>
      refine (Prog.wp_bind ..).2 ((Prog.wp_call ..).2 ⟨trivial, ?_, fun _ _ _ => trivial⟩)
      rintro now x₂ ⟨t, s, s', _, _, rfl⟩
      split
      · refine wp_fetchAndReport ?_ plan fun hvalid => bounded_iff_of_deadline hvalid rfl ?_ ?_
        · exact hx.item_eq
        · simp [Readings.step]
        · simp only [boundedRequest, htimeout]
          rfl
      · refine (Prog.wp_bind ..).2 ((Prog.wp_call ..).2 ⟨trivial, ?_, fun _ _ _ => trivial⟩)
        rintro budgetError x₃ ⟨t, s, s', _, _, rfl⟩
        cases budgetError with
        | some error =>
            exact keeps_unsent ((quietly_endBudgetedItem plan error).mono fun _ ho => ho.unsent) _
        | none =>
            -- The second reading; what it leaves is not looked at before the fetch.
            refine (Prog.wp_bind ..).2 ((Prog.wp_call ..).2 ⟨trivial, ?_, fun _ _ _ => trivial⟩)
            rintro deadline' x₄ ⟨t, s, s', _, _, rfl⟩
            cases deadline' with
            | none =>
                refine wp_fetchAndReport ?_ plan fun hvalid =>
                  bounded_iff_of_released hvalid rfl ?_ ?_
                · exact hx.item_eq
                · simp [Readings.step]
                · simp only [boundedRequest, htimeout]
            | some deadline' =>
                refine (Prog.wp_bind ..).2 ((Prog.wp_bind ..).2
                  ((Prog.wp_call ..).2 ⟨trivial, ?_, fun _ _ _ => trivial⟩))
                rintro now' x₅ ⟨t, s, s', _, _, rfl⟩
                refine wp_fetchAndReport ?_ plan fun hvalid =>
                  bounded_iff_of_deadline hvalid rfl ?_ ?_
                · exact hx.item_eq
                · simp [Readings.step]
                · simp only [boundedRequest, htimeout]
                  rfl

/-- A whole pass keeps to the discipline. -/
theorem wp_runOnce (targets : Option (List CacheKey)) (x : Readings) :
    (runOnce w targets).wp (deadlines w.deployment) (fun _ _ => True) (fun _ _ => True) x := by
  refine (Prog.wp_bind ..).2 ((Prog.wp_call ..).2 ⟨trivial, ?_, fun _ _ _ => trivial⟩)
  rintro _ x₁ ⟨t, s, s', _, _, rfl⟩
  refine (Prog.wp_bind ..).2 ?_
  unfold claimNextQueueItem
  split
  · trivial
  · refine (Prog.wp_call ..).2 ⟨trivial, ?_, fun _ _ _ => trivial⟩
    rintro item x₂ ⟨t, s, s', _, _, rfl⟩
    cases item with
    | none => trivial
    | some item =>
        refine prepares_workClaimed.wp (J := Fresh item) ?_ ?_ (fun _ _ _ _ => trivial)
          (fun _ _ _ => trivial) _ ⟨rfl, rfl, rfl⟩
        · rintro o ho x hx
          refine ⟨ho.unsent.allowed x, ?_⟩
          rintro r x' ⟨t, s, s', _, _, rfl⟩
          exact hx.step ho r
        · rintro p ⟨plan, hplan, rfl⟩ x hx
          exact wp_fetchWithinDeadline hplan hx

end Pass

/-! ## Every run -/

/-- Every client keeps to the discipline. -/
theorem keeps_deadlines (d : Deployment) (c : Client) (pid : Nat) (x : Readings) :
    (c.program d pid).Keeps (deadlines d) x := by
  have hfeeding := feeding_program d c pid
  cases c with
  | runOnce targets =>
      exact (Prog.wp_bind ..).2 (Prog.wp_mono (fun _ _ _ => trivial) (fun _ _ _ => trivial) _ _
        (wp_runOnce (w := ⟨d, .worker pid⟩) targets x))
  | harvestOai request =>
      exact (Prog.wp_bind ..).2 (Prog.wp_mono (fun _ _ _ => trivial) (fun _ _ _ => trivial) _ _
        (keeps_unsent ((Harvest.harvesting_harvestOai request).mono
          fun _ ho => unsent_of_harvesting ho) x))
  | enqueueRequestForWork request cacheKey workKind budgetId =>
      exact keeps_unsent (hfeeding.mono fun _ ho => unsent_of_feeding ho) x
  | enqueueRefreshIfDue request cacheKey =>
      exact keeps_unsent (hfeeding.mono fun _ ho => unsent_of_feeding ho) x
  | createUpstreamRequestBudget maxRequests deadlineAt =>
      exact keeps_unsent (hfeeding.mono fun _ ho => unsent_of_feeding ho) x
  | failActiveUpstreamBudgetItems budgetId category message =>
      exact keeps_unsent (hfeeding.mono fun _ ho => unsent_of_feeding ho) x

section Runs

variable {d : Deployment}

/-- What the process `p` has read. -/
abbrev readings (p : Nat) (h : History (fleet d)) : Readings :=
  (readingsMonitor : Monitor (fleet d) Readings).view p h

/-- If the event is the beginning of a fetch, it is for an item the pass has claimed, and `P` holds
of the item, what the pass has read and the timeout. -/
def EveryFetch (P : Deployment → QueueItem → Readings → Option Timeout → Prop)
    (pre : History (fleet d)) (e : Event (fleet d)) : Prop :=
  ∀ call r, e.action = .op (.upstream (.fetchBegin call)) r →
    ∃ item, (readings e.pid pre).item = some item ∧
      (ValidTimeout item → P d item (readings e.pid pre) call.request.timeoutSeconds)

/-- In every run, fetches have the right timeouts throughout if and only if the passes that make
them are in time throughout. -/
theorem fetch_timeouts_iff (d : Deployment) (sched : List (Config.Choice (fleet d))) :
    Throughout (EveryFetch Bounded) (Config.after (fleet d) sched).history ↔
      Throughout (EveryFetch fun d item x _ => InTime d item x)
        (Config.after (fleet d) sched).history := by
  have hkept : (readingsMonitor : Monitor (fleet d) Readings).Kept fun _ _ => True :=
    ⟨fun _ => trivial, fun _ _ _ _ _ => trivial, fun _ _ _ _ _ _ => trivial,
      fun _ _ _ => trivial⟩
  have hdisciplined : Throughout (Disciplined (deadlines d) (readingsMonitor :
      Monitor (fleet d) Readings).view) (Config.after (fleet d) sched).history :=
    Monitor.disciplined_after _ hkept (fun pid _ c _ _ _ => keeps_deadlines d c pid {}) sched
  constructor
  · intro h
    refine (h.and hdisciplined).mono fun pre e he call r ha => ?_
    rcases he.1 call r ha with ⟨item, hitem, hbounded⟩
    rcases he.2.1 _ r ha with ⟨item', hitem', hiff⟩
    rw [hitem] at hitem'
    cases hitem'
    exact ⟨item, hitem, fun hvalid => (hiff hvalid).1 (hbounded hvalid)⟩
  · intro h
    refine (h.and hdisciplined).mono fun pre e he call r ha => ?_
    rcases he.1 call r ha with ⟨item, hitem, hintime⟩
    rcases he.2.1 _ r ha with ⟨item', hitem', hiff⟩
    rw [hitem] at hitem'
    cases hitem'
    exact ⟨item, hitem, fun hvalid => (hiff hvalid).2 (hintime hvalid)⟩

/-- A search that a budget pays for until a second after the epoch. -/
def deadlineSearch : ArxivRequest :=
  { clientId := "maintenance", searchQuery := some "cat:cs.AI" }

/-- A pass has passed its checks and read the deadline when it is held up until its claim has run
out.  Another pass claims the item, and a budget with a later deadline joins that attempt.  The
first pass finds its deadline gone and asks for a verdict; it reads the later deadline, and that has
passed as well when it reads the clock. -/
def heldUpTwice : List (Config.Choice (fleet {})) :=
  .start 0 (.createUpstreamRequestBudget 5 (some (seconds 1))) :: runs 0 2 ++
    .start 1 (.enqueueRequestForWork deadlineSearch (Keys.requestCacheKey deadlineSearch)
      .fetchMissing (some 0)) :: runs 1 2 ++
    .start 2 (.runOnce none) :: runs 2 19 ++ [.tick 400000000] ++ runs 2 1 ++
    .start 3 (.runOnce none) :: runs 3 2 ++
    .start 4 (.createUpstreamRequestBudget 5 (some (seconds 500))) :: runs 4 2 ++
    .start 5 (.enqueueRequestForWork deadlineSearch (Keys.requestCacheKey deadlineSearch)
      .fetchMissing (some 8)) :: runs 5 2 ++
    runs 2 2 ++ [.tick 100000000] ++ runs 2 2

/-- A fetch for an item with a valid timeout has a timeout that is positive. -/
def positiveTimeout (pre : History (fleet d)) (e : Event (fleet d)) : Bool :=
  match e.action with
  | .op (.upstream (.fetchBegin call)) _ =>
      !((readings e.pid pre).item.all fun item => item.request.timeoutSeconds.all (0 < ·)) ||
        call.request.timeoutSeconds.all (0 < ·)
  | _ => true

theorem positiveTimeout_of_bounded {pre : History (fleet d)} {e : Event (fleet d)}
    (h : EveryFetch Bounded pre e) : positiveTimeout pre e = true := by
  unfold positiveTimeout
  split
  case h_1 call r ha =>
    rcases h call r ha with ⟨item, hitem, hbounded⟩
    by_cases hvalid : ValidTimeout item
    · have hpos := (hbounded hvalid).positive
      simp only [Bool.or_eq_true, Option.all_eq_true, decide_eq_true_eq]
      exact Or.inr fun t ht => hpos t ht
    · have hinvalid : item.request.timeoutSeconds.all (0 < ·) = false := by
        rw [← Bool.not_eq_true, Option.all_eq_true]
        simpa only [ValidTimeout, Option.mem_def, decide_eq_true_eq] using hvalid
      rw [hitem, Option.all_some, hinvalid]
      rfl
  case h_2 => rfl

/-- The pass that was held up fetches with a timeout of zero. -/
theorem fetch_without_time :
    ¬ ∀ (d : Deployment) (sched : List (Config.Choice (fleet d))),
      Throughout (EveryFetch Bounded) (Config.after (fleet d) sched).history := by
  intro h
  -- The schedule is kept out of sight, or the elaborator runs it.
  generalize hsched : heldUpTwice = sched
  have hsent : ¬ Throughout (fun pre e => positiveTimeout pre e = true)
      (Config.after (fleet {}) sched).history := by
    subst hsched
    decide +kernel
  exact hsent ((h {} sched).mono fun _ _ he => positiveTimeout_of_bounded he)

end Runs

end Worker
end Huldra
