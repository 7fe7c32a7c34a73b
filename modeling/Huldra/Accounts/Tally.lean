import Huldra.Accounts.Entries
import Huldra.Harvest.Routine
import Huldra.Maintenance
import Huldra.Worker.Fetching

/-!
# Tally — each fetch is counted once, before its item is completed or put off

A pass fetches at most once.  Whichever way a fetch is classified, the pass then writes one request
into the entry of its item, and only after that completes the item or puts it off.  Where it raises
in between it does neither.  Everything else a process does counts nothing.
-/

namespace Huldra
namespace Accounts

open Process (Prog Discipline)
open Maintenance (inlineUpstream)

/-- The operation is a call of the fetcher. -/
def begins : Op → Bool
  | .upstream (.fetchBegin _) => true
  | _ => false

/-- The operation completes an item or puts it off. -/
def settles : Op → Bool
  | .queue (.completeQueueItem ..) => true
  | .queue (.releaseOrDelayQueueItem ..) => true
  | _ => false

/-- How far a process is with its last fetch. -/
inductive Phase where
  | settled
  /-- The fetch has begun. -/
  | owing
  /-- It is counted in an entry. -/
  | counted
  /-- The transaction that was to count it has raised. -/
  | unclear
  deriving DecidableEq

/-- The fetches of a process, and how far it is with the last of them. -/
structure Tally where
  fetches : Nat := 0
  phase : Phase := .settled

namespace Tally

def step (x : Tally) (o : Op) (r : Except Exn o.Res) : Tally :=
  if begins o = true then { fetches := x.fetches + 1, phase := .owing }
  else if settles o = true then { x with phase := .settled }
  else if counted o = 0 then x
  else
    match r with
    | .ok _ => { x with phase := .counted }
    | .error _ => { x with phase := .unclear }

/-- One request is counted, and only for a fetch that is not yet; an item is settled when its fetch
is counted, and the next fetch begins when that is done. -/
structure Allowed (x : Tally) (o : Op) : Prop where
  begun : begins o = true → x.phase = .settled
  settled : settles o = true → x.phase = .settled ∨ x.phase = .counted
  counted : counted o ≠ 0 → Accounts.counted o = 1 ∧ x.phase = .owing

end Tally

def tallying : Discipline huldra Tally where
  allow := Tally.Allowed
  next x o r x' := x' = x.step o r

/-! ## Operations that leave the tally as it is -/

/-- Neither a fetch nor a request that is counted. -/
structure Still (o : Op) : Prop where
  not_begun : begins o = false
  uncounted : counted o = 0

/-- Nor the end of an item. -/
structure Idle (o : Op) : Prop extends Still o where
  not_settled : settles o = false

section Quiet

variable {β : Type} {p : Program β} {x : Tally} {o : Op}

theorem Idle.step_eq (h : Idle o) (x : Tally) (r : Except Exn o.Res) : x.step o r = x := by
  simp [Tally.step, h.not_begun, h.not_settled, h.uncounted]

theorem Idle.allowed (h : Idle o) (x : Tally) : x.Allowed o := by
  refine ⟨?_, ?_, fun hne => absurd h.uncounted hne⟩
  · rw [h.not_begun]
    nofun
  · rw [h.not_settled]
    nofun

theorem Still.step_eq (h : Still o) (hx : x.phase = .settled) (r : Except Exn o.Res) :
    x.step o r = x := by
  simp only [Tally.step, h.not_begun, h.uncounted, Bool.false_eq_true, if_false, if_true]
  split
  · rw [← hx]
  · rfl

theorem Still.allowed (h : Still o) (hx : x.phase = .settled) : x.Allowed o := by
  refine ⟨fun _ => hx, fun _ => Or.inl hx, fun hne => absurd h.uncounted hne⟩

/-- From `x` on every path of the program is right with the tally, and ends in `Q` if it returns. -/
abbrev Tallied (p : Program β) (x : Tally) (Q : Tally → β → Prop) : Prop :=
  p.wp tallying Q (fun _ _ => True) x

theorem Tallied.bind {γ : Type} {f : β → Program γ} {Q : Tally → β → Prop}
    {Q' : Tally → γ → Prop} (hp : Tallied p x Q) (hf : ∀ x' b, Q x' b → Tallied (f b) x' Q') :
    Tallied (p >>= f) x Q' :=
  (Prog.wp_bind ..).2 (Prog.wp_mono hf (fun _ _ h => h) p x hp)

theorem tallied_idle (h : p.AllOps Idle) (x : Tally) : Tallied p x fun x' _ => x' = x := by
  refine Prog.wp_mono (fun _ _ h => h) (fun _ _ _ => trivial) p x
    (h.wp (J := fun x' => x' = x) ?_ x rfl)
  rintro o ho x' rfl
  refine ⟨ho.allowed x', ?_⟩
  rintro r _ rfl
  exact ho.step_eq x' r

theorem tallied_still (h : p.AllOps Still) (hx : x.phase = .settled) :
    Tallied p x fun x' _ => x' = x := by
  refine Prog.wp_mono (fun _ _ h => h) (fun _ _ _ => trivial) p x
    (h.wp (J := fun x' => x' = x) ?_ x rfl)
  rintro o ho x' rfl
  refine ⟨ho.allowed hx, ?_⟩
  rintro r _ rfl
  exact ho.step_eq hx r

theorem Tallied.bind_idle {γ : Type} {f : β → Program γ} {Q : Tally → γ → Prop}
    (hp : p.AllOps Idle) (hf : ∀ b, Tallied (f b) x Q) : Tallied (p >>= f) x Q := by
  refine (tallied_idle hp x).bind ?_
  rintro _ b rfl
  exact hf b

theorem Tallied.bind_still {γ : Type} {f : β → Program γ} {Q : Tally → γ → Prop}
    (hp : p.AllOps Still) (hx : x.phase = .settled) (hf : ∀ b, Tallied (f b) x Q) :
    Tallied (p >>= f) x Q := by
  refine (tallied_still hp hx).bind ?_
  rintro _ b rfl
  exact hf b

end Quiet

theorem Still.of_quiet {o : Op} (h : Worker.Quiet o) : Still o := by
  unfold Worker.Quiet at h
  split at h
  · exact h.elim
  · exact h.elim
  · exact h.elim
  · exact ⟨rfl, h⟩
  · exact ⟨rfl, h⟩
  · rename_i hclaim hdeadline hfetch hcompleted hfailure
    constructor
    · unfold begins
      split
      · exact absurd rfl (hfetch _)
      · rfl
    · unfold counted
      split
      · exact absurd rfl (hcompleted _)
      · exact absurd rfl (hfailure _)
      · rfl

theorem Idle.of_limiting {o : Op} (h : Worker.Limiting o) : Idle o := by
  unfold Worker.Limiting at h
  split at h
  all_goals first | exact ⟨⟨rfl, rfl⟩, rfl⟩ | exact h.elim

theorem Still.of_harvesting {o : Op} (h : Harvest.Harvesting o) : Still o := by
  unfold Harvest.Harvesting at h
  split at h
  all_goals first | exact ⟨rfl, rfl⟩ | exact h.elim

theorem Still.of_feeding {o : Op} (h : Worker.Feeding o) : Still o := by
  unfold Worker.Feeding at h
  split at h
  all_goals first | exact ⟨rfl, rfl⟩ | exact h.elim

/-! ## A pass -/

theorem idle_utcNow : utcNow.AllOps Idle :=
  .call ⟨⟨rfl, rfl⟩, rfl⟩

theorem idle_releaseIdPlan (w : WorkerConfig) (plan : Option IdListFetchPlan) :
    (Worker.releaseIdPlan w plan).AllOps Idle := by
  cases plan with
  | none => exact .ret _
  | some plan =>
      change (releaseIdFetchReservations plan.reservedIds w.ownerToken).AllOps Idle
      unfold releaseIdFetchReservations
      split
      · exact .ret _
      · exact .bind idle_utcNow fun _ => .call ⟨⟨rfl, rfl⟩, rfl⟩

section Pass

variable {w : WorkerConfig} {item : QueueItem} {x : Tally}

/-- A transaction that counts one request counts it for the fetch. -/
theorem tallied_count {o : Op} (hbegins : begins o = false) (hsettles : settles o = false)
    (hcounted : counted o = 1) (hx : x.phase = .owing) :
    Tallied (perform o) x fun x' _ => x' = { x with phase := .counted } := by
  refine (Prog.wp_call ..).2 ⟨⟨?_, ?_, fun _ => ⟨hcounted, hx⟩⟩, ?_, fun _ _ _ => trivial⟩
  · rw [hbegins]
    nofun
  · rw [hsettles]
    nofun
  · rintro r _ rfl
    simp [Tally.step, hbegins, hsettles, hcounted]

theorem tallied_recordCompleted (hx : x.phase = .owing) (cacheKey : CacheKey)
    (request : ArxivRequest) (papers : List ArxivPaper) (total : Option Nat) (status : Int) :
    Tallied (recordCompletedCacheEntry cacheKey request papers total status 1) x
      fun x' _ => x' = { x with phase := .counted } :=
  .bind_idle idle_utcNow fun _ => .bind_idle idle_utcNow fun _ => tallied_count rfl rfl rfl hx

theorem tallied_recordFailure (hx : x.phase = .owing) (cacheKey : CacheKey)
    (request : ArxivRequest) (category message : String) (status : CacheStatus)
    (cooldownUntil upstreamStatus : Option Int) :
    Tallied (recordCacheFailure cacheKey request category message status cooldownUntil
      upstreamStatus 1) x fun x' _ => x' = { x with phase := .counted } :=
  .bind_idle idle_utcNow fun _ => tallied_count rfl rfl rfl hx

theorem tallied_settle {o : Op} (hbegins : begins o = false) (hsettles : settles o = true)
    (hcounted : counted o = 0) (hx : x.phase = .counted) :
    Tallied (perform o) x fun x' _ => x' = { x with phase := .settled } := by
  refine (Prog.wp_call ..).2 ⟨⟨?_, fun _ => Or.inr hx, fun hne => absurd hcounted hne⟩, ?_,
    fun _ _ _ => trivial⟩
  · rw [hbegins]
    nofun
  · rintro r _ rfl
    simp [Tally.step, hbegins, hsettles]

theorem tallied_completeQueueItem (hx : x.phase = .counted) (requestId : Uuid) :
    Tallied (completeQueueItem requestId) x fun x' _ => x' = { x with phase := .settled } :=
  .bind_idle idle_utcNow fun _ => tallied_settle rfl rfl rfl hx

theorem tallied_releaseOrDelay (hx : x.phase = .counted) (requestId : Uuid)
    (nextAttemptAt : Option Int) (category message : Option String) (status : RequestStatus) :
    Tallied (releaseOrDelayQueueItem requestId nextAttemptAt category message status) x
      fun x' _ => x' = { x with phase := .settled } :=
  .bind_idle idle_utcNow fun _ => tallied_settle rfl rfl rfl hx

/-- How a pass that has fetched ends: the fetch is counted, and the status says so. -/
def Counted (x x' : Tally) (result : WorkerPassResult) : Prop :=
  x' = { x with phase := .settled } ∧ inlineUpstream result.status = true

/-- When the item is settled the plan's ids are released and the pass is over. -/
theorem tallied_ending (plan : Option IdListFetchPlan) {result : WorkerPassResult}
    (hresult : inlineUpstream result.status = true) {settle : Program Unit}
    (h : Tallied settle { x with phase := .counted }
      fun x' _ => x' = { x with phase := .settled }) :
    Tallied (settle >>= fun _ => Worker.releaseIdPlan w plan >>= fun _ => pure result)
      { x with phase := .counted } (Counted x) := by
  refine h.bind ?_
  rintro _ _ rfl
  exact .bind_idle (idle_releaseIdPlan w plan) fun _ => ⟨rfl, hresult⟩

theorem tallied_onFetched (hx : x.phase = .owing) (plan : Option IdListFetchPlan)
    (papers : List ArxivPaper) (total : Option Nat) (status : Int) :
    Tallied (Worker.onFetched w item plan papers total status) x (Counted x) := by
  refine (tallied_recordCompleted hx ..).bind ?_
  rintro _ _ rfl
  exact .bind_idle ((Worker.limiting_afterSuccess ..).mono fun _ => .of_limiting) fun _ =>
    tallied_ending plan rfl (tallied_completeQueueItem rfl _)

theorem tallied_onNonRetryable (hx : x.phase = .owing) (plan : Option IdListFetchPlan)
    (message : String) (statusCode : Option Int) :
    Tallied (Worker.onNonRetryable w item plan message statusCode) x (Counted x) := by
  refine .bind_idle ((Worker.limiting_afterFailure ..).mono fun _ => .of_limiting) fun _ =>
    (tallied_recordFailure hx ..).bind ?_
  rintro _ _ rfl
  exact tallied_ending plan rfl (tallied_releaseOrDelay rfl ..)

theorem tallied_onFetchResult (hx : x.phase = .owing) (plan : Option IdListFetchPlan)
    (fetched : FetchResult) :
    Tallied (Worker.onFetchResult w item plan fetched) x (Counted x) := by
  unfold Worker.onFetchResult
  split
  · exact tallied_onFetched hx ..
  · dsimp only
    split
    · exact tallied_onNonRetryable hx ..
    · split
      · trivial
      · exact tallied_onFetched hx ..

/-- What is no classified failure goes on to be raised, with the fetch uncounted. -/
theorem tallied_onFetchError (hx : x.phase = .owing) (plan : Option IdListFetchPlan) (e : Exn) :
    Tallied (Worker.onFetchError w item plan e) x (Counted x) := by
  cases e with
  | rateLimitedError retryAfter message statusCode =>
      refine .bind_idle ((Worker.limiting_afterRateLimit ..).mono fun _ => .of_limiting)
        fun cooldownUntil => (tallied_recordFailure hx ..).bind ?_
      rintro _ _ rfl
      exact tallied_ending plan rfl (tallied_releaseOrDelay rfl ..)
  | transientFetchError message statusCode =>
      refine .bind_idle ((Worker.limiting_afterFailure ..).mono fun _ => .of_limiting) fun _ =>
        .bind_idle idle_utcNow fun now => (tallied_recordFailure hx ..).bind ?_
      rintro _ _ rfl
      exact tallied_ending plan rfl (tallied_releaseOrDelay rfl ..)
  | nonRetryableFetchError message statusCode => exact tallied_onNonRetryable hx ..
  | huldraFetchError message statusCode =>
      exact .bind_idle ((Worker.limiting_afterFailure ..).mono fun _ => .of_limiting) fun _ =>
        .bind_idle (idle_releaseIdPlan w plan) fun _ => trivial
  | _ => trivial

/-- The requests that the status of a pass stands for. -/
def charge (status : WorkerPassStatus) : Nat :=
  if inlineUpstream status = true then 1 else 0

/-- How a pass ends: with as many fetches more as its status says, all of them counted. -/
def Passed (x x' : Tally) (result : WorkerPassResult) : Prop :=
  x' = { fetches := x.fetches + charge result.status, phase := .settled }

theorem passed_of_unfetched {result : WorkerPassResult} (hx : x.phase = .settled)
    (h : Worker.Unfetched result) : Passed x x result := by
  have hcharge : charge result.status = 0 := by
    have hnot : inlineUpstream result.status = false := by
      simpa [Worker.Unfetched, inlineUpstream] using h
    rw [charge, hnot]
    rfl
  rw [Passed, hcharge, Nat.add_zero, ← hx]

theorem passed_of_counted {x' : Tally} {result : WorkerPassResult}
    (h : Counted { fetches := x.fetches + 1, phase := .owing } x' result) : Passed x x' result := by
  rcases h with ⟨rfl, hresult⟩
  rw [Passed, charge, if_pos hresult]

theorem tallied_fetchAndReport (hx : x.phase = .settled) (plan : Option IdListFetchPlan)
    (request : ArxivRequest) :
    Tallied (Worker.fetchAndReport w item plan request) x (Passed x) := by
  have hallowed : ∀ call, x.Allowed (.upstream (.fetchBegin call)) := fun call =>
    ⟨fun _ => hx, nofun, fun hne => absurd rfl hne⟩
  have herror : ∀ e, Tallied (Worker.onFetchError w item plan e)
      { fetches := x.fetches + 1, phase := .owing } (Passed x) := fun e =>
    Prog.wp_mono (fun _ _ h => passed_of_counted h) (fun _ _ h => h) _ _
      (tallied_onFetchError rfl plan e)
  have hend : Idle (.upstream .fetchEnd) := ⟨⟨rfl, rfl⟩, rfl⟩
  refine (Prog.wp_handle ..).2 ((Prog.wp_call_handle ..).2 ⟨hallowed _, ?_, ?_⟩)
  · rintro _ _ rfl
    refine (Prog.wp_call ..).2 ⟨hend.allowed _, ?_, ?_⟩
    · rintro fetched _ rfl
      rw [hend.step_eq]
      exact Prog.wp_mono (fun _ _ h => passed_of_counted h) (fun _ _ h => h) _ _
        (tallied_onFetchResult rfl plan fetched)
    · rintro e _ rfl
      rw [hend.step_eq]
      exact herror e
  · rintro e _ rfl
    exact herror e

theorem tallied_endBudgetedItem (hx : x.phase = .settled) (plan : Option IdListFetchPlan)
    (budgetError : String) :
    Tallied (Worker.endBudgetedItem w item plan budgetError) x (Passed x) := by
  have hquiet : Worker.Quietly (Worker.endBudgetedItem w item plan budgetError) :=
    Worker.quietly_endBudgetedItem plan budgetError
  have hstill := tallied_still (hquiet.mono fun _ => .of_quiet) hx
  refine Prog.wp_mono ?_ (fun _ _ h => h) _ x
    ((Worker.returns_endBudgetedItem plan budgetError).wp x hstill)
  rintro _ result ⟨rfl, hresult⟩
  exact passed_of_unfetched hx hresult

theorem tallied_fetchWithinDeadline (hx : x.phase = .settled) (plan : Option IdListFetchPlan) :
    Tallied (Worker.fetchWithinDeadline w item plan) x (Passed x) := by
  have hdeadline : (queueItemUpstreamDeadline item.requestId).AllOps Idle :=
    .call ⟨⟨rfl, rfl⟩, rfl⟩
  refine .bind_idle hdeadline fun budgetDeadline => ?_
  cases budgetDeadline with
  | none => exact tallied_fetchAndReport hx plan _
  | some deadline =>
      refine .bind_idle idle_utcNow fun now => ?_
      split
      · exact tallied_fetchAndReport hx plan _
      · refine .bind_idle (.call ⟨⟨rfl, rfl⟩, rfl⟩) fun budgetError => ?_
        cases budgetError with
        | some error => exact tallied_endBudgetedItem hx plan error
        | none =>
            refine .bind_idle hdeadline fun deadline => .bind_idle ?_ fun remaining =>
              tallied_fetchAndReport hx plan _
            cases deadline with
            | some deadline => exact .bind idle_utcNow fun _ => .ret _
            | none => exact .ret _

/-- A pass fetches as often as its status says, and its fetches are counted when it returns. -/
theorem tallied_runOnce (hx : x.phase = .settled) (targets : Option (List CacheKey)) :
    Tallied (Worker.runOnce w targets) x (Passed x) := by
  have hidle : Passed x x { status := .idle } :=
    passed_of_unfetched hx (by simp [Worker.Unfetched])
  refine .bind_still (.call ⟨rfl, rfl⟩) hx fun _ => .bind_still ?_ hx fun item => ?_
  · unfold claimNextQueueItem
    split
    · exact .ret _
    · exact .call ⟨rfl, rfl⟩
  · cases item with
    | none => exact hidle
    | some item =>
        refine Worker.prepares_workClaimed.wp (J := fun x' => x' = x) ?_ ?_ ?_
          (fun _ _ _ => trivial) x rfl
        · rintro o ho _ rfl
          have hstill : Still o := .of_quiet ho
          refine ⟨hstill.allowed hx, ?_⟩
          rintro r _ rfl
          exact hstill.step_eq hx r
        · rintro p ⟨plan, _, rfl⟩ _ rfl
          exact tallied_fetchWithinDeadline hx plan
        · rintro _ result rfl h
          exact passed_of_unfetched hx h

end Pass

end Accounts
end Huldra
