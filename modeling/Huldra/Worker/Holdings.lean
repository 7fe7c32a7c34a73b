import Huldra.Worker.Routine
import Huldra.Process.View
import Huldra.Queue.Reservations

/-!
# Holdings — what a pass may still hold

A pass takes a claim, the upstream lease and reservations of ids, and each of its exits gives them
back by hand.  `Holding` follows what it may still hold; every path on which a pass returns ends
with nothing, where a fence that is refused for the lease or the claim counts the claim as lost.
-/

namespace Huldra
namespace Worker

open Process (Prog Discipline)

structure Holding where
  pid : Nat
  /-- The process is in a pass. -/
  within : Bool := false
  lease : Bool := false
  ids : List String := []
  claim : Bool := false
  deriving DecidableEq

namespace Holding

/-- The renewal is of the process's own upstream lease and of nothing else. -/
def ownRenewal (x : Holding) (renewals : List LeaseRenewal) : Bool :=
  renewals.map (fun r => (r.name, r.ownerToken)) = [(Limiter.leaseName, .worker x.pid)]

def step (x : Holding) (o : Op) (r : Except Exn o.Res) : Holding :=
  match o, r with
  | .queue (.claimNextQueueItem ..), .ok (some _) => { x with claim := true }
  | .queue (.completeQueueItem ..), .ok _
  | .queue (.releaseOrDelayQueueItem ..), .ok _ => { x with claim := false }
  | .renewWorkerFetchOwnership .., .ok (some reason) =>
      if reason = "id_fetch_reserved" then x else { x with claim := false }
  | .lease (.acquireLease name owner _), r =>
      if name = Limiter.leaseName ∧ owner = .worker x.pid then
        { x with
          lease := match r with
            | .ok false => false
            | _ => true }
      else x
  | .lease (.releaseLease name owner), .ok _ =>
      if name = Limiter.leaseName ∧ owner = .worker x.pid then { x with lease := false } else x
  | .lease (.renewLeasesIfOwned renewals), .ok false =>
      if x.ownRenewal renewals = true then { x with lease := false } else x
  | .queue (.acquireIdFetchReservations _ _ _ _), .ok result =>
      { x with ids := x.ids ++ result.acquiredIds }
  | .queue (.acquireIdFetchReservations arxivIds _ _ _), .error _ =>
      { x with ids := x.ids ++ arxivIds }
  | .queue (.releaseIdFetchReservations arxivIds owner _), .ok _ =>
      if owner = .worker x.pid then
        { x with ids := x.ids.filter fun arxivId => !arxivIds.contains arxivId }
      else x
  | _, _ => x

/-- Nothing is held. -/
structure Clean (x : Holding) : Prop where
  lease : x.lease = false
  ids : x.ids = []
  claim : x.claim = false

end Holding

/-- How the holdings move; a pass may ask for anything. -/
def holds : Discipline huldra Holding where
  allow _ _ := True
  next x o r x' := ∃ t s s', (0 : Int) ≤ t ∧ Store.Performed o t r s s' ∧ x' = x.step o r

/-- Every path of the program that returns ends in `Q`. -/
def Ends {β : Type} (p : Program β) (x : Holding) (Q : Holding → β → Prop) : Prop :=
  p.wp holds Q (fun _ _ => True) x

/-! ## Rules -/

/-- The operation moves no holding. -/
def Bystander (o : Op) : Prop :=
  ∀ (x : Holding) (r : Except Exn o.Res), x.step o r = x

theorem wp_bystander {β : Type} {p : Program β} (hp : p.AllOps Bystander) (x : Holding) :
    p.wp holds (fun x' _ => x' = x) (fun x' _ => x' = x) x := by
  refine hp.wp ?_ x rfl
  rintro o ho x' rfl
  refine ⟨trivial, ?_⟩
  rintro r x'' ⟨t, s, s', _, _, rfl⟩
  exact ho x' r

namespace Ends

variable {β γ : Type} {x : Holding} {Q Q' : Holding → β → Prop} {p : Program β}

theorem mono (h : Ends p x Q) (hQ : ∀ x b, Q x b → Q' x b) : Ends p x Q' :=
  Prog.wp_mono hQ (fun _ _ h => h) p x h

theorem bind {f : β → Program γ} {R : Holding → γ → Prop}
    (h : Ends p x fun x' b => Ends (f b) x' R) : Ends (p >>= f) x R :=
  (Prog.wp_bind ..).2 h

theorem call {o : Op} {Q : Holding → o.Res → Prop}
    (h : ∀ t r s s', Store.Performed o t (.ok r) s s' → Q (x.step o (.ok r)) r) :
    Ends (perform o) x Q := by
  refine (Prog.wp_call ..).2 ⟨trivial, ?_, fun _ _ _ => trivial⟩
  rintro r x' ⟨t, s, s', _, hperf, rfl⟩
  exact h t r s s' hperf

/-- Nothing is said of a program that raises in the end. -/
theorem raising (p : Program β) (e : Exn) {R : Holding → γ → Prop} :
    Ends (do
      let _ ← p
      .raise e) x R := by
  refine .bind ?_
  induction p generalizing x with
  | ret b => trivial
  | raise e => trivial
  | op o k ih => exact ⟨trivial, fun r x' _ => ih r⟩

/-- A part that moves no holding. -/
theorem aside (hp : p.AllOps Bystander) (hQ : ∀ b, Q x b) : Ends p x Q :=
  Prog.wp_mono (fun _ b h => h ▸ hQ b) (fun _ _ _ => trivial) p x (wp_bystander hp x)

theorem bind_aside {f : β → Program γ} {R : Holding → γ → Prop} (hp : p.AllOps Bystander)
    (hf : ∀ b, Ends (f b) x R) : Ends (p >>= f) x R :=
  .bind (.aside hp hf)

end Ends

/-! ## What moves no holding -/

section Bystanders

theorem bystander_utcNow : utcNow.AllOps Bystander :=
  .call fun _ _ => rfl

theorem bystander_getRateState : (getRateState Limiter.name).AllOps Bystander :=
  .call fun _ _ => rfl

theorem bystander_setRateState (state : RateState) : (setRateState state).AllOps Bystander :=
  .call fun _ _ => rfl

theorem bystander_getPapersByIds (ids : List String) : (getPapersByIds ids).AllOps Bystander := by
  unfold getPapersByIds
  split
  · exact .ret _
  · exact .call fun _ _ => rfl

theorem bystander_recordCacheFailure (cacheKey : CacheKey) (request : ArxivRequest)
    (category message : String) (status : CacheStatus) (cooldownUntil upstreamStatus : Option Int)
    (count : Nat) :
    (recordCacheFailure cacheKey request category message status cooldownUntil upstreamStatus
      count).AllOps Bystander :=
  .bind bystander_utcNow fun _ => .call fun _ _ => rfl

theorem bystander_recordCompletedCacheEntry (cacheKey : CacheKey) (request : ArxivRequest)
    (papers : List ArxivPaper) (total : Option Nat) (status : Int) (count : Nat) :
    (recordCompletedCacheEntry cacheKey request papers total status count).AllOps Bystander :=
  .bind bystander_utcNow fun _ => .bind bystander_utcNow fun _ => .call fun _ _ => rfl

theorem bystander_getReadableCompletedCache (cacheKey : CacheKey) :
    (getReadableCompletedCache cacheKey).AllOps Bystander := by
  refine .bind (.call fun _ _ => rfl) fun entry => ?_
  cases entry with
  | none => exact .ret none
  | some entry =>
      simp only
      split
      · exact .ret none
      · refine .bind (.bind (.call fun _ _ => rfl) fun _ => .bind (.call fun _ _ => rfl) fun _ =>
          .bind (.call fun _ _ => rfl) fun _ => ?_) fun reason => ?_
        · split
          · exact .ret _
          · split
            · exact .ret _
            · split
              · exact .ret _
              · exact .ret _
        · cases reason with
          | none => exact .ret _
          | some reason => exact .bind (.call fun _ _ => rfl) fun _ => .ret none

theorem bystander_recordCachedIdList (item : QueueItem) (plan : IdListFetchPlan) :
    (recordCachedIdList item plan).AllOps Bystander := by
  unfold recordCachedIdList
  split
  · exact .raise _
  · exact .bind (bystander_recordCompletedCacheEntry ..) fun _ => .ret _

theorem bystander_remainingAfterRecheck (w : WorkerConfig) (deadline : Option Int) :
    (remainingAfterRecheck w deadline).AllOps Bystander := by
  cases deadline with
  | none => exact .ret _
  | some deadline => exact .bind bystander_utcNow fun _ => .ret _

end Bystanders

/-! ## What gives a holding back -/

/-- The ids that a plan reserves. -/
def reserved : Option IdListFetchPlan → List String
  | some plan => plan.reservedIds
  | none => []

section Pass

variable {w : WorkerConfig} {item : QueueItem} {x : Holding} {β : Type}

theorem Holding.eq_of_ids (hids : x.ids = []) : { x with ids := [] } = x := by
  cases x
  cases hids
  rfl

theorem ends_releaseLease (howner : w.ownerToken = .worker x.pid) {Q : Holding → Unit → Prop}
    (h : Q { x with lease := false } ()) :
    Ends (releaseLease Limiter.leaseName w.ownerToken) x Q := by
  refine .call fun t r s s' _ => ?_
  rw [Holding.step, if_pos ⟨rfl, howner⟩]
  exact h

theorem ends_completeQueueItem {Q : Holding → Unit → Prop} (h : Q { x with claim := false } ()) :
    Ends (completeQueueItem item.requestId) x Q :=
  .bind_aside bystander_utcNow fun _ => .call fun _ _ _ _ _ => h

theorem ends_releaseOrDelay {nextAttemptAt : Option Int} {category message : Option String}
    {status : RequestStatus} {Q : Holding → Unit → Prop} (h : Q { x with claim := false } ()) :
    Ends (releaseOrDelayQueueItem item.requestId nextAttemptAt category message status) x Q :=
  .bind_aside bystander_utcNow fun _ => .call fun _ _ _ _ _ => h

/-- Where the ids given back are all that may be held, none is held after. -/
theorem ends_releaseIds (howner : w.ownerToken = .worker x.pid) (ids : List String)
    {Q : Holding → Unit → Prop}
    (h : Q { x with ids := x.ids.filter fun arxivId => !ids.contains arxivId } ()) :
    Ends (releaseIdFetchReservations ids w.ownerToken) x Q := by
  unfold releaseIdFetchReservations
  split
  · rename_i hempty
    have hnone : ids = [] := List.isEmpty_iff.1 hempty
    have hsame : { x with ids := x.ids.filter fun arxivId => !ids.contains arxivId } = x := by
      simp [hnone]
    rw [hsame] at h
    exact h
  · refine .bind_aside bystander_utcNow fun _ => .call fun _ _ _ _ _ => ?_
    rw [Holding.step, if_pos howner]
    exact h

theorem ends_releaseIdPlan (howner : w.ownerToken = .worker x.pid)
    {plan : Option IdListFetchPlan} (hids : x.ids ⊆ reserved plan) {Q : Holding → Unit → Prop}
    (h : Q { x with ids := [] } ()) : Ends (releaseIdPlan w plan) x Q := by
  cases plan with
  | none =>
      rw [Holding.eq_of_ids (List.eq_nil_of_subset_nil hids)] at h
      exact h
  | some plan =>
      refine ends_releaseIds howner plan.reservedIds ?_
      have hnone : (x.ids.filter fun arxivId => !plan.reservedIds.contains arxivId) = [] := by
        refine List.filter_eq_nil_iff.2 fun arxivId hmem => ?_
        have hreserved : arxivId ∈ plan.reservedIds := hids hmem
        simpa using hreserved
      rw [hnone]
      exact h

/-- The last steps of an exit. -/
theorem ends_withPlan (howner : w.ownerToken = .worker x.pid) {plan : Option IdListFetchPlan}
    (hids : x.ids ⊆ reserved plan) (hlease : x.lease = false) (hclaim : x.claim = false) (b : β) :
    Ends (do
      releaseIdPlan w plan
      pure b) x fun x' _ => x'.Clean :=
  .bind (ends_releaseIdPlan howner hids ⟨hlease, rfl, hclaim⟩)

/-! ## The exits before the fetch -/

theorem ends_endBudgetedItem (howner : w.ownerToken = .worker x.pid)
    {plan : Option IdListFetchPlan} (hids : x.ids ⊆ reserved plan) (budgetError : String) :
    Ends (endBudgetedItem w item plan budgetError) x fun x' _ => x'.Clean := by
  unfold endBudgetedItem
  split
  · refine .bind (ends_releaseLease howner (.bind_aside bystander_utcNow fun _ => ?_))
    refine .bind (ends_releaseOrDelay ?_)
    exact ends_withPlan (x := { x with lease := false, claim := false }) howner hids rfl rfl _
  · refine .bind (ends_releaseLease howner
      (.bind_aside (bystander_recordCacheFailure ..) fun _ => ?_))
    refine .bind (ends_releaseOrDelay ?_)
    exact ends_withPlan (x := { x with lease := false, claim := false }) howner hids rfl rfl _

theorem ends_fetchOwnershipFailure (howner : w.ownerToken = .worker x.pid)
    {plan : Option IdListFetchPlan} (hids : x.ids ⊆ reserved plan) {reason : String}
    (hclaim : reason ≠ "id_fetch_reserved" → x.claim = false) :
    Ends (fetchOwnershipFailure w item plan reason) x fun x' _ => x'.Clean := by
  refine .bind (ends_releaseLease howner ?_)
  simp only
  split
  · refine .bind_aside bystander_utcNow fun _ => ?_
    refine .bind (ends_releaseOrDelay ?_)
    exact ends_withPlan (x := { x with lease := false, claim := false }) howner hids rfl rfl _
  · rename_i hreason
    exact ends_withPlan (x := { x with lease := false }) howner hids rfl (hclaim hreason) _

/-! ## The gate -/

/-- How the gate leaves the pass: ended with nothing, or with the ids of its plan at most. -/
structure GateLeft (pid : Nat) (x : Holding)
    (gate : Option IdListFetchPlan × Option WorkerPassResult) : Prop where
  ended : gate.2.isSome = true → x.Clean
  passed : gate.2 = none → x.pid = pid ∧ x.ids ⊆ reserved gate.1

theorem gateLeft_of_clean {pid : Nat} (h : x.Clean) (plan : Option IdListFetchPlan)
    (r : WorkerPassResult) : GateLeft pid x (plan, some r) where
  ended _ := h
  passed h := by cases h

theorem gateLeft_of_passed {plan : Option IdListFetchPlan} (hids : x.ids ⊆ reserved plan) :
    GateLeft x.pid x (plan, none) where
  ended h := by cases h
  passed _ := ⟨rfl, hids⟩

/-- An exit of the gate. -/
theorem ends_gateWithPlan {pid : Nat} (howner : w.ownerToken = .worker x.pid)
    {plan : Option IdListFetchPlan} (hids : x.ids ⊆ reserved plan) (hlease : x.lease = false)
    (hclaim : x.claim = false) (plan' : Option IdListFetchPlan) (r : WorkerPassResult) :
    Ends (do
      releaseIdPlan w plan
      pure (plan', some r)) x (GateLeft pid) :=
  .bind (ends_releaseIdPlan howner hids
    (gateLeft_of_clean (x := { x with ids := [] }) ⟨hlease, rfl, hclaim⟩ plan' r))

/-- What the fence leaves: the same, and no claim where it was refused for another reason than
the reservations. -/
structure Fenced (x x' : Holding) (reason : Option String) : Prop where
  pid_eq : x'.pid = x.pid
  ids_eq : x'.ids = x.ids
  claim : ∀ s, reason = some s → s ≠ "id_fetch_reserved" → x'.claim = false

theorem ends_fence (plan : Option IdListFetchPlan) (ttl : Int) :
    Ends (fence w item plan ttl) x (Fenced x) := by
  refine .call fun t reason s s' _ => ?_
  cases reason with
  | none => exact ⟨rfl, rfl, fun _ h => by cases h⟩
  | some reason =>
      change Fenced x (if reason = "id_fetch_reserved" then x else { x with claim := false }) _
      split
      · rename_i hreserved
        exact ⟨rfl, rfl, fun s hs hne => absurd (Option.some.inj hs ▸ hreserved) hne⟩
      · exact ⟨rfl, rfl, fun _ _ _ => rfl⟩

/-- A refused fence ends the pass. -/
theorem ends_refused {x' : Holding} (howner : w.ownerToken = .worker x.pid)
    {plan : Option IdListFetchPlan} (hids : x.ids ⊆ reserved plan) {reason : String}
    (h : Fenced x x' (some reason)) (pid : Nat) :
    Ends (do
      let failure ← fetchOwnershipFailure w item plan reason
      pure (plan, some failure)) x' (GateLeft pid) := by
  have hids' : x'.ids ⊆ reserved plan := by
    rw [h.ids_eq]
    exact hids
  refine .bind ((ends_fetchOwnershipFailure (by rw [howner, h.pid_eq]) hids'
    (h.claim reason rfl)).mono ?_)
  intro x'' failure hclean
  exact gateLeft_of_clean hclean plan failure

theorem ends_closeGate (howner : w.ownerToken = .worker x.pid) {plan : Option IdListFetchPlan}
    (hids : x.ids ⊆ reserved plan) (ttl : Int) :
    Ends (closeGate w item plan ttl) x (GateLeft x.pid) := by
  refine .bind ((ends_fence plan ttl).mono ?_)
  intro x' reason hfenced
  cases reason with
  | some reason => exact ends_refused howner hids hfenced x.pid
  | none =>
      have hids' : x'.ids ⊆ reserved plan := by
        rw [hfenced.ids_eq]
        exact hids
      have hleft := gateLeft_of_passed hids'
      rw [hfenced.pid_eq] at hleft
      exact hleft

/-- A plan that is looked at again reserves what may still be held. -/
theorem ends_revalidate (howner : w.ownerToken = .worker x.pid) {plan : IdListFetchPlan}
    (hids : x.ids ⊆ plan.reservedIds) (ttl : Int) :
    Ends (revalidateIdListFetchPlan w item plan ttl) x
      (fun x' plan' => x'.pid = x.pid ∧ x'.ids ⊆ plan'.reservedIds) := by
  unfold revalidateIdListFetchPlan
  split
  · exact ⟨rfl, hids⟩
  · refine .bind_aside (bystander_getPapersByIds _) fun papersById => ?_
    simp only
    generalize (plan.requestedIds.filter fun arxivId =>
      (PaperDict.get? papersById arxivId).isNone) = missing
    refine .bind (ends_releaseIds howner _ ?_)
    -- What is not given back is still missing.
    have hstill : (x.ids.filter fun arxivId => !(plan.reservedIds.filter fun arxivId =>
        !missing.contains arxivId).contains arxivId) ⊆
          plan.reservedIds.filter fun arxivId => missing.contains arxivId := by
      intro arxivId hmem
      simp only [List.mem_filter, Bool.not_eq_true', List.contains_eq_mem,
        decide_eq_false_iff_not, not_and, decide_eq_true_eq] at hmem ⊢
      refine ⟨hids hmem.1, ?_⟩
      by_contra hnot
      exact hmem.2 (hids hmem.1) (by simpa using hnot)
    split
    · rename_i hnone
      refine ⟨rfl, fun arxivId hmem => ?_⟩
      have hmissing := (List.mem_filter.1 (hstill hmem)).2
      rw [List.isEmpty_iff.1 hnone] at hmissing
      simp at hmissing
    · split
      · refine .bind_aside ?_ fun renewed => ?_
        · unfold renewIdFetchReservations
          split
          · exact .ret _
          · exact .call fun _ _ => rfl
        · split
          · exact .bind_aside bystander_utcNow fun _ => ⟨rfl, hstill⟩
          · exact ⟨rfl, hstill⟩
      · refine .bind_aside (.ret false) fun renewed => ?_
        split
        · exact .bind_aside bystander_utcNow fun _ => ⟨rfl, hstill⟩
        · exact ⟨rfl, hstill⟩

theorem ends_gatePlan (howner : w.ownerToken = .worker x.pid) {plan : IdListFetchPlan}
    (hids : x.ids ⊆ plan.reservedIds) (ttl : Int) :
    Ends (gatePlan w item plan ttl) x (GateLeft x.pid) := by
  refine .bind ((ends_revalidate howner hids ttl).mono ?_)
  rintro x' plan' ⟨hpid, hids'⟩
  rw [← hpid] at howner ⊢
  have hplan : x'.ids ⊆ reserved (some plan') := hids'
  split
  · refine .bind (ends_releaseLease howner ?_)
    refine .bind (ends_releaseOrDelay ?_)
    exact ends_gateWithPlan (x := { x' with lease := false, claim := false }) howner hplan rfl rfl
      _ _
  · split
    · refine .bind (ends_releaseLease howner ?_)
      refine .bind_aside (bystander_recordCachedIdList item plan') fun total => ?_
      refine .bind (ends_completeQueueItem ?_)
      exact ends_gateWithPlan (x := { x' with lease := false, claim := false }) howner hplan rfl rfl
        _ _
    · exact ends_closeGate howner hplan ttl

theorem ends_gateFetchOwnership (howner : w.ownerToken = .worker x.pid)
    {plan : Option IdListFetchPlan} (hids : x.ids ⊆ reserved plan) (ttl : Int) :
    Ends (gateFetchOwnership w item plan ttl) x (GateLeft x.pid) := by
  refine .bind ((ends_fence plan ttl).mono ?_)
  intro x' reason hfenced
  cases reason with
  | some reason => exact ends_refused howner hids hfenced x.pid
  | none =>
      rw [← hfenced.ids_eq] at hids
      rw [← hfenced.pid_eq] at howner ⊢
      refine .bind_aside (bystander_getReadableCompletedCache item.cacheKey) fun cached => ?_
      split
      · refine .bind (ends_releaseLease howner ?_)
        refine .bind (ends_completeQueueItem ?_)
        exact ends_gateWithPlan (x := { x' with lease := false, claim := false }) howner hids rfl
          rfl _ _
      · cases plan with
        | some plan => exact ends_gatePlan howner hids ttl
        | none => exact ends_closeGate howner hids ttl

/-! ## The limiter -/

/-- A report to the limiter gives the lease back. -/
theorem ends_report (howner : w.ownerToken = .worker x.pid) (event : DiagnosticEvent)
    {Q : Holding → Unit → Prop} (h : Q { x with lease := false } ()) :
    Ends ((recordEvent event).tryFinally (releaseLease Limiter.leaseName w.ownerToken)) x Q := by
  refine (Prog.wp_tryFinally ..).2 ((Prog.wp_call ..).2 ⟨trivial, ?_, ?_⟩)
  · rintro _ x' ⟨t, s, s', _, _, rfl⟩
    exact ends_releaseLease howner h
  · rintro e x' ⟨t, s, s', _, _, rfl⟩
    exact Prog.wp_mono (fun _ _ _ => trivial) (fun _ _ _ => trivial) _ _
      (ends_releaseLease (Q := fun _ _ => True) howner trivial)

theorem ends_afterSuccess (howner : w.ownerToken = .worker x.pid) (status : Int)
    {Q : Holding → Unit → Prop} (h : Q { x with lease := false } ()) :
    Ends (Limiter.afterSuccess w.ownerToken status) x Q :=
  .bind_aside bystander_utcNow fun _ => .bind_aside bystander_getRateState fun _ =>
    .bind_aside (bystander_setRateState _) fun _ => ends_report howner _ h

theorem ends_afterFailure (howner : w.ownerToken = .worker x.pid) (status : Option Int)
    (message : String) {Q : Holding → Unit → Prop} (h : Q { x with lease := false } ()) :
    Ends (Limiter.afterFailure w.ownerToken status message) x Q :=
  .bind_aside bystander_utcNow fun _ => .bind_aside bystander_getRateState fun _ =>
    .bind_aside (bystander_setRateState _) fun _ => ends_report howner _ h

theorem ends_afterRateLimit (howner : w.ownerToken = .worker x.pid) (retryAfter : Option Int)
    (statusCode : Int) (message : Option String) {Q : Holding → Int → Prop}
    (h : ∀ cooldownUntil, Q { x with lease := false } cooldownUntil) :
    Ends (Limiter.afterRateLimit w.deployment w.ownerToken retryAfter statusCode message) x Q := by
  refine .bind_aside bystander_utcNow fun _ => .bind_aside bystander_getRateState fun previous =>
    .bind_aside ?_ fun effective => ?_
  · unfold Limiter.effectiveCooldown
    simp only
    split
    · exact .bind (.call fun _ _ => rfl) fun _ => .ret _
    · exact .ret _
  · simp only
    split
    · trivial
    · exact .bind_aside (bystander_setRateState _) fun _ => .bind (ends_report howner _ (h _))

theorem step_acquired (howner : w.ownerToken = .worker x.pid) (timeout : Int) (acquired : Bool) :
    x.step (.lease (.acquireLease Limiter.leaseName w.ownerToken timeout)) (.ok acquired) =
      { x with lease := acquired } := by
  cases acquired <;> simp [Holding.step, howner]

theorem step_renewed (howner : w.ownerToken = .worker x.pid) (timeout : Int) (renewed : Bool) :
    x.step (.lease (.renewLeasesIfOwned [⟨Limiter.leaseName, w.ownerToken, timeout⟩]))
      (.ok renewed) = { x with lease := x.lease && renewed } := by
  cases renewed <;> simp [Holding.step, Holding.ownRenewal, howner]

/-- What the limiter leaves: a pass that it refuses holds no lease. -/
structure Decided (x x' : Holding) (decision : RateLimitDecision) : Prop where
  pid_eq : x'.pid = x.pid
  ids_eq : x'.ids = x.ids
  refused : decision.canFetch = false → x'.lease = false

theorem ends_beforeRequest (howner : w.ownerToken = .worker x.pid) :
    Ends (Limiter.beforeRequest w.deployment w.ownerToken) x (Decided x) := by
  refine .bind (.call fun t acquired s s' _ => ?_)
  rw [step_acquired howner]
  cases acquired with
  | false => exact ⟨rfl, rfl, fun _ => rfl⟩
  | true =>
      refine .bind_aside bystander_utcNow fun current =>
        .bind_aside bystander_getRateState fun state => ?_
      split
      · exact .bind (ends_releaseLease (x := { x with lease := true }) howner
          ⟨rfl, rfl, fun _ => rfl⟩)
      · refine .bind (.call fun t renewed s s' _ => ?_)
        rw [step_renewed (x := { x with lease := true }) howner]
        cases renewed with
        | false => exact ⟨rfl, rfl, fun _ => rfl⟩
        | true =>
            refine .bind ((Prog.wp_tryExcept ..).2 ?_)
            -- An exception gives the lease back and passes on.
            have hraised : ∀ (x' : Holding) (e : Exn) (Q : Holding → Unit → Prop),
                Ends (if e = Exn.interrupt then .raise e else do
                  releaseLease Limiter.leaseName w.ownerToken
                  .raise e) x' Q := by
              intro x' e Q
              split
              · trivial
              · exact .raising _ e
            refine (Prog.wp_bind ..).2 ((Prog.wp_call ..).2 ⟨trivial, ?_, fun e x' _ =>
              hraised x' e _⟩)
            rintro _ x' ⟨t, s, s', _, _, rfl⟩
            refine (Prog.wp_call ..).2 ⟨trivial, ?_, fun e x' _ => hraised x' e _⟩
            rintro _ x' ⟨t, s, s', _, _, rfl⟩
            exact ⟨rfl, rfl, fun h => by cases h⟩

/-! ## The fetch -/

theorem ends_onNonRetryable (howner : w.ownerToken = .worker x.pid)
    {plan : Option IdListFetchPlan} (hids : x.ids ⊆ reserved plan) (message : String)
    (statusCode : Option Int) :
    Ends (onNonRetryable w item plan message statusCode) x fun x' _ => x'.Clean := by
  refine .bind (ends_afterFailure howner _ _ ?_)
  refine .bind_aside (bystander_recordCacheFailure ..) fun _ => .bind (ends_releaseOrDelay ?_)
  exact ends_withPlan (x := { x with lease := false, claim := false }) howner hids rfl rfl _

/-- The exceptions that end a fetch and not the pass. -/
theorem ends_onFetchError (howner : w.ownerToken = .worker x.pid)
    {plan : Option IdListFetchPlan} (hids : x.ids ⊆ reserved plan) (e : Exn) :
    Ends (onFetchError w item plan e) x fun x' _ => x'.Clean := by
  cases e with
  | rateLimitedError retryAfter message statusCode =>
      refine .bind (ends_afterRateLimit howner _ _ _ fun cooldownUntil => ?_)
      refine .bind_aside (bystander_recordCacheFailure ..) fun _ => .bind (ends_releaseOrDelay ?_)
      exact ends_withPlan (x := { x with lease := false, claim := false }) howner hids rfl rfl _
  | transientFetchError message statusCode =>
      refine .bind (ends_afterFailure howner _ _ ?_)
      refine .bind_aside bystander_utcNow fun _ =>
        .bind_aside (bystander_recordCacheFailure ..) fun _ => .bind (ends_releaseOrDelay ?_)
      exact ends_withPlan (x := { x with lease := false, claim := false }) howner hids rfl rfl _
  | nonRetryableFetchError message statusCode => exact ends_onNonRetryable howner hids _ _
  | huldraFetchError message statusCode =>
      exact .bind (ends_afterFailure howner _ _ (.raising _ _))
  | _ => trivial

theorem ends_onFetched (howner : w.ownerToken = .worker x.pid) {plan : Option IdListFetchPlan}
    (hids : x.ids ⊆ reserved plan) (papers : List ArxivPaper) (total : Option Nat)
    (upstreamStatus : Int) :
    Ends (onFetched w item plan papers total upstreamStatus) x fun x' _ => x'.Clean := by
  refine .bind_aside (bystander_recordCompletedCacheEntry ..) fun _ =>
    .bind (ends_afterSuccess howner _ (.bind (ends_completeQueueItem ?_)))
  exact ends_withPlan (x := { x with lease := false, claim := false }) howner hids rfl rfl _

theorem ends_onFetchResult (howner : w.ownerToken = .worker x.pid)
    {plan : Option IdListFetchPlan} (hids : x.ids ⊆ reserved plan) (fetched : FetchResult) :
    Ends (onFetchResult w item plan fetched) x fun x' _ => x'.Clean := by
  unfold onFetchResult
  split
  · exact ends_onFetched howner hids _ _ _
  · simp only
    split
    · exact ends_onNonRetryable howner hids _ _
    · split
      · trivial
      · exact ends_onFetched howner hids _ _ _

theorem ends_fetchAndReport (howner : w.ownerToken = .worker x.pid)
    {plan : Option IdListFetchPlan} (hids : x.ids ⊆ reserved plan) (request : ArxivRequest) :
    Ends (fetchAndReport w item plan request) x fun x' _ => x'.Clean := by
  have hfetch : (fetch item request).AllOps Bystander :=
    .bind (.call fun _ _ => rfl) fun _ => .call fun _ _ => rfl
  refine (Prog.wp_handle ..).2 (Prog.wp_mono ?_ ?_ _ x (wp_bystander hfetch x))
  · rintro _ fetched rfl
    exact ends_onFetchResult howner hids fetched
  · rintro _ e rfl
    exact ends_onFetchError howner hids e

theorem ends_fetchWithinDeadline (howner : w.ownerToken = .worker x.pid)
    {plan : Option IdListFetchPlan} (hids : x.ids ⊆ reserved plan) :
    Ends (fetchWithinDeadline w item plan) x fun x' _ => x'.Clean := by
  have hdeadline : (queueItemUpstreamDeadline item.requestId).AllOps Bystander :=
    .call fun _ _ => rfl
  refine .bind_aside hdeadline fun budgetDeadline => ?_
  cases budgetDeadline with
  | none => exact ends_fetchAndReport howner hids _
  | some deadline =>
      refine .bind_aside bystander_utcNow fun now => ?_
      split
      · exact ends_fetchAndReport howner hids _
      · refine .bind_aside (.call fun _ _ => rfl) fun budgetError => ?_
        cases budgetError with
        | some error => exact ends_endBudgetedItem howner hids error
        | none =>
            exact .bind_aside hdeadline fun deadline =>
              .bind_aside (bystander_remainingAfterRecheck w deadline) fun remaining =>
              ends_fetchAndReport howner hids _

theorem ends_fetchCharged (howner : w.ownerToken = .worker x.pid)
    {plan : Option IdListFetchPlan} (hids : x.ids ⊆ reserved plan) (ttl : Int) :
    Ends (fetchCharged w item plan ttl) x fun x' _ => x'.Clean := by
  refine .bind ((ends_gateFetchOwnership howner hids ttl).mono ?_)
  rintro x' ⟨plan', ended⟩ hleft
  cases ended with
  | some r => exact hleft.ended rfl
  | none =>
      rcases hleft.passed rfl with ⟨hpid, hids'⟩
      rw [← hpid] at howner
      refine .bind_aside (.call fun _ _ => rfl) fun budgetError => ?_
      cases budgetError with
      | some error => exact ends_endBudgetedItem howner hids' error
      | none => exact ends_fetchWithinDeadline howner hids'

theorem ends_chargeAndFetch (howner : w.ownerToken = .worker x.pid)
    {plan : Option IdListFetchPlan} (hids : x.ids ⊆ reserved plan) (ttl : Int) :
    Ends (chargeAndFetch w item plan ttl) x fun x' _ => x'.Clean := by
  refine .bind_aside (.call fun _ _ => rfl) fun reserveError => ?_
  cases reserveError with
  | some error => exact ends_endBudgetedItem howner hids error
  | none =>
      refine .bind_aside (.call fun _ _ => rfl) fun budgetError => ?_
      cases budgetError with
      | some error => exact ends_endBudgetedItem howner hids error
      | none => exact ends_fetchCharged howner hids ttl

theorem ends_fetchAdmitted (howner : w.ownerToken = .worker x.pid)
    {plan : Option IdListFetchPlan} (hids : x.ids ⊆ reserved plan) (waitSeconds : Int) :
    Ends (fetchAdmitted w item plan waitSeconds) x fun x' _ => x'.Clean := by
  have hgate : Ends (gateAndCharge w item plan) x fun x' _ => x'.Clean := by
    refine .bind ((ends_gateFetchOwnership howner hids _).mono ?_)
    rintro x' ⟨plan', ended⟩ hleft
    cases ended with
    | some r => exact hleft.ended rfl
    | none =>
        rcases hleft.passed rfl with ⟨hpid, hids'⟩
        exact ends_chargeAndFetch (by rw [howner, hpid]) hids' _
  have hsleep : (timeSleep waitSeconds).AllOps Bystander :=
    .bind (.call fun _ _ => rfl) fun _ => .call fun _ _ => rfl
  unfold fetchAdmitted
  split
  · exact .bind_aside hsleep fun _ => hgate
  · exact hgate

theorem ends_passLimiter (howner : w.ownerToken = .worker x.pid)
    {plan : Option IdListFetchPlan} (hids : x.ids ⊆ reserved plan) :
    Ends (passLimiter w item plan) x fun x' _ => x'.Clean := by
  refine .bind ((ends_beforeRequest howner).mono ?_)
  intro x' decision hdecided
  rw [← hdecided.ids_eq] at hids
  rw [← hdecided.pid_eq] at howner
  split
  · exact ends_fetchAdmitted howner hids _
  · rename_i hrefused
    have hlease := hdecided.refused (by simpa using hrefused)
    have hdelay : ∀ (nextAttempt : Int) (r : WorkerPassResult), Ends (do
        releaseOrDelayQueueItem item.requestId (some nextAttempt) decision.blockedReason
          decision.blockedReason .delayed
        releaseIdPlan w plan
        pure r) x' fun x'' _ => x''.Clean := by
      intro nextAttempt r
      refine .bind (ends_releaseOrDelay ?_)
      exact ends_withPlan (x := { x' with claim := false }) howner hids hlease rfl r
    unfold delayRefused
    cases decision.cooldownUntil with
    | some cooldown => exact .bind_aside (.ret cooldown) fun nextAttempt => hdelay nextAttempt _
    | none =>
        exact .bind_aside bystander_utcNow fun now => .bind_aside (.ret _) fun nextAttempt =>
          hdelay nextAttempt _

/-! ## The pass -/

/-- What the plan leaves: it reserves what the pass may hold, and that is nothing where it is
blocked or has nothing to fetch. -/
structure Planned (x x' : Holding) (plan : Option IdListFetchPlan) : Prop where
  pid_eq : x'.pid = x.pid
  lease_eq : x'.lease = x.lease
  ids : x'.ids ⊆ reserved plan
  free : ∀ p, plan = some p → p.fetchRequest = none ∨ p.blockedUntil.isSome = true → x'.ids = []

theorem Planned.of_free (hids : x.ids = []) (plan : Option IdListFetchPlan) : Planned x x plan :=
  ⟨rfl, rfl, by simp [hids], fun _ _ _ => hids⟩

/-- An acquisition that is blocked acquires nothing. -/
theorem acquiredIds_of_blocked {ids : List String} {owner : OwnerToken} {requestId : Uuid}
    {ttl t : Int} {result : IdReservationResult} {s s' : Store}
    (h : Store.Performed (.queue (.acquireIdFetchReservations ids owner requestId ttl)) t
      (.ok result) s s') (hblocked : result.blockedUntil.isSome = true) :
    result.acquiredIds = [] := by
  rcases h.of_ok with ⟨input, _, hexec⟩
  have hanswer : (s.queue.acquireIdFetchReservations ids owner requestId ttl t).1 = result :=
    Except.ok.inj (congrArg Prod.fst hexec)
  rcases Queue.acquireIdFetchReservations_cases s.queue ids owner requestId ttl t with
    ⟨_, heq⟩ | ⟨_, heq⟩ | ⟨_, _, heq⟩
  · rw [heq] at hanswer
    rw [← hanswer]
  · rw [heq] at hanswer
    rw [← hanswer] at hblocked
    cases hblocked
  · rw [heq] at hanswer
    rw [← hanswer]

theorem ends_planIdListFetch (hids : x.ids = []) :
    Ends (planIdListFetch w item) x (Planned x) := by
  unfold planIdListFetch
  split
  · exact .of_free hids none
  · refine .bind_aside (bystander_getPapersByIds _) fun papersById => ?_
    simp only
    split
    · exact .of_free hids _
    · refine .bind (.call fun t reservations s s' hperf => ?_)
      cases hblocked : reservations.blockedUntil with
      | some blockedUntil =>
          have hnone := acquiredIds_of_blocked hperf (by rw [hblocked]; rfl)
          have hsame : { x with ids := x.ids ++ reservations.acquiredIds } = x := by
            rw [hnone, List.append_nil]
          have hplanned := Planned.of_free hids (some
            { requestedIds := (item.request.idList.map Keys.normalizeArxivId).eraseDups
              papersById := papersById
              blockedUntil := some blockedUntil })
          rw [Holding.step, hsame]
          exact hplanned
      | none =>
          refine ⟨rfl, rfl, ?_, ?_⟩
          · simp [Holding.step, hids, reserved]
          · rintro p hp (hfetch | hsome)
            · cases hp
              cases hfetch
            · cases hp
              cases hsome

theorem ends_workPlanned {x' : Holding} (howner : w.ownerToken = .worker x.pid)
    (hlease : x.lease = false) {plan : Option IdListFetchPlan} (hplanned : Planned x x' plan) :
    Ends (workPlanned w item plan) x' fun x'' _ => x''.Clean := by
  rw [← hplanned.pid_eq] at howner
  rw [← hplanned.lease_eq] at hlease
  unfold workPlanned
  split
  · exact ends_passLimiter howner hplanned.ids
  · rename_i idPlan
    split
    · rename_i blockedUntil hblocked
      have hfree := hplanned.free idPlan rfl (Or.inr (by rw [hblocked]; rfl))
      exact .bind (ends_releaseOrDelay ⟨hlease, hfree, rfl⟩)
    · split
      · rename_i hfetch
        have hfree := hplanned.free idPlan rfl (Or.inl (Option.isNone_iff_eq_none.1 hfetch))
        exact .bind_aside (bystander_recordCachedIdList item idPlan) fun total =>
          .bind (ends_completeQueueItem ⟨hlease, hfree, rfl⟩)
      · exact ends_passLimiter howner hplanned.ids

theorem ends_workClaimed (howner : w.ownerToken = .worker x.pid) (hlease : x.lease = false)
    (hids : x.ids = []) : Ends (workClaimed w item) x fun x' _ => x'.Clean := by
  refine .bind_aside (bystander_getReadableCompletedCache item.cacheKey) fun cached => ?_
  simp only
  split
  · exact .bind (ends_completeQueueItem ⟨hlease, hids, rfl⟩)
  · exact .bind ((ends_planIdListFetch hids).mono fun x' plan hplanned =>
      ends_workPlanned howner hlease hplanned)

/-- A pass that begins with nothing ends with nothing. -/
theorem ends_runOnce (howner : w.ownerToken = .worker x.pid) (hx : x.Clean)
    (targets : Option (List CacheKey)) : Ends (runOnce w targets) x fun x' _ => x'.Clean := by
  refine .bind_aside (.call fun _ _ => rfl) fun _ => ?_
  unfold claimNextQueueItem
  split
  · exact hx
  · refine .bind (.call fun t item s s' _ => ?_)
    cases item with
    | none => exact hx
    | some item => exact ends_workClaimed (x := { x with claim := true }) howner hx.lease hx.ids

end Pass

end Worker
end Huldra
