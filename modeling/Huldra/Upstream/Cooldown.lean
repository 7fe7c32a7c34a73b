import Huldra.Upstream.Rates

/-!
# Cooldown — no admission before a committed cooldown has passed

Owners call the limiter in any order and are interleaved at every operation.  `after_success`
clears the cooldown and `before_request` writes back what it has read, and neither looks at the
lease when it writes; a cooldown is safe as long as those writes come from the owner that still
holds the lease.
-/

namespace Huldra
namespace Upstream

open Process
open Process.System (Config Event History Legal Throughout Disciplined stateAfter lastTime)

/-! ## Owners that call the limiter -/

inductive LimiterCall where
  | beforeRequest (owner : OwnerToken)
  | afterSuccess (owner : OwnerToken) (status : Int)
  | afterRateLimit (owner : OwnerToken) (retryAfterSeconds : Option Int) (statusCode : Int)
      (errorMessage : Option String)
  | afterFailure (owner : OwnerToken) (status : Option Int) (errorMessage : String)

inductive LimiterOutcome where
  | decision (d : RateLimitDecision)
  | cooldownUntil (t : Int)
  | reported

def LimiterCall.program (d : Deployment) : LimiterCall → Nat → Program LimiterOutcome
  | .beforeRequest owner, _ => do
      let decision ← Limiter.beforeRequest d owner
      pure (.decision decision)
  | .afterSuccess owner status, _ => do
      Limiter.afterSuccess owner status
      pure .reported
  | .afterRateLimit owner retryAfter statusCode message, _ => do
      let cooldownUntil ← Limiter.afterRateLimit d owner retryAfter statusCode message
      pure (.cooldownUntil cooldownUntil)
  | .afterFailure owner status message, _ => do
      Limiter.afterFailure owner status message
      pure .reported

/-- Processes that call the limiter, each any call at any time, over one store. -/
abbrev limiterCalls (d : Deployment) : System huldra :=
  storeSystem LimiterCall LimiterOutcome (LimiterCall.program d)

/-- A report goes on from the admission of the process, if there is one. -/
def limiterEntry : Entry LimiterCall where
  phase c p t := match c with
    | .beforeRequest _ => .idle
    | _ => .fetched p.admission? t
  phase_cases c p t := by
    cases c with
    | beforeRequest owner => exact Or.inl rfl
    | _ => exact Or.inr rfl

/-- Every owner token may be used by every process. -/
def anyToken : Nat → OwnerToken → Prop :=
  fun _ _ => True

theorem limiterCalls_conduct (d : Deployment) (sched : List (Config.Choice (limiterCalls d))) :
    Throughout (Disciplined (conduct d anyToken) (monitor limiterEntry).view)
      (Config.after (limiterCalls d) sched).history := by
  refine (monitor limiterEntry).disciplined_after (kept_pid limiterEntry) ?_ sched
  intro pid x c t hpid _
  have hkeeps : ∀ {β : Type} {p : Program β} {f : β → LimiterOutcome} {Q : View → β → Prop}
      {R : View → Exn → Prop} {x' : View}, p.wp (conduct d anyToken) Q R x' →
      (p >>= fun b => pure (f b)).Keeps (conduct d anyToken) x' := by
    intro β p f Q R x' h
    exact (Prog.wp_bind _ _ _ _ _).2
      (Prog.wp_mono (fun _ _ _ => trivial) (fun _ _ _ => trivial) _ _ h)
  have hdue : ∀ a : Option Admission,
      Due pid { x with clock := t, phase := .fetched a t } :=
    fun a => ⟨hpid, a, t, rfl, Int.le_refl t⟩
  cases c with
  | beforeRequest owner => exact hkeeps (wp_beforeRequest ⟨hpid, rfl⟩ trivial)
  | afterSuccess owner status => exact hkeeps (wp_afterSuccess (hdue _) trivial status)
  | afterRateLimit owner retryAfter statusCode message =>
      exact hkeeps (wp_afterRateLimit (hdue _) trivial retryAfter statusCode message)
  | afterFailure owner status message =>
      exact hkeeps (wp_afterFailure (hdue _) trivial status message)

/-! ## What is proved, and under which condition -/

section Statement

variable {Client Out : Type} {program : Client → Nat → Process.Prog huldra Out}

/-- The clock reading by which `before_request` has just admitted its caller: the event it records
before it returns `can_fetch`. -/
def admittedAt (e : Event (storeSystem Client Out program)) : Option Int :=
  match e.action with
  | .op (.rate (.recordEvent (.upstreamRequestStarted _ startedAt waitSeconds))) (.ok _) =>
      some (startedAt - waitSeconds)
  | _ => none

/-- Nobody is admitted at a time before a cooldown that was ever stored. -/
def CooldownHonoured (pre : History (storeSystem Client Out program))
    (e : Event (storeSystem Client Out program)) : Prop :=
  ∀ current ∈ admittedAt e, ∀ e' ∈ pre, ∀ cooldown ∈ (rateRow e'.after).cooldownUntil,
    cooldown ≤ current

/-- The one admitted still holds the lease. -/
def AdmittedHolding (pre : History (storeSystem Client Out program))
    (e : Event (storeSystem Client Out program)) : Prop :=
  (admittedAt e).isSome = true → holder pre = some e.pid

instance (pre : History (storeSystem Client Out program))
    (e : Event (storeSystem Client Out program)) : Decidable (CooldownHonoured pre e) := by
  unfold CooldownHonoured
  infer_instance

instance (pre : History (storeSystem Client Out program))
    (e : Event (storeSystem Client Out program)) : Decidable (AdmittedHolding pre e) := by
  unfold AdmittedHolding
  infer_instance

end Statement

/-! ## The invariant -/

section Cooling

variable {Client Out : Type} {program : Client → Nat → Process.Prog huldra Out}
variable {entry : Entry Client} {d : Deployment} {mayUse : Nat → OwnerToken → Prop}
variable {pre h : History (storeSystem Client Out program)}
  {e : Event (storeSystem Client Out program)} {cooldown : Int}

/-- The value is not later than the one that is given. -/
def Covers (stored : Option Int) (t : Int) : Prop :=
  ∃ s, stored = some s ∧ t ≤ s

/-- The cooldown has been stored after some event. -/
def Committed (h : History (storeSystem Client Out program)) (cooldown : Int) : Prop :=
  ∃ e ∈ h, (rateRow e.after).cooldownUntil = some cooldown

theorem committed_of_stored
    (h : (rateRow (stateAfter pre)).cooldownUntil = some cooldown) : Committed pre cooldown := by
  cases pre with
  | nil => cases h
  | cons e pre => exact ⟨e, List.mem_cons_self, h⟩

/-- An event that does not change the cooldown commits no new one. -/
theorem committed_of_same (hlegal : Legal pre e)
    (hsame : (rateRow e.after).cooldownUntil = (rateRow e.before).cooldownUntil)
    (hc : Committed (e :: pre) cooldown) : Committed pre cooldown := by
  rcases hc with ⟨e', hmem, he'⟩
  rcases List.mem_cons.1 hmem with rfl | hmem
  · refine committed_of_stored ?_
    rw [← hlegal.before_eq, ← hsame]
    exact he'
  · exact ⟨e', hmem, he'⟩

/-- Where every committed cooldown is to be found, for the holder and for whoever comes next. -/
structure Cooling (entry : Entry Client) (h : History (storeSystem Client Out program)) :
    Prop where
  snapshots : Snapshots entry RateState.cooldownUntil h
  now_le : ∀ p, (seen entry p h).now ≤ lastTime h
  current_le : ∀ p a, (seen entry p h).phase.snapshot? = some a → a.current ≤ lastTime h
  passed : ∀ p a, (seen entry p h).phase.admission? = some a →
    Limiter.activeCooldown a.state a.current = none
  stored : ∀ c, Committed h c → Covers (rateRow (stateAfter h)).cooldownUntil c ∨ c ≤ lastTime h
  acquired : ∀ p since, holder h = some p → (seen entry p h).phase = .acquired since →
    ∀ c, Committed h c → Covers (rateRow (stateAfter h)).cooldownUntil c ∨ c ≤ since
  snapshot : ∀ p a, holder h = some p → (seen entry p h).phase.snapshot? = some a →
    ∀ c, Committed h c → Covers a.state.cooldownUntil c ∨ c ≤ a.current

theorem le_current_of_passed {a : Admission}
    (hpassed : Limiter.activeCooldown a.state a.current = none)
    (hc : Covers a.state.cooldownUntil cooldown ∨ cooldown ≤ a.current) :
    cooldown ≤ a.current := by
  rcases hc with ⟨k, hk, hle⟩ | hle
  · have hnot : ¬ a.current < k := by
      simpa [Limiter.activeCooldown, hk] using hpassed
    omega
  · exact hle

theorem now_le_step (ho : Orderly entry d mayUse pre e)
    (hI : ∀ p, (seen entry p pre).now ≤ lastTime pre) :
    ∀ p, (seen entry p (e :: pre)).now ≤ e.time := by
  intro p
  have htime := ho.legal.time_le
  have hold := hI p
  by_cases hpid : e.pid = p
  · subst hpid
    cases ha : e.action with
    | start c =>
        have hview := congrArg View.now ((monitor entry).view_of_start pre ha)
        have hnow : (seen entry e.pid (e :: pre)).now = (seen entry e.pid pre).now := hview
        omega
    | crash =>
        have hview := congrArg View.now ((monitor entry).view_of_crash pre ha)
        have hnow : (seen entry e.pid (e :: pre)).now = (seen entry e.pid pre).now := hview
        omega
    | op o r =>
        rw [seen_of_op entry _ ha]
        have hnow : nowAfter (seen entry e.pid pre) o r = (seen entry e.pid pre).now ∨
            nowAfter (seen entry e.pid pre) o r = e.time := by
          unfold nowAfter
          split
          case h_1 now =>
            right
            rcases (ho.performed ha).of_ok with ⟨input, _, hexec⟩
            have hout := congrArg Prod.fst hexec
            exact (Except.ok.inj hout).symm
          case h_2 => exact Or.inl rfl
        rcases hnow with hnow | hnow
        · exact hnow.le.trans (hold.trans htime)
        · exact hnow.le
  · rw [seen_of_ne entry _ hpid]
    omega

theorem current_le_step (ho : Orderly entry d mayUse pre e) (hI : Cooling entry pre) :
    ∀ p a, (seen entry p (e :: pre)).phase.snapshot? = some a → a.current ≤ e.time := by
  intro p a h
  have htime := ho.legal.time_le
  by_cases hpid : e.pid = p
  · subst hpid
    rcases snapshot_cases ho h with hold | ⟨_, _, _, _, _, rfl⟩
    · have := hI.current_le e.pid a hold
      omega
    · have := hI.now_le e.pid
      simp only
      omega
  · rw [seen_of_ne entry _ hpid] at h
    have := hI.current_le p a h
    omega

theorem passed_step (ho : Orderly entry d mayUse pre e) (hI : Cooling entry pre) :
    ∀ p a, (seen entry p (e :: pre)).phase.admission? = some a →
      Limiter.activeCooldown a.state a.current = none := by
  intro p a h
  by_cases hpid : e.pid = p
  · subst hpid
    cases ha : e.action with
    | start c =>
        rcases phase_seen_of_start entry pre ha with hphase | hphase
        · rw [hphase] at h
          cases h
        · rw [hphase] at h
          exact hI.passed e.pid a h
    | crash =>
        rw [phase_seen_of_crash entry _ ha] at h
        cases h
    | op o r =>
        rw [seen_of_op entry _ ha] at h
        rcases phaseAfter_admission? h with hold | ⟨hphase, state, hop⟩
        · exact hI.passed e.pid a hold
        · subst hop
          rcases (ho.allowed ha).2.2 with ⟨a', hphase', _, hactive⟩ | ⟨a', t, previous, hphase', _⟩
          · rw [hphase] at hphase'
            cases hphase'
            exact hactive
          · rw [hphase] at hphase'
            cases hphase'
  · rw [seen_of_ne entry _ hpid] at h
    exact hI.passed p a h

/-- Only the report of the holder changes a cooldown, and it ends the admission it is about. -/
theorem report_of_change (ho : Orderly entry d mayUse pre e)
    (hown : OwnWrite entry RateState.cooldownUntil pre e) (hI : Cooling entry pre)
    (hchange : (rateRow e.after).cooldownUntil ≠ (rateRow e.before).cooldownUntil) :
    holder (e :: pre) = some e.pid ∧ (seen entry e.pid (e :: pre)).phase = .idle ∧
      ∀ c, Committed pre c → c ≤ e.time := by
  rcases hown hchange with ⟨hholder, hworking⟩
  have hset : ∃ state r, e.action = .op (.rate (.setRateState state)) r := by
    by_contra hnone
    exact hchange (limit_after_eq Limit.cooldownUntil ho fun state r ha => hnone ⟨state, r, ha⟩)
  rcases hset with ⟨state, r, ha⟩
  have hacq : acquires e = false := by
    simp [acquires, ha]
  have hview := seen_of_op entry pre ha
  rcases (ho.allowed ha).2.2 with ⟨a, hphase, hkeeps, _⟩ | ⟨a, endedAt, previous, hphase, _⟩
  · -- The write of an admission stores the cooldown it has read.
    exfalso
    have hsnapshot : (seen entry e.pid pre).phase.snapshot? = some a := by
      rw [hphase]
      rfl
    have hcurrent := hI.snapshots.current e.pid a hholder hsnapshot
    rw [← ho.legal.before_eq] at hcurrent
    rcases rateRow_of_set (ho.performed ha) (name_of_set ho hI.snapshots ha) with heq | ⟨heq, _⟩
    · exact hchange (by rw [heq, hkeeps.2.2, hcurrent])
    · exact hchange (by rw [heq])
  · refine ⟨by rw [holder_of_not_acquires hacq]; exact hholder, ?_, ?_⟩
    · rw [hview]
      have hidle : (seen entry e.pid pre).phase.afterWrite r = .idle := by
        cases r <;> simp [hphase, Phase.afterWrite]
      exact hidle
    · intro c hc
      have hsome : ∃ b, a = some b := by
        rw [hphase] at hworking
        exact Option.isSome_iff_exists.1 hworking
      rcases hsome with ⟨b, rfl⟩
      have hadmission : (seen entry e.pid pre).phase.admission? = some b := by
        rw [hphase]
        rfl
      have hsnapshot := snapshot?_of_admission? hadmission
      have hle := le_current_of_passed (hI.passed e.pid b hadmission)
        (hI.snapshot e.pid b hholder hsnapshot c hc)
      have hcurrent := hI.current_le e.pid b hsnapshot
      have htime := ho.legal.time_le
      omega

theorem stored_step (ho : Orderly entry d mayUse pre e)
    (hown : OwnWrite entry RateState.cooldownUntil pre e) (hI : Cooling entry pre) :
    ∀ c, Committed (e :: pre) c → Covers (rateRow e.after).cooldownUntil c ∨ c ≤ e.time := by
  intro c hc
  have htime := ho.legal.time_le
  by_cases hsame : (rateRow e.after).cooldownUntil = (rateRow e.before).cooldownUntil
  · rw [hsame, ho.legal.before_eq]
    rcases hI.stored c (committed_of_same ho.legal hsame hc) with hcovers | hle
    · exact Or.inl hcovers
    · exact Or.inr (by omega)
  · rcases hc with ⟨e', hmem, he'⟩
    rcases List.mem_cons.1 hmem with rfl | hmem
    · exact Or.inl ⟨c, he', Int.le_refl c⟩
    · exact Or.inr ((report_of_change ho hown hI hsame).2.2 c ⟨e', hmem, he'⟩)

/-- The part of the step that concerns the holder: it may assume the cooldown unchanged. -/
theorem same_of_holder (ho : Orderly entry d mayUse pre e)
    (hown : OwnWrite entry RateState.cooldownUntil pre e) (hI : Cooling entry pre) {p : Nat}
    (hholder : holder (e :: pre) = some p) (hphase : (seen entry p (e :: pre)).phase ≠ .idle) :
    (rateRow e.after).cooldownUntil = (rateRow e.before).cooldownUntil := by
  by_contra hchange
  rcases report_of_change ho hown hI hchange with ⟨hself, hidle, _⟩
  rw [hholder] at hself
  cases hself
  exact hphase hidle

theorem acquired_step (ho : Orderly entry d mayUse pre e)
    (hown : OwnWrite entry RateState.cooldownUntil pre e) (hI : Cooling entry pre) :
    ∀ p since, holder (e :: pre) = some p → (seen entry p (e :: pre)).phase = .acquired since →
      ∀ c, Committed (e :: pre) c → Covers (rateRow e.after).cooldownUntil c ∨ c ≤ since := by
  intro p since hholder hphase c hc
  have htime := ho.legal.time_le
  have hsame := same_of_holder ho hown hI hholder (by rw [hphase]; exact fun h => nomatch h)
  have hc' := committed_of_same ho.legal hsame hc
  rw [hsame, ho.legal.before_eq]
  -- The lease was held already, or is won by this event.
  have hcases : (holder pre = some p ∧ (seen entry p pre).phase = .acquired since) ∨
      since = e.time := by
    by_cases hpid : e.pid = p
    · subst hpid
      cases ha : e.action with
      | start client =>
          rcases phase_seen_of_start entry pre ha with hstart | hstart
          · rw [hstart] at hphase
            cases hphase
          · rw [hstart] at hphase
            cases hphase
      | crash =>
          rw [phase_seen_of_crash entry _ ha] at hphase
          cases hphase
      | op o r =>
          have hview := seen_of_op entry pre ha
          rw [hview] at hphase
          rcases phaseAfter_acquired hphase with hold | ⟨heq, _⟩
          · cases hacq : acquires e with
            | false =>
                rw [holder_of_not_acquires hacq] at hholder
                exact Or.inl ⟨hholder, hold⟩
            | true =>
                right
                unfold acquires at hacq
                split at hacq
                case h_1 owner timeout granted ha' =>
                  subst hacq
                  rw [← hview, seen_of_op entry _ ha'] at hphase
                  cases hphase
                  rfl
                case h_2 owner timeout err ha' =>
                  rw [← hview, seen_of_op entry _ ha'] at hphase
                  cases hphase
                case h_3 => cases hacq
          · exact Or.inr heq
    · rw [seen_of_ne entry _ hpid] at hphase
      cases hacq : acquires e with
      | false =>
          rw [holder_of_not_acquires hacq] at hholder
          exact Or.inl ⟨hholder, hphase⟩
      | true =>
          rw [holder_of_acquires hacq] at hholder
          exact (hpid (Option.some.inj hholder)).elim
  rcases hcases with ⟨hheld, hold⟩ | rfl
  · exact hI.acquired p since hheld hold c hc'
  · rcases hI.stored c hc' with hcovers | hle
    · exact Or.inl hcovers
    · exact Or.inr (by omega)

theorem snapshot_step (ho : Orderly entry d mayUse pre e)
    (hown : OwnWrite entry RateState.cooldownUntil pre e) (hI : Cooling entry pre) :
    ∀ p a, holder (e :: pre) = some p → (seen entry p (e :: pre)).phase.snapshot? = some a →
      ∀ c, Committed (e :: pre) c → Covers a.state.cooldownUntil c ∨ c ≤ a.current := by
  intro p a hholder h c hc
  have hsame := same_of_holder ho hown hI hholder (by
    intro hidle
    rw [hidle] at h
    cases h)
  have hc' := committed_of_same ho.legal hsame hc
  cases hacq : acquires e with
  | true =>
      rcases acquires_pid_phase entry hacq hholder with ⟨rfl, hnone⟩
      rw [hnone] at h
      cases h
  | false =>
      rw [holder_of_not_acquires hacq] at hholder
      by_cases hpid : e.pid = p
      · subst hpid
        rcases snapshot_cases ho h with hold | ⟨since, hphase, hsince, _, _, rfl⟩
        · exact hI.snapshot e.pid a hholder hold c hc'
        · -- The row is read after the clock, and the clock after the lease is won.
          rw [ho.legal.before_eq]
          rcases hI.acquired e.pid since hholder hphase c hc' with hcovers | hle
          · exact Or.inl hcovers
          · exact Or.inr (by simp only; omega)
      · rw [seen_of_ne entry _ hpid] at h
        exact hI.snapshot p a hholder h c hc'

theorem cooling_step (ho : Orderly entry d mayUse pre e)
    (hown : OwnWrite entry RateState.cooldownUntil pre e) (hI : Cooling entry pre) :
    Cooling entry (e :: pre) where
  snapshots := snapshots_step Limit.cooldownUntil ho hown hI.snapshots
  now_le := now_le_step ho hI.now_le
  current_le := current_le_step ho hI
  passed := passed_step ho hI
  stored := stored_step ho hown hI
  acquired := acquired_step ho hown hI
  snapshot := snapshot_step ho hown hI

theorem cooling_nil : Cooling entry ([] : History (storeSystem Client Out program)) where
  snapshots := snapshots_nil
  now_le := by
    intro p
    exact Int.le_refl 0
  current_le := by
    intro p a h
    cases h
  passed := by
    intro p a h
    cases h
  stored := by
    rintro c ⟨e, hmem, _⟩
    cases hmem
  acquired := by
    intro p since h
    cases h
  snapshot := by
    intro p a h
    cases h

/-- The holder is admitted only when every committed cooldown has passed. -/
theorem cooldownHonoured_of_cooling (ho : Orderly entry d mayUse pre e) (hI : Cooling entry pre)
    (hholding : AdmittedHolding pre e) : CooldownHonoured pre e := by
  intro current hcurrent e' hmem c hc
  have hholder := hholding (by rw [Option.mem_def.1 hcurrent]; rfl)
  unfold admittedAt at hcurrent
  split at hcurrent
  case h_1 family startedAt waitSeconds r ha =>
    rcases (ho.allowed ha).2.2 with ⟨a, hphase, heq⟩
    have hadmission : (seen entry e.pid pre).phase.admission? = some a := by
      rw [hphase]
      rfl
    have hle := le_current_of_passed (hI.passed e.pid a hadmission)
      (hI.snapshot e.pid a hholder (snapshot?_of_admission? hadmission) c ⟨e', hmem, hc⟩)
    have hcurrent' : startedAt - waitSeconds = current := by
      simpa using hcurrent
    omega
  case h_2 => cases hcurrent

end Cooling

/-! ## The theorem -/

/-- In every interleaving of limiter calls in which what changes the stored cooldown is done by
the owner that holds the lease, under an admission it has not yet reported, and admissions are
given only to holders, nobody is admitted before a committed cooldown has passed. -/
theorem cooldown_honoured (d : Deployment) (sched : List (Config.Choice (limiterCalls d)))
    (hwrites : Throughout (OwnWrite limiterEntry RateState.cooldownUntil)
      (Config.after (limiterCalls d) sched).history)
    (hholding : Throughout AdmittedHolding (Config.after (limiterCalls d) sched).history) :
    Throughout CooldownHonoured (Config.after (limiterCalls d) sched).history := by
  have hall : Throughout (fun pre e => Orderly limiterEntry d anyToken pre e ∧
      OwnWrite limiterEntry RateState.cooldownUntil pre e ∧ AdmittedHolding pre e)
      (Config.after (limiterCalls d) sched).history := by
    refine Throughout.mono ?_ ((((Config.legal_after (limiterCalls d) sched).and
      (limiterCalls_conduct d sched)).and hwrites).and hholding)
    rintro pre e ⟨⟨⟨hlegal, hdisciplined⟩, hwrite⟩, hholding'⟩
    exact ⟨⟨hlegal, hdisciplined⟩, hwrite, hholding'⟩
  exact Throughout.of_invariant cooling_nil (fun pre e hI h => cooling_step h.1 h.2.1 hI)
    (fun pre e hI h => cooldownHonoured_of_cooling h.1 hI h.2.2) hall

/-- An owner is admitted and rate limited; another is refused, and admitted after the cooldown. -/
def limitedThenAdmitted : List (Config.Choice (limiterCalls {})) :=
  .start 0 (.beforeRequest (.worker 0)) :: runs 0 6 ++
    .start 0 (.afterRateLimit (.worker 0) none 429 none) :: runs 0 6 ++
    .start 1 (.beforeRequest (.worker 1)) :: runs 1 4 ++
    .tick 4000000000 :: .start 1 (.beforeRequest (.worker 1)) :: runs 1 6

theorem cooldown_honoured_limited :
    Throughout CooldownHonoured (Config.after (limiterCalls {}) limitedThenAdmitted).history :=
  cooldown_honoured {} limitedThenAdmitted (by decide +kernel) (by decide +kernel)

/-- Owner 0 is admitted and stalls until its lease has expired; owner 1 is admitted and rate
limited, which commits a cooldown of an hour; owner 0 reports success, which clears it; owner 2 is
admitted at once. -/
def lateSuccess : List (Config.Choice (limiterCalls {})) :=
  .start 0 (.beforeRequest (.worker 0)) :: runs 0 6 ++
    .tick 200000000 :: .start 1 (.beforeRequest (.worker 1)) :: runs 1 6 ++
    .start 1 (.afterRateLimit (.worker 1) none 429 none) :: runs 1 6 ++
    .start 0 (.afterSuccess (.worker 0) 200) :: runs 0 5 ++
    .start 2 (.beforeRequest (.worker 2)) :: runs 2 6

theorem cooldown_not_honoured :
    ¬ Throughout CooldownHonoured (Config.after (limiterCalls {}) lateSuccess).history := by
  decide +kernel

end Upstream
end Huldra
