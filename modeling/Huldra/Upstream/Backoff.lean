import Huldra.Upstream.Rates
import Mathlib.Algebra.Order.Field.Rat
import Mathlib.Algebra.Order.GroupWithZero.Basic
import Mathlib.Algebra.Order.Ring.Cast

/-!
# Backoff — the adaptive cooldown stays within its bounds

`_effective_cooldown_seconds` combines a floor, an exponential, a cap, the server's own wish and a
jitter, in exact rational seconds here.  The exponent is a counter of the rate state that
`after_rate_limit` raises, `after_success` clears and `after_failure` leaves alone, so what a
cooldown is depends on the whole sequence of reports.
-/

namespace Huldra
namespace Limiter

open Upstream (rateRow)

/-- The settings the cooldown is computed from, in seconds, and what their validators promise. -/
structure CooldownSettings where
  cooldownSeconds : Int
  requestIntervalSeconds : Rat
  rateLimitBackoffMultiplier : Rat
  rateLimitMaxCooldownSeconds : Rat
  rateLimitJitterSeconds : Rat
  cooldown_pos : 0 < cooldownSeconds
  multiplier_ge_one : 1 ≤ rateLimitBackoffMultiplier
  jitter_nonneg : 0 ≤ rateLimitJitterSeconds
  maxCooldown_covers :
    max (cooldownSeconds : Rat) requestIntervalSeconds ≤ rateLimitMaxCooldownSeconds

namespace CooldownSettings

variable (c : CooldownSettings)

def safetyFloor : Rat :=
  max (c.cooldownSeconds : Rat) c.requestIntervalSeconds

def adaptive (consecutiveRateLimitTotal : Nat) : Rat :=
  min (c.safetyFloor * c.rateLimitBackoffMultiplier ^ (consecutiveRateLimitTotal - 1))
    c.rateLimitMaxCooldownSeconds

def retryAfterFloor (retryAfterSeconds : Option Int) : Rat :=
  (max 0 (retryAfterSeconds.getD 0) : Int)

def upwardJitter (sampledJitter : Rat) : Rat :=
  if 0 < c.rateLimitJitterSeconds then min c.rateLimitJitterSeconds (max 0 sampledJitter)
  else min c.rateLimitJitterSeconds (max 0 0)

/-- `_effective_cooldown_seconds`, with what the jitter function returns. -/
def effectiveCooldownSeconds (retryAfterSeconds : Option Int) (consecutiveRateLimitTotal : Nat)
    (sampledJitter : Rat) : Rat :=
  max (c.adaptive consecutiveRateLimitTotal) (retryAfterFloor retryAfterSeconds) +
    c.upwardJitter sampledJitter

theorem upwardJitter_nonneg (sampled : Rat) : 0 ≤ c.upwardJitter sampled := by
  unfold upwardJitter
  split
  · exact le_min c.jitter_nonneg (le_max_left _ _)
  · exact le_min c.jitter_nonneg (le_max_left _ _)

theorem upwardJitter_le (sampled : Rat) : c.upwardJitter sampled ≤ c.rateLimitJitterSeconds := by
  unfold upwardJitter
  split
  · exact min_le_left _ _
  · exact min_le_left _ _

theorem safetyFloor_pos : 0 < c.safetyFloor :=
  lt_of_lt_of_le (Int.cast_pos.2 c.cooldown_pos) (le_max_left _ _)

theorem safetyFloor_le_adaptive (n : Nat) : c.safetyFloor ≤ c.adaptive n := by
  refine le_min ?_ c.maxCooldown_covers
  calc
    c.safetyFloor = c.safetyFloor * 1 := (mul_one _).symm
    _ ≤ c.safetyFloor * c.rateLimitBackoffMultiplier ^ (n - 1) :=
      mul_le_mul_of_nonneg_left (one_le_pow₀ c.multiplier_ge_one) c.safetyFloor_pos.le

/-- The growth never turns back. -/
theorem adaptive_mono {m n : Nat} (h : m ≤ n) : c.adaptive m ≤ c.adaptive n := by
  refine min_le_min_right _ (mul_le_mul_of_nonneg_left ?_ c.safetyFloor_pos.le)
  exact pow_le_pow_right₀ c.multiplier_ge_one (Nat.sub_le_sub_right h 1)

theorem retryAfterFloor_le_max (retryAfter : Option Int) :
    retryAfterFloor retryAfter ≤
      max c.rateLimitMaxCooldownSeconds ((retryAfter.getD 0 : Int) : Rat) := by
  have hmax : 0 ≤ c.rateLimitMaxCooldownSeconds :=
    c.safetyFloor_pos.le.trans c.maxCooldown_covers
  rw [retryAfterFloor, Int.cast_max, Int.cast_zero]
  exact max_le (hmax.trans (le_max_left _ _)) (le_max_right _ _)

theorem le_effective (retryAfter : Option Int) (n : Nat) (sampled : Rat) :
    c.safetyFloor ≤ c.effectiveCooldownSeconds retryAfter n sampled ∧
      retryAfterFloor retryAfter ≤ c.effectiveCooldownSeconds retryAfter n sampled := by
  have hjitter := c.upwardJitter_nonneg sampled
  have hbase : max (c.adaptive n) (retryAfterFloor retryAfter) ≤
      c.effectiveCooldownSeconds retryAfter n sampled := le_add_of_nonneg_right hjitter
  exact ⟨((c.safetyFloor_le_adaptive n).trans (le_max_left _ _)).trans hbase,
    (le_max_right _ _).trans hbase⟩

theorem effective_le (retryAfter : Option Int) (n : Nat) (sampled : Rat) :
    c.effectiveCooldownSeconds retryAfter n sampled ≤
      max c.rateLimitMaxCooldownSeconds ((retryAfter.getD 0 : Int) : Rat) +
        c.rateLimitJitterSeconds := by
  have hcap : c.adaptive n ≤ c.rateLimitMaxCooldownSeconds := min_le_right _ _
  exact add_le_add (max_le (hcap.trans (le_max_left _ _)) (c.retryAfterFloor_le_max retryAfter))
    (c.upwardJitter_le sampled)

end CooldownSettings

/-! ## Sequences of reports -/

/-- The arguments of one `after_rate_limit`, the time, and what the jitter function returns. -/
structure RateLimitReport where
  owner : OwnerToken
  retryAfterSeconds : Option Int
  statusCode : Int
  errorMessage : Option String
  sampledJitter : Rat
  current : Int
  deriving DecidableEq

inductive Report where
  | afterRateLimit (report : RateLimitReport)
  | afterSuccess (owner : OwnerToken) (status current : Int)
  | afterFailure (owner : OwnerToken) (status : Option Int) (errorMessage : Option String)
      (current : Int)
  deriving DecidableEq

/-- The cooldown a rate limit reported in this state imposes, in seconds. -/
def RateLimitReport.effective (r : RateLimitReport) (c : CooldownSettings) (state : RateState) :
    Rat :=
  c.effectiveCooldownSeconds r.retryAfterSeconds (state.consecutiveRateLimitTotal + 1)
    r.sampledJitter

/-- The row a report leaves. -/
def Report.row (c : CooldownSettings) (state : RateState) : Report → RateState
  | .afterRateLimit r =>
      let effective := r.effective c state * 1000000
      rateLimitedState state r.current (r.current + roundMicroseconds effective) effective
        r.retryAfterSeconds r.statusCode (rateLimitKind r.statusCode) (apiFamily r.owner)
        r.errorMessage
  | .afterSuccess owner status current => succeededState state owner status current
  | .afterFailure owner status errorMessage current =>
      failedState state owner status errorMessage current

def Report.isSuccess : Report → Bool
  | .afterSuccess .. => true
  | _ => false

def Report.isFailure : Report → Bool
  | .afterFailure .. => true
  | _ => false

/-- The row after a sequence of reports. -/
def rowAfter (c : CooldownSettings) (state : RateState) (reports : List Report) : RateState :=
  reports.foldl (Report.row c) state

section Sequences

variable (c : CooldownSettings) (state : RateState)

theorem rowAfter_append (first rest : List Report) :
    rowAfter c state (first ++ rest) = rowAfter c (rowAfter c state first) rest :=
  List.foldl_append

/-- Without a success the counter does not go back. -/
theorem consecutive_le_rowAfter {reports : List Report}
    (h : ∀ r ∈ reports, r.isSuccess = false) :
    state.consecutiveRateLimitTotal ≤ (rowAfter c state reports).consecutiveRateLimitTotal := by
  induction reports generalizing state with
  | nil => exact le_rfl
  | cons r rest ih =>
      have hstep : state.consecutiveRateLimitTotal ≤ (r.row c state).consecutiveRateLimitTotal := by
        cases r with
        | afterRateLimit r => exact Nat.le_succ _
        | afterSuccess => exact absurd (h _ List.mem_cons_self) (by simp [Report.isSuccess])
        | afterFailure => exact le_rfl
      exact hstep.trans (ih _ fun r' hr' => h r' (List.mem_cons_of_mem _ hr'))

/-- Failures leave the counter as it is. -/
theorem consecutive_rowAfter_failures {reports : List Report}
    (h : ∀ r ∈ reports, r.isFailure = true) :
    (rowAfter c state reports).consecutiveRateLimitTotal = state.consecutiveRateLimitTotal := by
  induction reports generalizing state with
  | nil => rfl
  | cons r rest ih =>
      have hstep : (r.row c state).consecutiveRateLimitTotal =
          state.consecutiveRateLimitTotal := by
        cases r with
        | afterFailure => rfl
        | afterRateLimit => exact absurd (h _ List.mem_cons_self) (by simp [Report.isFailure])
        | afterSuccess => exact absurd (h _ List.mem_cons_self) (by simp [Report.isFailure])
      exact (ih _ fun r' hr' => h r' (List.mem_cons_of_mem _ hr')).trans hstep

/-- Whatever was reported before: the row of a rate limit records its cooldown; the cooldown is
within its bounds; a later rate limit with no success in between, the same wish of the server and
no jitter imposes no less; and after a success, and failures at most, it is the one of the first
level. -/
theorem adaptive_cooldown_bounds (before : List Report) (r : RateLimitReport) :
    (rowAfter c state (before ++ [.afterRateLimit r])).lastEffectiveCooldownSeconds =
      some (r.effective c (rowAfter c state before)) ∧
    (max (c.cooldownSeconds : Rat) c.requestIntervalSeconds ≤
        r.effective c (rowAfter c state before) ∧
      (∀ seconds ∈ r.retryAfterSeconds,
        (seconds : Rat) ≤ r.effective c (rowAfter c state before)) ∧
      r.effective c (rowAfter c state before) ≤
        max c.rateLimitMaxCooldownSeconds ((r.retryAfterSeconds.getD 0 : Int) : Rat) +
          c.rateLimitJitterSeconds) ∧
    (∀ (between : List Report) (later : RateLimitReport),
      (∀ b ∈ between, b.isSuccess = false) → later.retryAfterSeconds = r.retryAfterSeconds →
        c.upwardJitter r.sampledJitter = 0 → c.upwardJitter later.sampledJitter = 0 →
          r.effective c (rowAfter c state before) ≤
            later.effective c (rowAfter c state (before ++ .afterRateLimit r :: between))) ∧
    ∀ (earlier between : List Report) (success : Report),
      before = earlier ++ success :: between → success.isSuccess = true →
        (∀ b ∈ between, b.isFailure = true) →
          r.effective c (rowAfter c state before) =
            c.effectiveCooldownSeconds r.retryAfterSeconds 1 r.sampledJitter := by
  refine ⟨?_, ?_, ?_, ?_⟩
  · rw [rowAfter_append]
    have hunit : r.effective c (rowAfter c state before) * 1000000 / 1000000 =
        r.effective c (rowAfter c state before) := mul_div_cancel_right₀ _ (by decide)
    exact congrArg some hunit
  · have hle := c.le_effective r.retryAfterSeconds
      ((rowAfter c state before).consecutiveRateLimitTotal + 1) r.sampledJitter
    refine ⟨hle.1, ?_, c.effective_le _ _ _⟩
    intro seconds hseconds
    refine le_trans ?_ hle.2
    rw [Option.mem_def.1 hseconds]
    exact Int.cast_le.2 (le_max_right _ _)
  · intro between later hbetween hsame hjitter hjitter'
    -- The counter has gone up with this rate limit and not back since.
    have hcount : (rowAfter c state before).consecutiveRateLimitTotal + 1 ≤
        (rowAfter c state (before ++ .afterRateLimit r :: between)).consecutiveRateLimitTotal := by
      rw [rowAfter_append]
      exact consecutive_le_rowAfter c (Report.row c (rowAfter c state before) (.afterRateLimit r))
        hbetween
    simp only [RateLimitReport.effective, CooldownSettings.effectiveCooldownSeconds, hsame,
      hjitter, hjitter', add_zero]
    exact max_le_max_right _ (c.adaptive_mono (by omega))
  · rintro earlier between success rfl hsuccess hbetween
    have hcleared : (rowAfter c state (earlier ++ success :: between)).consecutiveRateLimitTotal =
        0 := by
      rw [rowAfter_append]
      cases success with
      | afterSuccess owner status current =>
          exact consecutive_rowAfter_failures c _ hbetween
      | afterRateLimit => cases hsuccess
      | afterFailure => cases hsuccess
    rw [RateLimitReport.effective, hcleared]

end Sequences

/-! ## The limiter's programs make these reports -/

/-- The settings of a deployment, in seconds. -/
def cooldownSettings (settings : HuldraSettings) : CooldownSettings where
  cooldownSeconds := settings.cooldownSeconds
  requestIntervalSeconds := (settings.requestIntervalSeconds : Rat) / 1000000
  rateLimitBackoffMultiplier := settings.rateLimitBackoffMultiplier
  rateLimitMaxCooldownSeconds := (settings.rateLimitMaxCooldownSeconds : Rat) / 1000000
  rateLimitJitterSeconds := (settings.rateLimitJitterSeconds : Rat) / 1000000
  cooldown_pos := settings.cooldown_pos
  multiplier_ge_one := settings.multiplier_ge_one
  jitter_nonneg := div_nonneg (Int.cast_nonneg settings.jitter_nonneg) (by decide)
  maxCooldown_covers := by
    have hmillion : (0 : Rat) < 1000000 := by decide
    have hcovers := max_le_iff.1 settings.maxCooldown_covers
    refine max_le ((le_div_iff₀ hmillion).2 ?_)
      ((div_le_div_iff_of_pos_right hmillion).2 (Int.cast_le.2 hcovers.2))
    exact_mod_cast hcovers.1

theorem cooldownLowerBound_eq (settings : HuldraSettings) (retryAfter : Option Int) (n : Nat) :
    cooldownLowerBound settings retryAfter n =
      max ((cooldownSettings settings).adaptive n) (CooldownSettings.retryAfterFloor retryAfter) *
        1000000 := by
  have hmillion : (0 : Rat) ≤ 1000000 := by decide
  have hunit : ∀ x : Int, (x : Rat) / 1000000 * 1000000 = x := fun x =>
    div_mul_cancel₀ _ (by decide)
  have hfloor : (cooldownSettings settings).safetyFloor * 1000000 =
      (max (seconds settings.cooldownSeconds) settings.requestIntervalSeconds : Int) := by
    rw [CooldownSettings.safetyFloor, max_mul_of_nonneg _ _ hmillion, Int.cast_max]
    exact congrArg₂ max (by simp [cooldownSettings, seconds]) (hunit _)
  rw [cooldownLowerBound, ← hfloor, max_mul_of_nonneg _ _ hmillion, CooldownSettings.adaptive,
    min_mul_of_nonneg _ _ hmillion, mul_right_comm]
  refine congrArg₂ max (congrArg₂ min rfl (hunit _).symm) ?_
  simp [CooldownSettings.retryAfterFloor, seconds]

/-- What the jitter adds in the program is what the settings in seconds say. -/
theorem eval_effectiveCooldown (settings : HuldraSettings) (retryAfter : Option Int) (n : Nat)
    (now : Int) (input : Input) (s : Store) :
    (effectiveCooldown settings retryAfter n).eval (fun o => Store.exec o now input) s =
      (.ok ((cooldownSettings settings).effectiveCooldownSeconds retryAfter n
        ((input.jitter : Rat) / 1000000) * 1000000), s) := by
  have hmillion : (0 : Rat) ≤ 1000000 := by decide
  have hunit : ∀ x : Int, (x : Rat) / 1000000 * 1000000 = x := fun x =>
    div_mul_cancel₀ _ (by decide)
  have hpos : 0 < (cooldownSettings settings).rateLimitJitterSeconds ↔
      0 < settings.rateLimitJitterSeconds := by
    refine (lt_div_iff₀ (by decide)).trans ?_
    rw [zero_mul]
    exact Int.cast_pos
  have hjitter : (cooldownSettings settings).upwardJitter ((input.jitter : Rat) / 1000000) *
      1000000 = if 0 < settings.rateLimitJitterSeconds then
        ((min settings.rateLimitJitterSeconds (max 0 input.jitter) : Int) : Rat) else 0 := by
    by_cases h : 0 < settings.rateLimitJitterSeconds
    · rw [if_pos h, CooldownSettings.upwardJitter, if_pos (hpos.2 h),
        min_mul_of_nonneg _ _ hmillion, max_mul_of_nonneg _ _ hmillion, Int.cast_min, Int.cast_max]
      exact congrArg₂ min (hunit _) (congrArg₂ max (by simp) (hunit _))
    · have hzero : settings.rateLimitJitterSeconds = 0 := by
        have := settings.jitter_nonneg
        omega
      rw [if_neg h, CooldownSettings.upwardJitter, if_neg fun h' => h (hpos.1 h')]
      simp [cooldownSettings, hzero]
  rw [CooldownSettings.effectiveCooldownSeconds, add_mul, hjitter, ← cooldownLowerBound_eq]
  by_cases h : 0 < settings.rateLimitJitterSeconds
  · simp only [effectiveCooldown, if_pos h]
    rfl
  · simp only [effectiveCooldown, if_neg h, add_zero]
    rfl

/-- The time the cooldown of a rate limit ends. -/
def RateLimitReport.cooldownUntil (r : RateLimitReport) (c : CooldownSettings)
    (state : RateState) : Int :=
  r.current + roundMicroseconds (r.effective c state * 1000000)

/-- A rate limit reported by one process alone: the row the report leaves, and the lease given
back, unless the cooldown passes the end of the calendar. -/
theorem eval_afterRateLimit (d : Deployment) (r : RateLimitReport) (input : Input) (s : Store)
    (hjitter : r.sampledJitter = (input.jitter : Rat) / 1000000) :
    (afterRateLimit d r.owner r.retryAfterSeconds r.statusCode r.errorMessage).eval
        (fun o => Store.exec o r.current input) s =
      if datetimeMax < r.cooldownUntil (cooldownSettings d.settings) (rateRow s) then
        (.error .overflowError, s)
      else
        (.ok (r.cooldownUntil (cooldownSettings d.settings) (rateRow s)),
          { s with
            rates := Function.update s.rates (rateRow s).name
              (some (Report.row (cooldownSettings d.settings) (rateRow s) (.afterRateLimit r)))
            leases := s.leases.releaseLease leaseName r.owner }) := by
  have heffective := eval_effectiveCooldown d.settings r.retryAfterSeconds
    ((rateRow s).consecutiveRateLimitTotal + 1) r.current input s
  rw [← hjitter] at heffective
  change (Process.Prog.handle (effectiveCooldown d.settings r.retryAfterSeconds
    ((rateRow s).consecutiveRateLimitTotal + 1)) _ _).eval _ s = _
  rw [Process.Prog.eval_handle, heffective]
  change (if datetimeMax < r.cooldownUntil (cooldownSettings d.settings) (rateRow s) then _
    else _ : Program Int).eval _ s = _
  by_cases hfits : datetimeMax < r.cooldownUntil (cooldownSettings d.settings) (rateRow s)
  · rw [if_pos hfits, if_pos hfits]
    rfl
  · rw [if_neg hfits, if_neg hfits]
    rfl

theorem eval_afterSuccess (owner : OwnerToken) (status now : Int) (input : Input) (s : Store)
    (c : CooldownSettings) :
    (afterSuccess owner status).eval (fun o => Store.exec o now input) s =
      (.ok (),
        { s with
          rates := Function.update s.rates (rateRow s).name
            (some (Report.row c (rateRow s) (.afterSuccess owner status now)))
          leases := s.leases.releaseLease leaseName owner }) := rfl

theorem eval_afterFailure (owner : OwnerToken) (status : Option Int) (errorMessage : String)
    (now : Int) (input : Input) (s : Store) (c : CooldownSettings) :
    (afterFailure owner status errorMessage).eval (fun o => Store.exec o now input) s =
      (.ok (),
        { s with
          rates := Function.update s.rates (rateRow s).name
            (some (Report.row c (rateRow s) (.afterFailure owner status errorMessage now)))
          leases := s.leases.releaseLease leaseName owner }) := rfl

end Limiter

end Huldra
