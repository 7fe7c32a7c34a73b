/-!
# Config — time, and the runtime settings of the broker

A UTC `datetime` is an `Int` of microseconds since the epoch, a `timedelta` an `Int` of
microseconds.  A setting the source keeps as a float of seconds is such a duration here; one it
keeps as an integer of seconds stays a count of seconds, and `seconds` turns it into a duration.
-/

namespace Huldra

/-- `timedelta(seconds=n)`. -/
def seconds (n : Int) : Int :=
  n * 1000000

/-- `ceil(d.total_seconds())`. -/
def ceilSeconds (d : Int) : Int :=
  -((-d) / 1000000)

/-- `timedelta(seconds=q)` for a fractional count of microseconds: to the nearest, ties to even. -/
def roundMicroseconds (q : Rat) : Int :=
  let below := q.floor
  let rest := q - below
  if rest < 1 / 2 then below
  else if 1 / 2 < rest then below + 1
  else if below % 2 = 0 then below else below + 1

/-- `datetime.max`, in UTC: a later time raises `OverflowError`. -/
def datetimeMax : Int :=
  253402300799999999

/-- The settings, with what the validators of `HuldraSettings` establish. -/
structure HuldraSettings where
  requestIntervalSeconds : Int := seconds 5
  cooldownSeconds : Int := 3600
  rateLimitBackoffMultiplier : Rat := 2
  rateLimitMaxCooldownSeconds : Int := seconds 86400
  rateLimitJitterSeconds : Int := seconds 60
  requestTimeoutSeconds : Int := seconds 30
  workerPollIntervalSeconds : Int := seconds 300
  leaseTimeoutSeconds : Int := 120
  queueClaimTimeoutSeconds : Int := 300
  legacySearchWindowResultCap : Int := 10000
  oaiOverlapSeconds : Int := 0
  maturityLagDays : Int := 1
  /-- `_request_interval_respects_arxiv_floor` -/
  requestInterval_floor : seconds 3 ≤ requestIntervalSeconds := by decide
  /-- `_positive_integer` -/
  cooldown_pos : 0 < cooldownSeconds := by decide
  leaseTimeout_pos : 0 < leaseTimeoutSeconds := by decide
  multiplier_ge_one : 1 ≤ rateLimitBackoffMultiplier := by decide
  jitter_nonneg : 0 ≤ rateLimitJitterSeconds := by decide
  pollInterval_floor : seconds 1 ≤ workerPollIntervalSeconds := by decide
  /-- `_positive_window_cap` -/
  windowCap_pos : 0 < legacySearchWindowResultCap := by decide
  /-- `_non_negative_overlap` -/
  overlap_nonneg : 0 ≤ oaiOverlapSeconds := by decide
  /-- `_rate_limit_cap_covers_safety_floor` -/
  maxCooldown_covers :
    max (seconds cooldownSeconds) requestIntervalSeconds ≤ rateLimitMaxCooldownSeconds := by decide

namespace HuldraSettings

/-- The settings where nothing is configured. -/
def defaults : HuldraSettings := {}

end HuldraSettings

end Huldra
