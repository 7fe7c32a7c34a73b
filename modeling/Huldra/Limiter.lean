import Huldra.Calls
import Mathlib.Algebra.Order.Ring.Unbundled.Rat

/-!
# Limiter — the durable rate limiter around every upstream request

`before_request` admits a request under the shared lease, the three `after_…` methods report how
it went.  Each reads the rate state, changes it in memory and writes the whole row back, in
separate transactions.
-/

namespace Huldra

structure RateLimitDecision where
  canFetch : Bool
  waitSeconds : Int := 0
  blockedReason : Option String := none
  cooldownUntil : Option Int := none
  leaseAcquired : Bool := false
  requestStartedAt : Option Int := none
  deriving DecidableEq, Repr

namespace Limiter

/-- The name of the rate state all clients share. -/
def name : String :=
  "arxiv_legacy_api"

/-- The name of the lease all clients share. -/
def leaseName : LeaseName :=
  .upstreamFetch

def apiFamily : OwnerToken → String
  | .oai _ => "oai_pmh"
  | .worker _ | .inlineWorker _ | .oaiHarvest _ => "legacy_api"

def rateLimitKind (statusCode : Int) : String :=
  if statusCode = 503 then "oai_503_retry_after" else "http_429"

def secondsUntilNextRequest (settings : HuldraSettings) (state : RateState) (now : Int) : Int :=
  match state.lastRequestAt with
  | none => 0
  | some last => max 0 (last + settings.requestIntervalSeconds - now)

/-- The cooldown that a state still imposes. -/
def activeCooldown (state : RateState) (current : Int) : Option Int :=
  state.cooldownUntil.filter fun cooldown => current < cooldown

/-- The lower bound of `_effective_cooldown_seconds`, before jitter, in microseconds. -/
def cooldownLowerBound (settings : HuldraSettings) (retryAfterSeconds : Option Int)
    (consecutiveRateLimitTotal : Nat) : Rat :=
  let safetyFloor : Rat :=
    (max (seconds settings.cooldownSeconds) settings.requestIntervalSeconds : Int)
  let exponent := consecutiveRateLimitTotal - 1
  let adaptive := min (safetyFloor * settings.rateLimitBackoffMultiplier ^ exponent)
    (settings.rateLimitMaxCooldownSeconds : Rat)
  max adaptive (seconds (max 0 (retryAfterSeconds.getD 0)) : Rat)

/-- `_effective_cooldown_seconds`, in microseconds. -/
def effectiveCooldown (settings : HuldraSettings) (retryAfterSeconds : Option Int)
    (consecutiveRateLimitTotal : Nat) : Program Rat := do
  let lowerBound := cooldownLowerBound settings retryAfterSeconds consecutiveRateLimitTotal
  let jitterMax := settings.rateLimitJitterSeconds
  if 0 < jitterMax then do
    let sampled ← perform (.clock (.jitter jitterMax))
    pure (lowerBound + (min jitterMax (max 0 sampled) : Int))
  else pure lowerBound

/-- The latency of the request the state says was started last, in milliseconds. -/
def latencyMs (state : RateState) (current : Int) : Rat :=
  max 0 (((current - state.lastRequestStartedAt.getD current : Int) : Rat) / 1000)

/-- The family a report is about. -/
def reportedFamily (state : RateState) (owner : OwnerToken) : String :=
  state.lastApiFamily.getD (apiFamily owner)

/-- The row `before_request` writes back. -/
def startedState (state : RateState) (owner : OwnerToken) (requestStartedAt waitSeconds : Int) :
    RateState :=
  { state with
    lastRequestStartedAt := some requestStartedAt
    lastRateWaitSeconds := some waitSeconds
    lastRequestLatencyMs := none
    lastApiFamily := some (apiFamily owner) }

def beforeRequest (d : Deployment) (owner : OwnerToken) : Program RateLimitDecision := do
  let acquired ← acquireLease leaseName owner d.settings.leaseTimeoutSeconds
  if acquired = false then pure { canFetch := false, blockedReason := some "lease_held" }
  else do
    -- The clock is read after the lease is won, the state after the clock.
    let current ← utcNow
    let state ← getRateState name
    match activeCooldown state current with
    | some cooldown => do
        releaseLease leaseName owner
        pure
          { canFetch := false
            blockedReason := some "cooldown"
            cooldownUntil := some cooldown }
    | none => do
        let waitSeconds := secondsUntilNextRequest d.settings state current
        let leaseTimeoutSeconds := max d.settings.leaseTimeoutSeconds
          (ceilSeconds
            (waitSeconds + d.settings.requestTimeoutSeconds + d.storeTimeout + seconds 5))
        let renewed ← renewLeaseIfOwned leaseName owner leaseTimeoutSeconds
        if renewed = false then pure { canFetch := false, blockedReason := some "lease_held" }
        else do
          let requestStartedAt := current + waitSeconds
          tryExceptException
            (do
              setRateState (startedState state owner requestStartedAt waitSeconds)
              recordEvent
                (.upstreamRequestStarted (apiFamily owner) requestStartedAt waitSeconds))
            (fun e => do
              releaseLease leaseName owner
              .raise e)
          pure
            { canFetch := true
              waitSeconds := waitSeconds
              leaseAcquired := true
              requestStartedAt := some requestStartedAt }

/-- The row `after_success` writes. -/
def succeededState (previous : RateState) (owner : OwnerToken) (status current : Int) : RateState :=
  { previous with
    lastRequestAt := some current
    cooldownUntil := none
    consecutive429Total := 0
    consecutiveRateLimitTotal := 0
    lastStatus := some status
    lastErrorMessage := none
    lastRequestLatencyMs := some (latencyMs previous current)
    lastRetryAfterSeconds := none
    lastEffectiveCooldownSeconds := none
    lastRateLimitKind := none
    lastApiFamily := some (reportedFamily previous owner) }

def afterSuccess (owner : OwnerToken) (status : Int) : Program Unit := do
  let current ← utcNow
  let previous ← getRateState name
  setRateState (succeededState previous owner status current)
  (recordEvent
    (.upstreamRequestFinished (reportedFamily previous owner) "success" (some status))).tryFinally
    (releaseLease leaseName owner)

/-- The row `after_rate_limit` writes. -/
def rateLimitedState (previous : RateState) (current cooldownUntil : Int)
    (effective : Rat) (retryAfterSeconds : Option Int) (statusCode : Int) (kind family : String)
    (errorMessage : Option String) : RateState :=
  { previous with
    lastRequestAt := some current
    cooldownUntil := some cooldownUntil
    consecutive429Total := if statusCode = 429 then previous.consecutive429Total + 1 else 0
    upstream429Total := previous.upstream429Total + if statusCode = 429 then 1 else 0
    consecutiveRateLimitTotal := previous.consecutiveRateLimitTotal + 1
    upstreamRateLimitedTotal := previous.upstreamRateLimitedTotal + 1
    upstreamOai503RetryAfterTotal :=
      previous.upstreamOai503RetryAfterTotal + if kind = "oai_503_retry_after" then 1 else 0
    lastStatus := some statusCode
    lastErrorMessage := some
      ((errorMessage.filter (· ≠ "")).getD ("arXiv returned HTTP " ++ toString statusCode))
    lastRequestLatencyMs := some (latencyMs previous current)
    lastRetryAfterSeconds := retryAfterSeconds
    lastEffectiveCooldownSeconds := some (effective / 1000000)
    lastRateLimitKind := some kind
    lastApiFamily := some family }

/-- `after_rate_limit`: the time the cooldown ends. -/
def afterRateLimit (d : Deployment) (owner : OwnerToken) (retryAfterSeconds : Option Int)
    (statusCode : Int) (errorMessage : Option String) : Program Int := do
  let current ← utcNow
  let previous ← getRateState name
  let effective ← effectiveCooldown d.settings retryAfterSeconds
    (previous.consecutiveRateLimitTotal + 1)
  let cooldownUntil := current + roundMicroseconds effective
  if datetimeMax < cooldownUntil then .raise .overflowError
  else do
    let family := apiFamily owner
    setRateState (rateLimitedState previous current cooldownUntil effective retryAfterSeconds
      statusCode (rateLimitKind statusCode) family errorMessage)
    (recordEvent (.upstreamRequestFinished family "rate_limited" (some statusCode))).tryFinally
      (releaseLease leaseName owner)
    pure cooldownUntil

/-- The row `after_failure` writes: the cooldown and the counters stay. -/
def failedState (previous : RateState) (owner : OwnerToken) (status : Option Int)
    (errorMessage : Option String) (current : Int) : RateState :=
  { previous with
    lastRequestAt := some current
    lastStatus := status
    lastErrorMessage := errorMessage
    lastRequestLatencyMs := some (latencyMs previous current)
    lastRetryAfterSeconds := none
    lastEffectiveCooldownSeconds := none
    lastRateLimitKind := none
    lastApiFamily := some (reportedFamily previous owner) }

def afterFailure (owner : OwnerToken) (status : Option Int) (errorMessage : String) :
    Program Unit := do
  let current ← utcNow
  let previous ← getRateState name
  setRateState (failedState previous owner status (some errorMessage) current)
  (recordEvent
    (.upstreamRequestFinished (reportedFamily previous owner) "failure" status)).tryFinally
    (releaseLease leaseName owner)

end Limiter

end Huldra
