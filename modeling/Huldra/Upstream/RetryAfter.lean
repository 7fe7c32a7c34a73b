import Huldra.Upstream.Backoff
import Huldra.Text

/-!
# RetryAfter — from a `Retry-After` header to a stored cooldown

A 429 is handled in two steps: `_parse_retry_after_seconds` reads the header while the fetcher
raises, and `after_rate_limit` stores the cooldown when the exception is caught.  Between the two
an exception of either leaves no cooldown at all, and the lease with its owner.
-/

namespace Huldra
namespace Fetcher

open Text

/-! ## Reading the header -/

/-- A `datetime`: what it shows, and how far that is ahead of UTC if it knows its zone. -/
structure ParsedDatetime where
  wall : Int
  utcoffset : Option Int
  deriving DecidableEq, Repr

/-- `datetime.min`, in UTC. -/
def datetimeMin : Int :=
  -62135596800000000

/-- The moment meant: a datetime without a zone is taken to be in UTC. -/
def ParsedDatetime.utc (target : ParsedDatetime) : Int :=
  target.wall - target.utcoffset.getD 0

/-- `ensure_utc`: `astimezone` raises for a moment outside of the calendar. -/
def ensureUtc (target : ParsedDatetime) : Except Exn Int :=
  match target.utcoffset with
  | none => .ok target.wall
  | some _ =>
      if target.utc < datetimeMin ∨ datetimeMax < target.utc then .error .overflowError
      else .ok target.utc

/-- The digits that are not decimal, such as `²`: each run by its first and its length. -/
def otherDigits : List (Nat × Nat) :=
  [(0xb2, 2), (0xb9, 1), (0x1369, 9), (0x19da, 1), (0x2070, 1), (0x2074, 6), (0x2080, 10),
    (0x2460, 9), (0x2474, 9), (0x2488, 9), (0x24ea, 1), (0x24f5, 9), (0x24ff, 1), (0x2776, 9),
    (0x2780, 9), (0x278a, 9), (0x10a40, 4), (0x10e60, 9), (0x11052, 9), (0x1f100, 11)]

/-- `str.isdigit()` -/
def isdigit (value : Text) : Bool :=
  !value.isEmpty && value.all fun c =>
    Text.isDigit c || otherDigits.any fun run => run.1 ≤ c.toNat && c.toNat < run.1 + run.2

/-- `int(value)` for digits: only decimal ones, and not too many. -/
def int (value : Text) : Except Exn Int :=
  if !value.all Text.isDigit then .error (.valueError "invalid literal for int() with base 10")
  else if maxStrDigits < value.length then .error (.tooManyDigits value.length)
  else .ok (Text.toNat value)

/-- `_parse_retry_after_seconds`; `parsedate` is `parsedate_to_datetime`, `none` where it raises
`TypeError` or `ValueError`. -/
def parseRetryAfterSeconds (parsedate : Text → Option ParsedDatetime) (raw : Option Text)
    (now : Int) : Except Exn (Option Int) :=
  match raw with
  | none => .ok none
  | some raw =>
      let value := strip raw
      if value.isEmpty then .ok none
      else if isdigit value then (int value).map fun n => some (max 0 n)
      else
        match parsedate value with
        | none => .ok none
        | some target =>
            -- Only the parser is inside of the `try`.
            (ensureUtc target).map fun utc => some (max 0 (ceilSeconds (utc - now)))

/-! ## What a header asks for -/

variable (parsedate : Text → Option ParsedDatetime)

/-- The seconds a header means. -/
def asked (raw : Option Text) (now : Int) : Option Int :=
  raw.bind fun raw =>
    if (strip raw).isEmpty then none
    else if isdigit (strip raw) then some (Text.toNat (strip raw))
    else (parsedate (strip raw)).map fun target => max 0 (ceilSeconds (target.utc - now))

/-- A header the parser survives: absent, blank, at most 4300 decimal digits, not a date, or a date
within the calendar. -/
def Readable (raw : Option Text) : Prop :=
  ∀ value, raw.map strip = some value → value ≠ [] →
    if isdigit value then value.all Text.isDigit = true ∧ value.length ≤ maxStrDigits
    else ∀ target, parsedate value = some target → target.utcoffset.isSome = true →
      datetimeMin ≤ target.utc ∧ target.utc ≤ datetimeMax

variable {parsedate}

theorem parse_of_readable {raw : Option Text} (h : Readable parsedate raw) (now : Int) :
    parseRetryAfterSeconds parsedate raw now = .ok (asked parsedate raw now) := by
  cases raw with
  | none => rfl
  | some raw =>
      have hvalue := h (strip raw) rfl
      simp only [parseRetryAfterSeconds, asked, Option.bind_some]
      by_cases hempty : (strip raw).isEmpty = true
      · rw [if_pos hempty, if_pos hempty]
      · rw [if_neg hempty, if_neg hempty]
        have hvalue := hvalue fun hnil => hempty (by rw [hnil]; rfl)
        by_cases hdigits : isdigit (strip raw) = true
        · rw [if_pos hdigits] at hvalue ⊢
          rw [if_pos hdigits, int, if_neg (by simp [hvalue.1]), if_neg (by omega)]
          simp [Except.map]
        · rw [if_neg hdigits] at hvalue ⊢
          rw [if_neg hdigits]
          cases hdate : parsedate (strip raw) with
          | none => rfl
          | some target =>
              have hrange := hvalue target hdate
              cases hoffset : target.utcoffset with
              | none => simp [ensureUtc, hoffset, Except.map, ParsedDatetime.utc]
              | some offset =>
                  have hin := hrange (by simp [hoffset])
                  simp only [ensureUtc, hoffset]
                  rw [if_neg (by omega)]
                  rfl

theorem readable_of_parse {raw : Option Text} {now : Int} {retryAfter : Option Int}
    (h : parseRetryAfterSeconds parsedate raw now = .ok retryAfter) : Readable parsedate raw := by
  intro value hraw hne
  rcases Option.map_eq_some_iff.1 hraw with ⟨raw, rfl, rfl⟩
  have hempty : ¬ (strip raw).isEmpty = true := by simpa using hne
  simp only [parseRetryAfterSeconds] at h
  rw [if_neg hempty] at h
  by_cases hdigits : isdigit (strip raw) = true
  · rw [if_pos hdigits, int] at h
    rw [if_pos hdigits]
    split at h
    · cases h
    case isFalse hdecimal =>
      split at h
      · cases h
      case isFalse hlength => exact ⟨by simpa using hdecimal, by omega⟩
  · rw [if_neg hdigits] at h
    rw [if_neg hdigits]
    intro target hdate hoffset
    rcases Option.isSome_iff_exists.1 hoffset with ⟨offset, hoffset⟩
    simp only [hdate, ensureUtc, hoffset] at h
    split at h
    · cases h
    case isFalse hin => omega

/-! ## Storing the cooldown -/

open Upstream (rateRow)
open Process.System (Config)

/-- What the handlers of a 429, and of an OAI 503 that carries the header, make of it. -/
def onRateLimited (d : Deployment) (parsedate : Text → Option ParsedDatetime) (owner : OwnerToken)
    (header : Option Text) (parsedAt statusCode : Int) (errorMessage : Option String) :
    Program Int :=
  match parseRetryAfterSeconds parsedate header parsedAt with
  | .error e => .raise e
  | .ok retryAfter => Limiter.afterRateLimit d owner retryAfter statusCode errorMessage

/-- No exception; the stored cooldown is at least the configured one and the one asked for; and
the owner has given the lease back. -/
def BacksOff (d : Deployment) (owner : OwnerToken) (asked : Option Int) (now : Int)
    (ended : Except Exn Int × Store) : Prop :=
  ∃ cooldownUntil, ended.1 = .ok cooldownUntil ∧
    (rateRow ended.2).cooldownUntil = some cooldownUntil ∧
    now + seconds (max d.settings.cooldownSeconds (asked.getD 0)) ≤ cooldownUntil ∧
    ended.2.leases.ownedBy Limiter.leaseName owner = false

/-- The cooldown the limiter is about to store ends within the calendar. -/
def Fits (d : Deployment) (state : RateState) (asked : Option Int) (now jitter : Int) : Prop :=
  now + roundMicroseconds
    ((Limiter.cooldownSettings d.settings).effectiveCooldownSeconds asked
      (state.consecutiveRateLimitTotal + 1) ((jitter : Rat) / 1000000) * 1000000) ≤ datetimeMax

theorem le_roundMicroseconds {n : Int} {q : Rat} (h : (n : Rat) ≤ q) : n ≤ roundMicroseconds q := by
  have hfloor : n ≤ q.floor := Rat.le_floor_iff.2 h
  simp only [roundMicroseconds]
  split
  · exact hfloor
  · split
    · omega
    · split <;> omega

/-- A cooldown is at least what is configured and what is asked for. -/
theorem le_cooldown (settings : HuldraSettings) (asked : Option Int) (n : Nat) (jitter : Rat) :
    seconds (max settings.cooldownSeconds (asked.getD 0)) ≤
      roundMicroseconds ((Limiter.cooldownSettings settings).effectiveCooldownSeconds asked n
        jitter * 1000000) := by
  have hle := (Limiter.cooldownSettings settings).le_effective asked n jitter
  have hfloor : (settings.cooldownSeconds : Rat) ≤
      (Limiter.cooldownSettings settings).effectiveCooldownSeconds asked n jitter :=
    (le_max_left _ _).trans hle.1
  have hasked : ((asked.getD 0 : Int) : Rat) ≤
      (Limiter.cooldownSettings settings).effectiveCooldownSeconds asked n jitter :=
    (Int.cast_le.2 (le_max_right _ _)).trans hle.2
  refine le_roundMicroseconds ?_
  rw [seconds, Int.cast_mul, Int.cast_max]
  exact mul_le_mul_of_nonneg_right (max_le hfloor hasked) (by decide)

theorem ownedBy_releaseLease (leases : Leases) (name : LeaseName) (owner : OwnerToken) :
    (leases.releaseLease name owner).ownedBy name owner = false := by
  rcases leases.releaseLease_self name owner with ⟨_, hnone⟩ | ⟨hnot, hsame⟩
  · simp [Leases.ownedBy, hnone]
  · rw [Leases.ownedBy, hsame]
    exact hnot

theorem backs_off_of_readable (d : Deployment) {s : Store} (hnamed : Upstream.Named s)
    {parsedate : Text → Option ParsedDatetime} {header : Option Text} {parsedAt : Int}
    (hread : Readable parsedate header) (owner : OwnerToken) (now statusCode : Int)
    (errorMessage : Option String) (input : Input) :
    BacksOff d owner (asked parsedate header parsedAt) now
        ((onRateLimited d parsedate owner header parsedAt statusCode errorMessage).eval
          (fun o => Store.exec o now input) s) ↔
      Fits d (rateRow s) (asked parsedate header parsedAt) now input.jitter := by
  let r : Limiter.RateLimitReport :=
    { owner := owner
      retryAfterSeconds := asked parsedate header parsedAt
      statusCode := statusCode
      errorMessage := errorMessage
      sampledJitter := (input.jitter : Rat) / 1000000
      current := now }
  have heval := Limiter.eval_afterRateLimit d r input s rfl
  have hprogram : onRateLimited d parsedate owner header parsedAt statusCode errorMessage =
      Limiter.afterRateLimit d r.owner r.retryAfterSeconds r.statusCode r.errorMessage := by
    rw [onRateLimited, parse_of_readable hread]
  rw [hprogram, heval]
  by_cases hlate : datetimeMax < r.cooldownUntil (Limiter.cooldownSettings d.settings) (rateRow s)
  · rw [if_pos hlate]
    constructor
    · rintro ⟨cooldownUntil, hended, _⟩
      cases hended
    · exact fun hfits => absurd hlate (Int.not_lt.2 hfits)
  · rw [if_neg hlate]
    refine ⟨fun _ => Int.not_lt.1 hlate, fun _ => ⟨_, rfl, ?_, ?_, ?_⟩⟩
    · have hname := Upstream.name_rateRow hnamed
      change (Option.getD (Function.update s.rates (rateRow s).name _ Limiter.name)
        _).cooldownUntil = _
      rw [hname, Function.update_self]
      rfl
    · exact Int.add_le_add_left (le_cooldown d.settings _ _ _) now
    · exact ownedBy_releaseLease _ _ _

/-- In every state the clients can reach: a rate limit backs off exactly when its header can be
read and the cooldown ends within the calendar. -/
theorem backs_off_iff (d : Deployment) (sched : List (Config.Choice (fleet d)))
    (parsedate : Text → Option ParsedDatetime) (owner : OwnerToken) (header : Option Text)
    (parsedAt now statusCode : Int) (errorMessage : Option String) (input : Input) :
    BacksOff d owner (asked parsedate header parsedAt) now
        ((onRateLimited d parsedate owner header parsedAt statusCode errorMessage).eval
          (fun o => Store.exec o now input) (Config.after (fleet d) sched).state) ↔
      Readable parsedate header ∧
        Fits d (rateRow (Config.after (fleet d) sched).state) (asked parsedate header parsedAt) now
          input.jitter := by
  have hnamed : Upstream.Named (Config.after (fleet d) sched).state :=
    @Config.state_after huldra (fleet d) Upstream.Named (fun _ _ h => nomatch h)
      (fun o t input s h => Upstream.named_of_performed
        (Or.inr ⟨.unexpected, rfl, rfl, Or.inr ⟨input, rfl⟩⟩) h) sched
  by_cases hread : Readable parsedate header
  · rw [and_iff_right hread]
    exact backs_off_of_readable d hnamed hread owner now statusCode errorMessage input
  · -- The exception is raised before the limiter is called.
    refine iff_of_false ?_ fun h => hread h.1
    rintro ⟨cooldownUntil, hended, _⟩
    cases hparse : parseRetryAfterSeconds parsedate header parsedAt with
    | ok retryAfter => exact hread (readable_of_parse hparse)
    | error e =>
        rw [onRateLimited, hparse] at hended
        cases hended

/-- A superscript digit is a digit, and no decimal one. -/
theorem superscript_not_backed_off :
    ¬ ∀ (d : Deployment) (sched : List (Config.Choice (fleet d)))
      (parsedate : Text → Option ParsedDatetime) (owner : OwnerToken) (header : Option Text)
      (parsedAt now statusCode : Int) (errorMessage : Option String) (input : Input),
      BacksOff d owner (asked parsedate header parsedAt) now
        ((onRateLimited d parsedate owner header parsedAt statusCode errorMessage).eval
          (fun o => Store.exec o now input) (Config.after (fleet d) sched).state) := by
  intro h
  rcases h {} [] (fun _ => none) (.worker 0) (some ['²']) 0 0 429 none {} with
    ⟨cooldownUntil, hended, _⟩
  have hparse : parseRetryAfterSeconds (fun _ => none) (some ['²']) 0 =
      .error (.valueError "invalid literal for int() with base 10") := by decide
  rw [onRateLimited, hparse] at hended
  cases hended

end Fetcher
end Huldra
