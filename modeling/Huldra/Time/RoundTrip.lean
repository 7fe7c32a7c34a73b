import Huldra.Time
import Mathlib.Algebra.Order.Ring.Nat

/-!
# RoundTrip — a stored timestamp is read back as the time it was written for

`from_isoformat_or_none` reads with `datetime.fromisoformat`, which takes more than `isoformat`
writes: dates and times with and without separators, weeks, fractions of any length, offsets.
-/

namespace Huldra
namespace Time

open Text Keys
open OaiPmh (Datetime)

/-! ## Reading digits -/

def isAsciiDigit (c : Char) : Bool :=
  '0' ≤ c && c ≤ '9'

/-- So many decimal digits, and what follows them. -/
def digitsFrom (n : Nat) : Nat → Text → Option (Nat × Text)
  | 0, rest => some (n, rest)
  | _ + 1, [] => none
  | width + 1, c :: rest =>
      if isAsciiDigit c then digitsFrom (10 * n + (c.toNat - 48)) width rest else none

def digits (width : Nat) (text : Text) : Option (Nat × Text) :=
  digitsFrom 0 width text

/-- The separator where the first of them was found, and no separator where it was not. -/
def separator (c : Char) (uses : Bool) (rest : Text) : Option Text :=
  match uses, rest with
  | false, rest => some rest
  | true, first :: rest => if first = c then some rest else none
  | true, [] => none

/-! ## Dates -/

def isLeap (year : Int) : Bool :=
  year % 4 = 0 && (year % 100 ≠ 0 || year % 400 = 0)

def daysInMonth (year : Int) (month : Nat) : Nat :=
  match month with
  | 2 => if isLeap year then 29 else 28
  | 4 | 6 | 9 | 11 => 30
  | _ => 31

/-- The days of the months before this one, in a year that is no leap year. -/
def daysBeforeMonth (month : Nat) : Int :=
  [0, 31, 59, 90, 120, 151, 181, 212, 243, 273, 304, 334].getD (month - 1) 0

/-- `_ymd2ord`, counted from 1970. -/
def dayNumber (year : Int) (month : Nat) (day : Int) : Int :=
  365 * (year - 1) + (year - 1) / 4 - (year - 1) / 100 + (year - 1) / 400 +
    daysBeforeMonth month + (if 2 < month ∧ isLeap year = true then 1 else 0) + day - 719163

/-- `date(year, month, day)` -/
def dayOf (year month day : Nat) : Option Int :=
  if 1 ≤ year ∧ (1 ≤ month ∧ month ≤ 12) ∧ 1 ≤ day ∧ day ≤ daysInMonth year month then
    some (dayNumber year month day)
  else none

/-- `_isoweek_to_gregorian`: weekdays are counted from Monday, and 1970 began with a Thursday. -/
def isoWeekDay (year week day : Nat) : Option Int :=
  let firstDay := dayNumber year 1 1
  let firstWeekday := (firstDay + 3) % 7
  let hasWeek53 := firstWeekday = 3 ∨ (firstWeekday = 2 ∧ isLeap year = true)
  if 1 ≤ year ∧ (1 ≤ week ∧ (week ≤ 52 ∨ (week = 53 ∧ hasWeek53))) ∧ 1 ≤ day ∧ day ≤ 7 then
    let firstMonday := firstDay - firstWeekday + (if 3 < firstWeekday then 7 else 0)
    let found := firstMonday + (week - 1) * 7 + (day - 1)
    -- The last week of 9999 ends in the year after it.
    if found ≤ dateMax then some found else none
  else none

/-- `_parse_isoformat_date`: a day, counted from 1970. -/
def parseDate (text : Text) : Option Int := do
  let (year, rest) ← digits 4 text
  let uses := rest.head? = some '-'
  let rest ← separator '-' uses rest
  match rest with
  | 'W' :: rest => do
      let (week, rest) ← digits 2 rest
      if rest = [] then isoWeekDay year week 1
      else do
        let rest ← separator '-' uses rest
        let (day, rest) ← digits 1 rest
        if rest = [] then isoWeekDay year week day else none
  | rest => do
      let (month, rest) ← digits 2 rest
      let rest ← separator '-' uses rest
      let (day, rest) ← digits 2 rest
      if rest = [] then dayOf year month day else none

/-- `_find_isoformat_datetime_separator` -/
def dateLength (text : Text) : Option Nat :=
  if text.length = 7 then some 7
  else if text[4]? = some '-' then
    if text[5]? = some 'W' then
      if text[8]? = some '-' then
        if text.length = 9 then none
        else if text[10]?.any isAsciiDigit then some 8 else some 10
      else some 8
    else some 10
  else if text[4]? = some 'W' then
    let run := 7 + ((text.drop 7).takeWhile isAsciiDigit).length
    if run < 9 then some run else if run % 2 = 0 then some 7 else some 8
  else some 8

/-! ## Times -/

/-- What a clock says, and whether something is left behind it. -/
structure Clock where
  fields : List Nat
  microsecond : Nat := 0
  more : Bool := false
  deriving DecidableEq, Repr

namespace Clock

def after (value : Nat) (clock : Clock) : Clock :=
  { clock with fields := value :: clock.fields }

def hour (clock : Clock) : Nat :=
  clock.fields.getD 0 0

def minute (clock : Clock) : Nat :=
  clock.fields.getD 1 0

def second (clock : Clock) : Nat :=
  clock.fields.getD 2 0

def seconds (clock : Clock) : Int :=
  (clock.hour * 60 + clock.minute) * 60 + clock.second

end Clock

/-- The text goes on: a NUL is taken for its end. -/
def goesOn (rest : Text) : Bool :=
  rest.head?.any (· != '\x00')

/-- The fraction of a second: behind six digits others are skipped. -/
def parseFraction (text : Text) : Option Clock :=
  let width := min 6 text.length
  (digits width text).map fun read =>
    { fields := []
      microsecond := read.1 * 10 ^ (6 - width)
      more := goesOn (read.2.dropWhile isAsciiDigit) }

/-- The loop of `parse_hh_mm_ss_ff`: so many parts are left, and `uses` says if a colon stands
between them, once the first is read. -/
def parseParts : Nat → Option Bool → Text → Option Clock
  | 0, _, text => parseFraction text
  | n + 1, uses, text =>
      match digits 2 text with
      | none => none
      | some (value, []) => some { fields := [value] }
      -- A single character is not looked at.
      | some (value, [c]) => some { fields := [value], more := goesOn [c] }
      | some (value, c :: rest) =>
          let uses := uses.getD (c = ':')
          if uses = true ∧ c = ':' then (parseParts n (some uses) rest).map (·.after value)
          else if c = '.' ∨ c = ',' then (parseFraction rest).map (·.after value)
          else if uses then none
          else (parseParts n (some uses) (c :: rest)).map (·.after value)

/-- `parse_hh_mm_ss_ff` -/
def parseClock (text : Text) : Option Clock :=
  parseParts 3 none text

/-- The offset of a time, from its sign on.  Where it has no whole seconds, it is UTC. -/
def parseOffset (text : Text) : Option Int :=
  match text with
  | [] => none
  | 'Z' :: rest => if goesOn rest then none else some 0
  | sign :: rest => do
      let clock ← parseClock rest
      let size := if clock.seconds = 0 then 0 else clock.seconds * 1000000 + clock.microsecond
      if clock.more = false ∧ size < 86400000000 then
        some (if sign = '-' then -size else size)
      else none

def isZone (c : Char) : Bool :=
  c == '+' || c == '-' || c == 'Z'

/-- `parse_isoformat_time`: the microseconds of the day, and the offset. -/
def parseTime (text : Text) : Option (Int × Option Int) := do
  let (clockText, zoneText) := splitAtFirst isZone text
  let clock ← parseClock clockText
  if clock.hour < 24 ∧ clock.minute < 60 ∧ clock.second < 60 then
    let microseconds := clock.seconds * 1000000 + clock.microsecond
    if zoneText = [] then if clock.more then none else some (microseconds, none)
    else do
      let offset ← parseOffset zoneText
      some (microseconds, some offset)
  else none

/-- The text, each character as often as UTF-8 has bytes for it. -/
def byBytes (text : Text) : Text :=
  text.flatMap fun c => List.replicate c.utf8Size c

/-- `datetime.fromisoformat`, or its `ValueError`. -/
def fromisoformat (text : Text) : Option Datetime :=
  let bytes := byBytes text
  if text.length < 7 then none
  else do
    let length ← dateLength bytes
    let day ← parseDate (bytes.take length)
    match bytes.drop length with
    | [] => some { shown := day * 86400000000, offset := none }
    | separator :: rest => do
        let (microseconds, offset) ← parseTime ((separator :: rest).drop separator.utf8Size)
        some { shown := day * 86400000000 + microseconds, offset := offset }

/-! ## The functions of the module -/

/-- `parse_datetime` -/
def parseDatetime (value : String) : Except Exn Datetime :=
  let raw := strip value.toList
  let raw := if "Z".toList.isSuffixOf raw then raw.dropLast ++ "+00:00".toList else raw
  match fromisoformat raw with
  | none => .error (.valueError "Invalid isoformat string")
  | some value => ensureUtc value

/-- `from_isoformat_or_none` -/
def fromIsoformatOrNone (value : Option String) : Except Exn (Option Datetime) :=
  match value with
  | none => .ok none
  | some value => if value = "" then .ok none else (parseDatetime value).map some

/-! ## What is written is read -/

theorem digitChar_spec {d : Nat} (h : d < 10) :
    isAsciiDigit d.digitChar = true ∧ d.digitChar.toNat - 48 = d := by
  have hall : ∀ d : Fin 10, isAsciiDigit d.val.digitChar = true ∧
      d.val.digitChar.toNat - 48 = d.val := by decide
  exact hall ⟨d, h⟩

theorem digitsFrom_add (n w v : Nat) (text : Text) :
    digitsFrom n (w + v) text =
      (digitsFrom n w text).bind fun read => digitsFrom read.1 v read.2 := by
  induction w generalizing n text with
  | zero => simp [digitsFrom]
  | succ w ih =>
      rw [Nat.succ_add]
      cases text with
      | nil => rfl
      | cons c rest =>
          simp only [digitsFrom]
          split
          · exact ih _ _
          · rfl

theorem digitsFrom_fixedDigits {width : Nat} (m : Nat) {n : Nat} (h : n < 10 ^ width)
    (rest : Text) :
    digitsFrom m width (fixedDigits width n ++ rest) = some (m * 10 ^ width + n, rest) := by
  induction width generalizing n rest with
  | zero =>
      have hn : n = 0 := by simpa using h
      simp [digitsFrom, fixedDigits, hn]
  | succ width ih =>
      have hdiv : n / 10 < 10 ^ width := by
        rw [Nat.pow_succ] at h
        omega
      have hdigit := @digitChar_spec (n % 10) (by omega)
      rw [digitsFrom_add, fixedDigits, List.append_assoc, ih hdiv]
      simp only [Option.bind_some, List.singleton_append, digitsFrom, hdigit.1, if_true,
        Option.some.injEq, Prod.mk.injEq, and_true, hdigit.2]
      rw [Nat.pow_succ, ← Nat.mul_assoc]
      omega

theorem digits_fixedDigits {width n : Nat} (h : n < 10 ^ width) (rest : Text) :
    digits width (fixedDigits width n ++ rest) = some (n, rest) := by
  rw [digits, digitsFrom_fixedDigits 0 h]
  simp

/-! ### The day -/

theorem isLeap_eq (year : Int) :
    (if isLeap year = true then 1 else 0 : Int) =
      year / 4 - (year - 1) / 4 - (year / 100 - (year - 1) / 100) +
        (year / 400 - (year - 1) / 400) := by
  by_cases h : isLeap year = true
  · rw [if_pos h]
    simp only [isLeap, Bool.and_eq_true, Bool.or_eq_true, decide_eq_true_eq] at h
    omega
  · rw [if_neg h]
    simp only [isLeap, Bool.and_eq_true, Bool.or_eq_true, decide_eq_true_eq] at h
    omega

/-- A leap year has one more day, and the following year begins so much later. -/
theorem yearStart_succ (year : Int) :
    yearStart (year + 1) =
      yearStart year + 365 + (if isLeap (year + 1) = true then 1 else 0) := by
  have hleap := isLeap_eq (year + 1)
  rw [Int.add_sub_cancel] at hleap
  rw [hleap, yearStart, yearStart]
  generalize (year + 1) / 4 = a
  generalize (year + 1) / 100 = b
  generalize (year + 1) / 400 = c
  generalize year / 4 = a'
  generalize year / 100 = b'
  generalize year / 400 = c'
  omega

/-- The years of a day number begin with January, ten months into the year before. -/
theorem dayNumber_eq (year : Int) (month : Nat) (day : Int) :
    dayNumber (year + 1) month day =
      yearStart year + daysBeforeMonth month +
        (if 2 < month ∧ isLeap (year + 1) = true then 1 else 0) + day - 719163 := by
  rw [dayNumber, Int.add_sub_cancel, yearStart]

/-- From March on, the months of a year are those that `civilDate` counts. -/
theorem month_from_march {month : Nat} (h : month < 10) (year : Int) :
    daysBeforeMonth (month + 3) = monthStart month + 59 ∧
      (daysInMonth year (month + 3) : Int) = monthStart (month + 1) - monthStart month := by
  have hcases : month = 0 ∨ month = 1 ∨ month = 2 ∨ month = 3 ∨ month = 4 ∨ month = 5 ∨
      month = 6 ∨ month = 7 ∨ month = 8 ∨ month = 9 := by omega
  rcases hcases with rfl | rfl | rfl | rfl | rfl | rfl | rfl | rfl | rfl | rfl
  all_goals exact ⟨rfl, rfl⟩

theorem dayOf_eq {year day days : Int} {month : Nat} (hyear : 1 ≤ year)
    (hmonth : 1 ≤ month ∧ month ≤ 12) (hday : 1 ≤ day ∧ day ≤ daysInMonth year month)
    (hdays : dayNumber year month day = days) :
    dayOf year.toNat month day.toNat = some days := by
  have hyear' : (year.toNat : Int) = year := Int.toNat_of_nonneg (by omega)
  have hday' : (day.toNat : Int) = day := Int.toNat_of_nonneg (by omega)
  rw [dayOf, hyear', hday', hdays, if_pos]
  exact ⟨by omega, hmonth, by omega, by omega⟩

/-- The date of a day is a date, and its number is that of the day. -/
theorem dayOf_civilDate {days : Int} (h : 1 ≤ (civilDate days).1) :
    dayOf (civilDate days).1.toNat (civilDate days).2.1.toNat (civilDate days).2.2.toNat =
      some days := by
  rcases placed_marchDate days with ⟨doy, hp⟩
  rcases hp with ⟨hyear, hyearEnd, hmonth, hmonthEnd, _, hm₀, hm₁, hd₀, hd₁⟩
  rw [civilDate_eq] at h ⊢
  generalize marchDate days = date at *
  rcases date with ⟨year, month, day⟩
  dsimp only at *
  rcases Int.eq_ofNat_of_zero_le hm₀ with ⟨m, rfl⟩
  by_cases hspring : m < 10
  · have hmarch := month_from_march hspring year
    have hstart := yearStart_succ (year - 1)
    have hnumber := dayNumber_eq (year - 1) (m + 3) day
    rw [Int.sub_add_cancel] at hstart hnumber
    have hnext : ((m : Int) + 3).toNat = m + 3 := by omega
    have hlow : (m : Int) < 10 := by omega
    have hspring' : ¬(m : Int) + 3 ≤ 2 := by omega
    rw [if_pos hlow, if_neg hspring', hnext]
    rw [if_pos hlow, if_neg hspring'] at h
    refine dayOf_eq h (by omega) ⟨hd₀, by omega⟩ ?_
    by_cases hleap : isLeap year = true
    · rw [if_pos hleap] at hstart
      rw [if_pos ⟨by omega, hleap⟩] at hnumber
      omega
    · rw [if_neg hleap] at hstart
      rw [if_neg fun hand => hleap hand.2] at hnumber
      omega
  -- January and February, which are of the next year.
  · have hstart := yearStart_succ year
    have hnumber := dayNumber_eq year (m - 9) day
    have hprevious : ((m : Int) - 9).toNat = m - 9 := by omega
    have hhigh : ¬(m : Int) < 10 := by omega
    have hwinter : (m : Int) - 9 ≤ 2 := by omega
    rw [if_neg hhigh, if_pos hwinter, hprevious]
    rw [if_neg hhigh, if_pos hwinter] at h
    rw [if_neg (by omega)] at hnumber
    rcases (by omega : m = 10 ∨ m = 11) with rfl | rfl
    · have hbefore : daysBeforeMonth (10 - 9) = 0 := rfl
      simp only [monthStart] at hmonth
      refine dayOf_eq h (by omega) ⟨hd₀, hd₁⟩ (by omega)
    · have hbefore : daysBeforeMonth (11 - 9) = 31 := rfl
      have hlength : (daysInMonth (year + 1) (11 - 9) : Int) =
          28 + (if isLeap (year + 1) = true then 1 else 0) := by
        change ((if isLeap (year + 1) = true then 29 else 28 : Nat) : Int) = _
        split <;> rfl
      simp only [monthStart] at hmonth
      exact dayOf_eq h (by omega) ⟨hd₀, by omega⟩ (by omega)

/-! ### The text -/

theorem isAsciiDigit_of_mem {width n : Nat} {c : Char} (h : c ∈ fixedDigits width n) :
    isAsciiDigit c = true := by
  induction width generalizing n with
  | zero => simp [fixedDigits] at h
  | succ width ih =>
      rw [fixedDigits, List.mem_append, List.mem_singleton] at h
      rcases h with h | rfl
      · exact ih h
      · exact (digitChar_spec (by omega)).1

/-- A digit ends no part of a timestamp, and is a single byte. -/
theorem of_isAsciiDigit {c : Char} (h : isAsciiDigit c = true) :
    c ≠ 'W' ∧ isZone c = false ∧ isSpace c = false ∧ c.utf8Size = 1 := by
  simp only [isAsciiDigit, Bool.and_eq_true, decide_eq_true_eq, Char.le_def,
    UInt32.le_iff_toNat_le] at h
  have hbounds : 48 ≤ c.toNat ∧ c.toNat ≤ 57 := h
  refine ⟨?_, ?_, ?_, ?_⟩
  · rintro rfl
    exact absurd hbounds.2 (by decide)
  · rw [Bool.eq_false_iff]
    intro hzone
    simp only [isZone, Bool.or_eq_true, beq_iff_eq] at hzone
    rcases hzone with (rfl | rfl) | rfl
    · exact absurd hbounds.1 (by decide)
    · exact absurd hbounds.1 (by decide)
    · exact absurd hbounds.2 (by decide)
  · rw [Bool.eq_false_iff]
    intro hspace
    simp only [isSpace, Bool.or_eq_true, Bool.and_eq_true, decide_eq_true_eq, beq_iff_eq] at hspace
    omega
  · rw [Char.utf8Size, if_pos]
    rw [UInt32.le_iff_toNat_le]
    exact Nat.le_trans hbounds.2 (by decide)

def dateText (year month day : Nat) : Text :=
  fixedDigits 4 year ++ '-' :: (fixedDigits 2 month ++ '-' :: fixedDigits 2 day)

theorem parseDate_dateText {year month day : Nat} (hyear : year < 10 ^ 4) (hmonth : month < 10 ^ 2)
    (hday : day < 10 ^ 2) : parseDate (dateText year month day) = dayOf year month day := by
  have hfirst : (month / 10 % 10).digitChar ≠ 'W' :=
    (of_isAsciiDigit (digitChar_spec (by omega)).1).1
  have hdigits := @digits_fixedDigits 2 day hday []
  rw [List.append_nil] at hdigits
  rw [parseDate, dateText, digits_fixedDigits hyear]
  simp only [Option.bind_eq_bind, Option.bind_some, List.head?_cons, decide_true, separator,
    if_true]
  split
  · rename_i rest hrest
    exact absurd (List.cons.inj hrest).1 hfirst
  · rw [digits_fixedDigits hmonth]
    simp only [Option.bind_some, if_true, hdigits]

/-- The separator behind four digits that no week follows: the date takes ten characters. -/
theorem dateLength_dateText {year month : Nat} (day : Nat) {c : Char} (rest : Text) :
    dateLength (dateText year month day ++ c :: rest) = some 10 := by
  have hfirst : (month / 10 % 10).digitChar ≠ 'W' :=
    (of_isAsciiDigit (digitChar_spec (by omega)).1).1
  have hlength : (dateText year month day ++ c :: rest).length ≠ 7 := by
    simp [dateText, length_fixedDigits]
    omega
  have hdash : (dateText year month day ++ c :: rest)[4]? = some '-' := by
    simp [dateText, fixedDigits]
  have hweek : (dateText year month day ++ c :: rest)[5]? =
      some (month / 10 % 10).digitChar := by
    simp [dateText, fixedDigits]
  rw [dateLength, if_neg hlength, if_pos hdash, hweek]
  exact if_neg fun hw => hfirst (Option.some.inj hw)

/-- Six digits are read as the microseconds they are. -/
theorem parseFraction_fixedDigits {microseconds : Nat} (h : microseconds < 10 ^ 6) :
    parseFraction (fixedDigits 6 microseconds) =
      some { fields := [], microsecond := microseconds } := by
  have hread := @digits_fixedDigits 6 microseconds h []
  rw [List.append_nil] at hread
  rw [parseFraction, length_fixedDigits, Nat.min_self, hread]
  simp [goesOn]

def clockText (hour minute second microseconds : Nat) : Text :=
  fixedDigits 2 hour ++ ':' :: (fixedDigits 2 minute ++ ':' :: (fixedDigits 2 second ++
    fractionText microseconds))

/-- The last part of a clock, with the fraction behind it. -/
theorem parseParts_second {second microseconds : Nat} (hsecond : second < 10 ^ 2)
    (h : microseconds < 10 ^ 6) :
    parseParts 1 (some true) (fixedDigits 2 second ++ fractionText microseconds) =
      some { fields := [second], microsecond := microseconds } := by
  rw [parseParts, digits_fixedDigits hsecond]
  by_cases hzero : microseconds = 0
  · rw [fractionText, if_pos hzero, hzero]
  · rw [fractionText, if_neg hzero]
    have hsplit : fixedDigits 6 microseconds =
        (microseconds / 10 / 10 / 10 / 10 / 10 % 10).digitChar ::
          (fixedDigits 6 microseconds).tail := rfl
    rw [hsplit]
    dsimp only
    rw [← hsplit, parseFraction_fixedDigits h]
    rfl

/-- A part with a colon behind it, which the first of them decides on. -/
theorem parseParts_colon {n value : Nat} {uses : Option Bool} (huses : uses.getD true = true)
    (hvalue : value < 10 ^ 2) {c : Char} (rest : Text) :
    parseParts (n + 1) uses (fixedDigits 2 value ++ ':' :: c :: rest) =
      (parseParts n (some true) (c :: rest)).map (·.after value) := by
  rw [parseParts, digits_fixedDigits hvalue]
  simp [huses]

theorem parseClock_clockText {hour minute second microseconds : Nat} (hhour : hour < 10 ^ 2)
    (hminute : minute < 10 ^ 2) (hsecond : second < 10 ^ 2) (h : microseconds < 10 ^ 6) :
    parseClock (clockText hour minute second microseconds) =
      some { fields := [hour, minute, second], microsecond := microseconds } := by
  have hlast := parseParts_second hsecond h
  have hmiddle := @parseParts_colon 1 minute (some true) rfl hminute
  have hfirst := @parseParts_colon 2 hour none rfl hhour
  simp only [fixedDigits, List.nil_append, List.cons_append] at hlast hmiddle hfirst
  simp only [parseClock, clockText, fixedDigits, List.nil_append, List.cons_append]
  rw [hfirst, hmiddle, hlast]
  rfl

/-- No sign of an offset stands in a clock. -/
theorem isZone_clockText {hour minute second microseconds : Nat} {c : Char}
    (h : c ∈ clockText hour minute second microseconds) : isZone c = false := by
  simp only [clockText, List.mem_append, List.mem_cons] at h
  rcases h with h | rfl | h | rfl | h | h
  · exact (of_isAsciiDigit (isAsciiDigit_of_mem h)).2.1
  · rfl
  · exact (of_isAsciiDigit (isAsciiDigit_of_mem h)).2.1
  · rfl
  · exact (of_isAsciiDigit (isAsciiDigit_of_mem h)).2.1
  · rw [fractionText] at h
    split at h
    · simp at h
    · rcases List.mem_cons.1 h with rfl | h
      · rfl
      · exact (of_isAsciiDigit (isAsciiDigit_of_mem h)).2.1

theorem splitAtFirst_append {p : Char → Bool} {s : Text} (h : ∀ c ∈ s, p c = false) {c : Char}
    (hc : p c = true) (rest : Text) : splitAtFirst p (s ++ c :: rest) = (s, c :: rest) := by
  have hs : ∀ c ∈ s, (fun c => !p c) c = true := by
    intro c hmem
    simp [h c hmem]
  rw [splitAtFirst, List.takeWhile_append_of_pos hs, List.dropWhile_append_of_pos hs]
  simp [hc]

/-- The microseconds of a clock. -/
def clockMicroseconds (hour minute second microseconds : Nat) : Int :=
  (((hour : Int) * 60 + minute) * 60 + second) * 1000000 + microseconds

theorem parseTime_clockText {hour minute second microseconds : Nat} (hhour : hour < 24)
    (hminute : minute < 60) (hsecond : second < 60) (h : microseconds < 10 ^ 6) :
    parseTime (clockText hour minute second microseconds ++ "+00:00".toList) =
      some (clockMicroseconds hour minute second microseconds, some 0) := by
  have hsplit := @splitAtFirst_append isZone (clockText hour minute second microseconds)
    (fun c hc => isZone_clockText hc) '+' rfl "00:00".toList
  have hzone : parseOffset ('+' :: "00:00".toList) = some 0 := by decide
  change parseTime (clockText hour minute second microseconds ++ '+' :: "00:00".toList) = _
  rw [parseTime, hsplit]
  simp only [parseClock_clockText (by omega : hour < 10 ^ 2) (by omega : minute < 10 ^ 2)
    (by omega : second < 10 ^ 2) h, Option.bind_eq_bind, Option.bind_some]
  rw [if_pos ⟨hhour, hminute, hsecond⟩, if_neg (List.cons_ne_nil _ _), hzone]
  rfl

theorem byBytes_eq {text : Text} (h : ∀ c ∈ text, c.utf8Size = 1) : byBytes text = text := by
  induction text with
  | nil => rfl
  | cons c rest ih =>
      rw [byBytes, List.flatMap_cons, h c List.mem_cons_self, ← byBytes,
        ih fun c hc => h c (List.mem_cons_of_mem _ hc)]
      rfl

/-- What `isoformat` writes is ASCII. -/
theorem utf8Size_text {year month day hour minute second microseconds : Nat} {c : Char}
    (h : c ∈ dateText year month day ++ 'T' ::
      (clockText hour minute second microseconds ++ "+00:00".toList)) : c.utf8Size = 1 := by
  have hdigits : ∀ {width n}, c ∈ fixedDigits width n → c.utf8Size = 1 := fun hc =>
    (of_isAsciiDigit (isAsciiDigit_of_mem hc)).2.2.2
  have hfraction : c ∈ fractionText microseconds → c.utf8Size = 1 := by
    intro hc
    rw [fractionText] at hc
    split at hc
    · cases hc
    · rcases List.mem_cons.1 hc with rfl | hc
      · rfl
      · exact hdigits hc
  have hzone : c ∈ "+00:00".toList → c.utf8Size = 1 := by
    intro hc
    have hall : ("+00:00".toList.all fun c => decide (c.utf8Size = 1)) = true := by rfl
    exact of_decide_eq_true (List.all_eq_true.1 hall c hc)
  simp only [dateText, clockText, List.mem_append, List.mem_cons] at h
  rcases h with (h | rfl | h | rfl | h) | rfl | (h | rfl | h | rfl | h | h) | h
  all_goals first | exact hdigits h | rfl | exact hfraction h | exact hzone h

theorem fromisoformat_append {year month day hour minute second microseconds : Nat} {days : Int}
    (hdate : year < 10 ^ 4 ∧ month < 10 ^ 2 ∧ day < 10 ^ 2)
    (hdays : dayOf year month day = some days) (hclock : hour < 24 ∧ minute < 60 ∧ second < 60)
    (h : microseconds < 10 ^ 6) :
    fromisoformat (dateText year month day ++ 'T' ::
        (clockText hour minute second microseconds ++ "+00:00".toList)) =
      some { shown := days * 86400000000 + clockMicroseconds hour minute second microseconds
             offset := some 0 } := by
  have hten : (dateText year month day).length = 10 := by
    simp [dateText, length_fixedDigits]
  have hlength : ¬(dateText year month day ++ 'T' ::
      (clockText hour minute second microseconds ++ "+00:00".toList)).length < 7 := by
    rw [List.length_append]
    omega
  have hdrop : (dateText year month day ++ 'T' ::
      (clockText hour minute second microseconds ++ "+00:00".toList)).drop 10 =
        'T' :: (clockText hour minute second microseconds ++ "+00:00".toList) := by
    rw [← hten, List.drop_left]
  have htime : ('T' :: (clockText hour minute second microseconds ++ "+00:00".toList)).drop
      'T'.utf8Size = clockText hour minute second microseconds ++ "+00:00".toList := rfl
  rw [fromisoformat, if_neg hlength, byBytes_eq fun c hc => utf8Size_text hc, dateLength_dateText]
  simp only [Option.bind_eq_bind, Option.bind_some]
  rw [hdrop, ← hten, List.take_left, parseDate_dateText hdate.1 hdate.2.1 hdate.2.2, hdays]
  simp only [Option.bind_some, htime]
  rw [parseTime_clockText hclock.1 hclock.2.1 hclock.2.2 h]
  rfl

/-- The text that `isoformat` writes, as it is read. -/
theorem isoformat_parts (value : UtcDatetime) :
    ∃ year month day hour minute second microseconds days,
      (isoformat value.toDatetime).toList = dateText year month day ++ 'T' ::
        (clockText hour minute second microseconds ++ "+00:00".toList) ∧
      (year < 10 ^ 4 ∧ month < 10 ^ 2 ∧ day < 10 ^ 2) ∧ dayOf year month day = some days ∧
      (hour < 24 ∧ minute < 60 ∧ second < 60) ∧ microseconds < 10 ^ 6 ∧
      days * 86400000000 + clockMicroseconds hour minute second microseconds =
        value.shown := by
  have hyears := value.second_inYears
  have hyear := @year_bounds (value.shown / 1000000 / 86400) (by
    simp only [InYears, dateMin, dateMax] at *
    omega)
  rcases civilDate_months (value.shown / 1000000 / 86400) with ⟨_, _, hmonth, _, hday, _⟩
  have hdays := dayOf_civilDate hyear.1
  refine ⟨_, _, _, (value.shown / 1000000 % 86400 / 3600).toNat,
    (value.shown / 1000000 % 86400 / 60 % 60).toNat, (value.shown / 1000000 % 60).toNat,
    (value.shown % 1000000).toNat, _, ?_, ⟨by omega, by omega, by omega⟩, hdays,
    ⟨by omega, by omega, by omega⟩, by omega, ?_⟩
  · rw [isoformat_toList]
    simp [secondText, fieldsText, separators, fieldsOf, yearOf, dateText, clockText]
  · simp only [clockMicroseconds]
    omega

theorem strip_of_ends {first last : Char} {text : Text} (hfirst : isSpace first = false)
    (hlast : isSpace last = false) :
    strip (first :: (text ++ [last])) = first :: (text ++ [last]) := by
  have hleft : lstrip (first :: (text ++ [last])) = first :: (text ++ [last]) := by
    simp [lstrip, hfirst]
  rw [strip, hleft, rstrip]
  simp [hlast]

/-- A timestamp begins with a digit and ends with one. -/
theorem isoformat_ends (value : UtcDatetime) :
    ∃ c text, (isoformat value.toDatetime).toList = c :: (text ++ ['0']) ∧
      isAsciiDigit c = true := by
  rcases isoformat_parts value with
    ⟨year, month, day, hour, minute, second, microseconds, _, htext, _⟩
  refine ⟨(year / 10 / 10 / 10 % 10).digitChar, (dateText year month day).tail ++ 'T' ::
    (clockText hour minute second microseconds ++ "+00:0".toList), ?_,
    (digitChar_spec (by omega)).1⟩
  rw [htext]
  simp [dateText, fixedDigits]

/-- Nothing is stripped from a timestamp, and it has no `Z` to be replaced. -/
theorem parseDatetime_isoformat (value : UtcDatetime) :
    parseDatetime (isoformat value.toDatetime) = .ok value.toDatetime := by
  rcases isoformat_parts value with
    ⟨_, _, _, _, _, _, _, _, htext, hdate, hdays, hclock, h, hshown⟩
  have hread := fromisoformat_append hdate hdays hclock h
  rw [← htext, hshown] at hread
  rcases isoformat_ends value with ⟨c, text, hends, hc⟩
  have hstrip : strip (isoformat value.toDatetime).toList =
      (isoformat value.toDatetime).toList := by
    rw [hends]
    exact strip_of_ends (of_isAsciiDigit hc).2.2.1 rfl
  have hutc : ¬"Z".toList.isSuffixOf (isoformat value.toDatetime).toList = true := by
    rw [hends, List.isSuffixOf_iff_suffix]
    rintro ⟨before, hbefore⟩
    have hlast := congrArg List.getLast? hbefore
    rw [← List.cons_append, List.getLast?_append, List.getLast?_append] at hlast
    change some 'Z' = some '0' at hlast
    cases hlast
  rw [parseDatetime, hstrip, if_neg hutc, hread]
  exact value.ensureUtc_eq

theorem fromIsoformatOrNone_isoformat (value : UtcDatetime) :
    fromIsoformatOrNone (some (isoformat value.toDatetime)) = .ok (some value.toDatetime) := by
  have hne : isoformat value.toDatetime ≠ "" := by
    intro hempty
    rcases isoformat_ends value with ⟨c, text, hends, _⟩
    rw [hempty] at hends
    cases hends
  rw [fromIsoformatOrNone, if_neg hne, parseDatetime_isoformat]
  rfl

/-! ## The order of what is stored -/

/-- Whatever compares timestamps as texts, with `<`, `<=` or `=`, compares the times. -/
theorem isoformat_inj (a b : UtcDatetime) :
    isoformat a.toDatetime = isoformat b.toDatetime ↔ a.shown = b.shown := by
  constructor
  · intro h
    have hback := fromIsoformatOrNone_isoformat a
    rw [h, fromIsoformatOrNone_isoformat b] at hback
    exact (congrArg Datetime.shown (Option.some.inj (Except.ok.inj hback))).symm
  · intro h
    simp only [UtcDatetime.toDatetime, h]

/-- Timestamps are written in the order of the times, and read back as them. -/
theorem stored_timestamps_embed (a b : UtcDatetime) :
    ∃ s t, isoformatOrNone (some a.toDatetime) = .ok (some s) ∧
      isoformatOrNone (some b.toDatetime) = .ok (some t) ∧
      (a.shown < b.shown ↔ s < t) ∧ (a.shown ≤ b.shown ↔ s ≤ t) ∧ (a.shown = b.shown ↔ s = t) ∧
      fromIsoformatOrNone (some s) = .ok (some a.toDatetime) := by
  refine ⟨_, _, a.isoformatOrNone_eq, b.isoformatOrNone_eq, (isoformat_lt_iff a b).symm, ?_,
    (isoformat_inj a b).symm, fromIsoformatOrNone_isoformat a⟩
  constructor
  · intro h hlt
    exact absurd ((isoformat_lt_iff b a).1 hlt) (Int.not_lt.2 h)
  · intro h
    exact Int.not_lt.1 fun hlt => h ((isoformat_lt_iff b a).2 hlt)

end Time
end Huldra
