import Huldra.Requests
import Mathlib.Algebra.Order.Ring.Nat

/-!
# Minutes — the text of a minute is in the order of time

The server compares the bounds of a date filter with submission times; both are the twelve digits
of `%Y%m%d%H%M`.  From the years 1 to 9999 every field has its full width, so the texts of two
minutes are ordered as the minutes are.
-/

namespace Huldra
namespace Keys

/-! ## Digits of a fixed width -/

/-- The last `width` decimal digits of a number. -/
def fixedDigits : Nat → Nat → List Char
  | 0, _ => []
  | width + 1, n => fixedDigits width (n / 10) ++ [(n % 10).digitChar]

theorem length_fixedDigits (width n : Nat) : (fixedDigits width n).length = width := by
  induction width generalizing n with
  | zero => rfl
  | succ width ih => simp [fixedDigits, ih]

theorem fixedDigits_zero (width : Nat) : fixedDigits width 0 = List.replicate width '0' := by
  induction width with
  | zero => rfl
  | succ width ih =>
      rw [fixedDigits, Nat.zero_div, ih, List.replicate_succ']
      rfl

/-- A number that fits is written with zeros in front of its digits. -/
theorem padded_digits {width n : Nat} (hwidth : 0 < width) (hn : n < 10 ^ width) :
    List.replicate (width - (Nat.toDigits 10 n).length) '0' ++ Nat.toDigits 10 n =
      fixedDigits width n := by
  induction width generalizing n with
  | zero => omega
  | succ width ih =>
      by_cases hsmall : n < 10
      · have hdiv : n / 10 = 0 := by omega
        have hmod : n % 10 = n := by omega
        rw [Nat.toDigits_of_lt_base hsmall, fixedDigits, hdiv, hmod, fixedDigits_zero]
        simp
      · have hlarger : 0 < width := by
          rcases Nat.eq_zero_or_pos width with rfl | hpos
          · simp at hn
            omega
          · exact hpos
        have hdiv : n / 10 < 10 ^ width := by
          rw [Nat.pow_succ] at hn
          omega
        rw [Nat.toDigits_of_base_le (by omega) (by omega), fixedDigits, ← ih hlarger hdiv]
        simp

theorem digitChar_lt {a b : Nat} (h : a < b) (hb : b < 10) : a.digitChar < b.digitChar := by
  have hall : ∀ b : Fin 10, ∀ a : Fin 10, a < b → a.val.digitChar < b.val.digitChar := by decide
  exact hall ⟨b, hb⟩ ⟨a, by omega⟩ h

/-- Of two texts of one length the first difference decides, whatever follows them. -/
theorem append_lt_append {xs ys us vs : List Char} (hlength : xs.length = ys.length)
    (h : xs < ys) : xs ++ us < ys ++ vs := by
  induction xs generalizing ys with
  | nil =>
      cases ys with
      | nil => simp at h
      | cons y ys => simp at hlength
  | cons x xs ih =>
      cases ys with
      | nil => simp at hlength
      | cons y ys =>
          rw [List.cons_append, List.cons_append, List.cons_lt_cons_iff]
          rcases List.cons_lt_cons_iff.1 h with hhead | ⟨hhead, htail⟩
          · exact Or.inl hhead
          · exact Or.inr ⟨hhead, ih (by simpa using hlength) htail⟩

/-- Of two numbers that fit, the smaller one has the smaller text. -/
theorem fixedDigits_lt {width a b : Nat} (h : a < b) (hb : b < 10 ^ width) :
    fixedDigits width a < fixedDigits width b := by
  induction width generalizing a b with
  | zero => simp at hb; omega
  | succ width ih =>
      have hdiv : b / 10 < 10 ^ width := by
        rw [Nat.pow_succ] at hb
        omega
      rw [fixedDigits, fixedDigits]
      by_cases hsame : a / 10 = b / 10
      · rw [hsame]
        refine List.append_left_lt (List.cons_lt_cons_iff.2 (Or.inl ?_))
        exact digitChar_lt (by omega) (by omega)
      · refine append_lt_append ?_ (ih (by omega) hdiv)
        rw [length_fixedDigits, length_fixedDigits]

/-- Two numbers side by side are one number. -/
theorem fixedDigits_append (width v a b : Nat) (hb : b < 10 ^ v) :
    fixedDigits width a ++ fixedDigits v b = fixedDigits (width + v) (a * 10 ^ v + b) := by
  induction v generalizing b with
  | zero =>
      have hb : b = 0 := by simpa using hb
      simp [fixedDigits, hb]
  | succ v ih =>
      have hdiv : (a * 10 ^ (v + 1) + b) / 10 = a * 10 ^ v + b / 10 := by
        rw [Nat.pow_succ, ← Nat.mul_assoc]
        omega
      have hmod : (a * 10 ^ (v + 1) + b) % 10 = b % 10 := by
        rw [Nat.pow_succ, ← Nat.mul_assoc]
        omega
      have hsmaller : b / 10 < 10 ^ v := by
        rw [Nat.pow_succ] at hb
        omega
      rw [fixedDigits, ← List.append_assoc, ih (b / 10) hsmaller, ← Nat.add_assoc, fixedDigits,
        hdiv, hmod]

theorem padded_eq {width : Nat} {n : Int} (hwidth : 0 < width) (hpos : 0 ≤ n)
    (hn : n < 10 ^ width) : (padded width n).toList = fixedDigits width n.toNat := by
  rcases Int.eq_ofNat_of_zero_le hpos with ⟨m, rfl⟩
  have hm : m < 10 ^ width := by exact_mod_cast hn
  have hdigits : (toString (m : Int)).toList = Nat.toDigits 10 m := by
    change (Nat.repr m).toList = _
    rw [Nat.repr_eq_ofList_toDigits, String.toList_ofList]
  rw [padded, hdigits, String.toList_ofList]
  exact padded_digits hwidth hm

/-! ## The calendar -/

/-- The day a year begins with, years running from March. -/
def yearStart (y : Int) : Int :=
  365 * y + y / 4 - y / 100 + y / 400

theorem yearStart_mono {y y' : Int} (h : y ≤ y') : yearStart y ≤ yearStart y' := by
  simp only [yearStart]
  omega

/-- A day of an era of 400 years: the century, the four years, the year and the day of the year.
Only the last year of a leap cycle has a day 365. -/
theorem exists_yearOfEra {doe : Int} (h₀ : 0 ≤ doe) (h₁ : doe < 146097) :
    ∃ c q t r : Int, (0 ≤ c ∧ c ≤ 3) ∧ (0 ≤ q ∧ q ≤ 24) ∧ (0 ≤ t ∧ t ≤ 3) ∧ (0 ≤ r ∧ r ≤ 365) ∧
      (r = 365 → t = 3 ∧ (q < 24 ∨ c = 3)) ∧ doe = 36524 * c + 1461 * q + 365 * t + r := by
  let c := min (doe / 36524) 3
  let q := min ((doe - 36524 * c) / 1461) 24
  let t := min ((doe - 36524 * c - 1461 * q) / 365) 3
  refine ⟨c, q, t, doe - 36524 * c - 1461 * q - 365 * t, ?_, ?_, ?_, ?_, ?_, ?_⟩ <;> omega

theorem yearOfEra_eq {c q t r doe : Int} (hc : 0 ≤ c ∧ c ≤ 3) (hq : 0 ≤ q ∧ q ≤ 24)
    (ht : 0 ≤ t ∧ t ≤ 3) (hr : 0 ≤ r ∧ r ≤ 365) (hleap : r = 365 → t = 3 ∧ (q < 24 ∨ c = 3))
    (h : doe = 36524 * c + 1461 * q + 365 * t + r) :
    (doe - doe / 1460 + doe / 36524 - doe / 146096) / 365 = 100 * c + 4 * q + t := by
  have hcentury : doe / 36524 - doe / 146096 = c := by
    by_cases hlast : r = 365 ∧ q = 24
    · have hc₃ : c = 3 := by omega
      omega
    · have hwithin : 1461 * q + 365 * t + r < 36524 := by omega
      have hdiv : doe / 36524 = c := by omega
      have hzero : doe / 146096 = 0 := by omega
      omega
  have hcycle : doe / 1460 = 25 * c + q + (24 * c + q + 365 * t + r) / 1460 := by omega
  omega

/-- What `civilDate` computes on the way: the year from March, the month of it and the day. -/
structure MarchDate where
  year : Int
  month : Int
  day : Int

def marchDate (days : Int) : MarchDate :=
  let z := days + 719468
  let era := z / 146097
  let doe := z % 146097
  let yoe := (doe - doe / 1460 + doe / 36524 - doe / 146096) / 365
  let doy := doe - (365 * yoe + yoe / 4 - yoe / 100)
  let mp := (5 * doy + 2) / 153
  { year := yoe + era * 400, month := mp, day := doy - (153 * mp + 2) / 5 + 1 }

theorem civilDate_eq (days : Int) :
    civilDate days =
      (if (if (marchDate days).month < 10 then (marchDate days).month + 3
          else (marchDate days).month - 9) ≤ 2 then (marchDate days).year + 1
        else (marchDate days).year,
        if (marchDate days).month < 10 then (marchDate days).month + 3
          else (marchDate days).month - 9, (marchDate days).day) := rfl

/-- The first day of a month, and how the next one follows it. -/
def monthStart (m : Int) : Int :=
  (153 * m + 2) / 5

theorem yearStart_eq {era c q t : Int} (hc : 0 ≤ c ∧ c ≤ 3) (hq : 0 ≤ q ∧ q ≤ 24)
    (ht : 0 ≤ t ∧ t ≤ 3) :
    yearStart (100 * c + 4 * q + t + era * 400) =
      146097 * era + 36524 * c + 1461 * q + 365 * t := by
  have hfour : (100 * c + 4 * q + t + era * 400) / 4 = 100 * era + 25 * c + q := by omega
  have hhundred : (100 * c + 4 * q + t + era * 400) / 100 = 4 * era + c := by omega
  have hera : (100 * c + 4 * q + t + era * 400) / 400 = era := by omega
  rw [yearStart, hfour, hhundred, hera]
  omega

/-- A year has 365 days, and a day 365 after them where the next one begins a leap cycle. -/
theorem day_lt_yearStart_succ {era c q t r : Int} (hc : 0 ≤ c ∧ c ≤ 3) (hq : 0 ≤ q ∧ q ≤ 24)
    (ht : 0 ≤ t ∧ t ≤ 3) (hr : 0 ≤ r ∧ r ≤ 365) (hleap : r = 365 → t = 3 ∧ (q < 24 ∨ c = 3)) :
    146097 * era + 36524 * c + 1461 * q + 365 * t + r <
      yearStart (100 * c + 4 * q + t + era * 400 + 1) := by
  by_cases hinner : t < 3
  · have hnext := @yearStart_eq era c q (t + 1) hc hq (by omega)
    rw [show 100 * c + 4 * q + t + era * 400 + 1 = 100 * c + 4 * q + (t + 1) + era * 400 by omega,
      hnext]
    omega
  · by_cases hcycle : q < 24
    · have hnext := @yearStart_eq era c (q + 1) 0 hc (by omega) (by omega)
      rw [show 100 * c + 4 * q + t + era * 400 + 1 = 100 * c + 4 * (q + 1) + 0 + era * 400 by omega,
        hnext]
      omega
    · by_cases hcentury : c < 3
      · have hnext := @yearStart_eq era (c + 1) 0 0 (by omega) (by omega) (by omega)
        rw [show 100 * c + 4 * q + t + era * 400 + 1 =
          100 * (c + 1) + 4 * 0 + 0 + era * 400 by omega, hnext]
        omega
      · have hnext := @yearStart_eq (era + 1) 0 0 0 (by omega) (by omega) (by omega)
        rw [show 100 * c + 4 * q + t + era * 400 + 1 =
          100 * 0 + 4 * 0 + 0 + (era + 1) * 400 by omega, hnext]
        omega

theorem month_spec {doy : Int} (h : 0 ≤ doy ∧ doy ≤ 365) :
    0 ≤ (5 * doy + 2) / 153 ∧ (5 * doy + 2) / 153 ≤ 11 ∧
      monthStart ((5 * doy + 2) / 153) ≤ doy ∧ doy - monthStart ((5 * doy + 2) / 153) ≤ 30 ∧
      doy < monthStart ((5 * doy + 2) / 153 + 1) := by
  simp only [monthStart]
  refine ⟨?_, ?_, ?_, ?_, ?_⟩ <;> omega

/-- Where a day stands in its year and in its month. -/
structure Placed (days doy : Int) (date : MarchDate) : Prop where
  day_of_year : days + 719468 = yearStart date.year + doy
  year_end : yearStart date.year + doy < yearStart (date.year + 1)
  day_of_month : doy = monthStart date.month + (date.day - 1)
  month_end : doy < monthStart (date.month + 1)
  doy_nonneg : 0 ≤ doy
  month_nonneg : 0 ≤ date.month
  month_le : date.month ≤ 11
  day_pos : 1 ≤ date.day
  day_le : date.day ≤ 31

theorem marchDate_eq {days c q t r : Int} (hc : 0 ≤ c ∧ c ≤ 3) (hq : 0 ≤ q ∧ q ≤ 24)
    (ht : 0 ≤ t ∧ t ≤ 3) (hr : 0 ≤ r ∧ r ≤ 365) (hleap : r = 365 → t = 3 ∧ (q < 24 ∨ c = 3))
    (h : (days + 719468) % 146097 = 36524 * c + 1461 * q + 365 * t + r) :
    marchDate days =
      { year := 100 * c + 4 * q + t + (days + 719468) / 146097 * 400
        month := (5 * r + 2) / 153
        day := r - monthStart ((5 * r + 2) / 153) + 1 } := by
  have hfour : (100 * c + 4 * q + t) / 4 = 25 * c + q := by omega
  have hhundred : (100 * c + 4 * q + t) / 100 = c := by omega
  have hdoy : (days + 719468) % 146097 - (365 * (100 * c + 4 * q + t) + (25 * c + q) - c) = r := by
    omega
  simp only [marchDate, yearOfEra_eq hc hq ht hr hleap h, hfour, hhundred, hdoy, monthStart]

theorem placed_marchDate (days : Int) : ∃ doy, Placed days doy (marchDate days) := by
  have hdoe : 0 ≤ (days + 719468) % 146097 ∧ (days + 719468) % 146097 < 146097 := by omega
  rcases exists_yearOfEra hdoe.1 hdoe.2 with ⟨c, q, t, r, hc, hq, ht, hr, hleap, hsplit⟩
  have hstart := @yearStart_eq ((days + 719468) / 146097) c q t hc hq ht
  have hend := @day_lt_yearStart_succ ((days + 719468) / 146097) c q t r hc hq ht hr hleap
  have hdays : days + 719468 =
      146097 * ((days + 719468) / 146097) + 36524 * c + 1461 * q + 365 * t + r := by omega
  rcases month_spec hr with ⟨hmonth, hmonth', hbegin, hwithin, hnext⟩
  rw [marchDate_eq hc hq ht hr hleap hsplit]
  refine ⟨r, ?_, ?_, ?_, hnext, hr.1, hmonth, hmonth', ?_, ?_⟩
  · exact hdays.trans (congrArg (· + r) hstart.symm)
  · exact lt_of_eq_of_lt (congrArg (· + r) hstart) hend
  · change r = monthStart ((5 * r + 2) / 153) + (r - monthStart ((5 * r + 2) / 153) + 1 - 1)
    omega
  · change 1 ≤ r - monthStart ((5 * r + 2) / 153) + 1
    omega
  · change r - monthStart ((5 * r + 2) / 153) + 1 ≤ 31
    omega

theorem monthStart_mono {m m' : Int} (h : m ≤ m') : monthStart m ≤ monthStart m' := by
  simp only [monthStart]
  omega

/-- A later day has a later date: a later month, or a later day of the same month. -/
theorem marchDate_lt {days days' : Int} (h : days < days') :
    12 * (marchDate days).year + (marchDate days).month <
        12 * (marchDate days').year + (marchDate days').month ∨
      (12 * (marchDate days).year + (marchDate days).month =
          12 * (marchDate days').year + (marchDate days').month ∧
        (marchDate days).day < (marchDate days').day) := by
  rcases placed_marchDate days with ⟨doy, hp⟩
  rcases placed_marchDate days' with ⟨doy', hp'⟩
  generalize marchDate days = date at hp ⊢
  generalize marchDate days' = date' at hp' ⊢
  have hyear : date.year ≤ date'.year := by
    by_contra hback
    have hmono := @yearStart_mono (date'.year + 1) date.year (by omega)
    have h₁ := hp.day_of_year
    have h₂ := hp'.day_of_year
    have h₃ := hp'.year_end
    have h₄ := hp.doy_nonneg
    omega
  have hmonths := hp.month_nonneg
  have hmonths' := hp'.month_nonneg
  have hle := hp.month_le
  have hle' := hp'.month_le
  by_cases hsame : date.year = date'.year
  · have hdoy : doy < doy' := by
      have h₁ := hp.day_of_year
      have h₂ := hp'.day_of_year
      rw [hsame] at h₁
      omega
    have hmonth : date.month ≤ date'.month := by
      by_contra hback
      have hmono := @monthStart_mono (date'.month + 1) date.month (by omega)
      have h₁ := hp.day_of_month
      have h₂ := hp'.month_end
      have h₃ := hp.day_pos
      omega
    by_cases hmonth' : date.month = date'.month
    · refine Or.inr ⟨by omega, ?_⟩
      have h₁ := hp.day_of_month
      have h₂ := hp'.day_of_month
      rw [hmonth'] at h₁
      omega
    · exact Or.inl (by omega)
  · exact Or.inl (by omega)

/-- The eight digits of a date, as a number. -/
def dateNumber (days : Int) : Int :=
  (civilDate days).1 * 10000 + (civilDate days).2.1 * 100 + (civilDate days).2.2

/-- The year and the month count from January what the other two count from March. -/
theorem civilDate_months (days : Int) :
    12 * (civilDate days).1 + (civilDate days).2.1 =
        12 * (marchDate days).year + (marchDate days).month + 3 ∧
      1 ≤ (civilDate days).2.1 ∧ (civilDate days).2.1 ≤ 12 ∧
      1 ≤ (civilDate days).2.2 ∧ (civilDate days).2.2 ≤ 31 ∧
      (civilDate days).2.2 = (marchDate days).day := by
  rcases placed_marchDate days with ⟨doy, hp⟩
  have hmonth := hp.month_nonneg
  have hmonth' := hp.month_le
  rw [civilDate_eq]
  refine ⟨?_, ?_, ?_, hp.day_pos, hp.day_le, rfl⟩ <;> dsimp only
  · split <;> split <;> omega
  · split <;> omega
  · split <;> omega

theorem dateNumber_lt {days days' : Int} (h : days < days') :
    dateNumber days < dateNumber days' := by
  have hd := civilDate_months days
  have hd' := civilDate_months days'
  simp only [dateNumber]
  rcases marchDate_lt h with hmonth | ⟨hmonth, hday⟩
  · omega
  · omega

/-! ## The text of a minute -/

/-- `date.min` and `date.max`, as counts of days. -/
def dateMin : Int :=
  -719162

def dateMax : Int :=
  2932896

/-- The minutes of the calendar, counted from 1970-01-01. -/
def InCalendar (minute : Int) : Prop :=
  dateMin * 1440 ≤ minute ∧ minute < (dateMax + 1) * 1440

theorem dateNumber_mono {days days' : Int} (h : days ≤ days') :
    dateNumber days ≤ dateNumber days' := by
  rcases Int.lt_or_eq_of_le h with hlt | rfl
  · exact (dateNumber_lt hlt).le
  · exact le_rfl

theorem year_bounds {days : Int} (h : dateMin ≤ days ∧ days ≤ dateMax) :
    1 ≤ (civilDate days).1 ∧ (civilDate days).1 < 10000 := by
  have hfirst : dateNumber dateMin = 10101 := by decide
  have hlast : dateNumber dateMax = 99991231 := by decide
  have hmin := dateNumber_mono h.1
  have hmax := dateNumber_mono h.2
  have hd := civilDate_months days
  rw [hfirst] at hmin
  rw [hlast] at hmax
  simp only [dateNumber] at hmin hmax
  omega

/-- The twelve digits of a minute, as a number. -/
def minuteNumber (minute : Int) : Int :=
  dateNumber (minute / 1440) * 10000 + minute % 1440 / 60 * 100 + minute % 60

theorem minuteNumber_lt {m m' : Int} (h : m < m') : minuteNumber m < minuteNumber m' := by
  simp only [minuteNumber]
  by_cases hday : m / 1440 = m' / 1440
  · rw [hday]
    omega
  · have hdate := @dateNumber_lt (m / 1440) (m' / 1440) (by omega)
    omega

theorem formatArxivDatetime_eq {t : Int} (h : InCalendar (t / 60000000)) :
    (formatArxivDatetime t).toList = fixedDigits 12 (minuteNumber (t / 60000000)).toNat ∧
      0 ≤ minuteNumber (t / 60000000) ∧ minuteNumber (t / 60000000) < 10 ^ 12 := by
  simp only [formatArxivDatetime, minuteNumber, dateNumber]
  generalize t / 60000000 = minute at h ⊢
  have hyear := @year_bounds (minute / 1440)
    (by simp only [InCalendar, dateMin, dateMax] at *; omega)
  rcases civilDate_months (minute / 1440) with ⟨_, hmonth, hmonth', hday, hday', _⟩
  generalize (civilDate (minute / 1440)).1 = y at *
  generalize (civilDate (minute / 1440)).2.1 = m at *
  generalize (civilDate (minute / 1440)).2.2 = d at *
  have hhour : 0 ≤ minute % 1440 / 60 ∧ minute % 1440 / 60 < 24 := by omega
  have hminute : 0 ≤ minute % 60 ∧ minute % 60 < 60 := by omega
  generalize minute % 1440 / 60 = hh at *
  generalize minute % 60 = mm at *
  refine ⟨?_, by omega, by omega⟩
  simp only [String.toList_append]
  rw [padded_eq (by omega) (by omega) (by omega), padded_eq (by omega) (by omega) (by omega),
    padded_eq (by omega) (by omega) (by omega), padded_eq (by omega) (by omega) (by omega),
    padded_eq (by omega) (by omega) (by omega)]
  rw [fixedDigits_append 4 2 _ _ (by omega), fixedDigits_append 6 2 _ _ (by omega),
    fixedDigits_append 8 2 _ _ (by omega), fixedDigits_append 10 2 _ _ (by omega)]
  refine congrArg (fixedDigits 12) ?_
  omega

/-- A later minute has a greater text. -/
theorem formatArxivDatetime_lt {t t' : Int} (h : InCalendar (t / 60000000))
    (h' : InCalendar (t' / 60000000)) (hlt : t / 60000000 < t' / 60000000) :
    formatArxivDatetime t < formatArxivDatetime t' := by
  rcases formatArxivDatetime_eq h with ⟨htext, hpos, _⟩
  rcases formatArxivDatetime_eq h' with ⟨htext', _, hfits⟩
  have hnumber := minuteNumber_lt hlt
  change (formatArxivDatetime t).toList < (formatArxivDatetime t').toList
  rw [htext, htext']
  exact fixedDigits_lt (by omega) (by omega)

theorem text_lt_asymm {a b : String} (h : a < b) : ¬ b < a := by
  intro hback
  have hab : a.toList < b.toList := h
  have hba : b.toList < a.toList := hback
  exact List.lt_asymm hab hba

/-- The texts of two times compare as their minutes do. -/
theorem formatArxivDatetime_le_iff {t t' : Int} (h : InCalendar (t / 60000000))
    (h' : InCalendar (t' / 60000000)) :
    formatArxivDatetime t ≤ formatArxivDatetime t' ↔ t / 60000000 ≤ t' / 60000000 := by
  constructor
  · intro hle
    by_contra hback
    exact hle (formatArxivDatetime_lt h' h (by omega))
  · intro hle hback
    rcases Int.lt_or_eq_of_le hle with hlt | heq
    · exact text_lt_asymm (formatArxivDatetime_lt h h' hlt) hback
    · have hsame : formatArxivDatetime t' = formatArxivDatetime t := by
        refine String.toList_inj.1 ?_
        rw [(formatArxivDatetime_eq h).1, (formatArxivDatetime_eq h').1, heq]
      rw [hsame] at hback
      exact text_lt_asymm hback hback

end Keys
end Huldra
