import Huldra.OaiPmh

/-!
# Time — the timestamps of the database

A time is stored as the text that `isoformat` writes of it, in UTC.  The text has no fraction where
the microseconds are zero, so texts of two lengths are compared; whatever compares them as texts
compares the times.
-/

namespace Huldra
namespace Time

open Text Keys
open OaiPmh (Datetime)

/-- `ensure_utc` -/
def ensureUtc (value : Datetime) : Except Exn Datetime :=
  match value.offset with
  | none => .ok value.replaceUtc
  | some offset => value.astimezoneUtc offset

/-- The offset as `isoformat` writes it, with seconds and microseconds where it has any. -/
def formatOffset (offset : Int) : String :=
  let size := (offset.natAbs : Int)
  let seconds := size / 1000000 % 60
  let microseconds := size % 1000000
  (if offset < 0 then "-" else "+") ++ padded 2 (size / 3600000000) ++ ":" ++
    padded 2 (size / 60000000 % 60) ++
    (if seconds = 0 ∧ microseconds = 0 then "" else ":" ++ padded 2 seconds) ++
    (if microseconds = 0 then "" else "." ++ padded 6 microseconds)

/-- `value.isoformat()` -/
def isoformat (value : Datetime) : String :=
  let date := civilDate (value.shown / 86400000000)
  let time := value.shown % 86400000000
  let microseconds := time % 1000000
  padded 4 date.1 ++ "-" ++ padded 2 date.2.1 ++ "-" ++ padded 2 date.2.2 ++ "T" ++
    padded 2 (time / 3600000000) ++ ":" ++ padded 2 (time / 60000000 % 60) ++ ":" ++
    padded 2 (time / 1000000 % 60) ++
    (if microseconds = 0 then "" else "." ++ padded 6 microseconds) ++
    (match value.offset with
    | none => ""
    | some offset => formatOffset offset)

/-- `isoformat_or_none` -/
def isoformatOrNone (value : Option Datetime) : Except Exn (Option String) :=
  match value with
  | none => .ok none
  | some value => (ensureUtc value).map fun value => some (isoformat value)

/-- A `datetime` in UTC: of the years 1 to 9999, to the microsecond. -/
structure UtcDatetime where
  shown : Int
  inYears : dateMin * 86400000000 ≤ shown ∧ shown < (dateMax + 1) * 86400000000

namespace UtcDatetime

def toDatetime (value : UtcDatetime) : Datetime :=
  { shown := value.shown, offset := some 0 }

/-- What is in UTC stays as it is. -/
theorem ensureUtc_eq (value : UtcDatetime) :
    ensureUtc value.toDatetime = .ok value.toDatetime := by
  simp only [ensureUtc, toDatetime, Datetime.astimezoneUtc, Int.sub_zero]
  rw [if_pos value.inYears]

theorem isoformatOrNone_eq (value : UtcDatetime) :
    isoformatOrNone (some value.toDatetime) = .ok (some (isoformat value.toDatetime)) := by
  rw [isoformatOrNone, value.ensureUtc_eq]
  rfl

end UtcDatetime

/-! ## The fields of a timestamp -/

/-- The two-digit fields, each behind its separator. -/
def fieldsText (separators : List Char) (values : List Nat) : Text :=
  (separators.zip values).flatMap fun field => field.1 :: fixedDigits 2 field.2

/-- The year of a second, counted from 1970. -/
def yearOf (second : Int) : Nat :=
  (civilDate (second / 86400)).1.toNat

/-- The other fields: month, day, hour, minute and second. -/
def fieldsOf (second : Int) : List Nat :=
  [(civilDate (second / 86400)).2.1.toNat, (civilDate (second / 86400)).2.2.toNat,
    (second % 86400 / 3600).toNat, (second % 86400 / 60 % 60).toNat, (second % 60).toNat]

def separators : List Char :=
  ['-', '-', 'T', ':', ':']

/-- The text of a second, without an offset. -/
def secondText (second : Int) : Text :=
  fixedDigits 4 (yearOf second) ++ fieldsText separators (fieldsOf second)

/-- The microseconds behind their dot, if there are any. -/
def fractionText (microseconds : Nat) : Text :=
  if microseconds = 0 then [] else '.' :: fixedDigits 6 microseconds

def InYears (second : Int) : Prop :=
  dateMin * 86400 ≤ second ∧ second < (dateMax + 1) * 86400

theorem UtcDatetime.second_inYears (value : UtcDatetime) : InYears (value.shown / 1000000) := by
  have h := value.inYears
  simp only [InYears, dateMin, dateMax] at *
  omega

theorem year_lt {second : Int} (h : InYears second) : yearOf second < 10000 := by
  have hyear := @year_bounds (second / 86400) (by simp only [InYears, dateMin, dateMax] at *; omega)
  simp only [yearOf]
  omega

theorem fields_lt (second : Int) : ∀ value ∈ fieldsOf second, value < 100 := by
  rcases civilDate_months (second / 86400) with ⟨_, _, hmonth, _, hday, _⟩
  intro value hvalue
  simp only [fieldsOf, List.mem_cons, List.not_mem_nil, or_false] at hvalue
  omega

/-- The text of a `datetime` in UTC: its second, its fraction and the offset. -/
theorem isoformat_toList (value : UtcDatetime) :
    (isoformat value.toDatetime).toList =
      secondText (value.shown / 1000000) ++
        (fractionText (value.shown % 1000000).toNat ++ "+00:00".toList) := by
  have hyear := @year_bounds (value.shown / 86400000000) (by
    have h := value.inYears
    simp only [dateMin, dateMax] at *
    omega)
  rcases civilDate_months (value.shown / 86400000000) with ⟨_, hmonth, hmonth', hday, hday', _⟩
  have hdays : value.shown / 1000000 / 86400 = value.shown / 86400000000 := by omega
  have hhour : value.shown / 1000000 % 86400 / 3600 = value.shown % 86400000000 / 3600000000 := by
    omega
  have hminute : value.shown / 1000000 % 86400 / 60 % 60 =
      value.shown % 86400000000 / 60000000 % 60 := by omega
  have hsecond : value.shown / 1000000 % 60 = value.shown % 86400000000 / 1000000 % 60 := by omega
  have hoffset : formatOffset 0 = "+00:00" := by decide
  have hfraction : (if value.shown % 1000000 = 0 then ""
      else "." ++ padded 6 (value.shown % 1000000)).toList =
        fractionText (value.shown % 1000000).toNat := by
    rw [fractionText]
    by_cases hzero : value.shown % 1000000 = 0
    · rw [if_pos hzero, hzero]
      rfl
    · rw [if_neg hzero, if_neg (by omega), String.toList_append,
        padded_eq (by omega) (by omega) (by omega)]
      rfl
  simp only [isoformat, UtcDatetime.toDatetime, hoffset, String.toList_append]
  rw [padded_eq (by omega) (by omega) (by omega), padded_eq (by omega) (by omega) (by omega),
    padded_eq (by omega) (by omega) (by omega), padded_eq (by omega) (by omega) (by omega),
    padded_eq (by omega) (by omega) (by omega), padded_eq (by omega) (by omega) (by omega)]
  simp only [secondText, yearOf, fieldsOf, fieldsText, separators, hdays, hhour, hminute, hsecond]
  simpa using hfraction

/-! ## The order of timestamps -/

/-- Of two lists of two-digit fields the smaller one has the smaller text, whatever follows. -/
theorem fieldsText_lt {seps : List Char} {us vs : Text} : ∀ {as bs : List Nat},
    as.length = seps.length → bs.length = seps.length → (∀ b ∈ bs, b < 100) → as < bs →
      fieldsText seps as ++ us < fieldsText seps bs ++ vs := by
  induction seps with
  | nil =>
      intro as bs ha hb _ h
      rw [List.length_nil, List.length_eq_zero_iff] at ha hb
      subst ha hb
      cases h
  | cons c seps ih =>
      intro as bs ha hb hbound h
      rcases as with _ | ⟨a, as⟩
      · simp at ha
      rcases bs with _ | ⟨b, bs⟩
      · simp at hb
      simp only [fieldsText, List.zip_cons_cons, List.flatMap_cons, List.cons_append,
        List.append_assoc]
      refine List.cons_lt_cons_iff.2 (Or.inr ⟨rfl, ?_⟩)
      rcases List.cons_lt_cons_iff.1 h with hhead | ⟨rfl, htail⟩
      · refine append_lt_append ?_ (fixedDigits_lt hhead (hbound b List.mem_cons_self))
        rw [length_fixedDigits, length_fixedDigits]
      · refine List.append_left_lt (ih ?_ ?_ ?_ htail)
        · simpa using ha
        · simpa using hb
        · exact fun b' hb' => hbound b' (List.mem_cons_of_mem a hb')

/-- A later second is of a later year, or has greater fields in the same year. -/
theorem second_lt {s s' : Int} (h : InYears s) (h' : InYears s') (hlt : s < s') :
    yearOf s < yearOf s' ∨ (yearOf s = yearOf s' ∧ fieldsOf s < fieldsOf s') := by
  have hyear := @year_bounds (s / 86400) (by simp only [InYears, dateMin, dateMax] at *; omega)
  have hyear' := @year_bounds (s' / 86400) (by simp only [InYears, dateMin, dateMax] at *; omega)
  rcases civilDate_months (s / 86400) with ⟨_, hmonth, _, hday, _, _⟩
  rcases civilDate_months (s' / 86400) with ⟨_, _, hmonth', _, hday', _⟩
  simp only [yearOf, fieldsOf, List.cons_lt_cons_iff]
  by_cases hsame : s / 86400 = s' / 86400
  · rw [hsame]
    omega
  · have hdate := @dateNumber_lt (s / 86400) (s' / 86400) (by omega)
    simp only [dateNumber] at hdate
    omega

theorem secondText_lt {s s' : Int} (h : InYears s) (h' : InYears s') (hlt : s < s')
    (us vs : Text) : secondText s ++ us < secondText s' ++ vs := by
  simp only [secondText, List.append_assoc]
  rcases second_lt h h' hlt with hyear | ⟨hyear, hfields⟩
  · refine append_lt_append ?_ (fixedDigits_lt hyear (year_lt h'))
    rw [length_fixedDigits, length_fixedDigits]
  · rw [hyear]
    exact List.append_left_lt (fieldsText_lt rfl rfl (fields_lt s') hfields)

/-- Within a second the one without a fraction comes first: `+` is smaller than `.`. -/
theorem fractionText_lt {m m' : Nat} (h : m < m') (h' : m' < 10 ^ 6) :
    fractionText m ++ "+00:00".toList < fractionText m' ++ "+00:00".toList := by
  have hpos : m' ≠ 0 := by omega
  simp only [fractionText, if_neg hpos]
  by_cases hzero : m = 0
  · rw [if_pos hzero]
    exact List.cons_lt_cons_iff.2 (Or.inl (by decide))
  · rw [if_neg hzero, List.cons_append, List.cons_append]
    refine List.cons_lt_cons_iff.2 (Or.inr ⟨rfl, append_lt_append ?_ (fixedDigits_lt h h')⟩)
    rw [length_fixedDigits, length_fixedDigits]

theorem isoformat_lt {a b : UtcDatetime} (h : a.shown < b.shown) :
    isoformat a.toDatetime < isoformat b.toDatetime := by
  change (isoformat a.toDatetime).toList < (isoformat b.toDatetime).toList
  rw [isoformat_toList, isoformat_toList]
  by_cases hsecond : a.shown / 1000000 = b.shown / 1000000
  · rw [hsecond]
    exact List.append_left_lt (fractionText_lt (by omega) (by omega))
  · exact secondText_lt a.second_inYears b.second_inYears (by omega) _ _

/-- The texts of two times compare as the times do. -/
theorem isoformat_lt_iff (a b : UtcDatetime) :
    isoformat a.toDatetime < isoformat b.toDatetime ↔ a.shown < b.shown := by
  constructor
  · intro h
    by_contra hback
    rcases Int.lt_or_eq_of_le (Int.not_lt.1 hback) with hlt | heq
    · exact text_lt_asymm h (isoformat_lt hlt)
    · have hsame : b.toDatetime = a.toDatetime := by
        simp [UtcDatetime.toDatetime, heq]
      rw [hsame] at h
      exact text_lt_asymm h h
  · exact isoformat_lt

end Time
end Huldra
