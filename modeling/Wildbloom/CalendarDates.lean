import Mathlib.Algebra.BigOperators.Intervals
import Mathlib.Tactic.IntervalCases

/-!
# Calendar dates

The UTC date of a Unix time, counted from March and in eras of 400 years, so that
the leap day ends a year and the divisions absorb the leap years.  It is compared
with the calendar itself: the lengths of the months, added up from 1970-01-01.
-/

namespace Wildbloom
namespace Calendar

open Finset

def fitsI64 (n : ℤ) : Bool := -2 ^ 63 ≤ n && n < 2 ^ 63

def ymd (unix : UInt64) : Option (ℤ × ℕ × ℕ) :=
  let days := Int.bmod (unix.toNat / 86400) (2 ^ 64)
  let z := days + 719468
  let era := z / 146097
  let doe := z % 146097
  let yoe := (doe - doe.tdiv 1460 + doe.tdiv 36524 - doe.tdiv 146096).tdiv 365
  let doy := doe - (365 * yoe + yoe.tdiv 4 - yoe.tdiv 100)
  let mp := (5 * doy + 2).tdiv 153
  let day := doy - (153 * mp + 2).tdiv 5 + 1
  let month := if mp < 10 then mp + 3 else mp - 9
  let year := yoe + era * 400 + if month ≤ 2 then 1 else 0
  -- every sum, difference and product above, in order; an overflow is a panic
  if [z, doe - doe.tdiv 1460, doe - doe.tdiv 1460 + doe.tdiv 36524,
      doe - doe.tdiv 1460 + doe.tdiv 36524 - doe.tdiv 146096, 365 * yoe, 365 * yoe + yoe.tdiv 4,
      365 * yoe + yoe.tdiv 4 - yoe.tdiv 100, doy, 5 * doy, 5 * doy + 2, 153 * mp, 153 * mp + 2,
      doy - (153 * mp + 2).tdiv 5, day, month, era * 400, yoe + era * 400, year].all fitsI64 then
    some (year, (month % 2 ^ 32).toNat, (day % 2 ^ 32).toNat)
  else none

/-! ## The calendar -/

variable (year : ℤ)

def leap : Bool := year % 4 = 0 && (year % 100 ≠ 0 || year % 400 = 0)

def monthLength : ℕ → ℕ
  | 2 => if leap year then 29 else 28
  | 4 | 6 | 9 | 11 => 30
  | _ => 31

def yearLength : ℕ := ∑ i ∈ range 12, monthLength year (i + 1)

/-- The days from 1970-01-01 to a date, year by year and month by month. -/
def daysTo (month day : ℕ) : ℕ :=
  ∑ i ∈ range (year - 1970).toNat, yearLength (1970 + i) +
    ∑ i ∈ range (month - 1), monthLength year (i + 1) + (day - 1)

/-- The leap years up to a year. -/
def leaps : ℤ := year / 4 - year / 100 + year / 400

theorem leaps_sub : leaps year - leaps (year - 1) = if leap year then 1 else 0 := by
  simp only [leaps, leap, Bool.and_eq_true, Bool.or_eq_true, decide_eq_true_eq]
  split_ifs <;> omega

theorem yearLength_eq : yearLength year = 365 + (leaps year - leaps (year - 1)) := by
  rw [leaps_sub]
  simp only [yearLength, sum_range_succ, sum_range_zero, monthLength]
  split_ifs <;> rfl

theorem sum_yearLength (n : ℕ) : ((∑ i ∈ range n, yearLength (1970 + i) : ℕ) : ℤ) =
    365 * n + leaps (1969 + n) - 477 := by
  induction n with
  | zero => rfl
  | succ n ih =>
    rw [sum_range_succ, Nat.cast_add, ih, yearLength_eq]
    unfold leaps
    push_cast
    omega

/-! ## Years and months from March -/

variable {days era doe yoe doy mp year month day : ℤ}

/-- A year of the era has 365 days, and one more when its last February is that
of a leap year. -/
theorem doy_bounds (era : ℤ) (hlow : 0 ≤ doe) (hhigh : doe < 146097)
    (hyoe : yoe = (doe - doe / 1460 + doe / 36524 - doe / 146096) / 365)
    (hdoy : doy = doe - (365 * yoe + yoe / 4 - yoe / 100)) :
    (0 ≤ yoe ∧ yoe < 400) ∧ 0 ≤ doy ∧ (doy ≤ 364 ∨ doy = 365 ∧ leap (yoe + era * 400 + 1)) := by
  have hcentury : yoe / 100 = doe / 36524 - doe / 146096 := by
    have hcases : doe / 36524 = 0 ∨ doe / 36524 = 1 ∨ doe / 36524 = 2 ∨ doe / 36524 = 3 ∨
        doe = 146096 := by omega
    rcases hcases with hcase | hcase | hcase | hcase | hcase <;> omega
  -- four years have passed at most once more often in days than in years
  have hfour : yoe / 4 ≤ doe / 1460 := by omega
  have hnext : doe / 1460 ≤ yoe / 4 + 1 := by omega
  refine ⟨by omega, by omega, ?_⟩
  by_cases hshort : doy ≤ 364
  · exact Or.inl hshort
  · have hlast : doe / 1460 = yoe / 4 + 1 := by omega
    have hquad : yoe % 4 = 3 := by
      clear hdoy hshort
      omega
    have hhundred : (yoe + 1) % 100 = 0 → yoe = 399 := by omega
    refine Or.inr ⟨by omega, ?_⟩
    simp only [leap, Bool.and_eq_true, Bool.or_eq_true, decide_eq_true_eq]
    omega

/-- The months from March have 31 and 30 days by turns of five. -/
theorem month_bounds (hlow : 0 ≤ doy) (hhigh : doy ≤ 364 ∨ doy = 365 ∧ leap (yoe + 1))
    (hmp : mp = (5 * doy + 2) / 153) (hmonth : month = if mp < 10 then mp + 3 else mp - 9)
    (hyear : year = yoe + if month ≤ 2 then 1 else 0)
    (hday : day = doy - (153 * mp + 2) / 5 + 1) :
    (1 ≤ month ∧ month ≤ 12) ∧ (1 ≤ day ∧ day ≤ monthLength year month.toNat) ∧
      ((∑ i ∈ range (month.toNat - 1), monthLength year (i + 1) : ℕ) : ℤ) + day - 1 =
        if month ≤ 2 then doy - 306 else 59 + (leaps yoe - leaps (yoe - 1)) + doy := by
  have hdoy : doy ≤ 365 := by
    rcases hhigh with hshort | hlong
    · omega
    · omega
  have hmp0 : 0 ≤ mp := by omega
  have hmp11 : mp ≤ 11 := by omega
  rw [leaps_sub]
  rcases hmp11.lt_or_eq with hearly | rfl
  · interval_cases mp
    all_goals
      norm_num at hmonth
      subst hmonth
      norm_num at hyear
      subst hyear
      refine ⟨by norm_num, ⟨by omega, ?_⟩, ?_⟩
      · simp [monthLength]
        omega
      · simp [sum_range_succ, monthLength]
        try split_ifs
        all_goals omega
  · norm_num at hmonth
    subst hmonth
    norm_num at hyear
    subst hyear
    refine ⟨by norm_num, ⟨by omega, ?_⟩, ?_⟩
    · rcases hhigh with hshort | ⟨hlong, hleap⟩
      · simp [monthLength]
        split_ifs <;> omega
      · simp [monthLength, hleap]
        omega
    · simp [monthLength]
      omega

theorem daysTo_eq (hlow : 0 ≤ yoe) (hhigh : yoe < 400)
    (hdays : days + 719468 = 146097 * era + (365 * yoe + yoe / 4 - yoe / 100) + doy)
    (hyear : year = yoe + era * 400 + if month ≤ 2 then 1 else 0) (hstart : 1970 ≤ year)
    (hday : 1 ≤ day)
    (hsum : ((∑ i ∈ range (month.toNat - 1), monthLength year (i + 1) : ℕ) : ℤ) + day - 1 =
      if month ≤ 2 then doy - 306
      else 59 + (leaps (yoe + era * 400) - leaps (yoe + era * 400 - 1)) + doy) :
    (daysTo year month.toNat day.toNat : ℤ) = days := by
  have hyears := sum_yearLength (year - 1970).toNat
  rw [Int.toNat_of_nonneg (by omega)] at hyears
  unfold daysTo
  rw [Nat.cast_add, Nat.cast_add, hyears]
  unfold leaps at *
  by_cases hmonth : month ≤ 2
  · rw [if_pos hmonth] at hyear hsum
    omega
  · rw [if_neg hmonth] at hyear hsum
    omega

/-- The first date is in January 1970, the eleventh month of a year from March. -/
theorem le_year (hdays : 719468 ≤ 146097 * era + (365 * yoe + yoe / 4 - yoe / 100) + doy)
    (hyoe : 0 ≤ yoe ∧ yoe < 400) (hdoy : 0 ≤ doy ∧ doy ≤ 365) (hmp : mp = (5 * doy + 2) / 153)
    (hmonth : month = if mp < 10 then mp + 3 else mp - 9)
    (hyear : year = yoe + era * 400 + if month ≤ 2 then 1 else 0) : 1970 ≤ year := by
  have hstart : 1969 < yoe + era * 400 ∨ yoe + era * 400 = 1969 ∧ 306 ≤ doy := by
    rcases lt_trichotomy (yoe + era * 400) 1969 with hless | heq | hmore
    · omega
    · omega
    · exact Or.inl hmore
  by_cases hten : mp < 10
  · rw [if_pos hten] at hmonth
    omega
  · rw [if_neg hten] at hmonth
    rw [if_pos (by omega)] at hyear
    omega

/-! ## Dates of Unix times -/

/-- No step of the date of a Unix time overflows, and the date is the calendar's. -/
theorem ymd_daysTo (unix : UInt64) : ∃ year month day, ymd unix = some (year, month, day) ∧
    (1 ≤ month ∧ month ≤ 12) ∧ (1 ≤ day ∧ day ≤ monthLength year month) ∧
    1970 ≤ year ∧ daysTo year month day = unix.toNat / 86400 := by
  have hunix := unix.toNat_lt
  unfold ymd
  extract_lets days z era doe yoe doy mp day month year
  have hdays : days = unix.toNat / 86400 := by
    apply Int.bmod_eq_of_le <;> omega
  have hz : z = days + 719468 := rfl
  have hera : era = z / 146097 := rfl
  have hdoe : doe = z % 146097 := rfl
  have hyoe : yoe = (doe - doe.tdiv 1460 + doe.tdiv 36524 - doe.tdiv 146096).tdiv 365 := rfl
  have hdoy : doy = doe - (365 * yoe + yoe.tdiv 4 - yoe.tdiv 100) := rfl
  have hmp : mp = (5 * doy + 2).tdiv 153 := rfl
  have hday : day = doy - (153 * mp + 2).tdiv 5 + 1 := rfl
  have hmonth : month = if mp < 10 then mp + 3 else mp - 9 := rfl
  have hyear : year = yoe + era * 400 + if month ≤ 2 then 1 else 0 := rfl
  clear_value days z era doe yoe doy mp day month year
  -- nothing is negative, so truncated divisions round down
  have htdiv (n : ℤ) (hn : 0 ≤ n) (k : ℤ) : n.tdiv k = n / k := Int.tdiv_eq_ediv_of_nonneg hn
  have hdoe0 : 0 ≤ doe := by omega
  rw [htdiv doe hdoe0, htdiv doe hdoe0, htdiv doe hdoe0, htdiv _ (by omega)] at hyoe
  have hyoe0 : 0 ≤ yoe := by omega
  rw [htdiv yoe hyoe0, htdiv yoe hyoe0] at hdoy
  obtain ⟨hyoes, hdoy0, hhigh⟩ := doy_bounds era hdoe0 (by omega) hyoe hdoy
  have hdoy365 : doy ≤ 365 := by omega
  rw [htdiv _ (by omega)] at hmp
  rw [htdiv _ (by omega)] at hday
  obtain ⟨hmonths, hlength, hsum⟩ := month_bounds hdoy0 hhigh hmp hmonth hyear hday
  have hcount : days + 719468 = 146097 * era + (365 * yoe + yoe / 4 - yoe / 100) + doy := by omega
  have hstart := le_year (by omega) hyoes ⟨hdoy0, hdoy365⟩ hmp hmonth hyear
  have hdaysTo := daysTo_eq hyoes.1 hyoes.2 hcount hyear hstart hlength.1 hsum
  refine ⟨year, month.toNat, day.toNat, ?_, by omega, by omega, hstart, by omega⟩
  rw [htdiv doe hdoe0, htdiv doe hdoe0, htdiv doe hdoe0, htdiv yoe hyoe0, htdiv yoe hyoe0,
    htdiv (153 * mp + 2) (by omega), if_pos]
  · simp only [Option.some.injEq, Prod.mk.injEq, true_and]
    omega
  · simp only [List.all_cons, List.all_nil, fitsI64, Bool.and_eq_true, decide_eq_true_eq, and_true]
    clear hsum hmonth hhigh hyoe
    omega

end Calendar
end Wildbloom
