/-
The calendar in order.

* `yearOfDay_spec`, `monthFrom_spec` — a day lies in its year and its month;
* `date_lt` — later days have later dates, field by field.
-/
import ChatBotChat.Rfc3339.Text

namespace Rfc3339

/-! ### Years -/

theorem daysBeforeYear_mono {y y' : ℤ} (h : y ≤ y') : daysBeforeYear y ≤ daysBeforeYear y' := by
  unfold daysBeforeYear
  omega

/-- A year has at most 366 days. -/
theorem daysBeforeYear_succ_le (y : ℤ) : daysBeforeYear (y + 1) ≤ daysBeforeYear y + 366 := by
  unfold daysBeforeYear
  omega

/-- **A day lies in its year.** -/
theorem yearOfDay_spec (n : ℤ) :
    daysBeforeYear (yearOfDay n) ≤ n ∧ n < daysBeforeYear (yearOfDay n + 1) := by
  have hlow : 146097 * (n * 400 / 146097) ≤ n * 400 := by omega
  have hhigh : n * 400 < 146097 * (n * 400 / 146097) + 146097 := by omega
  simp only [yearOfDay]
  -- the mean year is right up to one
  generalize n * 400 / 146097 = y at *
  split_ifs with hbefore hafter
  · rw [Int.sub_add_cancel]
    refine ⟨?_, hbefore⟩
    unfold daysBeforeYear
    omega
  · refine ⟨hafter, ?_⟩
    unfold daysBeforeYear
    omega
  · omega

theorem yearOfDay_mono {n n' : ℤ} (h : n ≤ n') : yearOfDay n ≤ yearOfDay n' := by
  by_contra hlt
  have hle := daysBeforeYear_mono (show yearOfDay n' + 1 ≤ yearOfDay n by omega)
  have hn := (yearOfDay_spec n).1
  have hn' := (yearOfDay_spec n').2
  omega

/-! ### Months -/

/-- **A day of the year lies in its month**: no month up to `k` starts between the
month and the day. -/
theorem monthFrom_spec (leap : Bool) {doy : ℤ} (hdoy : 0 ≤ doy) (k : ℕ) :
    1 ≤ monthFrom leap doy k ∧ monthFrom leap doy k ≤ max k 1 ∧
      daysBeforeMonth leap (monthFrom leap doy k) ≤ doy ∧
      ∀ j, monthFrom leap doy k < j → j ≤ k → doy < daysBeforeMonth leap j := by
  fun_induction monthFrom leap doy k with
  | case1 => exact ⟨le_rfl, le_max_right _ _, hdoy, fun j hj hk => by omega⟩
  | case2 => exact ⟨le_rfl, le_max_right _ _, hdoy, fun j hj hk => by omega⟩
  | case3 m hle => exact ⟨by omega, by omega, hle, fun j hj hk => by omega⟩
  | case4 m hgt ih =>
    obtain ⟨hone, hmax, hstart, hnone⟩ := ih
    refine ⟨hone, by omega, hstart, fun j hj hk => ?_⟩
    by_cases hlast : j = m + 2
    · rw [hlast]
      omega
    · exact hnone j hj (by omega)

/-- No month is longer than 31 days, the rest of the year included. -/
theorem daysBeforeMonth_succ_le (leap : Bool) {m : ℕ} (hm : m < 12) :
    daysBeforeMonth leap (m + 1) ≤ daysBeforeMonth leap m + 31 := by
  have hall : ∀ leap, ∀ m < 12, daysBeforeMonth leap (m + 1) ≤ daysBeforeMonth leap m + 31 := by
    decide
  exact hall leap m hm

/-! ### Dates -/

/-- The day of the year. -/
def dayOfYear (n : ℤ) : ℤ := n - daysBeforeYear (yearOfDay n)

theorem dayOfYear_spec (n : ℤ) : 0 ≤ dayOfYear n ∧ dayOfYear n ≤ 365 := by
  have hspec := yearOfDay_spec n
  have hlen := daysBeforeYear_succ_le (yearOfDay n)
  rw [dayOfYear]
  omega

theorem dateOfDay_eq (n : ℤ) : dateOfDay n =
    ⟨yearOfDay n, monthFrom (isLeapYear (yearOfDay n)) (dayOfYear n) 12,
      dayOfYear n - daysBeforeMonth (isLeapYear (yearOfDay n))
        (monthFrom (isLeapYear (yearOfDay n)) (dayOfYear n) 12) + 1⟩ := rfl

/-- The month and the day of the month have two digits. -/
theorem dateOfDay_fields (n : ℤ) : (dateOfDay n).month < 100 ∧ 1 ≤ (dateOfDay n).day ∧
    (dateOfDay n).day < 100 := by
  obtain ⟨hlow, hhigh⟩ := dayOfYear_spec n
  obtain ⟨hone, hmax, hstart, hnone⟩ := monthFrom_spec (isLeapYear (yearOfDay n)) hlow 12
  rw [dateOfDay_eq]
  dsimp only
  generalize monthFrom (isLeapYear (yearOfDay n)) (dayOfYear n) 12 = m at *
  generalize isLeapYear (yearOfDay n) = leap at *
  have hmonth : m ≤ 12 := by simpa using hmax
  refine ⟨by omega, by omega, ?_⟩
  by_cases hlast : m = 12
  · -- December: what is left of the year
    have hdec : daysBeforeMonth leap 12 ≥ 334 := by cases leap <;> decide
    subst hlast
    omega
  · have hnext := hnone (m + 1) (by omega) (by omega)
    have hlen := daysBeforeMonth_succ_le leap (show m < 12 by omega)
    omega

/-- **Later days have later dates**: the first field that differs is larger. -/
theorem date_lt {n n' : ℤ} (h : n < n') : (dateOfDay n).year < (dateOfDay n').year ∨
    (dateOfDay n).year = (dateOfDay n').year ∧ ((dateOfDay n).month < (dateOfDay n').month ∨
      (dateOfDay n).month = (dateOfDay n').month ∧ (dateOfDay n).day < (dateOfDay n').day) := by
  have hyear := yearOfDay_mono (le_of_lt h)
  rw [dateOfDay_eq, dateOfDay_eq]
  dsimp only
  rcases lt_or_eq_of_le hyear with hlt | heq
  · exact .inl hlt
  · refine .inr ⟨heq, ?_⟩
    have hdoy : dayOfYear n < dayOfYear n' := by
      rw [dayOfYear, dayOfYear, heq]
      omega
    obtain ⟨hlow, -⟩ := dayOfYear_spec n
    obtain ⟨hlow', -⟩ := dayOfYear_spec n'
    rw [heq]
    obtain ⟨-, hmax, hstart, -⟩ := monthFrom_spec (isLeapYear (yearOfDay n')) hlow 12
    obtain ⟨-, -, -, hnone'⟩ := monthFrom_spec (isLeapYear (yearOfDay n')) hlow' 12
    generalize monthFrom (isLeapYear (yearOfDay n')) (dayOfYear n) 12 = m at *
    generalize monthFrom (isLeapYear (yearOfDay n')) (dayOfYear n') 12 = m' at *
    have hmonth : m ≤ 12 := by simpa using hmax
    rcases Nat.lt_trichotomy m m' with hlt | rfl | hgt
    · exact .inl hlt
    · exact .inr ⟨rfl, by omega⟩
    · -- the later day would lie before the month of the earlier one
      have hcontra := hnone' m hgt hmonth
      omega

/-! ### Years of four digits -/

/-- The days of the years of four digits. -/
theorem Instant.FourDigitYear.day {t : Instant} (h : t.FourDigitYear) :
    0 ≤ dayOfSecond t.second ∧ dayOfSecond t.second < 3652425 := by
  obtain ⟨hlow, hhigh⟩ := yearOfDay_spec (dayOfSecond t.second)
  have hlast : t.date.year + 1 ≤ 10000 := Int.add_le_add_right h.2 1
  have hzero : daysBeforeYear 0 = 0 := by decide
  have hend : daysBeforeYear 10000 = 3652425 := by decide
  constructor
  · rw [← hzero]
    exact (daysBeforeYear_mono h.1).trans hlow
  · rw [← hend]
    exact hhigh.trans_le (daysBeforeYear_mono hlast)

/-- Two of them are less than ten thousand years apart. -/
theorem Instant.FourDigitYear.wholeSeconds_sub_lt {a b : Instant} (ha : a.FourDigitYear)
    (hb : b.FourDigitYear) : Duration.wholeSeconds (a - b) < 315569520000 := by
  have hday := ha.day
  have hday' := hb.day
  have hle : a - b ≤ 315569520000 * 1000000000 - 1 := by
    unfold dayOfSecond Instant.second at hday hday'
    show @LE.le ℤ _ ((a : ℤ) - b) _
    omega
  have hdiv : (a - b).tdiv 1000000000 ≤ Int.tdiv (315569520000 * 1000000000 - 1) 1000000000 :=
    Int.tdiv_le_tdiv (by decide) hle
  have hlast : Int.tdiv (315569520000 * 1000000000 - 1) 1000000000 = 315569519999 := by decide
  rw [Duration.wholeSeconds]
  omega

end Rfc3339
