/-
The RFC 3339 text of an instant.

An instant is a whole number of nanoseconds since the Unix epoch, in UTC.  Its
text is `YYYY-MM-DDTHH:MM:SS`, then the fraction of the second without its
trailing zeros (and without the point when the fraction is zero), then `Z`.
Days are counted from 0000-01-01 of the proleptic Gregorian calendar; the year
of a day is the one whose days contain it (`daysBeforeYear`), and the month is
read off the running totals of a common or a leap year.
-/
import Mathlib.Algebra.Order.Group.Int
import Mathlib.Data.List.DropRight

namespace Rfc3339

/-- Nanoseconds since 1970-01-01T00:00:00Z. -/
abbrev Instant : Type := ℤ

/-- A difference of two instants, in nanoseconds. -/
abbrev Duration : Type := ℤ

namespace Duration

def seconds (n : ℤ) : Duration := n * 1000000000
def minutes (n : ℤ) : Duration := seconds (n * 60)
def hours (n : ℤ) : Duration := minutes (n * 60)
def days (n : ℤ) : Duration := hours (n * 24)

/-- Whole seconds, rounded towards zero. -/
def wholeSeconds (d : Duration) : ℤ := d.tdiv 1000000000

end Duration

/-! ### The calendar -/

/-- Days of the years `0, …, y - 1`. -/
def daysBeforeYear (y : ℤ) : ℤ := 365 * y + (y + 3) / 4 - (y + 99) / 100 + (y + 399) / 400

/-- The year that contains day `n`: the mean year length gives it up to one. -/
def yearOfDay (n : ℤ) : ℤ :=
  let y := n * 400 / 146097
  if n < daysBeforeYear y then y - 1
  else if daysBeforeYear (y + 1) ≤ n then y + 1
  else y

def isLeapYear (y : ℤ) : Bool := y % 4 = 0 && (y % 100 ≠ 0 || y % 400 = 0)

/-- Days of a common or leap year before each month, January first. -/
def daysBeforeMonth (leap : Bool) (m : ℕ) : ℤ :=
  let l : ℤ := if leap then 1 else 0
  match m with
  | 0 => 0 | 1 => 0 | 2 => 31 | 3 => 59 + l | 4 => 90 + l | 5 => 120 + l | 6 => 151 + l
  | 7 => 181 + l | 8 => 212 + l | 9 => 243 + l | 10 => 273 + l | 11 => 304 + l | _ => 334 + l

/-- The last month from `m` downwards that starts at or before `doy`. -/
def monthFrom (leap : Bool) (doy : ℤ) : ℕ → ℕ
  | 0 => 1
  | 1 => 1
  | m + 2 => if daysBeforeMonth leap (m + 2) ≤ doy then m + 2 else monthFrom leap doy (m + 1)

structure Date where
  year : ℤ
  month : ℕ
  day : ℤ
deriving DecidableEq

/-- The date of day `n`. -/
def dateOfDay (n : ℤ) : Date :=
  let y := yearOfDay n
  let doy := n - daysBeforeYear y
  let m := monthFrom (isLeapYear y) doy 12
  ⟨y, m, doy - daysBeforeMonth (isLeapYear y) m + 1⟩

/-! ### Instants -/

namespace Instant

/-- Seconds since the epoch, rounded down. -/
def second (t : Instant) : ℤ := t / 1000000000

/-- The fraction of the second. -/
def nanosecond (t : Instant) : ℕ := (t % 1000000000).toNat

end Instant

/-- The day of a second since the epoch, counted from 0000-01-01. -/
def dayOfSecond (s : ℤ) : ℤ := s / 86400 + 719528

/-- The second of the day. -/
def secondOfDay (s : ℤ) : ℕ := (s % 86400).toNat

/-- The date on which an instant falls. -/
def Instant.date (t : Instant) : Date := dateOfDay (dayOfSecond t.second)

/-- The instants that have a text: years of four digits. -/
def Instant.FourDigitYear (t : Instant) : Prop := 0 ≤ t.date.year ∧ t.date.year ≤ 9999

instance (t : Instant) : Decidable t.FourDigitYear :=
  inferInstanceAs (Decidable (_ ∧ _))

/-! ### The text -/

/-- The last `w` decimal digits of `n`, leading zeros included. -/
def padDigits : ℕ → ℕ → List Char
  | 0, _ => []
  | w + 1, n => padDigits w (n / 10) ++ [Nat.digitChar (n % 10)]

/-- `YYYY-MM-DDTHH:MM:SS` for a second since the epoch. -/
def secondText (s : ℤ) : List Char :=
  let d := dateOfDay (dayOfSecond s)
  let sod := secondOfDay s
  padDigits 4 d.year.toNat ++ '-' :: (padDigits 2 d.month ++ '-' :: (padDigits 2 d.day.toNat ++
    'T' :: (padDigits 2 (sod / 3600) ++ ':' :: (padDigits 2 (sod / 60 % 60) ++
      ':' :: padDigits 2 (sod % 60)))))

/-- The digits of a fraction of a second, trailing zeros dropped. -/
def fractionDigits (ns : ℕ) : List Char := (padDigits 9 ns).rdropWhile (· = '0')

/-- The fraction with its point, nothing when it is zero, and the closing `Z`. -/
def fractionText (ns : ℕ) : List Char :=
  match fractionDigits ns with
  | [] => ['Z']
  | ds => '.' :: (ds ++ ['Z'])

/-- The text of an instant. -/
def format (t : Instant) : String :=
  String.ofList (secondText t.second ++ fractionText t.nanosecond)

example : format 0 = "1970-01-01T00:00:00Z" := by decide
example : format 1709210096500000000 = "2024-02-29T12:34:56.5Z" := by decide

end Rfc3339
