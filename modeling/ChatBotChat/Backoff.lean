/-
The backoff behind a `waiting_user` sentinel and behind a busy counterpart.

It is `base · 1.5ⁿ`, rounded half up and capped at a minute, for the full minutes `n`
past the fifth.  In exact arithmetic it grows with `n` and with the base; but `n` is
cast from 64 to 32 bits first, and from `n = 2³¹` on the cast is negative: the backoff
falls below its base, and grows anew once `n` has run through all 32 bits.

* `scaleBackoff_eq_floor` — the rounded product, as a rational;
* `backoff_decays_iff` — the backoff keeps its bounds and never falls exactly before
  the cast wraps, and again when it has come round and reached the cap.
-/
import ChatBotChat.Waiter
import ChatBotChat.Rfc3339.Calendar
import Mathlib.Data.Rat.Floor
import Mathlib.Algebra.Order.Field.Power
import Mathlib.Tactic.Positivity
import Mathlib.Tactic.FieldSimp
import Mathlib.Tactic.Ring

namespace ChatBotChat

variable {b b' : ℕ} {e e' n n' : ℤ}

/-! ### The rounded product -/

/-- **The product in exact arithmetic**, rounded half up. -/
theorem scaleBackoff_eq_floor (base : ℕ) (n : ℤ) :
    scaleBackoff base n = ⌊(base : ℚ) * (3 / 2) ^ n + 1 / 2⌋₊ := by
  unfold scaleBackoff
  split_ifs with hn
  · obtain ⟨k, rfl⟩ := Int.eq_ofNat_of_zero_le hn
    have hratio : (base : ℚ) * (3 / 2) ^ (k : ℤ) + 1 / 2 =
        ((2 * (base * 3 ^ k) + 2 ^ k : ℕ) : ℚ) / ((2 * 2 ^ k : ℕ) : ℚ) := by
      rw [zpow_natCast, div_pow]
      push_cast
      field_simp
    rw [Int.toNat_natCast, hratio, Rat.natFloor_natCast_div_natCast]
  · obtain ⟨k, hk⟩ := Int.eq_ofNat_of_zero_le (show 0 ≤ -n by omega)
    obtain rfl : n = -(k : ℤ) := by omega
    have hratio : (base : ℚ) * (3 / 2) ^ (-(k : ℤ)) + 1 / 2 =
        ((2 * (base * 2 ^ k) + 3 ^ k : ℕ) : ℚ) / ((2 * 3 ^ k : ℕ) : ℚ) := by
      rw [zpow_neg, zpow_natCast, div_pow]
      push_cast
      field_simp
    rw [neg_neg, Int.toNat_natCast, hratio, Rat.natFloor_natCast_div_natCast]

/-- It grows with the base and with the exponent. -/
theorem scaleBackoff_mono (hbase : b ≤ b') (hn : n ≤ n') : scaleBackoff b n ≤ scaleBackoff b' n' := by
  rw [scaleBackoff_eq_floor, scaleBackoff_eq_floor]
  have hpow : (3 / 2 : ℚ) ^ n ≤ (3 / 2) ^ n' := zpow_le_zpow_right₀ (by norm_num) hn
  have hcast : (b : ℚ) ≤ b' := Nat.cast_le.mpr hbase
  refine Nat.floor_mono ?_
  gcongr

theorem scaleBackoff_zero (base : ℕ) : scaleBackoff base 0 = base := by
  show (2 * (base * 1) + 1) / 2 = base
  omega

/-! ### The cast -/

/-- Full minutes past the fifth. -/
def stepsPast (e : ℤ) : ℤ := max (e - 300) 0 / 60

theorem castI32_of_lt (h : 0 ≤ n) (hlt : n < 2147483648) : castI32 n = n := by
  rw [castI32, Int.bmod_def]
  omega

/-- Past the sign bit the exponent is negative. -/
theorem castI32_of_sign (h : 2147483648 ≤ n) (hlt : n < 4294967296) :
    castI32 n = n - 4294967296 := by
  rw [castI32, Int.bmod_def]
  omega

theorem castI32_of_round (h : 4294967296 ≤ n) (hlt : n < 6442450944) :
    castI32 n = n - 4294967296 := by
  rw [castI32, Int.bmod_def]
  omega

theorem stepsPast_nonneg (e : ℤ) : 0 ≤ stepsPast e := by
  unfold stepsPast
  omega

theorem stepsPast_mono (h : e' ≤ e) : stepsPast e' ≤ stepsPast e := by
  unfold stepsPast
  omega

/-! ### The backoff -/

/-- The backoff of the first five minutes. -/
def Severity.base : Severity → ℕ
  | .low => 10
  | .med => 20
  | .high => 45

theorem backoffSecs_toNat (severity : Severity) (e : ℤ) : (backoffSecs severity e).toNat =
    min (scaleBackoff severity.base (castI32 (stepsPast e))) 60 := by
  have hsame : backoffSecs severity e = UInt32.ofNat
      (min (min (scaleBackoff severity.base (castI32 (stepsPast e))) 4294967295) 60) := by
    cases severity <;> rfl
  rw [hsame, UInt32.toNat_ofNat']
  omega

/-- What is said of the backoff behind `e` seconds: it lies between its base and a
minute, is its base for the first six minutes, has not been larger before, and is in the
order of the severities. -/
structure Decays (e : ℤ) : Prop where
  bounds : ∀ severity : Severity, severity.base ≤ (backoffSecs severity e).toNat ∧
    (backoffSecs severity e).toNat ≤ 60
  flat : e < 360 → ∀ severity : Severity, (backoffSecs severity e).toNat = severity.base
  grows : ∀ severity : Severity, ∀ e' ≤ e,
    (backoffSecs severity e').toNat ≤ (backoffSecs severity e).toNat
  ordered : (backoffSecs .low e).toNat ≤ (backoffSecs .med e).toNat ∧
    (backoffSecs .med e).toNat ≤ (backoffSecs .high e).toNat

theorem base_spec (severity : Severity) : 10 ≤ severity.base ∧ severity.base ≤ 60 := by
  cases severity <;> decide

/-- At any exponent, wrapped or not, a higher severity waits longer. -/
theorem backoffSecs_ordered (e : ℤ) : (backoffSecs .low e).toNat ≤ (backoffSecs .med e).toNat ∧
    (backoffSecs .med e).toNat ≤ (backoffSecs .high e).toNat := by
  simp only [backoffSecs_toNat]
  exact ⟨min_le_min_right _ (scaleBackoff_mono (by decide) le_rfl),
    min_le_min_right _ (scaleBackoff_mono (by decide) le_rfl)⟩

/-- Five steps take every severity to the cap. -/
theorem capped_of_five_le (severity : Severity) (h : 5 ≤ castI32 (stepsPast e)) :
    (backoffSecs severity e).toNat = 60 := by
  rw [backoffSecs_toNat]
  have hfive : scaleBackoff 10 5 ≤ scaleBackoff severity.base (castI32 (stepsPast e)) :=
    scaleBackoff_mono (base_spec severity).1 h
  have hvalue : scaleBackoff 10 5 = 76 := by decide
  omega

/-- A negative exponent takes every severity below its base. -/
theorem below_of_neg (severity : Severity) (h : castI32 (stepsPast e) < 0) :
    (backoffSecs severity e).toNat < severity.base := by
  rw [backoffSecs_toNat]
  have hmono : scaleBackoff severity.base (castI32 (stepsPast e)) ≤ scaleBackoff severity.base (-1) :=
    scaleBackoff_mono le_rfl (by omega)
  have hless : scaleBackoff severity.base (-1) < severity.base := by cases severity <;> decide
  exact (min_le_left _ _).trans_lt (hmono.trans_lt hless)

/-- As long as the cast keeps the steps, the backoff decays. -/
theorem decays_of_lt (h : stepsPast e < 2147483648) : Decays e := by
  have hexp : ∀ e' ≤ e, castI32 (stepsPast e') = stepsPast e' := fun e' he =>
    castI32_of_lt (stepsPast_nonneg e') ((stepsPast_mono he).trans_lt h)
  constructor
  case bounds =>
    intro severity
    have hmono : scaleBackoff severity.base 0 ≤ scaleBackoff severity.base (stepsPast e) :=
      scaleBackoff_mono le_rfl (stepsPast_nonneg e)
    rw [scaleBackoff_zero] at hmono
    have hbase := base_spec severity
    rw [backoffSecs_toNat, hexp e le_rfl]
    omega
  case flat =>
    intro hearly severity
    have hzero : stepsPast e = 0 := by
      unfold stepsPast
      omega
    have hbase := base_spec severity
    rw [backoffSecs_toNat, hexp e le_rfl, hzero, scaleBackoff_zero]
    omega
  case grows =>
    intro severity e' he
    rw [backoffSecs_toNat, backoffSecs_toNat, hexp e le_rfl, hexp e' he]
    exact min_le_min_right _ (scaleBackoff_mono le_rfl (stepsPast_mono he))
  case ordered => exact backoffSecs_ordered e

/-- When all severities are at the cap, nothing has been larger. -/
theorem decays_of_capped (h : 5 ≤ castI32 (stepsPast e)) : Decays e := by
  have hcap : ∀ severity : Severity, (backoffSecs severity e).toNat = 60 := fun severity =>
    capped_of_five_le severity h
  constructor
  case bounds =>
    intro severity
    rw [hcap]
    exact ⟨(base_spec severity).2, le_rfl⟩
  case flat =>
    intro hearly
    have hzero : stepsPast e = 0 := by
      unfold stepsPast
      omega
    rw [hzero] at h
    exact absurd h (by decide)
  case grows =>
    intro severity e' _
    rw [hcap, backoffSecs_toNat]
    exact min_le_right _ _
  case ordered => exact backoffSecs_ordered e

/-- **The backoff keeps its bounds and never falls**, behind any time that two
timestamps of four-digit years can be apart, exactly if its steps fit into 31 bits, or
are five at least past 32 bits. -/
theorem backoff_decays_iff (a b : OffsetDateTime) (ha : a.FourDigitYear) (hb : b.FourDigitYear) :
    Decays (Rfc3339.Duration.wholeSeconds (a - b)) ↔
      Rfc3339.Duration.wholeSeconds (a - b) < 300 + 60 * 2147483648 ∨
        300 + 60 * (4294967296 + 5) ≤ Rfc3339.Duration.wholeSeconds (a - b) := by
  have hrange := ha.wholeSeconds_sub_lt hb
  generalize Rfc3339.Duration.wholeSeconds (a - b) = e at *
  have hround : stepsPast e < 6442450944 := by
    unfold stepsPast
    omega
  constructor
  · intro hdecays
    by_contra hnot
    rw [not_or, not_lt, not_le] at hnot
    have hsign : 2147483648 ≤ stepsPast e := by
      unfold stepsPast
      omega
    rcases lt_or_ge (stepsPast e) 4294967296 with hlt | hge
    · -- the exponent is negative
      have hneg : castI32 (stepsPast e) < 0 := by
        rw [castI32_of_sign hsign hlt]
        omega
      have hbelow := below_of_neg .low hneg
      have hbase := (hdecays.bounds .low).1
      omega
    · -- the exponent starts from nought again, and ten minutes had reached the cap
      have hfew : castI32 (stepsPast e) ≤ 4 := by
        rw [castI32_of_round hge hround]
        unfold stepsPast
        omega
      have hten : (backoffSecs .low 600).toNat = 60 := by decide
      have hgrows := hdecays.grows .low 600 (by omega)
      have hless : scaleBackoff 10 (castI32 (stepsPast e)) ≤ scaleBackoff 10 4 :=
        scaleBackoff_mono le_rfl hfew
      have hvalue : scaleBackoff 10 4 = 51 := by decide
      rw [hten, backoffSecs_toNat] at hgrows
      have hbase : Severity.base .low = 10 := rfl
      rw [hbase] at hgrows
      omega
  · rintro (hlt | hge)
    · refine decays_of_lt ?_
      unfold stepsPast
      omega
    · have hfive : 4294967296 + 5 ≤ stepsPast e := by
        unfold stepsPast
        omega
      refine decays_of_capped ?_
      rw [castI32_of_round (by omega) hround]
      omega

/-- A sentinel of the last hour. -/
theorem backoff_decays_iff_hour :
    Decays (Rfc3339.Duration.wholeSeconds (Rfc3339.Duration.hours 1 - (0 : OffsetDateTime))) :=
  (backoff_decays_iff (Rfc3339.Duration.hours 1) 0 (by decide) (by decide)).mpr (.inl (by decide))

/-- A sentinel of the year 2, read in the year 8168, is waited for seven seconds. -/
theorem not_backoff_decays : ¬ ∀ a b : OffsetDateTime, a.FourDigitYear → b.FourDigitYear →
    Decays (Rfc3339.Duration.wholeSeconds (a - b)) := by
  intro h
  have hdecays := h (Rfc3339.Duration.seconds 195600000000) (Rfc3339.Duration.seconds (-62098038000))
    (by decide) (by decide)
  have hbase := (hdecays.bounds .low).1
  revert hbase
  decide

end ChatBotChat
