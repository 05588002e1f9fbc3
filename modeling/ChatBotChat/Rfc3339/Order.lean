/-
The order of the texts and the order of the instants.

The fields down to the second have fixed widths and are compared as numbers
are.  The fraction has not: an instant whose digits are those of another, cut
off behind some digit, is compared by what comes next, and the closing `Z` sorts
behind every digit and the point before it.

* `format_lt_format` — the texts of two instants of four-digit years are ordered
  as the instants are, unless the earlier one is a cut of the later one, and
  then the other way round.
-/
import ChatBotChat.Rfc3339.Digits
import ChatBotChat.Rfc3339.Calendar
import Mathlib.Tactic.IntervalCases
import Mathlib.Algebra.Order.Ring.Int

namespace Rfc3339

/-! ### Down to the second -/

/-- Two texts that go on behind a field: the field decides, or the rest does. -/
theorem field_lt_field {w n n' : ℕ} {c : Char} {y y' : List Char} (hn' : n' < 10 ^ w)
    (h : n < n' ∨ n = n' ∧ y < y') : padDigits w n ++ c :: y < padDigits w n' ++ c :: y' := by
  rcases h with hlt | ⟨rfl, hlt⟩
  · exact append_lt_append _ _ (by simp) (padDigits_lt_padDigits hlt hn')
  · rw [append_lt_append_left, cons_lt_cons_self]
    exact hlt

@[simp] theorem secondText_length (s : ℤ) : (secondText s).length = 19 := by
  simp [secondText]

/-- The time of day is in order. -/
theorem timeText_lt {n n' : ℕ} (h : n < n') (hn' : n' < 86400) :
    padDigits 2 (n / 3600) ++ ':' :: (padDigits 2 (n / 60 % 60) ++ ':' :: padDigits 2 (n % 60)) <
      padDigits 2 (n' / 3600) ++ ':' ::
        (padDigits 2 (n' / 60 % 60) ++ ':' :: padDigits 2 (n' % 60)) := by
  refine field_lt_field (by omega) ?_
  by_cases hhour : n / 3600 < n' / 3600
  · exact .inl hhour
  · refine .inr ⟨by omega, field_lt_field (by omega) ?_⟩
    by_cases hminute : n / 60 % 60 < n' / 60 % 60
    · exact .inl hminute
    · exact .inr ⟨by omega, padDigits_lt_padDigits (by omega) (by omega)⟩

/-- **Down to the second the texts are in order.** -/
theorem secondText_lt {s s' : ℤ} (h : s < s') (hyear : 0 ≤ (dateOfDay (dayOfSecond s)).year)
    (hyear' : (dateOfDay (dayOfSecond s')).year ≤ 9999) : secondText s < secondText s' := by
  obtain ⟨-, hday, -⟩ := dateOfDay_fields (dayOfSecond s)
  obtain ⟨hmonth', hday', hdays'⟩ := dateOfDay_fields (dayOfSecond s')
  rw [secondText, secondText]
  by_cases hsame : dayOfSecond s = dayOfSecond s'
  · -- one date, and a later second of the day
    rw [hsame]
    refine field_lt_field (by omega) (.inr ⟨rfl, field_lt_field (by omega) (.inr ⟨rfl, ?_⟩)⟩)
    refine field_lt_field (by omega) (.inr ⟨rfl, timeText_lt ?_ ?_⟩)
    all_goals
      unfold secondOfDay dayOfSecond at *
      omega
  · have hlater : dayOfSecond s < dayOfSecond s' := by
      unfold dayOfSecond at *
      omega
    refine field_lt_field (by omega) ?_
    rcases date_lt hlater with hy | ⟨hy, hm | ⟨hm, hd⟩⟩
    · exact .inl (by omega)
    · exact .inr ⟨by omega, field_lt_field (by omega) (.inl hm)⟩
    · refine .inr ⟨by omega, field_lt_field (by omega) (.inr ⟨hm, ?_⟩)⟩
      exact field_lt_field (by omega) (.inl (by omega))

/-! ### The fraction -/

/-- The digits of a fraction are its nine digits without the zeros at their end. -/
theorem padDigits_eq_fractionDigits (n : ℕ) :
    ∃ k, padDigits 9 n = fractionDigits n ++ List.replicate k '0' := by
  have hzeros : ∀ c ∈ (padDigits 9 n).rtakeWhile (· = '0'), c = '0' := by
    intro c hc
    simpa using List.mem_rtakeWhile_imp hc
  refine ⟨((padDigits 9 n).rtakeWhile (· = '0')).length, ?_⟩
  rw [← List.eq_replicate_of_mem hzeros, fractionDigits, List.rdropWhile_append_rtakeWhile]

theorem isDigit_of_mem_fractionDigits {n : ℕ} {c : Char} (h : c ∈ fractionDigits n) : IsDigit c :=
  isDigit_of_mem_padDigits ((List.rdropWhile_prefix _ _).subset h)

theorem fractionDigits_getLast {n : ℕ} (h : fractionDigits n ≠ []) :
    (fractionDigits n).getLast h ≠ '0' := by
  have hlast := List.rdropWhile_last_not (fun c => decide (c = '0')) (padDigits 9 n) h
  rwa [decide_eq_true_eq] at hlast

theorem fractionText_eq (n : ℕ) : fractionText n =
    if fractionDigits n = [] then ['Z'] else '.' :: (fractionDigits n ++ ['Z']) := by
  unfold fractionText
  split
  · rename_i hnil
    rw [if_pos hnil]
  · rename_i hne
    rw [if_neg hne]

/-- Nothing but zeros is the smallest text of its length. -/
theorem zeros_lt : ∀ {x : List Char}, (∀ c ∈ x, IsDigit c) → (∃ c ∈ x, c ≠ '0') →
    List.replicate x.length '0' < x := by
  intro x
  induction x with
  | nil =>
    rintro - ⟨c, hc, -⟩
    cases hc
  | cons a x ih =>
    intro hdigits hnonzero
    rw [List.length_cons, List.replicate_succ, List.cons_lt_cons_iff]
    by_cases ha : a = '0'
    · refine .inr ⟨ha.symm, ih (fun c hc => hdigits c (List.mem_cons_of_mem _ hc)) ?_⟩
      obtain ⟨c, hc, hne⟩ := hnonzero
      rcases List.mem_cons.mp hc with rfl | hc
      · exact absurd ha hne
      · exact ⟨c, hc, hne⟩
    · exact .inl (lt_of_le_of_ne (hdigits a List.mem_cons_self).1 (Ne.symm ha))

theorem lt_of_padDigits_lt {w n n' : ℕ} (hn : n < 10 ^ w) (h : padDigits w n < padDigits w n') :
    n < n' := by
  rcases Nat.lt_trichotomy n n' with hlt | rfl | hlt
  · exact hlt
  · exact absurd h (List.lt_irrefl _)
  · exact absurd (padDigits_lt_padDigits hlt hn) (List.lt_asymm h)

/-- A fraction that starts another is smaller. -/
theorem lt_of_prefix {n n' : ℕ} (hn : n < 10 ^ 9) (hne : fractionDigits n ≠ fractionDigits n')
    (h : fractionDigits n <+: fractionDigits n') : n < n' := by
  obtain ⟨y, hy⟩ := h
  obtain ⟨k, hk⟩ := padDigits_eq_fractionDigits n
  obtain ⟨k', hk'⟩ := padDigits_eq_fractionDigits n'
  have hy0 : y ≠ [] := by
    rintro rfl
    rw [List.append_nil] at hy
    exact hne hy
  -- what `n'` has more is not all zeros
  have hnonzero : ∃ c ∈ y ++ List.replicate k' '0', c ≠ '0' := by
    have hne' : fractionDigits n' ≠ [] := by
      rw [← hy]
      exact List.append_ne_nil_of_right_ne_nil _ hy0
    have hlast := fractionDigits_getLast hne'
    refine ⟨(fractionDigits n').getLast hne', List.mem_append_left _ ?_, hlast⟩
    have hmem := List.getLast_mem hy0
    convert hmem using 1
    simp only [← hy, List.getLast_append_of_ne_nil _ hy0]
  rw [← hy, List.append_assoc] at hk'
  have hdigits : ∀ c ∈ y ++ List.replicate k' '0', IsDigit c := by
    intro c hc
    refine isDigit_of_mem_padDigits (w := 9) (n := n') ?_
    rw [hk']
    exact List.mem_append_right _ hc
  have hlen : (y ++ List.replicate k' '0').length = k := by
    have h1 := congrArg List.length hk
    have h2 := congrArg List.length hk'
    rw [padDigits_length, List.length_append, List.length_replicate] at h1
    rw [padDigits_length, List.length_append] at h2
    omega
  refine lt_of_padDigits_lt hn ?_
  rw [hk, hk', append_lt_append_left, ← hlen]
  exact zeros_lt hdigits hnonzero

/-- **A fraction that starts another sorts behind it**: the closing `Z` is compared
with a digit, or with the point. -/
theorem fractionText_lt_of_prefix {n n' : ℕ} (hne : fractionDigits n ≠ fractionDigits n')
    (h : fractionDigits n <+: fractionDigits n') : fractionText n' < fractionText n := by
  obtain ⟨y, hy⟩ := h
  cases y with
  | nil =>
    rw [List.append_nil] at hy
    exact absurd hy hne
  | cons c y =>
    have hne' : fractionDigits n' ≠ [] := by
      rw [← hy]
      exact List.append_ne_nil_of_right_ne_nil _ (List.cons_ne_nil _ _)
    have hdigit : IsDigit c := by
      refine isDigit_of_mem_fractionDigits (n := n') ?_
      rw [← hy]
      exact List.mem_append_right _ List.mem_cons_self
    rw [fractionText_eq, fractionText_eq, if_neg hne']
    by_cases hnil : fractionDigits n = []
    · rw [if_pos hnil, List.cons_lt_cons_iff]
      exact .inl (by decide)
    · rw [if_neg hnil, ← hy, List.append_assoc, List.cons_append, cons_lt_cons_self]
      exact append_cons_lt_append_cons hdigit.lt_Z

/-- Two fractions neither of which starts the other are in order. -/
theorem fractionText_lt_of_not_prefix {n n' : ℕ} (hn' : n' < 10 ^ 9) (hlt : n < n')
    (h : ¬ fractionDigits n <+: fractionDigits n') (h' : ¬ fractionDigits n' <+: fractionDigits n) :
    fractionText n < fractionText n' := by
  obtain ⟨z, a, b, y, y', hz, hz', hab⟩ := exists_first_difference h h'
  have hnil : fractionDigits n ≠ [] := by rw [hz]; simp
  have hnil' : fractionDigits n' ≠ [] := by rw [hz']; simp
  rw [fractionText_eq, fractionText_eq, if_neg hnil, if_neg hnil', cons_lt_cons_self, hz, hz',
    List.append_assoc, List.append_assoc, List.cons_append, List.cons_append]
  refine append_cons_lt_append_cons ?_
  -- the first difference orders the nine digits, and so the numbers
  obtain ⟨k, hk⟩ := padDigits_eq_fractionDigits n
  obtain ⟨k', hk'⟩ := padDigits_eq_fractionDigits n'
  rcases lt_or_gt_of_ne hab with hlt' | hgt
  · exact hlt'
  · have hback : padDigits 9 n' < padDigits 9 n := by
      rw [hk, hk', hz, hz', List.append_assoc, List.append_assoc, List.cons_append,
        List.cons_append]
      exact append_cons_lt_append_cons hgt
    have := lt_of_padDigits_lt hn' hback
    omega

/-! ### Cuts -/

/-- The first digits are those of the number without its last ones. -/
theorem padDigits_add (w k n : ℕ) :
    padDigits (w + k) n = padDigits w (n / 10 ^ k) ++ padDigits k n := by
  induction k generalizing n with
  | zero => simp [padDigits]
  | succ k ih =>
    rw [← Nat.add_assoc, padDigits, ih, padDigits, Nat.div_div_eq_div_mul, Nat.pow_succ,
      Nat.mul_comm 10, List.append_assoc]

theorem padDigits_mul_pow (k n : ℕ) : padDigits k (n * 10 ^ k) = List.replicate k '0' := by
  induction k generalizing n with
  | zero => rfl
  | succ k ih =>
    rw [padDigits, List.replicate_succ', Nat.pow_succ, ← Nat.mul_assoc,
      Nat.mul_div_cancel _ (by decide), ih, Nat.mul_mod_left]
    rfl

/-- The nine digits of a fraction cut off behind all but `k` of them. -/
theorem padDigits_cut {k : ℕ} (hk : k ≤ 9) (n : ℕ) : padDigits 9 (n / 10 ^ k * 10 ^ k) =
    padDigits (9 - k) (n / 10 ^ k) ++ List.replicate k '0' := by
  have hadd := padDigits_add (9 - k) k (n / 10 ^ k * 10 ^ k)
  rwa [Nat.sub_add_cancel hk, Nat.mul_div_cancel _ (Nat.pow_pos (by decide)),
    padDigits_mul_pow] at hadd

/-- Dropping from the end goes into the front part only when the back is gone. -/
theorem rdropWhile_append (p : Char → Bool) (l r : List Char) : (l ++ r).rdropWhile p =
    if r.rdropWhile p = [] then l.rdropWhile p else l ++ r.rdropWhile p := by
  simp only [List.rdropWhile, List.reverse_append, List.dropWhile_append, List.isEmpty_iff,
    List.reverse_eq_nil_iff]
  split_ifs <;> simp

/-- **The digits of a fraction start another's exactly where it is cut off from
it.** -/
theorem fractionDigits_prefix_iff {n n' : ℕ} (hn : n < 10 ^ 9) (hn' : n' < 10 ^ 9) :
    fractionDigits n <+: fractionDigits n' ↔ ∃ k ≤ 9, n = n' / 10 ^ k * 10 ^ k := by
  constructor
  · rintro ⟨y, hy⟩
    obtain ⟨k, hk⟩ := padDigits_eq_fractionDigits n
    obtain ⟨k', hk'⟩ := padDigits_eq_fractionDigits n'
    have hlen := congrArg List.length hk
    rw [padDigits_length, List.length_append, List.length_replicate] at hlen
    refine ⟨k, by omega, ?_⟩
    have hk9 : k ≤ 9 := by omega
    -- both start with the digits that `n` has
    have hsplit := padDigits_add (9 - k) k n'
    rw [Nat.sub_add_cancel hk9, hk', ← hy, List.append_assoc] at hsplit
    have hstart : fractionDigits n = padDigits (9 - k) (n' / 10 ^ k) := by
      refine (List.append_inj hsplit ?_).1
      rw [padDigits_length]
      omega
    have hle : n' / 10 ^ k * 10 ^ k ≤ n' := Nat.div_mul_le_self _ _
    refine padDigits_injective hn (hle.trans_lt hn') ?_
    rw [padDigits_cut hk9, ← hstart, ← hk]
  · rintro ⟨k, hk9, rfl⟩
    have hsplit := padDigits_add (9 - k) k n'
    rw [Nat.sub_add_cancel hk9] at hsplit
    have hnil : (List.replicate k '0').rdropWhile (fun c => decide (c = '0')) = [] := by
      rw [List.rdropWhile_eq_nil_iff]
      intro c hc
      rw [List.eq_of_mem_replicate hc]
      rfl
    rw [fractionDigits, fractionDigits, padDigits_cut hk9, hsplit, rdropWhile_append,
      rdropWhile_append, if_pos hnil]
    split
    · exact List.prefix_refl _
    · exact (List.rdropWhile_prefix _ _).trans (List.prefix_append _ _)

/-- The earlier instant is the later one with its fraction cut off behind some
digit: cut down to whole milliseconds, say, or to whole seconds. -/
def IsCut (a b : Instant) : Prop := a ≠ b ∧ ∃ k ≤ 9, a = b / 10 ^ k * 10 ^ k

instance (a b : Instant) : Decidable (IsCut a b) := inferInstanceAs (Decidable (_ ∧ _))

theorem nanosecond_lt (t : Instant) : t.nanosecond < 10 ^ 9 := by
  unfold Instant.nanosecond
  omega

theorem second_mul_add_nanosecond (t : Instant) :
    t.second * 1000000000 + t.nanosecond = t := by
  unfold Instant.second Instant.nanosecond
  omega

/-- Cutting an instant cuts its nanoseconds. -/
theorem cut_eq {k : ℕ} (hk : k ≤ 9) (t : Instant) : t / 10 ^ k * 10 ^ k =
    t.second * 1000000000 + (t.nanosecond / 10 ^ k * 10 ^ k : ℕ) := by
  have hpow : (1000000000 : ℤ) = 10 ^ (9 - k) * 10 ^ k := by
    rw [← pow_add, Nat.sub_add_cancel hk]
    rfl
  have hpos : (10 : ℤ) ^ k ≠ 0 := by positivity
  have hdiv : t / 10 ^ k = t.second * 10 ^ (9 - k) + (t.nanosecond : ℤ) / 10 ^ k := by
    calc t / 10 ^ k = (t.second * 1000000000 + t.nanosecond) / 10 ^ k := by
          rw [second_mul_add_nanosecond]
      _ = ((t.nanosecond : ℤ) + t.second * 10 ^ (9 - k) * 10 ^ k) / 10 ^ k := by
          rw [hpow, add_comm, mul_assoc]
      _ = t.second * 10 ^ (9 - k) + (t.nanosecond : ℤ) / 10 ^ k := by
          rw [Int.add_mul_ediv_right _ _ hpos, add_comm]
  rw [hdiv, add_mul, mul_assoc, ← hpow]
  push_cast
  rfl

/-- A cut stays in its second, and cuts the nanoseconds. -/
theorem isCut_iff {a b : Instant} : IsCut a b ↔ a ≠ b ∧ a.second = b.second ∧
    ∃ k ≤ 9, a.nanosecond = b.nanosecond / 10 ^ k * 10 ^ k := by
  refine and_congr_right fun _ => ?_
  have hstep : ∀ k ≤ 9, (a = b / 10 ^ k * 10 ^ k ↔ a.second = b.second ∧
      a.nanosecond = b.nanosecond / 10 ^ k * 10 ^ k) := by
    intro k hk
    have hcut := cut_eq hk b
    have hle : b.nanosecond / 10 ^ k * 10 ^ k ≤ b.nanosecond := Nat.div_mul_le_self _ _
    have ha := second_mul_add_nanosecond a
    have hnano := nanosecond_lt a
    have hnano' := nanosecond_lt b
    rw [hcut]
    generalize b.nanosecond / 10 ^ k * 10 ^ k = cut at *
    show @Eq ℤ a _ ↔ _
    omega
  constructor
  · rintro ⟨k, hk, hcut⟩
    obtain ⟨hsecond, hnano⟩ := (hstep k hk).mp hcut
    exact ⟨hsecond, k, hk, hnano⟩
  · rintro ⟨hsecond, k, hk, hnano⟩
    exact ⟨k, hk, (hstep k hk).mpr ⟨hsecond, hnano⟩⟩

theorem IsCut.lt {a b : Instant} (h : IsCut a b) : a < b := by
  obtain ⟨hne, k, hk, hcut⟩ := h
  have hle : a ≤ b := by
    rw [hcut]
    exact Int.ediv_mul_le _ (by positivity)
  exact lt_of_le_of_ne hle hne

/-- A cut in terms of the digits of the two fractions. -/
theorem isCut_iff_prefix {a b : Instant} : IsCut a b ↔ a ≠ b ∧ a.second = b.second ∧
    fractionDigits a.nanosecond <+: fractionDigits b.nanosecond := by
  rw [isCut_iff, fractionDigits_prefix_iff (nanosecond_lt a) (nanosecond_lt b)]

/-! ### The order of the texts -/

/-- The second decides, or the fraction does. -/
theorem format_lt_of_second_lt {a b : Instant} (ha : a.FourDigitYear) (hb : b.FourDigitYear)
    (h : a.second < b.second) : format a < format b := by
  rw [String.lt_iff, format, format, String.toList_ofList, String.toList_ofList]
  exact append_lt_append _ _ (by simp) (secondText_lt h ha.1 hb.2)

/-- Later instants are not in earlier years. -/
theorem year_mono {a b : Instant} (h : a ≤ b) : a.date.year ≤ b.date.year := by
  have hsecond : a.second ≤ b.second := Int.ediv_le_ediv (by decide) h
  have hday : dayOfSecond a.second ≤ dayOfSecond b.second := by
    unfold dayOfSecond
    omega
  exact yearOfDay_mono hday

/-- What lies between two instants of four-digit years is one. -/
theorem Instant.FourDigitYear.between {a b t : Instant} (ha : a.FourDigitYear) (hb : b.FourDigitYear)
    (hat : a ≤ t) (htb : t ≤ b) : t.FourDigitYear :=
  ⟨ha.1.trans (year_mono hat), (year_mono htb).trans hb.2⟩

/-- A second apart, two texts are in order. -/
theorem format_lt_of_add_le {a b : Instant} (ha : a.FourDigitYear) (hb : b.FourDigitYear)
    (h : a + 1000000000 ≤ b) : format a < format b := by
  refine format_lt_of_second_lt ha hb ?_
  have hint : @LE.le ℤ _ (a + 1000000000) b := h
  unfold Instant.second
  omega

theorem format_lt_iff_of_second_eq {a b : Instant} (h : a.second = b.second) :
    format a < format b ↔ fractionText a.nanosecond < fractionText b.nanosecond := by
  rw [String.lt_iff, format, format, String.toList_ofList, String.toList_ofList, h,
    append_lt_append_left]

/-- **The texts of two instants are in order, unless the earlier is a cut of the
later**, and then in the reverse order. -/
theorem format_lt_format {a b : Instant} (ha : a.FourDigitYear) (hb : b.FourDigitYear)
    (hlt : a < b) : (IsCut a b → format b < format a) ∧ (¬ IsCut a b → format a < format b) := by
  have hsplit := second_mul_add_nanosecond a
  have hsplit' := second_mul_add_nanosecond b
  have hnano := nanosecond_lt a
  have hnano' := nanosecond_lt b
  have hint : @LT.lt ℤ _ a b := hlt
  rcases lt_or_ge a.second b.second with hsecond | hsecond
  · refine ⟨fun hcut => ?_, fun _ => format_lt_of_second_lt ha hb hsecond⟩
    rw [isCut_iff] at hcut
    omega
  · have hsame : a.second = b.second := by omega
    have hlt' : a.nanosecond < b.nanosecond := by omega
    have hne : fractionDigits a.nanosecond ≠ fractionDigits b.nanosecond := by
      intro heq
      have hprefix : fractionDigits b.nanosecond <+: fractionDigits a.nanosecond :=
        heq ▸ List.prefix_refl _
      obtain ⟨k, hk, hcut⟩ := (fractionDigits_prefix_iff hnano' hnano).mp hprefix
      have hle : a.nanosecond / 10 ^ k * 10 ^ k ≤ a.nanosecond := Nat.div_mul_le_self _ _
      omega
    rw [format_lt_iff_of_second_eq hsame, format_lt_iff_of_second_eq hsame.symm,
      isCut_iff_prefix]
    refine ⟨fun hcut => fractionText_lt_of_prefix hne hcut.2.2, fun hcut => ?_⟩
    refine fractionText_lt_of_not_prefix hnano' hlt' ?_ ?_
    · exact fun hprefix => hcut ⟨ne_of_lt hlt, hsame, hprefix⟩
    · intro hprefix
      have hback := lt_of_prefix hnano' (Ne.symm hne) hprefix
      omega

/-- **The order of the texts is the order of the instants exactly where neither is
a cut of the other.** -/
theorem format_lt_iff_lt_iff {a b : Instant} (ha : a.FourDigitYear) (hb : b.FourDigitYear) :
    (format a < format b ↔ a < b) ↔ ¬ IsCut a b ∧ ¬ IsCut b a := by
  rcases lt_trichotomy a b with hlt | rfl | hgt
  · have hcut' : ¬ IsCut b a := fun h => absurd h.lt (not_lt_of_gt hlt)
    obtain ⟨hback, hforth⟩ := format_lt_format ha hb hlt
    by_cases hcut : IsCut a b
    · have hnot : ¬ format a < format b := not_lt_of_gt (hback hcut)
      simp [hcut, hlt, hnot]
    · simp [hcut, hcut', hlt, hforth hcut]
  · simp [IsCut]
  · have hcut : ¬ IsCut a b := fun h => absurd h.lt (not_lt_of_gt hgt)
    have hnlt : ¬ a < b := not_lt_of_gt hgt
    obtain ⟨hback, hforth⟩ := format_lt_format hb ha hgt
    by_cases hcut' : IsCut b a
    · simp [hcut', hnlt, hback hcut']
    · have hnot : ¬ format a < format b := not_lt_of_gt (hforth hcut')
      simp [hcut, hcut', hnlt, hnot]

end Rfc3339
