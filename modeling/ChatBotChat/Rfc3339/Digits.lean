/-
Decimal fields in lexicographic order.

* `append_lt_append` — texts of one length decide the order of what they start;
* `padDigits_lt_padDigits` — numbers in fields of one width are ordered as their
  texts are;
* `ofDigitChars_padDigits` — a number that fits its field is read back from it.
-/
import ChatBotChat.Rfc3339.Text
import Mathlib.Data.String.Basic

namespace Rfc3339

/-! ### Lexicographic order -/

/-- Texts of one length that differ decide the order of all their extensions. -/
theorem append_lt_append : ∀ {x x' : List Char} (y y' : List Char), x.length = x'.length →
    x < x' → x ++ y < x' ++ y' := by
  intro x
  induction x with
  | nil =>
    intro x' y y' hlen hlt
    rw [List.eq_nil_of_length_eq_zero hlen.symm] at hlt
    exact absurd hlt (List.lt_irrefl _)
  | cons a x ih =>
    intro x' y y' hlen hlt
    cases x' with
    | nil => cases hlen
    | cons b x' =>
      rw [List.cons_append, List.cons_append, List.cons_lt_cons_iff]
      rcases List.cons_lt_cons_iff.mp hlt with hab | ⟨hab, hlt'⟩
      · exact .inl hab
      · exact .inr ⟨hab, ih y y' (Nat.succ.inj hlen) hlt'⟩

/-- A common beginning does not matter. -/
theorem append_lt_append_left {x y y' : List Char} : x ++ y < x ++ y' ↔ y < y' := by
  induction x with
  | nil => rfl
  | cons a x ih =>
    rw [List.cons_append, List.cons_append, List.cons_lt_cons_iff, ih]
    refine ⟨?_, fun h => .inr ⟨rfl, h⟩⟩
    rintro (haa | ⟨-, h⟩)
    · exact absurd haa (Char.lt_irrefl a)
    · exact h

theorem cons_lt_cons_self {a : Char} {y y' : List Char} : a :: y < a :: y' ↔ y < y' :=
  append_lt_append_left (x := [a])

/-- Where the first difference is decides. -/
theorem append_cons_lt_append_cons {x y y' : List Char} {a b : Char} (h : a < b) :
    x ++ a :: y < x ++ b :: y' := by
  rw [append_lt_append_left, List.cons_lt_cons_iff]
  exact .inl h

/-- Texts neither of which starts the other have a first difference. -/
theorem exists_first_difference : ∀ {x x' : List Char}, ¬ x <+: x' → ¬ x' <+: x →
    ∃ z a b y y', x = z ++ a :: y ∧ x' = z ++ b :: y' ∧ a ≠ b := by
  intro x
  induction x with
  | nil => exact fun h _ => absurd List.nil_prefix h
  | cons a x ih =>
    intro x' h h'
    cases x' with
    | nil => exact absurd List.nil_prefix h'
    | cons b x' =>
      by_cases hab : a = b
      · subst hab
        rw [List.cons_prefix_cons] at h h'
        obtain ⟨z, c, d, y, y', rfl, rfl, hcd⟩ := ih (fun hp => h ⟨rfl, hp⟩) fun hp => h' ⟨rfl, hp⟩
        exact ⟨a :: z, c, d, y, y', rfl, rfl, hcd⟩
      · exact ⟨[], a, b, x, x', rfl, rfl, hab⟩

/-! ### Digits -/

/-- A decimal digit. -/
def IsDigit (c : Char) : Prop := '0' ≤ c ∧ c ≤ '9'

theorem isDigit_digitChar (n : ℕ) : IsDigit (Nat.digitChar (n % 10)) := by
  have hall : ∀ d < 10, '0' ≤ Nat.digitChar d ∧ Nat.digitChar d ≤ '9' := by decide
  exact hall _ (Nat.mod_lt n (by decide))

theorem digitChar_lt_digitChar {a b : ℕ} (hab : a < b) (hb : b < 10) :
    Nat.digitChar a < Nat.digitChar b := by
  have hall : ∀ b < 10, ∀ a < b, Nat.digitChar a < Nat.digitChar b := by decide
  exact hall b hb a hab

/-- The closing letter sorts behind every digit, the point before. -/
theorem IsDigit.lt_Z {c : Char} (h : IsDigit c) : c < 'Z' :=
  lt_of_le_of_lt h.2 (show '9' < 'Z' by decide)

theorem IsDigit.isDigit {c : Char} (h : IsDigit c) : c.isDigit = true := by
  show (decide _ && decide _) = true
  rw [Bool.and_eq_true, decide_eq_true_eq, decide_eq_true_eq]
  exact h

@[simp] theorem padDigits_length (w n : ℕ) : (padDigits w n).length = w := by
  induction w generalizing n with
  | zero => rfl
  | succ w ih => rw [padDigits, List.length_append, ih, List.length_singleton]

theorem isDigit_of_mem_padDigits {w n : ℕ} {c : Char} (h : c ∈ padDigits w n) : IsDigit c := by
  induction w generalizing n with
  | zero => cases h
  | succ w ih =>
    rcases List.mem_append.mp h with h | h
    · exact ih h
    · rw [List.mem_singleton.mp h]
      exact isDigit_digitChar n

/-- **Numbers in fields of one width are ordered as their texts are.** -/
theorem padDigits_lt_padDigits {w n n' : ℕ} (h : n < n') (hn' : n' < 10 ^ w) :
    padDigits w n < padDigits w n' := by
  induction w generalizing n n' with
  | zero =>
    rw [Nat.pow_zero] at hn'
    omega
  | succ w ih =>
    rw [Nat.pow_succ] at hn'
    rw [padDigits, padDigits]
    by_cases hdiv : n / 10 < n' / 10
    · exact append_lt_append _ _ (by simp) (ih hdiv (by omega))
    · -- the leading digits agree, so the last ones differ
      have heq : n / 10 = n' / 10 := by omega
      rw [heq]
      exact append_cons_lt_append_cons (digitChar_lt_digitChar (by omega) (by omega))

theorem padDigits_injective {w n n' : ℕ} (hn : n < 10 ^ w) (hn' : n' < 10 ^ w)
    (h : padDigits w n = padDigits w n') : n = n' := by
  rcases Nat.lt_trichotomy n n' with hlt | heq | hlt
  · exact absurd (h ▸ padDigits_lt_padDigits hlt hn') (List.lt_irrefl _)
  · exact heq
  · exact absurd (h ▸ padDigits_lt_padDigits hlt hn) (List.lt_irrefl _)

/-- **A number is read back from its field**, if it fits. -/
theorem ofDigitChars_padDigits {w n : ℕ} (h : n < 10 ^ w) :
    Nat.ofDigitChars 10 (padDigits w n) 0 = n := by
  induction w generalizing n with
  | zero =>
    rw [Nat.pow_zero] at h
    exact (Nat.lt_one_iff.mp h).symm
  | succ w ih =>
    rw [Nat.pow_succ] at h
    rw [padDigits, Nat.ofDigitChars_append, ih (by omega),
      Nat.ofDigitChars_cons_digitChar_of_lt_ten (by omega), Nat.ofDigitChars_nil]
    omega

end Rfc3339
