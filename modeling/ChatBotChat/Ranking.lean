/-
Loops that read a stream, and how long they go on.

A loop takes one item of the stream in each round, and ends or goes on from a new
state.

* `after_eq_none` — a loop whose rank falls in every round ends, on every stream;
* `hit_le` — an orbit that reaches a bound takes no more steps than there are
  values below the bound.
-/
import Mathlib.Data.Finset.Card
import Mathlib.Logic.Function.Iterate

namespace Ranking

variable {σ ι α : Type} {next : σ → ι → Option σ}

/-- The state behind `n` rounds, if the loop has not ended. -/
def after (next : σ → ι → Option σ) (s : σ) (items : ℕ → ι) : ℕ → Option σ
  | 0 => some s
  | n + 1 => (after next s items n).bind fun s' => next s' (items n)

/-- A loop that has ended does not go on. -/
theorem after_mono {s : σ} {items : ℕ → ι} {m n : ℕ} (hmn : m ≤ n)
    (h : after next s items m = none) : after next s items n = none := by
  induction n, hmn using Nat.le_induction with
  | base => exact h
  | succ n _ ih => rw [after, ih, Option.bind_none]

/-- Behind `n` rounds, the rank has fallen by `n`. -/
theorem after_rank {rank : σ → ℕ → Prop}
    (hstep : ∀ s i s' k, rank s k → next s i = some s' → ∃ k' < k, rank s' k') {s : σ} {k : ℕ}
    (hs : rank s k) {items : ℕ → ι} : ∀ {n : ℕ} {s' : σ}, after next s items n = some s' →
      ∃ k', k' + n ≤ k ∧ rank s' k' := by
  intro n
  induction n with
  | zero =>
    rintro s' ⟨⟩
    exact ⟨k, le_rfl, hs⟩
  | succ n ih =>
    intro s' h
    obtain ⟨s₁, hs₁, hnext⟩ := Option.bind_eq_some_iff.mp h
    obtain ⟨k₁, hle, hrank⟩ := ih hs₁
    obtain ⟨k₂, hlt, hrank'⟩ := hstep s₁ (items n) s' k₁ hrank hnext
    exact ⟨k₂, by omega, hrank'⟩

/-- **A loop whose rank falls in every round ends.** -/
theorem after_eq_none {rank : σ → ℕ → Prop}
    (hstep : ∀ s i s' k, rank s k → next s i = some s' → ∃ k' < k, rank s' k') {s : σ} {k : ℕ}
    (hs : rank s k) (items : ℕ → ι) : after next s items (k + 1) = none := by
  cases h : after next s items (k + 1) with
  | none => rfl
  | some s' =>
    obtain ⟨k', hle, -⟩ := after_rank hstep hs h
    omega

/-- **An orbit that reaches a bound runs through different values before it does.** -/
theorem hit_le {f : α → α} {x : α} {v : α → ℕ} (hv : Function.Injective v) {bound k : ℕ}
    (hbelow : ∀ j < k, v (f^[j] x) < bound) (hhit : bound ≤ v (f^[k] x)) : k ≤ bound := by
  -- two equal values would make the orbit return before it reaches the bound
  have hcycle : ∀ i j, i < j → j < k → f^[i] x ≠ f^[j] x := by
    intro i j hij hjk heq
    have hback : f^[(k - j) + i] x = f^[k] x := by
      rw [Function.iterate_add_apply, heq, ← Function.iterate_add_apply, Nat.sub_add_cancel hjk.le]
    have hlt := hbelow ((k - j) + i) (by omega)
    rw [hback] at hlt
    omega
  have hinj : Set.InjOn (fun j => v (f^[j] x)) (Finset.range k : Finset ℕ) := by
    intro i hi j hj heq
    rw [Finset.coe_range, Set.mem_Iio] at hi hj
    have hsame : f^[i] x = f^[j] x := hv heq
    rcases lt_trichotomy i j with hlt | heq | hlt
    · exact absurd hsame (hcycle i j hlt hj)
    · exact heq
    · exact absurd hsame.symm (hcycle j i hlt hi)
  have hcard := Finset.card_le_card_of_injOn (t := Finset.range bound) _
    (fun j hj => Finset.mem_range.mpr (hbelow j (Finset.mem_range.mp hj))) hinj
  rwa [Finset.card_range, Finset.card_range] at hcard

end Ranking
