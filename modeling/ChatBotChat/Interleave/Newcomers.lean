/-
Runs in which only requests move that arrive in them.

What such a run adds to a configuration is made by its newcomers alone: the log
of a newcomer is a part of what the run has recorded, and whatever each program
upholds by itself holds of that part (`Newcomers.event`, `Newcomers.returned`).
-/
import ChatBotChat.Interleave.Runs

namespace Interleave

variable {C : Type} {R : C → Type} {σ ρ α ι ε : Type}

/-- The requests that have arrived since `c₀`. -/
def arrivals (c₀ c : Config C R σ ρ α) : List ℕ :=
  List.range' c₀.threads.length (c.threads.length - c₀.threads.length)

theorem mem_arrivals {c₀ c : Config C R σ ρ α} {j : ℕ} :
    j ∈ arrivals c₀ c ↔ c₀.threads.length ≤ j ∧ j < c.threads.length := by
  rw [arrivals, List.mem_range'_1]
  omega

theorem nodup_arrivals (c₀ c : Config C R σ ρ α) : (arrivals c₀ c).Nodup := List.nodup_range'

namespace System

/-- Only requests that satisfy `P` arrive, and only requests from number `n₀` on move. -/
def Only (P : ρ → Prop) (n₀ : ℕ) (_ : Config C R σ ρ α) : Action ρ ι ε → Prop
  | .start r => P r
  | .step j _ | .fail j | .drop j => n₀ ≤ j
  | .tick _ => True

instance {P : ρ → Prop} [DecidablePred P] {n₀ : ℕ} {c : Config C R σ ρ α} :
    DecidablePred (Only P n₀ c : Action ρ ι ε → Prop)
  | .start r => inferInstanceAs (Decidable (P r))
  | .step j _ | .fail j | .drop j => inferInstanceAs (Decidable (n₀ ≤ j))
  | .tick _ => inferInstanceAs (Decidable True)

/-- What was recorded since `c₀` was made by requests that satisfy `P` and have
arrived since. -/
structure Newcomers (P : ρ → Prop) (c₀ c : Config C R σ ρ α) (new : List (Event C R σ)) :
    Prop where
  trace : c.trace = new ++ c₀.trace
  threads : ∀ j t, c₀.threads.length ≤ j → c.threads[j]? = some t → P t.req
  tids : ∀ e ∈ new, c₀.threads.length ≤ e.tid

variable {sys : System C R σ ρ α ι ε} {P : ρ → Prop} {c₀ c : Config C R σ ρ α}
  {new older : List (Event C R σ)} {e : Event C R σ}

/-- A thread keeps its request. -/
theorem threads_setStatus {n₀ j : ℕ} {st : Status C R α}
    (h : ∀ j t, n₀ ≤ j → c.threads[j]? = some t → P t.req) :
    ∀ k t, n₀ ≤ k → (c.setStatus j st).threads[k]? = some t → P t.req := by
  intro k t hk ht
  rw [Config.getElem?_setStatus] at ht
  split at ht
  · obtain ⟨t', ht', rfl⟩ := Option.map_eq_some_iff.mp ht
    exact h k t' hk ht'
  · exact h k t hk ht

theorem RunWith.newcomers (h : sys.RunWith (Only P c₀.threads.length) c₀ c) :
    ∀ new, c.trace = new ++ c₀.trace → Newcomers P c₀ c new := by
  have hmoves : (∀ j t, c₀.threads.length ≤ j → c.threads[j]? = some t → P t.req) ∧
      ∀ new, c.trace = new ++ c₀.trace → ∀ e ∈ new, c₀.threads.length ≤ e.tid := by
    induction h with
    | refl =>
      refine ⟨fun j t hj ht => ?_, fun new hnew e he => ?_⟩
      · rw [List.getElem?_eq_none hj] at ht
        cases ht
      · obtain rfl : new = [] := by simpa using hnew
        cases he
    | @move c c' a hrun hok hstep ih =>
      obtain ⟨hthreads, htids⟩ := ih
      obtain ⟨old, htr, -⟩ := hrun.history
      cases sys.move_of_apply hstep with
      | start req =>
        refine ⟨fun j t hj ht => ?_, htids⟩
        rcases Nat.lt_or_ge j c.threads.length with hlt | hge
        · rw [List.getElem?_append_left hlt] at ht
          exact hthreads j t hj ht
        · rw [List.getElem?_append_right hge, List.getElem?_singleton] at ht
          split at ht
          · obtain rfl := Option.some_inj.mp ht
            exact hok
          · cases ht
      | @call j choice r k f x s' hj hx =>
        refine ⟨threads_setStatus hthreads, ?_⟩
        intro new hnew e he
        obtain rfl : new = ⟨j, k, x, c.shared, s'⟩ :: old := by
          refine List.append_cancel_right (hnew.symm.trans ?_)
          rw [List.cons_append, ← htr]
        rcases List.mem_cons.mp he with rfl | he
        · exact hok
        · exact htids old htr e he
      | unroll _ => exact ⟨threads_setStatus hthreads, htids⟩
      | stop _ _ => exact ⟨threads_setStatus hthreads, htids⟩
      | tick _ => exact ⟨hthreads, htids⟩
  exact fun new hnew => ⟨hnew, hmoves.1, hmoves.2 _ hnew⟩

namespace Newcomers

variable {Φ Φ₀ : ρ → Past C R → C → Prop} {Ψ Ψ₀ : ρ → Past C R → α → Prop}

/-- The end of what was recorded since is an end of all that was. -/
theorem suffix (h : Newcomers P c₀ c new) (hsuf : e :: older <:+ new) :
    e :: (older ++ c₀.trace) <:+ c.trace := by
  obtain ⟨newer, hnewer⟩ := hsuf
  exact ⟨newer, by rw [h.trace, ← hnewer, List.append_assoc, List.cons_append]⟩

/-- Nothing was in the log of a request before it arrived. -/
theorem past (h₀ : Upheld Φ₀ Ψ₀ c₀) {j : ℕ} (hj : c₀.threads.length ≤ j)
    (tr : List (Event C R σ)) : pastOf j (tr ++ c₀.trace) = pastOf j tr := by
  rw [pastOf_append, h₀.pastOf_eq_nil hj, List.append_nil]

/-- The calls of a newcomer respect its discipline. -/
theorem event (h : Newcomers P c₀ c new) (h₀ : Upheld Φ₀ Ψ₀ c₀) (hup : Upheld Φ Ψ c)
    (hsuf : e :: older <:+ new) :
    ∃ t, c.threads[e.tid]? = some t ∧ P t.req ∧ Φ t.req (pastOf e.tid older) e.call := by
  have hj := h.tids e (hsuf.mem List.mem_cons_self)
  obtain ⟨t, ht, hΦ⟩ := hup.event (h.suffix hsuf)
  rw [past h₀ hj] at hΦ
  exact ⟨t, ht, h.threads _ t hj ht, hΦ⟩

/-- The answer of a newcomer is one its program upholds. -/
theorem returned (h : Newcomers P c₀ c new) (h₀ : Upheld Φ₀ Ψ₀ c₀) (hup : Upheld Φ Ψ c) {j : ℕ}
    (hj : c₀.threads.length ≤ j) {a : α} (ha : c.threads[j]?.bind Thread.returned = some a) :
    ∃ t, c.threads[j]? = some t ∧ P t.req ∧ Ψ t.req (pastOf j new) a := by
  obtain ⟨t, ht, hreturned⟩ := Option.bind_eq_some_iff.mp ha
  have hΨ := hup.returned ht hreturned
  rw [h.trace, past h₀ hj] at hΨ
  exact ⟨t, ht, h.threads j t hj ht, hΨ⟩

end Newcomers

end System

end Interleave
