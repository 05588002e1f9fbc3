/-
Who makes the moves of a run.

* `apply_others` — a move leaves all threads but its own as they are;
* `RunWith.settled` — a thread that has returned or has been stopped makes no more
  calls;
* `RunWith.inFlight_or_newcomer` — what a run records from some configuration on was
  made by threads that were in flight there or have arrived since;
* `Upheld.nodup_tids` — what each program does once, each thread has done once;
* `Upheld.answered_since` — what a thread that has arrived since has returned, the calls
  recorded since account for.
-/
import ChatBotChat.Interleave.Newcomers

namespace Interleave

variable {C : Type} {R : C → Type} {σ ρ α ι ε : Type}

theorem Prog.calls_any (p : Prog C R α) : p.Calls fun _ => True := by
  induction p with
  | ret a => trivial
  | call c k ih => exact ⟨trivial, ih⟩
  | loop body s k ihbody ihk => exact ⟨ihbody, ihk⟩

/-- The rule of a piece of which it is enough to know that logs grow. -/
theorem Prog.upholds_past {Φ : Past C R → C → Prop} (hΦ : ∀ past c, Φ past c) {past : Past C R}
    {β : Type} {p : Prog C R α} {f : α → Prog C R β} {Q : Past C R → β → Prop}
    (hf : ∀ past' a, past <:+ past' → (f a).Upholds Φ past' Q) : (p >>= f).Upholds Φ past Q :=
  .bind ((p.calls_any.upholds fun _ _ _ _ => hΦ _ _).mono fun past' a => hf past' a)

/-- The thread has returned or has been stopped. -/
def Thread.settled (t : Thread C R ρ α) : Bool :=
  match t.status with
  | .running (.ret _) | .failed | .dropped => true
  | .running (.call _ _) | .running (.loop _ _ _) => false

/-- The threads of a configuration that still have calls to make. -/
def inFlight (c : Config C R σ ρ α) : List ℕ :=
  (List.range c.threads.length).filter fun i => c.threads[i]?.any fun t => !t.settled

theorem mem_inFlight {c : Config C R σ ρ α} {i : ℕ} :
    i ∈ inFlight c ↔ ∃ t, c.threads[i]? = some t ∧ t.settled = false := by
  rw [inFlight, List.mem_filter, List.mem_range, Option.any_eq_true]
  constructor
  · rintro ⟨-, t, ht, hsettled⟩
    exact ⟨t, ht, by simpa using hsettled⟩
  · rintro ⟨t, ht, hsettled⟩
    exact ⟨(List.getElem?_eq_some_iff.mp ht).choose, t, ht, by simpa using hsettled⟩

/-- The thread that a move is a move of. -/
def Action.tid : Action ρ ι ε → Option ℕ
  | .step i _ | .fail i | .drop i => some i
  | .start _ | .tick _ => none

namespace System

variable {sys : System C R σ ρ α ι ε} {ok : Config C R σ ρ α → Action ρ ι ε → Prop}
  {c₀ c c' : Config C R σ ρ α} {a : Action ρ ι ε} {i j : ℕ} {t : Thread C R ρ α}

/-! ### One move -/

/-- A move of one thread replaces its status, and may record a call of it. -/
theorem apply_own (h : sys.apply a c = some c') (ha : a.tid = some i) :
    i < c.threads.length ∧ ∃ st new, c'.threads = (c.setStatus i st).threads ∧
      c'.trace = new ++ c.trace ∧ ∀ e ∈ new, e.tid = i := by
  have hlt : ∀ {t : Thread C R ρ α}, c.threads[i]? = some t → i < c.threads.length :=
    fun ht => (List.getElem?_eq_some_iff.mp ht).choose
  have hstop : ∀ {st : Status C R α}, stopThread i st c = some c' →
      i < c.threads.length ∧ ∃ st new, c'.threads = (c.setStatus i st).threads ∧
        c'.trace = new ++ c.trace ∧ ∀ e ∈ new, e.tid = i := by
    intro st hst
    obtain ⟨r, k, f, ht, rfl⟩ := stopThread_cases hst
    exact ⟨hlt ht, st, [], rfl, rfl, nofun⟩
  cases a with
  | start r => cases ha
  | tick e => cases ha
  | fail j =>
    obtain rfl := Option.some_inj.mp ha
    exact hstop h
  | drop j =>
    obtain rfl := Option.some_inj.mp ha
    exact hstop h
  | step j choice =>
    obtain rfl := Option.some_inj.mp ha
    simp only [apply, stepThread] at h
    split at h
    · rename_i ht
      split at h
      · obtain rfl := Option.some_inj.mp h
        exact ⟨hlt ht, _, [_], rfl, rfl, by simp⟩
      · obtain rfl := Option.some_inj.mp h
        exact ⟨hlt ht, _, [], rfl, rfl, nofun⟩
      · cases h
    · rename_i ht
      obtain rfl := Option.some_inj.mp h
      exact ⟨hlt ht, _, [], rfl, rfl, nofun⟩
    · cases h

/-- An arrival, or a move of the environment. -/
theorem apply_foreign (h : sys.apply a c = some c') (ha : a.tid = none) :
    c'.trace = c.trace ∧ (c'.threads = c.threads ∨
      ∃ r, c'.threads = c.threads ++ [⟨r, .running (sys.body r)⟩]) := by
  cases a with
  | start r =>
    obtain rfl := Option.some_inj.mp h
    exact ⟨rfl, .inr ⟨r, rfl⟩⟩
  | tick e =>
    obtain ⟨s, -, rfl⟩ := Option.map_eq_some_iff.mp h
    exact ⟨rfl, .inl rfl⟩
  | step j choice => cases ha
  | fail j => cases ha
  | drop j => cases ha

/-- **A move leaves all threads but its own as they are.** -/
theorem apply_others (h : sys.apply a c = some c') (ha : a.tid ≠ some j)
    (hj : j < c.threads.length) :
    c'.threads[j]? = c.threads[j]? ∧ pastOf j c'.trace = pastOf j c.trace := by
  cases htid : a.tid with
  | none =>
    obtain ⟨htrace, hthreads | ⟨r, hthreads⟩⟩ := apply_foreign h htid
    · rw [hthreads, htrace]
      exact ⟨rfl, rfl⟩
    · rw [hthreads, htrace, List.getElem?_append_left hj]
      exact ⟨rfl, rfl⟩
  | some i =>
    have hne : i ≠ j := fun heq => ha (heq ▸ htid)
    obtain ⟨-, st, new, hthreads, htrace, hnew⟩ := apply_own h htid
    have hnone : pastOf j new = [] := pastOf_eq_nil fun e he hej => hne ((hnew e he).symm.trans hej)
    rw [hthreads, Config.getElem?_setStatus, if_neg hne, htrace, pastOf_append, hnone]
    exact ⟨rfl, rfl⟩

/-- Pasts only grow. -/
theorem apply_past (h : sys.apply a c = some c') (j : ℕ) : pastOf j c.trace <:+ pastOf j c'.trace := by
  cases htid : a.tid with
  | none => rw [(apply_foreign h htid).1]
  | some i =>
    obtain ⟨-, st, new, -, htrace, -⟩ := apply_own h htid
    rw [htrace, pastOf_append]
    exact List.suffix_append _ _

/-! ### Many moves -/

/-- A thread that is at a call or at a loop is not settled. -/
private theorem ne_of_settled {r : ρ} {p : Prog C R α} {st : Status C R α}
    (ht : c.threads[i]? = some t) (hsettled : t.settled = true)
    (hp : Thread.settled (⟨r, .running p⟩ : Thread C R ρ α) = false)
    (hj : c.threads[j]? = some ⟨r, .running p⟩) :
    j ≠ i ∧ (c.setStatus j st).threads[i]? = some t := by
  have hne : j ≠ i := by
    rintro rfl
    obtain rfl := Option.some_inj.mp (ht.symm.trans hj)
    rw [hsettled] at hp
    cases hp
  exact ⟨hne, by rw [Config.getElem?_setStatus, if_neg hne, ht]⟩

/-- **A settled thread** stays as it is, and makes no more calls. -/
theorem RunWith.settled (h : sys.RunWith ok c₀ c) (ht : c₀.threads[i]? = some t)
    (hsettled : t.settled = true) :
    c.threads[i]? = some t ∧ pastOf i c.trace = pastOf i c₀.trace := by
  induction h with
  | refl => exact ⟨ht, rfl⟩
  | @move c c' a _ _ hstep ih =>
    obtain ⟨hthread, hpast⟩ := ih
    cases sys.move_of_apply hstep with
    | start r =>
      have hlt : i < c.threads.length := (List.getElem?_eq_some_iff.mp hthread).choose
      exact ⟨by rwa [List.getElem?_append_left hlt], hpast⟩
    | @call j choice r k f x s' hj _ =>
      obtain ⟨hne, hkept⟩ : j ≠ i ∧ (c.setStatus j (.running (f x))).threads[i]? = some t :=
        ne_of_settled hthread hsettled rfl hj
      exact ⟨hkept, (pastOf_cons_of_ne (e := ⟨j, k, x, c.shared, s'⟩) hne _).trans hpast⟩
    | unroll hj => exact ⟨(ne_of_settled hthread hsettled rfl hj).2, hpast⟩
    | stop hj _ => exact ⟨(ne_of_settled hthread hsettled rfl hj).2, hpast⟩
    | tick _ => exact ⟨hthread, hpast⟩

/-- **Who makes the calls of a run**: threads that were in flight, and newcomers. -/
theorem RunWith.inFlight_or_newcomer (h : sys.RunWith ok c₀ c) {new : List (Event C R σ)}
    (hnew : c.trace = new ++ c₀.trace) {e : Event C R σ} (he : e ∈ new) :
    e.tid ∈ inFlight c₀ ∨ c₀.threads.length ≤ e.tid := by
  rcases Nat.lt_or_ge e.tid c₀.threads.length with hlt | hge
  · refine .inl (mem_inFlight.mpr ⟨_, List.getElem?_eq_getElem hlt, ?_⟩)
    by_contra hsettled
    rw [Bool.not_eq_false] at hsettled
    have hpast := (h.settled (List.getElem?_eq_getElem hlt) hsettled).2
    have hnil : pastOf e.tid new = [] := by simpa [hnew] using hpast
    have hmem : (⟨e.call, e.reply⟩ : Sigma R) ∈ pastOf e.tid new := mem_pastOf.mpr ⟨e, he, rfl, rfl⟩
    rw [hnil] at hmem
    cases hmem
  · exact .inr hge

/-- **What a newcomer has returned**, its calls since account for. -/
theorem Upheld.answered_since {Φ : ρ → Past C R → C → Prop} {Ψ : ρ → Past C R → α → Prop}
    (h : Upheld Φ Ψ c) {Φ₀ : ρ → Past C R → C → Prop} {Ψ₀ : ρ → Past C R → α → Prop}
    (h₀ : Upheld Φ₀ Ψ₀ c₀) {new : List (Event C R σ)} (hnew : c.trace = new ++ c₀.trace)
    (hi : c₀.threads.length ≤ i) (ht : c.threads[i]? = some t) {a : α}
    (ha : t.returned = some a) : Ψ t.req (pastOf i new) a := by
  have hΨ := h.returned ht ha
  rwa [hnew, Newcomers.past h₀ hi] at hΨ

/-- **What each program does once**, each thread of a run has done once. -/
theorem Upheld.nodup_tids {Φ : ρ → Past C R → C → Prop} {Ψ : ρ → Past C R → α → Prop}
    (h : Upheld Φ Ψ c) (done : Sigma R → Bool)
    (honce : ∀ r past k x, Φ r past k → done ⟨k, x⟩ = true → ∀ y ∈ past, done y = false) :
    ∀ {tr : List (Event C R σ)}, tr <:+ c.trace →
      ((tr.filter fun e => done ⟨e.call, e.reply⟩).map Event.tid).Nodup := by
  intro tr
  induction tr with
  | nil => simp
  | cons e tr ih =>
    intro hsuf
    have hrest := ih ((List.suffix_cons _ _).trans hsuf)
    cases hdone : done ⟨e.call, e.reply⟩ with
    | false => simpa [hdone] using hrest
    | true =>
      rw [List.filter_cons_of_pos (by simp [hdone]), List.map_cons, List.nodup_cons]
      refine ⟨fun hmem => ?_, hrest⟩
      obtain ⟨t, -, hΦ⟩ := h.event hsuf
      obtain ⟨e', he', htid⟩ := List.mem_map.mp hmem
      obtain ⟨he', hdone'⟩ := List.mem_filter.mp he'
      have hpast : (⟨e'.call, e'.reply⟩ : Sigma R) ∈ pastOf e.tid tr :=
        mem_pastOf.mpr ⟨e', he', htid, rfl⟩
      rw [honce _ _ _ _ hΦ hdone _ hpast] at hdone'
      cases hdone'

end System

end Interleave
