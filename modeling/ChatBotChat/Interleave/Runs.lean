/-
What holds in every interleaving.

* `RunWith.history` — the calls recorded between two configurations of a run
  are a history of the shared state;
* `RunWith.upheld` — if every request's program upholds `Φ` and `Ψ` by itself,
  then in every reachable configuration each call ever made satisfied `Φ` on
  the past of the request that made it, and each answer satisfies `Ψ`;
* `RunWith.stopped` — a request that has stopped makes no more calls;
* `RunWith.remains` — if a program returns within `n` moves as long as its
  replies are allowed, it does so in every interleaving that keeps them allowed;
* `pastOf_split` — an order that a program sees among its own calls is an order
  of the history.
-/
import ChatBotChat.Interleave.System

namespace Interleave

variable {C : Type} {R : C → Type} {σ ρ α ι ε : Type}

/-! ### Own pasts -/

@[simp] theorem pastOf_nil (i : ℕ) : pastOf i ([] : List (Event C R σ)) = [] := rfl

theorem pastOf_cons_self (e : Event C R σ) (tr : List (Event C R σ)) :
    pastOf e.tid (e :: tr) = ⟨e.call, e.reply⟩ :: pastOf e.tid tr := by
  simp [pastOf]

theorem pastOf_cons_of_ne {i : ℕ} {e : Event C R σ} (h : e.tid ≠ i) (tr : List (Event C R σ)) :
    pastOf i (e :: tr) = pastOf i tr := by
  simp [pastOf, h]

@[simp] theorem pastOf_append (i : ℕ) (tr tr' : List (Event C R σ)) :
    pastOf i (tr ++ tr') = pastOf i tr ++ pastOf i tr' := by
  simp [pastOf]

theorem mem_pastOf {i : ℕ} {tr : List (Event C R σ)} {x : Sigma R} :
    x ∈ pastOf i tr ↔ ∃ e ∈ tr, e.tid = i ∧ (⟨e.call, e.reply⟩ : Sigma R) = x := by
  simp [pastOf, List.mem_filterMap]

theorem pastOf_eq_nil {i : ℕ} {tr : List (Event C R σ)} (h : ∀ e ∈ tr, e.tid ≠ i) :
    pastOf i tr = [] := by
  simpa [pastOf, List.filterMap_eq_nil_iff] using h

/-- What a program has done stays in its past. -/
theorem pastOf_subset {i : ℕ} {older tr : List (Event C R σ)} (hsuf : older <:+ tr) :
    pastOf i older ⊆ pastOf i tr := by
  obtain ⟨newer, rfl⟩ := hsuf
  rw [pastOf_append]
  exact List.subset_append_right _ _

/-- A split of one program's past comes from a split of the history. -/
theorem pastOf_split {i : ℕ} : ∀ {tr : List (Event C R σ)} {newer older : Past C R}
    {x : Sigma R}, pastOf i tr = newer ++ x :: older →
    ∃ tr₂ e tr₁, tr = tr₂ ++ e :: tr₁ ∧ e.tid = i ∧ (⟨e.call, e.reply⟩ : Sigma R) = x ∧
      pastOf i tr₂ = newer ∧ pastOf i tr₁ = older := by
  intro tr
  induction tr with
  | nil =>
    intro newer older x h
    simp at h
  | cons e tr ih =>
    intro newer older x h
    by_cases he : e.tid = i
    · subst he
      rw [pastOf_cons_self] at h
      cases newer with
      | nil =>
        obtain ⟨hx, htl⟩ := List.cons_eq_cons.mp h
        exact ⟨[], e, tr, rfl, rfl, hx, rfl, htl⟩
      | cons y newer =>
        obtain ⟨hy, htl⟩ := List.cons_eq_cons.mp h
        obtain ⟨tr₂, e', tr₁, rfl, hid, hx, hnew, hold⟩ := ih htl
        refine ⟨e :: tr₂, e', tr₁, rfl, hid, hx, ?_, hold⟩
        rw [pastOf_cons_self, hnew, hy]
    · rw [pastOf_cons_of_ne he] at h
      obtain ⟨tr₂, e', tr₁, rfl, hid, hx, hnew, hold⟩ := ih h
      refine ⟨e :: tr₂, e', tr₁, rfl, hid, hx, ?_, hold⟩
      rw [pastOf_cons_of_ne he, hnew]

/-- The newest call of one program's past. -/
theorem pastOf_cons_split {i : ℕ} {tr : List (Event C R σ)} {older : Past C R} {x : Sigma R}
    (h : pastOf i tr = x :: older) : ∃ tr₂ e tr₁, tr = tr₂ ++ e :: tr₁ ∧ e.tid = i ∧
      (⟨e.call, e.reply⟩ : Sigma R) = x ∧ pastOf i tr₂ = [] ∧ pastOf i tr₁ = older :=
  pastOf_split (show pastOf i tr = [] ++ x :: older from h)

/-- Two cuts of one list: one comes before the other, or they are the same. -/
theorem compare_cuts {β : Type} {e k : β} {newer older b a : List β}
    (h : newer ++ e :: older = b ++ k :: a) :
    (∃ z, b = newer ++ e :: z ∧ older = z ++ k :: a) ∨ (newer = b ∧ e = k ∧ older = a) ∨
      ∃ z, newer = b ++ k :: z ∧ a = z ++ e :: older := by
  rcases List.append_eq_append_iff.mp h with ⟨z, rfl, hz⟩ | ⟨z, rfl, hz⟩
  all_goals
    cases z with
    | nil =>
      obtain ⟨hek, htl⟩ := List.cons_eq_cons.mp hz
      simp_all
    | cons x z =>
      obtain ⟨hx, htl⟩ := List.cons_eq_cons.mp hz
      simp_all

/-! ### Since -/

/-- Something happened since the last reset; the newest comes first. -/
def since {β : Type} (reset happened : β → Bool) : List β → Bool
  | [] => false
  | x :: older => !reset x && (happened x || since reset happened older)

variable {β : Type} {reset reset' happened : β → Bool}

/-- With fewer resets, nothing is forgotten. -/
theorem since_mono (hreset : ∀ x, reset x = true → reset' x = true) : ∀ {l : List β},
    since reset' happened l = true → since reset happened l = true := by
  intro l
  induction l with
  | nil => exact id
  | cons x l ih =>
    intro h
    rw [since, Bool.and_eq_true, Bool.or_eq_true, Bool.not_eq_true'] at h ⊢
    refine ⟨Bool.eq_false_iff.mpr fun hx => ?_, h.2.imp_right ih⟩
    rw [hreset x hx] at h
    cases h.1

/-- What happened since a reset is what happened after it. -/
theorem since_append {x : β} {newer older : List β} (hnewer : ∀ y ∈ newer, reset y = false)
    (hx : reset x = true) : since reset happened (newer ++ x :: older) = newer.any happened := by
  induction newer with
  | nil =>
    rw [List.nil_append, since, hx]
    rfl
  | cons y newer ih =>
    rw [List.forall_mem_cons] at hnewer
    rw [List.cons_append, since, hnewer.1, ih hnewer.2, List.any_cons]
    rfl

/-! ### Configurations -/

theorem Config.getElem?_setStatus (c : Config C R σ ρ α) (i j : ℕ) (st : Status C R α) :
    (c.setStatus i st).threads[j]? =
      if i = j then c.threads[j]?.map fun t => { t with status := st } else c.threads[j]? := by
  simp [Config.setStatus, List.getElem?_modify]
  split <;> simp

@[simp] theorem Config.setStatus_length (c : Config C R σ ρ α) (i : ℕ) (st : Status C R α) :
    (c.setStatus i st).threads.length = c.threads.length := by
  simp [Config.setStatus]

@[simp] theorem Config.setStatus_trace (c : Config C R σ ρ α) (i : ℕ) (st : Status C R α) :
    (c.setStatus i st).trace = c.trace := rfl

@[simp] theorem Config.setStatus_shared (c : Config C R σ ρ α) (i : ℕ) (st : Status C R α) :
    (c.setStatus i st).shared = c.shared := rfl

namespace System

variable {sys : System C R σ ρ α ι ε} {ok : Config C R σ ρ α → Action ρ ι ε → Prop}
  {c₀ c₁ c : Config C R σ ρ α}

/-! ### Runs -/

theorem RunWith.mono {ok' : Config C R σ ρ α → Action ρ ι ε → Prop}
    (hok : ∀ c a, ok c a → ok' c a) (h : sys.RunWith ok c₀ c) : sys.RunWith ok' c₀ c := by
  induction h with
  | refl => exact .refl
  | move _ ha hstep ih => exact .move ih (hok _ _ ha) hstep

theorem RunWith.run (h : sys.RunWith ok c₀ c) : sys.Run c₀ c := h.mono fun _ _ _ => trivial

theorem RunWith.trans (h₁ : sys.RunWith ok c₀ c₁) (h₂ : sys.RunWith ok c₁ c) :
    sys.RunWith ok c₀ c := by
  induction h₂ with
  | refl => exact h₁
  | move _ ha hstep ih => exact .move ih ha hstep

/-- The calls recorded along a run are a history of the shared state. -/
theorem RunWith.history (h : sys.RunWith ok c₀ c) :
    ∃ new, c.trace = new ++ c₀.trace ∧ History sys c₀.shared new c.shared := by
  induction h with
  | refl => exact ⟨[], rfl, .start⟩
  | move _ _ hstep ih =>
    obtain ⟨new, htr, hist⟩ := ih
    cases sys.move_of_apply hstep with
    | start r => exact ⟨new, htr, hist⟩
    | call _ hx => exact ⟨_ :: new, congrArg _ htr, .call hist hx⟩
    | unroll _ => exact ⟨new, htr, hist⟩
    | stop _ _ => exact ⟨new, htr, hist⟩
    | tick ht => exact ⟨new, htr, .tick hist ht⟩

/-- The history from `c₀` on, when what is recorded since is known. -/
theorem RunWith.history_of_eq (h : sys.RunWith ok c₀ c) {new : List (Event C R σ)}
    (hnew : c.trace = new ++ c₀.trace) : History sys c₀.shared new c.shared := by
  obtain ⟨new', htr, hist⟩ := h.history
  obtain rfl : new' = new := List.append_cancel_right (htr.symm.trans hnew)
  exact hist

/-- A thread that has arrived keeps its place and its request. -/
theorem RunWith.thread_persists (h : sys.RunWith ok c₀ c) {i : ℕ} {t : Thread C R ρ α}
    (ht : c₀.threads[i]? = some t) : ∃ t', c.threads[i]? = some t' ∧ t'.req = t.req := by
  induction h with
  | refl => exact ⟨t, ht, rfl⟩
  | move _ _ hstep ih =>
    obtain ⟨t', ht', hreq⟩ := ih
    have keep : ∀ (c : Config C R σ ρ α) (j : ℕ) (st : Status C R α),
        c.threads[i]? = some t' →
        ∃ t'', (c.setStatus j st).threads[i]? = some t'' ∧ t''.req = t.req := by
      intro c j st hc
      rw [Config.getElem?_setStatus, hc]
      by_cases hj : j = i
      · exact ⟨{ t' with status := st }, by simp [hj], hreq⟩
      · exact ⟨t', by simp [hj], hreq⟩
    cases sys.move_of_apply hstep with
    | start r =>
      refine ⟨t', ?_, hreq⟩
      have hlt : i < _ := (List.getElem?_eq_some_iff.mp ht').choose
      simpa [List.getElem?_append_left hlt] using ht'
    | call hi _ => exact keep _ _ _ ht'
    | unroll hi => exact keep _ _ _ ht'
    | stop hi _ => exact keep _ _ _ ht'
    | tick _ => exact ⟨t', ht', hreq⟩

/-- Threads only arrive. -/
theorem RunWith.threads_le (h : sys.RunWith ok c₀ c) : c₀.threads.length ≤ c.threads.length := by
  rcases Nat.eq_zero_or_pos c₀.threads.length with hzero | hpos
  · omega
  · have hlast : c₀.threads.length - 1 < c₀.threads.length := by omega
    obtain ⟨t, ht, -⟩ := h.thread_persists (List.getElem?_eq_getElem hlast)
    have hlt := (List.getElem?_eq_some_iff.mp ht).choose
    omega

/-- A request that has stopped makes no more calls. -/
theorem RunWith.stopped (h : sys.RunWith ok c₀ c) {i : ℕ} {t : Thread C R ρ α}
    (ht : c₀.threads[i]? = some t) (hstop : ∀ p, t.status ≠ .running p) :
    c.threads[i]? = some t ∧ pastOf i c.trace = pastOf i c₀.trace := by
  induction h with
  | refl => exact ⟨ht, rfl⟩
  | @move c c' a _ _ hstep ih =>
    obtain ⟨hthread, hpast⟩ := ih
    -- a thread that makes a move is running
    have hother : ∀ {j : ℕ} {r : ρ} {p : Prog C R α} (st : Status C R α),
        c.threads[j]? = some ⟨r, .running p⟩ → j ≠ i ∧ (c.setStatus j st).threads[i]? = some t := by
      intro j r p st hj
      have hne : j ≠ i := by
        rintro rfl
        obtain rfl := Option.some_inj.mp (hthread.symm.trans hj)
        exact hstop p rfl
      exact ⟨hne, by rw [Config.getElem?_setStatus, if_neg hne, hthread]⟩
    cases sys.move_of_apply hstep with
    | start r =>
      have hlt : i < c.threads.length := (List.getElem?_eq_some_iff.mp hthread).choose
      exact ⟨by rwa [List.getElem?_append_left hlt], hpast⟩
    | @call j choice r k f x s' hj _ =>
      obtain ⟨hne, hkept⟩ := hother (.running (f x)) hj
      exact ⟨hkept, (pastOf_cons_of_ne (e := ⟨j, k, x, c.shared, s'⟩) hne _).trans hpast⟩
    | unroll hj => exact ⟨(hother _ hj).2, hpast⟩
    | stop hj _ => exact ⟨(hother _ hj).2, hpast⟩
    | tick _ => exact ⟨hthread, hpast⟩

/-! ### Programs that return -/

section Returns

variable {Φ : Past C R → C → Prop} {A : Past C R → (c : C) → R c → Prop} {Q : Past C R → α → Prop}
  {n : ℕ}

/-- Thread `i` has made its calls among `new`, at most `n` of them, and what is left
of its program returns within the rest. -/
structure Remains (Φ : Past C R → C → Prop) (A : Past C R → (c : C) → R c → Prop)
    (Q : Past C R → α → Prop) (n i : ℕ) (r : ρ) (new : List (Event C R σ))
    (c : Config C R σ ρ α) : Prop where
  thread : ∃ t, c.threads[i]? = some t ∧ t.req = r ∧ ∀ p, t.status = .running p →
    ∃ m, (pastOf i new).length + m ≤ n ∧ p.Returns Φ A m (pastOf i new) Q
  calls : (pastOf i new).length ≤ n

/-- A move of another thread, or one that replaces the status of this one. -/
private theorem Remains.setStatus {i j : ℕ} {r : ρ} {new : List (Event C R σ)} {st : Status C R α}
    (h : Remains Φ A Q n i r new c) (hst : j = i → ∀ p, st = .running p →
      ∃ m, (pastOf i new).length + m ≤ n ∧ p.Returns Φ A m (pastOf i new) Q) :
    Remains Φ A Q n i r new (c.setStatus j st) := by
  obtain ⟨⟨t, ht, hreq, hleft⟩, hcalls⟩ := h
  refine ⟨?_, hcalls⟩
  rw [Config.getElem?_setStatus, ht]
  by_cases hj : j = i
  · exact ⟨{ t with status := st }, by simp [hj], hreq, hst hj⟩
  · exact ⟨t, by simp [hj], hreq, hleft⟩

/-- **A program that returns by itself returns in every interleaving** in which its
replies are ones that `A` allows. -/
theorem RunWith.remains (h : sys.RunWith ok c₀ c) {i : ℕ} {r : ρ} {p : Prog C R α}
    (hi : c₀.threads[i]? = some ⟨r, .running p⟩) (hp : p.Returns Φ A n [] Q) :
    ∀ {new : List (Event C R σ)}, c.trace = new ++ c₀.trace →
      (∀ e older, e :: older <:+ new → e.tid = i → A (pastOf i older) e.call e.reply) →
        Remains Φ A Q n i r new c := by
  induction h with
  | refl =>
    intro new hnew _
    obtain rfl : new = [] := by simpa using hnew
    refine ⟨⟨_, hi, rfl, fun p' hp' => ?_⟩, Nat.zero_le _⟩
    cases hp'
    exact ⟨n, by simp, hp⟩
  | @move c c' a hrun _ hstep ih =>
    obtain ⟨old, htr, -⟩ := hrun.history
    intro new hnew hA
    cases sys.move_of_apply hstep with
    | start r' =>
      obtain ⟨⟨t, ht, hleft⟩, hcalls⟩ := ih hnew hA
      refine ⟨⟨t, ?_, hleft⟩, hcalls⟩
      have hlt : i < c.threads.length := (List.getElem?_eq_some_iff.mp ht).choose
      rwa [List.getElem?_append_left hlt]
    | @call j choice r' k f x s' hj hx =>
      obtain rfl : new = ⟨j, k, x, c.shared, s'⟩ :: old := by
        refine List.append_cancel_right (hnew.symm.trans ?_)
        rw [List.cons_append, ← htr]
      have hold := ih htr fun e older hsuf => hA e older (hsuf.trans (List.suffix_cons _ _))
      by_cases hji : j = i
      · subst hji
        have hallowed : A (pastOf j old) k x := hA _ old List.suffix_rfl rfl
        obtain ⟨⟨t, ht, hreq, hleft⟩, hcalls⟩ := hold
        obtain rfl := Option.some_inj.mp (hj.symm.trans ht)
        -- the call uses up one of the moves that were left
        obtain ⟨m, hm, hreturns⟩ := hleft _ rfl
        have hlen : (pastOf j (⟨j, k, x, c.shared, s'⟩ :: old)).length =
            (pastOf j old).length + 1 := by
          rw [pastOf_cons_self ⟨j, k, x, c.shared, s'⟩ old, List.length_cons]
        cases m with
        | zero => exact hreturns.elim
        | succ m =>
          have hrest := hreturns.2 x hallowed
          rw [← pastOf_cons_self ⟨j, k, x, c.shared, s'⟩ old] at hrest
          refine ⟨⟨⟨r', .running (f x)⟩, ?_, hreq, fun p' hp' => ?_⟩, by omega⟩
          · change (c.setStatus j _).threads[j]? = _
            rw [Config.getElem?_setStatus, if_pos rfl, hj]
            rfl
          · cases hp'
            exact ⟨m, by omega, hrest⟩
      · have hsame : pastOf i (⟨j, k, x, c.shared, s'⟩ :: old) = pastOf i old :=
          pastOf_cons_of_ne (e := ⟨j, k, x, c.shared, s'⟩) hji old
        have hkept : Remains Φ A Q n i r old (c.setStatus j (.running (f x))) :=
          hold.setStatus fun hcontra => absurd hcontra hji
        exact ⟨hsame ▸ hkept.thread, hsame ▸ hkept.calls⟩
    | @unroll j choice r' β S body s k hj =>
      refine (ih hnew hA).setStatus fun hji p' hp' => ?_
      subst hji
      cases hp'
      obtain ⟨⟨t, ht, -, hleft⟩, -⟩ := ih hnew hA
      obtain rfl := Option.some_inj.mp (hj.symm.trans ht)
      obtain ⟨m, hm, hreturns⟩ := hleft _ rfl
      cases m with
      | zero => exact hreturns.elim
      | succ m => exact ⟨m, by omega, hreturns⟩
    | stop hj hst =>
      refine (ih hnew hA).setStatus fun _ p' hp' => ?_
      rcases hst with rfl | rfl <;> cases hp'
    | tick ht =>
      obtain ⟨hthread, hcalls⟩ := ih hnew hA
      exact ⟨hthread, hcalls⟩

/-- A call that the program waits for satisfies `Φ`. -/
theorem Remains.waiting {i : ℕ} {r r' : ρ} {new : List (Event C R σ)} {k : C}
    {f : R k → Prog C R α} (h : Remains Φ A Q n i r new c)
    (hi : c.threads[i]? = some ⟨r', .running (.call k f)⟩) : Φ (pastOf i new) k := by
  obtain ⟨⟨t, ht, -, hleft⟩, -⟩ := h
  obtain rfl := Option.some_inj.mp (hi.symm.trans ht)
  obtain ⟨m, -, hreturns⟩ := hleft _ rfl
  cases m with
  | zero => exact hreturns.elim
  | succ m => exact hreturns.1

/-- What the program returned satisfies `Q`. -/
theorem Remains.returned {i : ℕ} {r : ρ} {new : List (Event C R σ)} {a : α}
    (h : Remains Φ A Q n i r new c) (ha : c.threads[i]?.bind Thread.returned = some a) :
    Q (pastOf i new) a := by
  obtain ⟨⟨t, ht, -, hleft⟩, -⟩ := h
  rw [ht] at ha
  unfold Option.bind Thread.returned at ha
  dsimp only at ha
  split at ha
  · rename_i hst
    obtain rfl := Option.some_inj.mp ha
    obtain ⟨m, -, hreturns⟩ := hleft _ hst
    exact Prog.returns_ret.mp hreturns
  · cases ha

end Returns

/-! ### Disciplines of programs -/

/-- Every call so far, every call about to be made and every answer respects the
discipline of its request. -/
structure Upheld (Φ : ρ → Past C R → C → Prop) (Ψ : ρ → Past C R → α → Prop)
    (c : Config C R σ ρ α) : Prop where
  running : ∀ {i : ℕ} {t : Thread C R ρ α} {p : Prog C R α}, c.threads[i]? = some t →
    t.status = .running p → p.Upholds (Φ t.req) (pastOf i c.trace) (Ψ t.req)
  event : ∀ {e : Event C R σ} {past : List (Event C R σ)}, e :: past <:+ c.trace →
    ∃ t, c.threads[e.tid]? = some t ∧ Φ t.req (pastOf e.tid past) e.call

variable {Φ : ρ → Past C R → C → Prop} {Ψ : ρ → Past C R → α → Prop}

theorem Upheld.tid_lt (h : Upheld Φ Ψ c) {e : Event C R σ} (he : e ∈ c.trace) :
    e.tid < c.threads.length := by
  obtain ⟨newer, older, htr⟩ := List.append_of_mem he
  obtain ⟨t, ht, _⟩ := h.event (show e :: older <:+ c.trace from ⟨newer, htr.symm⟩)
  exact (List.getElem?_eq_some_iff.mp ht).choose

theorem Upheld.pastOf_eq_nil (h : Upheld Φ Ψ c) {i : ℕ} (hi : c.threads.length ≤ i) :
    pastOf i c.trace = [] :=
  Interleave.pastOf_eq_nil fun _ he hid => absurd (h.tid_lt he) (by omega)

/-- Changing the status of one thread keeps the discipline of the calls made. -/
private theorem event_setStatus {i : ℕ} {st : Status C R α}
    {e : Event C R σ} {past : Past C R}
    (h : ∃ t, c.threads[e.tid]? = some t ∧ Φ t.req past e.call) :
    ∃ t, (c.setStatus i st).threads[e.tid]? = some t ∧ Φ t.req past e.call := by
  obtain ⟨t, ht, hΦ⟩ := h
  rw [Config.getElem?_setStatus, ht]
  by_cases hi : i = e.tid
  · exact ⟨{ t with status := st }, by simp [hi], hΦ⟩
  · exact ⟨t, by simp [hi], hΦ⟩

/-- A move of thread `i` that makes no call, to a status that upholds the rest. -/
private theorem Upheld.setStatus (h : Upheld Φ Ψ c) {i : ℕ} {st : Status C R α}
    (hst : ∀ t p, c.threads[i]? = some t → st = .running p →
      p.Upholds (Φ t.req) (pastOf i c.trace) (Ψ t.req)) :
    Upheld Φ Ψ (c.setStatus i st) where
  running := by
    intro j t p ht hp
    rw [Config.getElem?_setStatus] at ht
    by_cases hi : i = j
    · subst hi
      rw [if_pos rfl] at ht
      obtain ⟨t', ht', rfl⟩ := Option.map_eq_some_iff.mp ht
      exact hst t' p ht' hp
    · rw [if_neg hi] at ht
      exact h.running ht hp
  event := fun he => event_setStatus (h.event he)

theorem Upheld.move (hbody : ∀ r, (sys.body r).Upholds (Φ r) [] (Ψ r)) {a : Action ρ ι ε}
    {c' : Config C R σ ρ α} (h : Upheld Φ Ψ c) (hm : Move sys c a c') : Upheld Φ Ψ c' := by
  cases hm with
  | start r =>
    constructor
    · intro i t p ht hp
      rcases Nat.lt_or_ge i c.threads.length with hi | hi
      · rw [List.getElem?_append_left hi] at ht
        exact h.running ht hp
      · rw [List.getElem?_append_right hi, List.getElem?_singleton] at ht
        split at ht
        · obtain rfl := Option.some_inj.mp ht
          cases hp
          simpa [h.pastOf_eq_nil hi] using hbody r
        · cases ht
    · intro e past he
      obtain ⟨t, ht, hΦ⟩ := h.event he
      refine ⟨t, ?_, hΦ⟩
      rwa [List.getElem?_append_left (h.tid_lt (he.mem List.mem_cons_self))]
  | @call i choice r k f x s' hi hx =>
    have hk : Φ r (pastOf i c.trace) k ∧
        ∀ x, (f x).Upholds (Φ r) (⟨k, x⟩ :: pastOf i c.trace) (Ψ r) := h.running hi rfl
    constructor
    · intro j t p ht hp
      change (c.setStatus i _).threads[j]? = some t at ht
      rw [Config.getElem?_setStatus] at ht
      by_cases hij : i = j
      · subst hij
        rw [if_pos rfl, hi] at ht
        obtain rfl := Option.some_inj.mp ht
        cases hp
        exact (pastOf_cons_self ⟨i, k, x, c.shared, s'⟩ c.trace).symm ▸ hk.2 x
      · rw [if_neg hij] at ht
        rw [pastOf_cons_of_ne (e := ⟨i, k, x, c.shared, s'⟩) hij]
        exact h.running ht hp
    · intro e past he
      rcases List.suffix_cons_iff.mp he with heq | hsuf
      · obtain ⟨rfl, rfl⟩ := List.cons_eq_cons.mp heq
        exact event_setStatus (e := ⟨i, k, x, c.shared, s'⟩) ⟨_, hi, hk.1⟩
      · exact event_setStatus (h.event hsuf)
  | unroll hi =>
    refine h.setStatus fun t p ht hp => ?_
    cases hp
    obtain rfl := Option.some_inj.mp (hi.symm.trans ht)
    exact (h.running hi rfl).unroll
  | stop hi hst =>
    refine h.setStatus fun t p _ hp => ?_
    rcases hst with rfl | rfl <;> cases hp
  | tick ht => exact ⟨fun ht hp => h.running ht hp, fun he => h.event he⟩

/-- **Disciplines survive interleaving**: what every request's program upholds by
itself is upheld in every configuration reached from an initial one. -/
theorem RunWith.upheld (hbody : ∀ r, (sys.body r).Upholds (Φ r) [] (Ψ r)) {s : σ}
    (h : sys.RunWith ok (.initial s) c) : Upheld Φ Ψ c := by
  induction h with
  | refl => exact ⟨by simp [Config.initial], by simp [Config.initial]⟩
  | move _ _ hstep ih => exact ih.move hbody (sys.move_of_apply hstep)

/-- The answer of a request that has ended is one its program upholds. -/
theorem Upheld.returned (h : Upheld Φ Ψ c) {i : ℕ} {t : Thread C R ρ α} {a : α}
    (ht : c.threads[i]? = some t) (ha : t.returned = some a) :
    Ψ t.req (pastOf i c.trace) a := by
  unfold Thread.returned at ha
  split at ha
  · rename_i hst
    obtain rfl := Option.some_inj.mp ha
    exact h.running ht hst
  · cases ha

/-- A call that a request is waiting for respects its discipline. -/
theorem Upheld.waiting (h : Upheld Φ Ψ c) {i : ℕ} {r : ρ} {k : C} {f : R k → Prog C R α}
    (ht : c.threads[i]? = some ⟨r, .running (.call k f)⟩) : Φ r (pastOf i c.trace) k :=
  (h.running ht rfl).1

end System

/-! ### Histories -/

namespace System.History

variable {sys : System C R σ ρ α ι ε} {s₀ s : σ} {tr : List (Event C R σ)}

/-- What every executed call and every move of the environment preserves holds
at the end of the history. -/
theorem invariant (P : σ → Prop) (hcall : ∀ choice c s r s', sys.exec choice c s = .done r s' →
      P s → P s') (htick : ∀ e s s', sys.tick e s = some s' → P s → P s')
    (h : History sys s₀ tr s) (h₀ : P s₀) : P s := by
  induction h with
  | start => exact h₀
  | tick _ ht ih => exact htick _ _ _ ht ih
  | call _ hx ih => exact hcall _ _ _ _ _ hx ih

/-- A relation that every step extends relates the ends of the history. -/
theorem closure (L : σ → σ → Prop) (hrefl : ∀ s, L s s)
    (htrans : ∀ {a b c}, L a b → L b c → L a c)
    (hcall : ∀ choice c s r s', sys.exec choice c s = .done r s' → L s s')
    (htick : ∀ e s s', sys.tick e s = some s' → L s s')
    (h : History sys s₀ tr s) : L s₀ s := by
  induction h with
  | start => exact hrefl _
  | tick _ ht ih => exact htrans ih (htick _ _ _ ht)
  | call _ hx ih => exact htrans ih (hcall _ _ _ _ _ hx)

/-- A history can be cut before any of its events. -/
theorem split : ∀ {newer older : List (Event C R σ)} {e : Event C R σ},
    History sys s₀ (newer ++ e :: older) s →
      History sys s₀ older e.before ∧ (∃ choice, sys.exec choice e.call e.before =
        .done e.reply e.after) ∧ History sys e.after newer s := by
  intro newer older e h
  generalize htr : newer ++ e :: older = tr at h
  induction h generalizing newer with
  | start => simp at htr
  | tick _ ht ih =>
    obtain ⟨h₁, h₂, h₃⟩ := ih htr
    exact ⟨h₁, h₂, .tick h₃ ht⟩
  | call hist hx ih =>
    cases newer with
    | nil =>
      obtain ⟨rfl, rfl⟩ := List.cons_eq_cons.mp htr
      exact ⟨hist, ⟨_, hx⟩, .start⟩
    | cons e' newer =>
      obtain ⟨rfl, htl⟩ := List.cons_eq_cons.mp htr
      obtain ⟨h₁, h₂, h₃⟩ := ih htl
      exact ⟨h₁, h₂, .call h₃ hx⟩

/-- Histories compose. -/
theorem append {s₁ : σ} {tr' : List (Event C R σ)} (h₁ : History sys s₀ tr s₁)
    (h₂ : History sys s₁ tr' s) : History sys s₀ (tr' ++ tr) s := by
  induction h₂ with
  | start => exact h₁
  | tick _ ht ih => exact .tick ih ht
  | call _ hx ih => exact .call ih hx

end System.History

end Interleave
