/-
A program by itself.

`Alone view p w a w'` says that `p`, with nobody else making calls, can start
where the part of the state that `view` shows is `w`, return `a`, and leave
`w'`.  What `view` does not show may be anything at each call: the environment
goes on moving it.

* `Fails` — a program by itself that a failed call ends; without loops, and with
  calls that go through, there is none (`Prog.Only.not_fails`), and the program
  returns (`Prog.Only.ends`);
* `execute` — a program by itself, computed;
* `RunWith.alone` — a request that is answered while no other request makes a
  move has run by itself;
* `Triple` — every answer of a program that starts in `P` is one that `Q`
  allows; its rules follow the program (`Triple.step`, `Triple.bind`,
  `Triple.iterate`).
-/
import ChatBotChat.Interleave.Runs

namespace Interleave

variable {C : Type} {R : C → Type} {σ ρ α β S ι ε ω : Type} {sys : System C R σ ρ α ι ε}

/-! ### Executions -/

/-- An execution of a program by itself, from its start to what it returns. -/
inductive Alone (exec : ι → (c : C) → σ → Exec (R c) σ) (view : σ → ω) :
    Prog C R α → ω → α → ω → Prop
  | ret {a : α} {w : ω} : Alone exec view (.ret a) w a w
  | call {c : C} {k : R c → Prog C R α} {choice : ι} {r : R c} {s s' : σ} {a : α} {w' : ω} :
      exec choice c s = .done r s' → Alone exec view (k r) (view s') a w' →
        Alone exec view (.call c k) (view s) a w'
  | loop {β S : Type} {body : S → Prog C R (S ⊕ β)} {i : S} {k : β → Prog C R α} {a : α}
      {w w' : ω} : Alone exec view (Prog.unroll body i k) w a w' →
        Alone exec view (.loop body i k) w a w'

variable {exec : ι → (c : C) → σ → Exec (R c) σ} {view : σ → ω} {w w' : ω} {a : α}

theorem alone_ret_iff {b : α} : Alone exec view (.ret b) w a w' ↔ a = b ∧ w' = w := by
  refine ⟨fun h => ?_, ?_⟩
  · cases h
    exact ⟨rfl, rfl⟩
  · rintro ⟨rfl, rfl⟩
    exact .ret

theorem Alone.call_inv {c : C} {k : R c → Prog C R α} (h : Alone exec view (.call c k) w a w') :
    ∃ choice r s s', exec choice c s = .done r s' ∧ w = view s ∧
      Alone exec view (k r) (view s') a w' := by
  cases h with
  | call hexec hrest => exact ⟨_, _, _, _, hexec, rfl, hrest⟩

/-- A sequence is executed in two parts. -/
theorem Alone.bind_inv {q : Prog C R β} {b : β} (h : Alone exec view q w b w') :
    ∀ (p : Prog C R α) (f : α → Prog C R β), q = p.bind f →
      ∃ a w₁, Alone exec view p w a w₁ ∧ Alone exec view (f a) w₁ b w' := by
  induction h with
  | @ret b w =>
    intro p f hq
    cases p with
    | ret a =>
      refine ⟨a, w, .ret, ?_⟩
      rw [show f a = .ret b from hq.symm]
      exact .ret
    | call c k => cases hq
    | loop body i k => cases hq
  | @call c k choice r s s' b w' hexec hrest ih =>
    intro p f hq
    cases p with
    | ret a =>
      refine ⟨a, view s, .ret, ?_⟩
      rw [show f a = .call c k from hq.symm]
      exact .call hexec hrest
    | call c k' =>
      cases hq
      obtain ⟨a, w₁, h₁, h₂⟩ := ih (k' r) f rfl
      exact ⟨a, w₁, .call hexec h₁, h₂⟩
    | loop body i k => cases hq
  | @loop β' S' body i k b w w' hrest ih =>
    intro p f hq
    cases p with
    | ret a =>
      refine ⟨a, w, .ret, ?_⟩
      rw [show f a = .loop body i k from hq.symm]
      exact .loop hrest
    | call c k => cases hq
    | loop body i k' =>
      cases hq
      obtain ⟨a, w₁, h₁, h₂⟩ := ih (Prog.unroll body i k') f (Prog.unroll_bind _ _ _ _).symm
      exact ⟨a, w₁, .loop h₁, h₂⟩

/-- An execution of a program by itself that a failed call ends. -/
inductive Fails (exec : ι → (c : C) → σ → Exec (R c) σ) (view : σ → ω) :
    Prog C R α → ω → ω → Prop
  | here {c : C} {k : R c → Prog C R α} {choice : ι} {s : σ} : exec choice c s = .failed →
      Fails exec view (.call c k) (view s) (view s)
  | call {c : C} {k : R c → Prog C R α} {choice : ι} {r : R c} {s s' : σ} {w' : ω} :
      exec choice c s = .done r s' → Fails exec view (k r) (view s') w' →
        Fails exec view (.call c k) (view s) w'
  | loop {β S : Type} {body : S → Prog C R (S ⊕ β)} {i : S} {k : β → Prog C R α} {w w' : ω} :
      Fails exec view (Prog.unroll body i k) w w' → Fails exec view (.loop body i k) w w'

theorem Fails.call_inv {c : C} {k : R c → Prog C R α} (h : Fails exec view (.call c k) w w') :
    (∃ choice s, exec choice c s = .failed ∧ w = view s ∧ w' = view s) ∨
      ∃ choice r s s', exec choice c s = .done r s' ∧ w = view s ∧
        Fails exec view (k r) (view s') w' := by
  cases h with
  | here hexec => exact .inl ⟨_, _, hexec, rfl, rfl⟩
  | call hexec hrest => exact .inr ⟨_, _, _, _, hexec, rfl, hrest⟩

/-- The call goes through, whatever the state. -/
def Sure (exec : ι → (c : C) → σ → Exec (R c) σ) (c : C) : Prop :=
  ∀ choice s, ∃ r s', exec choice c s = .done r s'

/-- A program without loops whose calls go through does not fail. -/
theorem Prog.Only.not_fails {p : Prog C R α} :
    ∀ {n : ℕ} {w : ω}, p.Only (Sure exec) n → ¬ Fails exec view p w w' := by
  induction p with
  | ret a => exact fun _ h => nomatch h
  | call c k ih =>
    intro n w honly h
    cases n with
    | zero => exact honly.elim
    | succ n =>
      rcases h.call_inv with ⟨choice, s, hfailed, -⟩ | ⟨choice, r, s, s', -, -, hrest⟩
      · obtain ⟨r, s', hdone⟩ := honly.1 choice s
        rw [hfailed] at hdone
        cases hdone
      · exact ih r (honly.2 r) hrest
  | loop body i k => exact fun honly => honly.elim

/-- A program without loops whose calls go through returns. -/
theorem Prog.Only.ends (choice : ι) {p : Prog C R α} :
    ∀ {n : ℕ} (s : σ), p.Only (Sure exec) n → ∃ a s', Alone exec view p (view s) a (view s') := by
  induction p with
  | ret a => exact fun s _ => ⟨a, s, .ret⟩
  | call c k ih =>
    intro n s honly
    cases n with
    | zero => exact honly.elim
    | succ n =>
      obtain ⟨r, s₁, hdone⟩ := honly.1 choice s
      obtain ⟨a, s', hrest⟩ := ih r s₁ (honly.2 r)
      exact ⟨a, s', .call hdone hrest⟩
  | loop body i k => exact fun _ honly => honly.elim

/-- Execute a program by itself in at most `fuel` moves, each call as `choice` has it. -/
def execute (exec : ι → (c : C) → σ → Exec (R c) σ) (choice : ι) :
    ℕ → Prog C R α → σ → Option (α × σ)
  | _, .ret a, s => some (a, s)
  | 0, _, _ => none
  | fuel + 1, .call c k, s =>
    match exec choice c s with
    | .done r s' => execute exec choice fuel (k r) s'
    | .failed | .blocked => none
  | fuel + 1, .loop body i k, s => execute exec choice fuel (Prog.unroll body i k) s

/-- `c'` is `c` after request `i` has gone on by itself and returned `a`. -/
structure System.Served (sys : System C R σ ρ α ι ε) (i : ℕ) (a : α)
    (c c' : Config C R σ ρ α) : Prop where
  run : sys.Run c c'
  length : c'.threads.length = c.threads.length
  request : c'.threads[i]?.map Thread.req = c.threads[i]?.map Thread.req
  returned : c'.threads[i]?.bind Thread.returned = some a
  others : ∀ j, j ≠ i → c'.threads[j]? = c.threads[j]?
  trace : ∃ new, c'.trace = new ++ c.trace ∧ ∀ e ∈ new, e.tid = i

/-- A move of the request itself may come first. -/
theorem System.Served.step {c c₁ c' : Config C R σ ρ α} {i : ℕ} {choice : ι} {st : Status C R α}
    (h : sys.Served i a c₁ c') (hstep : sys.apply (.step i choice) c = some c₁)
    (hthreads : c₁.threads = (c.setStatus i st).threads)
    (htrace : ∃ new, c₁.trace = new ++ c.trace ∧ ∀ e ∈ new, e.tid = i) :
    sys.Served i a c c' where
  run := RunWith.trans (.move .refl trivial hstep) h.run
  length := by rw [h.length, hthreads, Config.setStatus_length]
  request := by
    rw [h.request, hthreads, Config.getElem?_setStatus, if_pos rfl, Option.map_map]
    rfl
  returned := h.returned
  others := by
    intro j hj
    rw [h.others j hj, hthreads, Config.getElem?_setStatus, if_neg hj.symm]
  trace := by
    obtain ⟨new, hnew, htids⟩ := h.trace
    obtain ⟨first, hfirst, htids'⟩ := htrace
    refine ⟨new ++ first, by rw [hnew, hfirst, List.append_assoc], fun e he => ?_⟩
    rcases List.mem_append.mp he with he | he
    · exact htids e he
    · exact htids' e he

/-- **What can be executed can be run**: a request goes on by itself to its answer. -/
theorem System.served_of_execute {choice : ι} {i : ℕ} {q : ρ} : ∀ {fuel : ℕ} {p : Prog C R α}
    {c : Config C R σ ρ α} {s' : σ}, c.threads[i]? = some ⟨q, .running p⟩ →
      execute sys.exec choice fuel p c.shared = some (a, s') →
        ∃ c', sys.Served i a c c' ∧ c'.shared = s' := by
  have hdone : ∀ {b : α} {c : Config C R σ ρ α} {s' : σ},
      c.threads[i]? = some ⟨q, .running (.ret b)⟩ → some (b, c.shared) = some (a, s') →
        ∃ c', sys.Served i a c c' ∧ c'.shared = s' := by
    intro b c s' hi h
    obtain ⟨rfl, rfl⟩ := Prod.mk.inj (Option.some_inj.mp h)
    refine ⟨c, ⟨.refl, rfl, rfl, ?_, fun _ _ => rfl, [], rfl, by simp⟩, rfl⟩
    rw [hi]
    rfl
  have hset : ∀ {c : Config C R σ ρ α} {p : Prog C R α} (p' : Prog C R α),
      c.threads[i]? = some ⟨q, .running p⟩ →
        (c.setStatus i (.running p')).threads[i]? = some ⟨q, .running p'⟩ := by
    intro c p p' hi
    rw [Config.getElem?_setStatus, if_pos rfl, hi]
    rfl
  intro fuel
  induction fuel with
  | zero =>
    intro p c s' hi h
    cases p with
    | ret b => exact hdone hi h
    | call k f => cases h
    | loop body x f => cases h
  | succ fuel ih =>
    intro p c s' hi h
    cases p with
    | ret b => exact hdone hi h
    | call k f =>
      rw [execute] at h
      split at h
      · rename_i r s₁ hexec
        have hstep : sys.apply (.step i choice) c = some { c.setStatus i (.running (f r)) with
            shared := s₁, trace := ⟨i, k, r, c.shared, s₁⟩ :: c.trace } := by
          simp only [System.apply, System.stepThread, hi, hexec]
        obtain ⟨c', hserved, hshared⟩ := ih (c := { c.setStatus i (.running (f r)) with
          shared := s₁, trace := ⟨i, k, r, c.shared, s₁⟩ :: c.trace }) (hset (f r) hi) h
        exact ⟨c', hserved.step hstep rfl ⟨[⟨i, k, r, c.shared, s₁⟩], rfl, by simp⟩, hshared⟩
      · cases h
      · cases h
    | loop body x f =>
      rw [execute] at h
      have hstep : sys.apply (.step i choice) c =
          some (c.setStatus i (.running (Prog.unroll body x f))) := by
        simp only [System.apply, System.stepThread, hi]
      obtain ⟨c', hserved, hshared⟩ := ih (hset _ hi) h
      exact ⟨c', hserved.step hstep rfl ⟨[], rfl, by simp⟩, hshared⟩

/-! ### Requests that do not overlap -/

/-- No request but `i` makes a move. -/
def System.Solo (i : ℕ) (_ : Config C R σ ρ α) : Action ρ ι ε → Prop
  | .step j _ => j = i
  | .tick _ => True
  | _ => False

/-- **A request answered while no other made a move has run by itself.** -/
theorem System.RunWith.alone (hview : ∀ e s s', sys.tick e s = some s' → view s' = view s)
    {c₀ c : Config C R σ ρ α} {i : ℕ} {r : ρ} {p : Prog C R α}
    (h : sys.RunWith (System.Solo i) c₀ c) (hi : c₀.threads[i]? = some ⟨r, .running p⟩)
    (ha : c.threads[i]?.bind Thread.returned = some a) :
    Alone sys.exec view p (view c₀.shared) a (view c.shared) := by
  have hleft : c.threads[i]? = some ⟨r, .failed⟩ ∨ ∃ p', c.threads[i]? = some ⟨r, .running p'⟩ ∧
      ∀ a w', Alone sys.exec view p' (view c.shared) a w' →
        Alone sys.exec view p (view c₀.shared) a w' := by
    clear ha
    induction h with
    | refl => exact .inr ⟨p, hi, fun _ _ h => h⟩
    | @move c c' act hrun hok hstep ih =>
      cases act with
      | start r' => cases hok
      | fail j => cases hok
      | drop j => cases hok
      | tick e =>
        obtain ⟨s, hs, rfl⟩ := Option.map_eq_some_iff.mp hstep
        have hsame : view s = view c.shared := hview _ _ _ hs
        rcases ih with hfailed | ⟨p', hp', hrest⟩
        · exact .inl hfailed
        · exact .inr ⟨p', hp', fun a w' hend => hrest a w' (hsame ▸ hend)⟩
      | step j choice =>
        obtain rfl : j = i := hok
        simp only [System.apply, System.stepThread] at hstep
        rcases ih with hfailed | ⟨p', hp', hrest⟩
        · rw [hfailed] at hstep
          cases hstep
        · rw [hp'] at hstep
          have hset : ∀ st, (c.setStatus j st).threads[j]? = some ⟨r, st⟩ := by
            intro st
            rw [Config.getElem?_setStatus, if_pos rfl, hp']
            rfl
          cases p' with
          | ret b => cases hstep
          | call k f =>
            dsimp only at hstep
            cases hexec : sys.exec choice k c.shared with
            | done x s' =>
              rw [hexec] at hstep
              obtain rfl := Option.some_inj.mp hstep
              exact .inr ⟨f x, hset _, fun a w' hend => hrest a w' (.call hexec hend)⟩
            | failed =>
              rw [hexec] at hstep
              obtain rfl := Option.some_inj.mp hstep
              exact .inl (hset _)
            | blocked =>
              rw [hexec] at hstep
              cases hstep
          | loop body i k =>
            obtain rfl := Option.some_inj.mp hstep
            exact .inr ⟨_, hset _, fun a w' hend => hrest a w' (.loop hend)⟩
  rcases hleft with hfailed | ⟨p', hp', hrest⟩
  · rw [hfailed] at ha
    cases ha
  · rw [hp'] at ha
    cases p' with
    | ret b =>
      obtain rfl := Option.some_inj.mp ha
      exact hrest b _ .ret
    | call k f => cases ha
    | loop body i k => cases ha

/-! ### Triples -/

/-- Every answer of `p` by itself, from a state that meets `P`, is one that `Q`
allows. -/
def Triple (exec : ι → (c : C) → σ → Exec (R c) σ) (view : σ → ω) (P : ω → Prop)
    (p : Prog C R α) (Q : α → ω → Prop) : Prop :=
  ∀ w a w', P w → Alone exec view p w a w' → Q a w'

variable {P P' : ω → Prop} {Q Q' : α → ω → Prop}

/-- Strengthening what is known before, weakening what is said after. -/
theorem Triple.imp {p : Prog C R α} (hP : ∀ w, P' w → P w) (hQ : ∀ a w, Q a w → Q' a w)
    (h : Triple exec view P p Q) : Triple exec view P' p Q' :=
  fun w a w' hw hend => hQ a w' (h w a w' (hP w hw) hend)

/-- The rule of a return. -/
theorem Triple.pure {b : α} (h : ∀ w, P w → Q b w) :
    Triple exec view P (pure b : Prog C R α) Q := by
  intro w a w' hw hend
  obtain ⟨rfl, rfl⟩ := alone_ret_iff.mp hend
  exact h w' hw

/-- The rule of sequencing. -/
theorem Triple.bind {p : Prog C R α} {f : α → Prog C R β} {M : α → ω → Prop} {T : β → ω → Prop}
    (hp : Triple exec view P p M) (hf : ∀ a, Triple exec view (M a) (f a) T) :
    Triple exec view P (p >>= f) T := by
  intro w b w' hw hend
  obtain ⟨a, w₁, h₁, h₂⟩ := hend.bind_inv p f rfl
  exact hf a w₁ b w' (hp w a w₁ hw h₁) h₂

/-- The rule of one call. -/
theorem Triple.step {c : C} {k : R c → Prog C R β} {M : R c → ω → Prop} {T : β → ω → Prop}
    (hc : ∀ choice r s s', P (view s) → exec choice c s = .done r s' → M r (view s'))
    (hk : ∀ r, Triple exec view (M r) (k r) T) :
    Triple exec view P (Prog.perform c >>= k) T := by
  intro w b w' hw hend
  obtain ⟨choice, r, s, s', hexec, rfl, hrest⟩ := hend.call_inv
  exact hk r _ b w' (hc choice r s s' hw hexec) hrest

/-- The rule of a loop: an invariant of its state. -/
theorem Triple.iterate {body : S → Prog C R (S ⊕ β)} {i : S} {T : β → ω → Prop}
    (I : S → ω → Prop) (hinit : ∀ w, P w → I i w)
    (hbody : ∀ j, Triple exec view (I j) (body j) fun x w =>
      match x with
      | .inl j' => I j' w
      | .inr b => T b w) :
    Triple exec view P (Prog.iterate body i) T := by
  -- what is left of a round, followed by the rounds to come
  have hleft : ∀ {q : Prog C R β} {w b w'}, Alone exec view q w b w' →
      ∀ p : Prog C R (S ⊕ β), q = p.bind (fun
        | .inl j => .loop body j .ret
        | .inr b => .ret b) →
      (∀ x w₁, Alone exec view p w x w₁ → match x with
        | .inl j => I j w₁
        | .inr b => T b w₁) → T b w' := by
    intro q w b w' hend
    induction hend with
    | @ret b w =>
      intro p hq hround
      cases p with
      | ret x =>
        cases x with
        | inl j => cases hq
        | inr b' =>
          cases hq
          exact hround (.inr b) w .ret
      | call c k => cases hq
      | loop body' j k => cases hq
    | @call c k choice r s s' b w' hexec hrest ih =>
      intro p hq hround
      cases p with
      | ret x => cases x <;> cases hq
      | call c k' =>
        cases hq
        exact ih (k' r) rfl fun x w₁ hx => hround x w₁ (.call hexec hx)
      | loop body' j k => cases hq
    | @loop β' S' body' j k b w w' hrest ih =>
      intro p hq hround
      cases p with
      | ret x =>
        cases x with
        | inl j =>
          cases hq
          exact ih (body j) rfl fun x w₁ hx => hbody j w x w₁ (hround (.inl j) w .ret) hx
        | inr b' => cases hq
      | call c k => cases hq
      | loop body' j k' =>
        cases hq
        exact ih (Prog.unroll body' j k') (Prog.unroll_bind _ _ _ _).symm
          fun x w₁ hx => hround x w₁ (.loop hx)
  intro w b w' hw hend
  exact hleft hend (.ret (.inl i)) rfl fun x w₁ hx => by
    obtain ⟨rfl, rfl⟩ := alone_ret_iff.mp hx
    exact hinit _ hw

/-- What every call keeps, every program keeps. -/
theorem Triple.invariant {p : Prog C R α} {I : ω → Prop}
    (hcall : ∀ choice c s r s', I (view s) → exec choice c s = .done r s' → I (view s')) :
    Triple exec view I p fun _ w => I w := by
  intro w a w' hw hend
  induction hend with
  | ret => exact hw
  | call hexec _ ih => exact ih (hcall _ _ _ _ _ hw hexec)
  | loop _ ih => exact ih hw

end Interleave
