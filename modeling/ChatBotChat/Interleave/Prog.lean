/-
Programs that talk to shared state only through calls.

A `Prog C R α` is a request handler cut at its calls: it either has returned,
or waits for the reply of one call, or is about to run a loop.  Everything a
handler does between two calls is local, so the calls are exactly the points at
which other programs may run in between (`System.lean`).

What a handler knows when it makes a call is a matter of its own past replies
only.  `Upholds Φ p past Q` says so for every possible reply: each call `c` the
program makes with own past `past` satisfies `Φ past c`, and each value it
returns satisfies `Q`.  The rules of this judgement are equations
(`upholds_bind`, `upholds_perform`), so that a handler is run symbolically by
rewriting; only a loop asks for an invariant (`upholds_iterate`).
-/
import Mathlib.Data.List.Infix
import Mathlib.Tactic.Common

namespace Interleave

/-- A program over the calls `C`, where a call `c` is answered by an `R c`. -/
inductive Prog (C : Type) (R : C → Type) : Type → Type 1 where
  | ret {α : Type} (a : α) : Prog C R α
  | call {α : Type} (c : C) (k : R c → Prog C R α) : Prog C R α
  | loop {α β S : Type} (body : S → Prog C R (S ⊕ β)) (s : S) (k : β → Prog C R α) :
      Prog C R α

variable {C : Type} {R : C → Type} {α β S : Type}

/-- The calls a program has made so far with their replies, newest first. -/
abbrev Past (C : Type) (R : C → Type) : Type := List (Sigma R)

namespace Prog

/-- Sequencing. -/
def bind {α β : Type} : Prog C R α → (α → Prog C R β) → Prog C R β
  | .ret a, f => f a
  | .call c k, f => .call c fun r => (k r).bind f
  | .loop body s k, f => .loop body s fun b => (k b).bind f

instance : Monad (Prog C R) where
  pure := .ret
  bind := .bind

/-- Make one call and return its reply. -/
def perform (c : C) : Prog C R (R c) := .call c .ret

/-- Run `body` from `s` until it returns on the right. -/
def iterate (body : S → Prog C R (S ⊕ β)) (s : S) : Prog C R β := .loop body s .ret

/-- One unfolding of a loop. -/
def unroll (body : S → Prog C R (S ⊕ β)) (s : S) (k : β → Prog C R α) : Prog C R α :=
  (body s).bind fun
    | .inl s' => .loop body s' k
    | .inr b => k b

/-- Whatever the replies, every call of the program satisfies `Φ` on the
program's own past and every value it returns satisfies `Q`. -/
def Upholds (Φ : Past C R → C → Prop) :
    {α : Type} → Prog C R α → Past C R → (Past C R → α → Prop) → Prop
  | _, .ret a, past, Q => Q past a
  | _, .call c k, past, Q => Φ past c ∧ ∀ r, Upholds Φ (k r) (⟨c, r⟩ :: past) Q
  | _, .loop body s k, past, Q => ∃ I : Past C R → _ → Prop, I past s ∧
      ∀ past' s', I past' s' → Upholds Φ (body s') past' fun past'' x =>
        match x with
        | .inl s'' => I past'' s''
        | .inr b => Upholds Φ (k b) past'' Q

variable {Φ : Past C R → C → Prop} {past : Past C R}

@[simp] theorem upholds_ret {a : α} {Q : Past C R → α → Prop} :
    Upholds Φ (.ret a) past Q ↔ Q past a := Iff.rfl

@[simp] theorem upholds_pure {a : α} {Q : Past C R → α → Prop} :
    Upholds Φ (pure a) past Q ↔ Q past a := Iff.rfl

@[simp] theorem upholds_call {c : C} {k : R c → Prog C R α} {Q : Past C R → α → Prop} :
    Upholds Φ (.call c k) past Q ↔ Φ past c ∧ ∀ r, Upholds Φ (k r) (⟨c, r⟩ :: past) Q :=
  Iff.rfl

@[simp] theorem upholds_perform {c : C} {Q : Past C R → R c → Prop} :
    Upholds Φ (perform c) past Q ↔ Φ past c ∧ ∀ r, Q (⟨c, r⟩ :: past) r := Iff.rfl

/-- Sequencing is composition of the two judgements. -/
theorem upholds_bind_eq (p : Prog C R α) (f : α → Prog C R β) :
    ∀ (past : Past C R) (Q : Past C R → β → Prop),
      Upholds Φ (p.bind f) past Q =
        Upholds Φ p past fun past' a => Upholds Φ (f a) past' Q := by
  induction p with
  | ret a =>
    intro past Q
    rfl
  | call c k ih =>
    intro past Q
    simp only [Prog.bind, Upholds, ih]
  | loop body s k _ ih =>
    intro past Q
    simp only [Prog.bind, Upholds, ih]

@[simp] theorem upholds_bind {p : Prog C R α} {f : α → Prog C R β} {Q : Past C R → β → Prop} :
    Upholds Φ (p >>= f) past Q ↔
      Upholds Φ p past fun past' a => Upholds Φ (f a) past' Q :=
  iff_of_eq (upholds_bind_eq p f past Q)

/-- The rule of one call. -/
theorem Upholds.step {c : C} {k : R c → Prog C R β} {Q : Past C R → β → Prop} (hc : Φ past c)
    (hk : ∀ r, Upholds Φ (k r) (⟨c, r⟩ :: past) Q) : Upholds Φ (perform c >>= k) past Q :=
  upholds_bind.mpr ⟨hc, hk⟩

/-- The rule of sequencing. -/
theorem Upholds.bind {p : Prog C R α} {f : α → Prog C R β} {Q : Past C R → β → Prop}
    (h : Upholds Φ p past fun past' a => Upholds Φ (f a) past' Q) : Upholds Φ (p >>= f) past Q :=
  upholds_bind.mpr h

/-- A loop upholds whatever an invariant carries round it. -/
theorem upholds_iterate {body : S → Prog C R (S ⊕ β)} {s : S} {Q : Past C R → β → Prop}
    (I : Past C R → S → Prop) (hinit : I past s)
    (hbody : ∀ past' s', I past' s' → Upholds Φ (body s') past' fun past'' x =>
      match x with
      | .inl s'' => I past'' s''
      | .inr b => Q past'' b) :
    Upholds Φ (iterate body s) past Q :=
  ⟨I, hinit, hbody⟩

/-- Weakening: a stronger discipline and a stronger conclusion. -/
theorem Upholds.imp {Φ' : Past C R → C → Prop} (hΦ : ∀ past c, Φ past c → Φ' past c)
    {p : Prog C R α} : ∀ {past : Past C R} {Q Q' : Past C R → α → Prop},
      (∀ past a, Q past a → Q' past a) → Upholds Φ p past Q → Upholds Φ' p past Q' := by
  induction p with
  | ret a =>
    intro past Q Q' hQ h
    exact hQ _ _ h
  | call c k ih =>
    intro past Q Q' hQ h
    exact ⟨hΦ _ _ h.1, fun r => ih r hQ (h.2 r)⟩
  | loop body s k ihbody ihk =>
    rintro past Q Q' hQ ⟨I, hI, hbody⟩
    refine ⟨I, hI, fun past' s' hs' => ihbody s' ?_ (hbody past' s' hs')⟩
    rintro past'' (s'' | b) h
    · exact h
    · exact ihk b hQ h

/-- Weakening of the conclusion alone. -/
theorem Upholds.mono {p : Prog C R α} {Q Q' : Past C R → α → Prop}
    (hQ : ∀ past a, Q past a → Q' past a) (h : Upholds Φ p past Q) : Upholds Φ p past Q' :=
  h.imp (fun _ _ h => h) hQ

/-- A discipline that asks for nothing is upheld. -/
theorem upholds_of_forall (hΦ : ∀ past c, Φ past c) {p : Prog C R α} :
    ∀ {past : Past C R} {Q : Past C R → α → Prop}, (∀ past a, Q past a) → Upholds Φ p past Q := by
  induction p with
  | ret a => exact fun hQ => hQ _ a
  | call c k ih => exact fun hQ => ⟨hΦ _ c, fun r => ih r hQ⟩
  | loop body s k ihbody ihk =>
    intro past Q hQ
    refine ⟨fun _ _ => True, trivial, fun past' s' _ => ihbody s' ?_⟩
    rintro past'' (s'' | b)
    · trivial
    · exact ihk b hQ

/-- Two disciplines of one program hold together. -/
theorem Upholds.and {Φ' : Past C R → C → Prop} {p : Prog C R α} :
    ∀ {past : Past C R} {Q Q' : Past C R → α → Prop},
      Upholds Φ p past Q → Upholds Φ' p past Q' →
        Upholds (fun past c => Φ past c ∧ Φ' past c) p past fun past a => Q past a ∧ Q' past a := by
  induction p with
  | ret a =>
    intro past Q Q' h h'
    exact ⟨h, h'⟩
  | call c k ih =>
    intro past Q Q' h h'
    exact ⟨⟨h.1, h'.1⟩, fun r => ih r (h.2 r) (h'.2 r)⟩
  | loop body s k ihbody ihk =>
    rintro past Q Q' ⟨I, hI, hbody⟩ ⟨I', hI', hbody'⟩
    refine ⟨fun past s => I past s ∧ I' past s, ⟨hI, hI'⟩, fun past' s' hs' => ?_⟩
    refine (ihbody s' (hbody past' s' hs'.1) (hbody' past' s' hs'.2)).mono ?_
    rintro past'' (s'' | b) h
    · exact h
    · exact ihk b h.1 h.2

/-! ### Programs without loops -/

/-- A program that makes at most `n` calls, all of them in `P`, and returns. -/
def Only (P : C → Prop) : {α : Type} → Prog C R α → ℕ → Prop
  | _, .ret _, _ => True
  | _, .call _ _, 0 => False
  | _, .call c k, n + 1 => P c ∧ ∀ r, Only P (k r) n
  | _, .loop _ _ _, _ => False

variable {P : C → Prop} {m n : ℕ}

theorem Only.pure (a : α) : Only P (pure a : Prog C R α) n := trivial

theorem Only.perform {c : C} (hc : P c) : Only P (perform c : Prog C R (R c)) 1 :=
  ⟨hc, fun _ => trivial⟩

theorem Only.le {p : Prog C R α} : ∀ {m n : ℕ}, Only P p m → m ≤ n → Only P p n := by
  induction p with
  | ret a => exact fun _ _ => trivial
  | call c k ih =>
    intro m n h hmn
    cases m with
    | zero => exact h.elim
    | succ m =>
      obtain ⟨n, rfl⟩ : ∃ n', n = n' + 1 := ⟨n - 1, by omega⟩
      exact ⟨h.1, fun r => ih r (h.2 r) (by omega)⟩
  | loop body s k => exact fun h _ => h.elim

theorem Only.bind {p : Prog C R α} {f : α → Prog C R β} (hf : ∀ a, Only P (f a) n) :
    ∀ {m : ℕ}, Only P p m → Only P (p >>= f) (m + n) := by
  induction p with
  | ret a => exact fun {m} _ => (hf a).le (by omega)
  | call c k ih =>
    intro m h
    cases m with
    | zero => exact h.elim
    | succ m =>
      rw [Nat.succ_add]
      exact ⟨h.1, fun r => ih r hf (h.2 r)⟩
  | loop body s k => exact fun h => h.elim

/-- Whatever the discipline of its calls, the program makes few and good ones. -/
theorem Only.upholds {p : Prog C R α} : ∀ {n : ℕ} {past : Past C R}, Only P p n →
    (∀ (newer : Past C R) (c : C), P c → Φ (newer ++ past) c) →
      Upholds Φ p past fun past' _ => ∃ newer : Past C R, past' = newer ++ past ∧
        newer.length ≤ n ∧ ∀ x ∈ newer, P x.1 := by
  induction p with
  | ret a => exact fun _ _ => ⟨[], rfl, Nat.zero_le _, by simp⟩
  | call c k ih =>
    intro n past h hΦ
    cases n with
    | zero => exact h.elim
    | succ n =>
      refine ⟨hΦ [] c h.1, fun r => ((ih r) (h.2 r) fun newer c' hc' => ?_).mono ?_⟩
      · rw [List.append_cons]
        exact hΦ _ c' hc'
      · rintro past' a ⟨newer, rfl, hlen, hnewer⟩
        refine ⟨newer ++ [⟨c, r⟩], List.append_cons _ _ _, ?_, fun x hx => ?_⟩
        · rw [List.length_append, List.length_singleton]
          omega
        · rcases List.mem_append.mp hx with hx | hx
          · exact hnewer x hx
          · rw [List.mem_singleton.mp hx]
            exact h.1
  | loop body s k => exact fun h => h.elim

/-! ### Programs by their calls -/

/-- Every call of the program is in `P`, whatever the replies are. -/
def Calls (P : C → Prop) : {α : Type} → Prog C R α → Prop
  | _, .ret _ => True
  | _, .call c k => P c ∧ ∀ r, Calls P (k r)
  | _, .loop body _ k => (∀ s, Calls P (body s)) ∧ ∀ b, Calls P (k b)

/-- The rule of one call. -/
theorem Calls.step {c : C} {k : R c → Prog C R β} (hc : P c) (hk : ∀ r, Calls P (k r)) :
    Calls P (Prog.perform c >>= k) := ⟨hc, hk⟩

/-- The rule of sequencing. -/
theorem Calls.bind {p : Prog C R α} {f : α → Prog C R β} (hp : Calls P p)
    (hf : ∀ a, Calls P (f a)) : Calls P (p >>= f) := by
  induction p with
  | ret a => exact hf a
  | call c k ih => exact ⟨hp.1, fun r => ih r (hp.2 r) hf⟩
  | loop body s k _ ih => exact ⟨hp.1, fun b => ih b (hp.2 b) hf⟩

/-- The rule of a loop. -/
theorem Calls.iterate {body : S → Prog C R (S ⊕ β)} {s : S} (hbody : ∀ s, Calls P (body s)) :
    Calls P (Prog.iterate body s) := ⟨hbody, fun _ => trivial⟩

theorem Only.calls {p : Prog C R α} {P' : C → Prop} (hP : ∀ c, P c → P' c) :
    ∀ {n : ℕ}, Only P p n → Calls P' p := by
  induction p with
  | ret a => exact fun _ => trivial
  | call c k ih =>
    intro n h
    cases n with
    | zero => exact h.elim
    | succ n => exact ⟨hP c h.1, fun r => ih r (h.2 r)⟩
  | loop body s k => exact fun h => h.elim

/-- A discipline that allows such a call in every later log is upheld. -/
theorem Calls.upholds {p : Prog C R α} : ∀ {past : Past C R}, Calls P p →
    (∀ past' c, past <:+ past' → P c → Φ past' c) →
      Upholds Φ p past fun past' _ => past <:+ past' := by
  induction p with
  | ret a => exact fun _ _ => List.suffix_rfl
  | call c k ih =>
    intro past h hΦ
    refine ⟨hΦ past c List.suffix_rfl h.1, fun r => ?_⟩
    have hlater : past <:+ ⟨c, r⟩ :: past := List.suffix_cons _ _
    refine (ih r (h.2 r) fun past' c' hsuf => hΦ past' c' (hlater.trans hsuf)).mono ?_
    exact fun past' _ hsuf => hlater.trans hsuf
  | loop body s k ihbody ihk =>
    intro past h hΦ
    refine ⟨fun past' _ => past <:+ past', List.suffix_rfl, fun past' s' hsuf => ?_⟩
    have hround := ihbody s' (h.1 s') fun past'' c hlater => hΦ past'' c (hsuf.trans hlater)
    refine hround.mono ?_
    rintro past'' (s'' | b) hlater
    · exact hsuf.trans hlater
    · refine (ihk b (h.2 b) fun past₃ c hend => hΦ past₃ c ((hsuf.trans hlater).trans hend)).mono ?_
      exact fun past₃ _ hend => (hsuf.trans hlater).trans hend

/-- Unfolding a loop keeps the judgement: the invariant is the same one. -/
theorem Upholds.unroll {body : S → Prog C R (S ⊕ β)} {s : S} {k : β → Prog C R α}
    {Q : Past C R → α → Prop} (h : Upholds Φ (.loop body s k) past Q) :
    Upholds Φ (unroll body s k) past Q := by
  obtain ⟨I, hI, hbody⟩ := h
  rw [Prog.unroll, upholds_bind_eq]
  refine (hbody past s hI).mono ?_
  rintro past' (s' | b) h
  · exact ⟨I, h, hbody⟩
  · exact h

/-! ### Programs that return -/

theorem bind_assoc {γ : Type} (p : Prog C R α) (f : α → Prog C R β) (g : β → Prog C R γ) :
    (p.bind f).bind g = p.bind fun a => (f a).bind g := by
  induction p with
  | ret a => rfl
  | call c k ih => simp only [Prog.bind, ih]
  | loop body s k _ ih => simp only [Prog.bind, ih]

theorem unroll_bind {γ : Type} (body : S → Prog C R (S ⊕ β)) (s : S) (k : β → Prog C R α)
    (f : α → Prog C R γ) :
    (unroll body s k).bind f = unroll body s fun b => (k b).bind f := by
  rw [unroll, unroll, bind_assoc]
  congr 1
  funext x
  cases x <;> rfl

/-- As long as the replies are ones that `A` allows, the program returns after at
most `n` calls and unfoldings of loops; every call satisfies `Φ`, and what is
returned `Q`. -/
def Returns (Φ : Past C R → C → Prop) (A : Past C R → (c : C) → R c → Prop) :
    {α : Type} → ℕ → Prog C R α → Past C R → (Past C R → α → Prop) → Prop
  | _, _, .ret a, past, Q => Q past a
  | _, 0, _, _, _ => False
  | _, n + 1, .call c k, past, Q =>
    Φ past c ∧ ∀ r, A past c r → Returns Φ A n (k r) (⟨c, r⟩ :: past) Q
  | _, n + 1, .loop body s k, past, Q => Returns Φ A n (unroll body s k) past Q

variable {A : Past C R → (c : C) → R c → Prop}

theorem returns_ret {a : α} {Q : Past C R → α → Prop} :
    Returns Φ A n (.ret a) past Q ↔ Q past a := by
  cases n <;> rfl

theorem Returns.mono : ∀ {m n : ℕ} {p : Prog C R α} {past : Past C R}
    {Q Q' : Past C R → α → Prop}, m ≤ n → (∀ past a, Q past a → Q' past a) →
      Returns Φ A m p past Q → Returns Φ A n p past Q' := by
  intro m
  induction m with
  | zero =>
    intro n p past Q Q' _ hQ h
    cases p with
    | ret a => exact returns_ret.mpr (hQ _ _ h)
    | call c k => exact h.elim
    | loop body s k => exact h.elim
  | succ m ih =>
    intro n p past Q Q' hmn hQ h
    obtain ⟨n, rfl⟩ : ∃ n', n = n' + 1 := ⟨n - 1, by omega⟩
    cases p with
    | ret a => exact hQ _ _ h
    | call c k => exact ⟨h.1, fun r hr => ih (by omega) hQ (h.2 r hr)⟩
    | loop body s k => exact ih (n := n) (by omega) hQ h

/-- The rule of one call. -/
theorem Returns.step {c : C} {k : R c → Prog C R β} {Q : Past C R → β → Prop} (hc : Φ past c)
    (hk : ∀ r, A past c r → Returns Φ A n (k r) (⟨c, r⟩ :: past) Q) :
    Returns Φ A (n + 1) (perform c >>= k) past Q := ⟨hc, hk⟩

/-- The rule of sequencing. -/
theorem Returns.bind : ∀ {m : ℕ} {p : Prog C R α} {f : α → Prog C R β} {past : Past C R}
    {Q : Past C R → β → Prop},
      Returns Φ A m p past (fun past' a => Returns Φ A n (f a) past' Q) →
        Returns Φ A (m + n) (p >>= f) past Q := by
  intro m
  induction m with
  | zero =>
    intro p f past Q h
    cases p with
    | ret a => exact h.mono (by omega) fun _ _ hQ => hQ
    | call c k => exact h.elim
    | loop body s k => exact h.elim
  | succ m ih =>
    intro p f past Q h
    rw [Nat.succ_add]
    cases p with
    | ret a => exact Returns.mono (by omega) (fun _ _ hQ => hQ) h
    | call c k => exact ⟨h.1, fun r hr => ih (h.2 r hr)⟩
    | loop body s k =>
      change Returns Φ A (m + n) (unroll body s fun b => (k b).bind f) past Q
      rw [← unroll_bind]
      exact ih (f := f) h

/-- The rule of a loop that is unfolded once. -/
theorem Returns.iterate {body : S → Prog C R (S ⊕ β)} {s : S} {Q : Past C R → β → Prop}
    (h : Returns Φ A n (body s) past fun past' x => ∃ b, x = .inr b ∧ Q past' b) :
    Returns Φ A (n + 1) (iterate body s) past Q := by
  change Returns Φ A n (unroll body s .ret) past Q
  refine Returns.bind (n := 0) (h.mono (Nat.le_refl _) ?_)
  rintro past' _ ⟨b, rfl, hb⟩
  exact hb

/-- The rule of a program without loops. -/
theorem Only.returns {p : Prog C R α} {Q : Past C R → α → Prop} :
    ∀ {n : ℕ} {past : Past C R}, Only P p n → (∀ past c, P c → Φ past c) →
      (∀ (newer : Past C R) (a : α), newer.length ≤ n → (∀ x ∈ newer, P x.1) →
        Q (newer ++ past) a) → Returns Φ A n p past Q := by
  induction p with
  | ret a =>
    intro n past _ _ hQ
    exact returns_ret.mpr (hQ [] a (Nat.zero_le _) (by simp))
  | call c k ih =>
    intro n past h hΦ hQ
    cases n with
    | zero => exact h.elim
    | succ n =>
      refine ⟨hΦ _ _ h.1, fun r _ => ih r (h.2 r) hΦ fun newer a hlen hnewer => ?_⟩
      rw [List.append_cons]
      refine hQ _ a ?_ fun x hx => ?_
      · rw [List.length_append, List.length_singleton]
        omega
      · rcases List.mem_append.mp hx with hx | hx
        · exact hnewer x hx
        · rw [List.mem_singleton.mp hx]
          exact h.1
  | loop body s k => exact fun h => h.elim

end Prog

end Interleave
