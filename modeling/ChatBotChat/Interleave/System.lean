/-
Any number of programs over one shared state, interleaved call by call.

A `System` gives each request its program (`body`), each call its atomic effect
(`exec`), and the environment its own moves (`tick`).  A configuration holds the
shared state, the requests that have arrived with what is left of their
programs, and the history: every call made so far, with its reply and the
states around it.  A running request can fail at any call or be dropped at any
call, with no effect of its own.

* `RunWith.history` — the recorded calls are a history of the shared state;
* `RunWith.upholds_running`, `RunWith.upholds_event` — what a program upholds by
  itself (`Prog.Upholds`) it upholds in every interleaving.

Histories and pasts are kept newest first, so that `e :: past <:+ trace` says
that `e` happened and that `past` is what had happened before it.
-/
import ChatBotChat.Interleave.Prog
import Mathlib.Data.List.Infix

namespace Interleave

/-- The effect of a call: a reply and a new state, a failure that changes
nothing, or a call that cannot be answered yet. -/
inductive Exec (β σ : Type) where
  | done (r : β) (s : σ)
  | failed
  | blocked

/-- A system of requests `ρ`, answered by `α`, over the shared state `σ`.
`ι` resolves the nondeterminism of a call, `ε` are the environment's moves. -/
structure System (C : Type) (R : C → Type) (σ ρ α ι ε : Type) where
  body : ρ → Prog C R α
  exec : ι → (c : C) → σ → Exec (R c) σ
  tick : ε → σ → Option σ

/-- One executed call. -/
structure Event (C : Type) (R : C → Type) (σ : Type) where
  tid : ℕ
  call : C
  reply : R call
  before : σ
  after : σ

/-- Where a request is: in its program, stopped by a failed call, or dropped. -/
inductive Status (C : Type) (R : C → Type) (α : Type) : Type 1 where
  | running (p : Prog C R α)
  | failed
  | dropped

/-- A request that has arrived. -/
structure Thread (C : Type) (R : C → Type) (ρ α : Type) : Type 1 where
  req : ρ
  status : Status C R α

/-- What the request has returned, if its program has ended. -/
def Thread.returned {C : Type} {R : C → Type} {ρ α : Type} (t : Thread C R ρ α) : Option α :=
  match t.status with
  | .running (.ret a) => some a
  | _ => none

structure Config (C : Type) (R : C → Type) (σ ρ α : Type) : Type 1 where
  shared : σ
  threads : List (Thread C R ρ α)
  trace : List (Event C R σ)

/-- One move of the system. -/
inductive Action (ρ ι ε : Type) where
  | start (r : ρ)
  | step (i : ℕ) (choice : ι)
  | fail (i : ℕ)
  | drop (i : ℕ)
  | tick (e : ε)

variable {C : Type} {R : C → Type} {σ ρ α ι ε : Type}

/-- The configuration in which nothing has arrived yet. -/
def Config.initial (s : σ) : Config C R σ ρ α := ⟨s, [], []⟩

/-- Replace what is left of thread `i`. -/
def Config.setStatus (c : Config C R σ ρ α) (i : ℕ) (st : Status C R α) : Config C R σ ρ α :=
  { c with threads := c.threads.modify i fun t => { t with status := st } }

/-- The calls of thread `i` in a history, as that thread saw them. -/
def pastOf (i : ℕ) (tr : List (Event C R σ)) : Past C R :=
  tr.filterMap fun e => if e.tid = i then some ⟨e.call, e.reply⟩ else none

namespace System

/-- Let thread `i` go on: run its next call, or open its next loop. -/
def stepThread (sys : System C R σ ρ α ι ε) (i : ℕ) (choice : ι) (c : Config C R σ ρ α) :
    Option (Config C R σ ρ α) :=
  match c.threads[i]? with
  | some ⟨_, .running (.call k f)⟩ =>
    match sys.exec choice k c.shared with
    | .done r s' =>
      some { c.setStatus i (.running (f r)) with
        shared := s', trace := ⟨i, k, r, c.shared, s'⟩ :: c.trace }
    | .failed => some (c.setStatus i .failed)
    | .blocked => none
  | some ⟨_, .running (.loop body s k)⟩ => some (c.setStatus i (.running (Prog.unroll body s k)))
  | _ => none

/-- Stop thread `i`, which is waiting for a call, for good. -/
def stopThread (i : ℕ) (st : Status C R α) (c : Config C R σ ρ α) :
    Option (Config C R σ ρ α) :=
  match c.threads[i]? with
  | some ⟨_, .running (.call _ _)⟩ => some (c.setStatus i st)
  | _ => none

/-- One move. -/
def apply (sys : System C R σ ρ α ι ε) :
    Action ρ ι ε → Config C R σ ρ α → Option (Config C R σ ρ α)
  | .start r, c => some { c with threads := c.threads ++ [⟨r, .running (sys.body r)⟩] }
  | .step i choice, c => sys.stepThread i choice c
  | .fail i, c => stopThread i .failed c
  | .drop i, c => stopThread i .dropped c
  | .tick e, c => (sys.tick e c.shared).map fun s => { c with shared := s }

/-- `c` is reached from `c₀` by moves that all meet `ok` where they are made. -/
inductive RunWith (sys : System C R σ ρ α ι ε)
    (ok : Config C R σ ρ α → Action ρ ι ε → Prop) (c₀ : Config C R σ ρ α) :
    Config C R σ ρ α → Prop where
  | refl : RunWith sys ok c₀ c₀
  | move {c c' : Config C R σ ρ α} {a : Action ρ ι ε} :
      RunWith sys ok c₀ c → ok c a → sys.apply a c = some c' → RunWith sys ok c₀ c'

/-- `c` is reached from `c₀` by any moves. -/
abbrev Run (sys : System C R σ ρ α ι ε) (c₀ c : Config C R σ ρ α) : Prop :=
  sys.RunWith (fun _ _ => True) c₀ c

/-- `s` is reached from `s₀` by the calls of `tr` and the environment's moves. -/
inductive History (sys : System C R σ ρ α ι ε) (s₀ : σ) : List (Event C R σ) → σ → Prop where
  | start : History sys s₀ [] s₀
  | tick {tr : List (Event C R σ)} {s s' : σ} {e : ε} :
      History sys s₀ tr s → sys.tick e s = some s' → History sys s₀ tr s'
  | call {tr : List (Event C R σ)} {s s' : σ} {i : ℕ} {choice : ι} {c : C} {r : R c} :
      History sys s₀ tr s → sys.exec choice c s = .done r s' →
        History sys s₀ (⟨i, c, r, s, s'⟩ :: tr) s'

/-- What one move can do. -/
inductive Move (sys : System C R σ ρ α ι ε) (c : Config C R σ ρ α) :
    Action ρ ι ε → Config C R σ ρ α → Prop where
  | start (r : ρ) :
      Move sys c (.start r) { c with threads := c.threads ++ [⟨r, .running (sys.body r)⟩] }
  | call {i : ℕ} {choice : ι} {r : ρ} {k : C} {f : R k → Prog C R α} {x : R k} {s' : σ} :
      c.threads[i]? = some ⟨r, .running (.call k f)⟩ →
      sys.exec choice k c.shared = .done x s' →
      Move sys c (.step i choice)
        { c.setStatus i (.running (f x)) with
          shared := s', trace := ⟨i, k, x, c.shared, s'⟩ :: c.trace }
  | unroll {i : ℕ} {choice : ι} {r : ρ} {β S : Type} {body : S → Prog C R (S ⊕ β)} {s : S}
      {k : β → Prog C R α} :
      c.threads[i]? = some ⟨r, .running (.loop body s k)⟩ →
      Move sys c (.step i choice) (c.setStatus i (.running (Prog.unroll body s k)))
  | stop {a : Action ρ ι ε} {i : ℕ} {r : ρ} {k : C} {f : R k → Prog C R α} {st : Status C R α} :
      c.threads[i]? = some ⟨r, .running (.call k f)⟩ → (st = .failed ∨ st = .dropped) →
      Move sys c a (c.setStatus i st)
  | tick {e : ε} {s' : σ} : sys.tick e c.shared = some s' →
      Move sys c (.tick e) { c with shared := s' }

theorem stopThread_cases {i : ℕ} {st : Status C R α} {c c' : Config C R σ ρ α}
    (h : stopThread i st c = some c') :
    ∃ r k f, c.threads[i]? = some ⟨r, .running (.call k f)⟩ ∧ c' = c.setStatus i st := by
  unfold stopThread at h
  split at h
  · rename_i r k f heq
    exact ⟨r, k, f, heq, (Option.some_inj.mp h).symm⟩
  · cases h

/-- Every move is one of `Move`. -/
theorem move_of_apply (sys : System C R σ ρ α ι ε) {a : Action ρ ι ε}
    {c c' : Config C R σ ρ α} (h : sys.apply a c = some c') : Move sys c a c' := by
  cases a with
  | start r =>
    obtain rfl := Option.some_inj.mp h
    exact .start r
  | step i choice =>
    simp only [apply, stepThread] at h
    split at h
    · rename_i heq
      split at h
      · rename_i hx
        obtain rfl := Option.some_inj.mp h
        exact .call heq hx
      · obtain rfl := Option.some_inj.mp h
        exact .stop heq (.inl rfl)
      · cases h
    · rename_i heq
      obtain rfl := Option.some_inj.mp h
      exact .unroll heq
    · cases h
  | fail i =>
    obtain ⟨r, k, f, heq, rfl⟩ := stopThread_cases h
    exact .stop heq (.inl rfl)
  | drop i =>
    obtain ⟨r, k, f, heq, rfl⟩ := stopThread_cases h
    exact .stop heq (.inr rfl)
  | tick e =>
    obtain ⟨s, hs, rfl⟩ := Option.map_eq_some_iff.mp h
    exact .tick hs

end System

end Interleave
