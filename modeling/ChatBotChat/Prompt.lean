/-
Runs without delay: time passes only while every request has ended or is parked,
no park goes on beyond its deadline, and the two clocks advance alike.

* `InTime.move` — along such a run, what a request has read from a clock since it
  was last parked is what the clock shows while it goes on.

`InTime` is about the calls since some point of the run, at which the requests in
flight are up to date; what the clocks did before does not matter.
-/
import ChatBotChat.Reach
import Mathlib.Tactic.Linarith

namespace ChatBotChat

open Interleave

variable {app : AppState} {c c' : Daemon} {drift : ℤ} {e : Step} {old older : List Step}
  {s s' : Store}

/-! ### Time and parks -/

def Call.isRecv : Call → Bool
  | .recv _ _ => true
  | _ => false

/-- The request has nothing to do before `instant`: it has ended, or is parked. -/
def Waits (instant : ℕ) (t : Thread Call Call.Reply Request Outcome) : Prop :=
  ∀ p, t.status = .running p → (∃ a, p = .ret a) ∨
    ∃ rx deadline f, p = .call (.recv rx deadline) f ∧ instant ≤ deadline

/-- A move without delay: both clocks advance by the same amount, while all
requests wait. -/
def Prompt (c : Daemon) : Action → Prop
  | .tick (utc, instant) => utc - c.shared.utc = instant - c.shared.instant ∧
      ∀ t ∈ c.threads, Waits instant t
  | _ => True

/-- The request can go on. -/
def Busy (t : Thread Call Call.Reply Request Outcome) : Prop :=
  ∃ p, t.status = .running p ∧ (∀ a, p ≠ .ret a) ∧ ∀ rx deadline f, p ≠ .call (.recv rx deadline) f

theorem not_busy_of_waits {instant : ℕ} {t : Thread Call Call.Reply Request Outcome}
    (h : Waits instant t) : ¬ Busy t := by
  rintro ⟨p, hp, hret, hrecv⟩
  rcases h p hp with ⟨a, rfl⟩ | ⟨rx, deadline, f, rfl, -⟩
  · exact hret a rfl
  · exact hrecv rx deadline f rfl

/-! ### Readings -/

/-- The calls since the request was last parked. -/
def sinceParked (past : Log) : Log := past.takeWhile fun x => !x.1.isRecv

/-- A reading of a clock is what the clock shows. -/
def Agrees (s : Store) : Sigma Call.Reply → Prop
  | ⟨.nowUtc, now⟩ => now = s.utc
  | ⟨.instantNow, instant⟩ => instant = s.instant
  | _ => True

theorem Agrees.congr (hutc : s'.utc = s.utc) (hinstant : s'.instant = s.instant)
    {x : Sigma Call.Reply} (h : Agrees s x) : Agrees s' x := by
  obtain ⟨k, r⟩ := x
  cases k
  case nowUtc => exact h.trans hutc.symm
  case instantNow => exact h.trans hinstant.symm
  all_goals trivial

theorem agrees_of_exec {sess : List UInt16} {k : Call} {r : k.Reply}
    (h : Store.exec sess k s = .done r s') : Agrees s' ⟨k, r⟩ := by
  cases k
  case nowUtc =>
    obtain ⟨rfl, rfl⟩ := done_of_read h
    rfl
  case instantNow =>
    obtain ⟨rfl, rfl⟩ := done_of_read h
    rfl
  all_goals trivial

/-- No request in flight has read a clock that has gone on since. -/
def UpToDate (c : Daemon) : Prop := ∀ i t, c.threads[i]? = some t → Busy t →
  ∀ x ∈ sinceParked (pastOf i c.trace), Agrees c.shared x

/-- Where a run without delay stands that began after `old`: the clocks have kept their
distance, and requests know what time it is. -/
structure InTime (old : List Step) (drift : ℤ) (c : Daemon) : Prop where
  lockstep : c.shared.utc - c.shared.instant = drift
  events : ∀ {e older}, e :: (older ++ old) <:+ c.trace → e.before.utc - e.before.instant = drift ∧
    (e.call.isRecv = false → ∀ x ∈ sinceParked (pastOf e.tid (older ++ old)), Agrees e.before x)
  threads : UpToDate c

theorem UpToDate.inTime (h : UpToDate c) : InTime c.trace (c.shared.utc - c.shared.instant) c where
  lockstep := rfl
  events := by
    intro e older hsuf
    have hlen := hsuf.length_le
    rw [List.length_cons, List.length_append] at hlen
    omega
  threads := h

theorem upToDate_boot (utc : OffsetDateTime) (instant : ℕ) : UpToDate (boot utc instant) := by
  intro i t ht
  simp [boot, Config.initial] at ht

/-- A thread whose status has changed. -/
theorem InTime.of_setStatus (h : InTime old drift c) {i : ℕ} {st : Status Call Call.Reply Outcome}
    {t : Thread Call Call.Reply Request Outcome} (ht : c.threads[i]? = some t)
    (hst : Busy { t with status := st } → Busy t) : InTime old drift (c.setStatus i st) where
  lockstep := h.lockstep
  events := h.events
  threads := by
    intro j u hu hbusy
    rw [Config.getElem?_setStatus] at hu
    split at hu
    · rename_i heq
      subst heq
      rw [ht] at hu
      obtain rfl := Option.some_inj.mp hu
      exact h.threads _ _ ht (hst hbusy)
    · exact h.threads _ _ hu hbusy

/-- **One move without delay keeps the requests in time.** -/
theorem InTime.move (hreach : Reachable app c) (h : InTime old drift c) {a : Action}
    (hok : Prompt c a) (hstep : (daemon app).apply a c = some c') : InTime old drift c' := by
  cases (daemon app).move_of_apply hstep with
  | start req =>
    refine ⟨h.lockstep, h.events, ?_⟩
    intro i t ht hbusy
    rcases Nat.lt_or_ge i c.threads.length with hlt | hge
    · rw [List.getElem?_append_left hlt] at ht
      exact h.threads _ _ ht hbusy
    · -- a request that has just arrived has read nothing
      have hnil : pastOf i c.trace = [] := hreach.orderly.pastOf_eq_nil hge
      intro x hx
      rw [show (pastOf i c.trace) = [] from hnil] at hx
      cases hx
  | @call i choice r k f x s' hi hx =>
    have heffect : Effect c.shared k x s' := effect_of_exec hx
    have hbusy : k.isRecv = false → Busy ⟨r, .running (.call k f)⟩ := by
      intro hk
      refine ⟨_, rfl, ?_, ?_⟩
      · intro a ha
        cases ha
      · rintro rx deadline g hg
        cases hg
        cases hk
    constructor
    case lockstep =>
      dsimp only
      rw [heffect.utc, heffect.instant]
      exact h.lockstep
    case events =>
      intro e older hsuf
      rcases List.suffix_cons_iff.mp hsuf with heq | hsuf
      · obtain ⟨rfl, htr⟩ := List.cons_eq_cons.mp heq
        rw [htr]
        exact ⟨h.lockstep, fun hk => h.threads _ _ hi (hbusy hk)⟩
      · exact h.events hsuf
    case threads =>
      intro j t ht hgoes y hy
      by_cases hj : i = j
      · subst hj
        dsimp only at hy
        rw [show pastOf i (⟨i, k, x, c.shared, s'⟩ :: c.trace) = ⟨k, x⟩ :: pastOf i c.trace from
          pastOf_cons_self _ _, sinceParked, List.takeWhile_cons] at hy
        split at hy
        · rename_i hk
          rw [Bool.not_eq_true'] at hk
          rcases List.mem_cons.mp hy with rfl | hy
          · exact agrees_of_exec hx
          · exact (h.threads _ _ hi (hbusy hk) y hy).congr heffect.utc heffect.instant
        · cases hy
      · dsimp only at ht hy
        rw [Config.getElem?_setStatus, if_neg hj] at ht
        rw [pastOf_cons_of_ne hj] at hy
        exact (h.threads _ _ ht hgoes y hy).congr heffect.utc heffect.instant
  | @unroll i _ _ _ _ _ _ _ hi =>
    refine h.of_setStatus hi fun _ => ⟨_, rfl, ?_, ?_⟩
    · intro a ha
      cases ha
    · intro rx deadline f hf
      cases hf
  | @stop _ i _ _ _ st hi hst =>
    refine h.of_setStatus hi ?_
    rintro ⟨p, hp, -⟩
    rcases hst with rfl | rfl <;> cases hp
  | @tick t s' ht =>
    obtain ⟨utc, instant⟩ := t
    obtain ⟨hequal, hwaits⟩ := hok
    change Store.tick (utc, instant) c.shared = some s' at ht
    have hclocks : s'.utc = utc ∧ s'.instant = instant := by
      unfold Store.tick at ht
      split at ht
      · obtain rfl := Option.some_inj.mp ht
        exact ⟨rfl, rfl⟩
      · cases ht
    refine ⟨?_, h.events, ?_⟩
    · have hdrift := h.lockstep
      dsimp only
      rw [hclocks.1, hclocks.2]
      linarith
    · intro i t hi hbusy
      exact absurd hbusy (not_busy_of_waits (hwaits t (List.mem_of_getElem? hi)))

/-- **Every run without delay keeps its requests up to date.** -/
theorem upToDate_of_prompt {utc : OffsetDateTime} {instant : ℕ}
    (h : (daemon app).RunWith Prompt (boot utc instant) c) : UpToDate c := by
  have hin : InTime [] (utc - instant) c := by
    induction h with
    | refl => exact (upToDate_boot utc instant).inTime
    | move hrun hok hstep ih => exact ih.move ⟨utc, instant, hrun.run⟩ hok hstep
  exact hin.threads

end ChatBotChat
