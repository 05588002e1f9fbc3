/-
A running poll keeps its participant live.

`Tended` is the daemon together with one `cbc poll`, without delay and without
errors: the poll asks, and sleeps between two answers as it decides; time passes
only while every request of the daemon waits and the poll has no answer to read.
What holds in between is `Kept`: the row is there, and since the first touch, which
comes before any time passes, it has been polled within the cap of a wait while the
poll asks, and within that cap and a minute while it sleeps.
-/
import ChatBotChat.Refresh

namespace ChatBotChat

open Interleave Lifecycle Poll

variable {app : AppState} {args : PollArgs} {c₀ c c' : Daemon} {client : Client} {e : Step}
  {asked : List ℕ} {new old older tr : List Step} {s s' : Store} {inst handle : String}
  {p q : Participant} {i first cap : ℕ} {from_ top : OffsetDateTime} {drift : ℤ} {loop : Loop}
  {past : Log}

/-! ### The daemon and the poll -/

/-- What the poll leaves time for: no time passes while an answer is there for it, nor
beyond the end of its sleep; and once it is over, it is not looked at any more. -/
def Poll.Client.Allows : Client → Daemon → Action → Prop
  | .asking i _, c, .tick _ => c.threads[i]?.bind Thread.returned = none
  | .sleeping until_ _, _, .tick (_, instant) => instant ≤ until_
  | .ended, _, _ => False
  | _, _, _ => True

/-- The request the poll waits for has not been stopped. -/
def Poll.Client.Served : Client → Daemon → Prop
  | .asking i _, c => ∀ t, c.threads[i]? = some t → hasStopped t = false
  | _, _ => True

/-- The daemon and a poll that was launched at `c₀`; `asked` are its requests, newest
first. -/
inductive Tended (app : AppState) (args : PollArgs) (c₀ : Daemon) : List ℕ → Daemon → Client → Prop
  | launch : Tended app args c₀ [c₀.threads.length]
      (arrived app (.waitRoom args.roomId args.waitRequest) c₀)
      (.asking c₀.threads.length args.loop)
  | move {asked : List ℕ} {c c' : Daemon} {client : Client} {a : Action} :
      Tended app args c₀ asked c client → Prompt c a → client.Allows c a →
      (daemon app).apply a c = some c' → client.Served c' → Tended app args c₀ asked c' client
  | answer {asked : List ℕ} {c : Daemon} {i : ℕ} {loop : Loop} {a : Outcome} :
      Tended app args c₀ asked c (.asking i loop) →
      c.threads[i]?.bind Thread.returned = some a →
      Tended app args c₀ asked c (args.next loop c.shared.instant a)
  | wake {asked : List ℕ} {c : Daemon} {until_ : ℕ} {loop : Loop} :
      Tended app args c₀ asked c (.sleeping until_ loop) → until_ ≤ c.shared.instant →
      Tended app args c₀ (c.threads.length :: asked)
        (arrived app (.waitRoom args.roomId args.waitRequest) c) (.asking c.threads.length loop)

/-- What such a run keeps, whoever the participant is. -/
structure Course (app : AppState) (args : PollArgs) (drift : ℤ) (c₀ : Daemon) (asked : List ℕ)
    (c : Daemon) (client : Client) : Prop where
  run : (daemon app).Run c₀ c
  inTime : InTime c₀.trace drift c
  requests : ∀ j ∈ asked, c₀.threads.length ≤ j ∧
    ∃ t, c.threads[j]? = some t ∧ t.req = .waitRoom args.roomId args.waitRequest
  current : ∀ i loop, client = .asking i loop → i ∈ asked
  served : client.Served c

/-- The poll asks, the first time or again. -/
theorem Course.ask (hreach : Reachable app c) (hrun : (daemon app).Run c₀ c)
    (hinTime : InTime c₀.trace drift c) (hrequests : ∀ j ∈ asked, c₀.threads.length ≤ j ∧
      ∃ t, c.threads[j]? = some t ∧ t.req = .waitRoom args.roomId args.waitRequest) (loop : Loop) :
    Course app args drift c₀ (c.threads.length :: asked)
      (arrived app (.waitRoom args.roomId args.waitRequest) c) (.asking c.threads.length loop) where
  run := hrun.trans (run_arrived _ _ _)
  inTime := hinTime.move hreach (a := .start (.waitRoom args.roomId args.waitRequest)) trivial rfl
  requests := by
    intro j hj
    rcases List.mem_cons.mp hj with rfl | hj
    · exact ⟨hrun.threads_le, _, List.getElem?_concat_length, rfl⟩
    · obtain ⟨hge, t, ht, hreq⟩ := hrequests j hj
      obtain ⟨t', ht', hreq'⟩ := (run_arrived app (.waitRoom args.roomId args.waitRequest) c).thread_persists ht
      exact ⟨hge, t', ht', hreq'.trans hreq⟩
  current := by
    rintro i loop' ⟨⟩
    exact List.mem_cons_self
  served := by
    intro t ht
    rw [arrived, List.getElem?_concat_length] at ht
    obtain rfl := Option.some_inj.mp ht
    rfl

theorem Poll.PollArgs.next_not_asking (args : PollArgs) (loop : Loop) (instant : ℕ) (a : Outcome) :
    ∀ i loop', args.next loop instant a ≠ .asking i loop' := by
  intro i loop' h
  unfold PollArgs.next at h
  split at h
  · split at h <;> cases h
  · dsimp only at h
    split at h <;> cases h

theorem Poll.Client.served_of_not_asking (h : ∀ i loop, client ≠ .asking i loop) : client.Served c := by
  cases client with
  | asking i loop => exact absurd rfl (h i loop)
  | sleeping => trivial
  | ended => trivial

/-- **Every tended poll runs its course.** -/
theorem Tended.course (h₀ : Reachable app c₀) (hin : InTime c₀.trace drift c₀)
    (h : Tended app args c₀ asked c client) : Course app args drift c₀ asked c client := by
  induction h with
  | launch => exact .ask h₀ .refl hin (fun j hj => absurd hj List.not_mem_nil) _
  | @move asked c c' client a _ hprompt _ hstep hserved ih =>
    have hone : (daemon app).Run c c' := .move .refl trivial hstep
    refine ⟨ih.run.trans hone, ih.inTime.move (h₀.run ih.run) hprompt hstep, fun j hj => ?_,
      ih.current, hserved⟩
    obtain ⟨hge, t, ht, hreq⟩ := ih.requests j hj
    obtain ⟨t', ht', hreq'⟩ := hone.thread_persists ht
    exact ⟨hge, t', ht', hreq'.trans hreq⟩
  | answer _ _ ih =>
    have hnot := args.next_not_asking
    refine ⟨ih.run, ih.inTime, ih.requests, fun i loop hi => absurd hi (hnot _ _ _ i loop), ?_⟩
    exact Client.served_of_not_asking (hnot _ _ _)
  | wake _ _ ih => exact .ask (h₀.run ih.run) ih.run ih.inTime ih.requests _

/-! ### The pace of the poll -/

def MINUTE : Rfc3339.Duration := Rfc3339.Duration.minutes 1

/-- Where the poll is, when its participant was polled at `last`: within the cap of a wait,
and within a minute more while it sleeps and until its next request has touched the row. -/
def Pace (cap : ℕ) (drift : ℤ) (handle : String) (first : ℕ) (new : List Step) (s : Store)
    (last : OffsetDateTime) : Client → Prop
  | .asking i loop => loop.st.Brisk ∧ (i = first ∨ Touches handle (pastOf first new)) ∧
      (Touches handle (pastOf first new) → s.utc - last ≤ cap + MINUTE) ∧
      (Touches handle (pastOf i new) → s.utc - last ≤ cap)
  | .sleeping until_ loop => loop.st.Brisk ∧ Touches handle (pastOf first new) ∧
      s.instant ≤ until_ ∧ until_ + drift - last ≤ cap + MINUTE
  | .ended => Touches handle (pastOf first new) ∧ s.utc - last ≤ cap

variable {last last' : OffsetDateTime}

/-- Since the first touch no more than the cap and a minute have passed. -/
theorem Pace.le (h : Pace cap drift handle first new s last client)
    (hdrift : s.utc - s.instant = drift) (hbegun : Touches handle (pastOf first new)) :
    s.utc - last ≤ cap + MINUTE := by
  cases client with
  | asking i loop => exact h.2.2.1 hbegun
  | sleeping until_ loop =>
    obtain ⟨-, -, hle, hlate⟩ := h
    have hint : (s.instant : ℤ) ≤ until_ := by exact_mod_cast hle
    linarith
  | ended =>
    have hminute : (0 : ℤ) ≤ MINUTE := by decide
    linarith [h.2]

/-- A call keeps the pace. -/
theorem Pace.call (h : Pace cap drift handle first new s last client)
    (hutc : s'.utc = s.utc) (hinstant : s'.instant = s.instant)
    (hle : Touches handle (pastOf first new) → last ≤ s.utc)
    (hlast : last' = if e.call.polls handle = true then s.utc else last) :
    Pace cap drift handle first (e :: new) s' last' client := by
  have hcap : (0 : ℤ) ≤ cap := Int.natCast_nonneg cap
  have hminute : (0 : ℤ) ≤ MINUTE := by decide
  by_cases hpolls : e.call.polls handle = true
  · -- polled just now
    rw [if_pos hpolls] at hlast
    have hzero : s'.utc - last' = 0 := by rw [hutc, hlast, sub_self]
    cases client with
    | asking i loop =>
      refine ⟨h.1, h.2.1.imp_right Touches.cons, fun _ => ?_, fun _ => ?_⟩
      · linarith
      · linarith
    | sleeping until_ loop =>
      obtain ⟨hbrisk, hbegun, hbefore, hlate⟩ := h
      have hpast := hle hbegun
      refine ⟨hbrisk, hbegun.cons, hinstant ▸ hbefore, ?_⟩
      rw [hlast]
      linarith
    | ended => exact ⟨h.1.cons, by linarith⟩
  · rw [if_neg hpolls] at hlast
    subst hlast
    cases client with
    | asking i loop =>
      refine ⟨h.1, h.2.1.imp_right Touches.cons, fun hbegun => ?_, fun htouched => ?_⟩
      · rw [hutc]
        exact h.2.2.1 (hbegun.of_cons.resolve_left hpolls)
      · rw [hutc]
        exact h.2.2.2 (htouched.of_cons.resolve_left hpolls)
    | sleeping until_ loop => exact ⟨h.1, h.2.1.cons, hinstant ▸ h.2.2.1, h.2.2.2⟩
    | ended => exact ⟨h.1.cons, hutc ▸ h.2⟩

/-! ### What a tended poll keeps -/

/-- What the guarantee rests on: the requests of the poll find `p`, no prune deletes its
row before the poll has touched it, and the years have four digits. -/
structure Standing (p : Participant) (inst : String) (c₀ : Daemon) (asked : List ℕ) (new : List Step)
    (s : Store) : Prop where
  called : ∀ j ∈ asked, CalledBy p inst (pastOf j new)
  there : ∀ e older, e :: older <:+ new →
    ¬ Touches p.handle (pastOf c₀.threads.length older) → ¬ Removes e p.handle
  early : (c₀.shared.utc - GHOST_AFTER).FourDigitYear
  late : s.utc.FourDigitYear

theorem CalledBy.mono {past' : Log} (h : CalledBy p inst past') (hsub : past ⊆ past') :
    CalledBy p inst past := by
  rcases h with hinst | ⟨hhandle, hnobody⟩
  · exact .inl hinst
  · exact .inr ⟨hhandle, fun q hq => hnobody q (hsub hq)⟩

/-- What holds up to some point held up to any point before it. -/
theorem Standing.mono {asked' : List ℕ} {new' : List Step} (h : Standing p inst c₀ asked' new' s')
    (hasked : asked ⊆ asked') (hsuf : new <:+ new') (hfrom : c₀.shared.utc ≤ s.utc)
    (hle : s.utc ≤ s'.utc) : Standing p inst c₀ asked new s where
  called := fun j hj => (h.called j (hasked hj)).mono (by
    obtain ⟨newer, rfl⟩ := hsuf
    rw [pastOf_append]
    exact List.subset_append_right _ _)
  there := fun e older hin => h.there e older (hin.trans hsuf)
  early := h.early
  late := by
    have hpos : (0 : ℤ) ≤ GHOST_AFTER := by decide
    exact h.early.between h.late (by linarith) hle

/-- The longest park of a wait of the poll. -/
def Poll.PollArgs.waitCap (args : PollArgs) : ℕ := args.clampedCapSecs.toNat * 1000000000

/-- The row of `p` is there, was there at every call of the run, and has been polled in
time since the poll first touched it, which it did before any time passed. -/
structure Kept (args : PollArgs) (drift : ℤ) (p : Participant) (c₀ : Daemon) (new : List Step)
    (s : Store) (client : Client) : Prop where
  now : ∃ q, RowOf p c₀.shared.utc c₀.threads.length new s q ∧
    Pace args.waitCap drift p.handle c₀.threads.length new s q.lastPollAt client
  before : ∀ e older, e :: older <:+ new → ∃ q,
    RowOf p c₀.shared.utc c₀.threads.length older e.before q ∧
      (Touches p.handle (pastOf c₀.threads.length older) → e.before.utc - q.lastPollAt ≤ HEALTHY_GAP)
  atOnce : s.utc ≠ c₀.shared.utc → Touches p.handle (pastOf c₀.threads.length new)

theorem cap_le (args : PollArgs) : (args.waitCap : ℤ) + MINUTE ≤ HEALTHY_GAP := by
  have hsecs := clampedCapSecs_le args
  have hminute : MINUTE = 60 * 1000000000 := by decide
  have hgap : HEALTHY_GAP = 650 * 1000000000 := by decide
  rw [hminute, hgap, PollArgs.waitCap]
  omega

theorem Kept.present (h : Kept args drift p c₀ new s client) : Present p new := by
  intro e he
  obtain ⟨newer, older, hsplit⟩ := List.append_of_mem he
  obtain ⟨q, hrow, -⟩ := h.before e older ⟨newer, hsplit.symm⟩
  exact ⟨q, hrow.mem, hrow.same, hrow.inst⟩

/-- A call keeps the row, and the poll in its pace. -/
theorem Kept.call (hrec : Recorded app c e (new ++ c₀.trace)) (hin : InTime c₀.trace drift c)
    (hstanding : Standing p inst c₀ asked (e :: new) e.after) (hfrom : c₀.shared.utc ≤ e.before.utc)
    (h : Kept args drift p c₀ new e.before client) :
    Kept args drift p c₀ (e :: new) e.after client := by
  obtain ⟨q, hrow, hpace⟩ := h.now
  have hdrift := (hin.events hrec.suffix).1
  have hgap : Touches p.handle (pastOf c₀.threads.length new) →
      e.before.utc - q.lastPollAt ≤ HEALTHY_GAP := fun hbegun =>
    (hpace.le hdrift hbegun).trans (cap_le args)
  have hkept : ¬ Removes e p.handle := by
    by_cases hbegun : Touches p.handle (pastOf c₀.threads.length new)
    · obtain ⟨hlow, hhigh⟩ := hrow.begun hbegun
      rw [← hrow.same.handle]
      exact hrec.not_removed hin hstanding.early hstanding.late hrow.mem hlow hhigh
        hrec.effect.utc.ge (hgap hbegun)
    · exact hstanding.there e new List.suffix_rfl hbegun
  constructor
  case now =>
    have hlast := hrec.lastPollAt hin q
    rw [hrow.same.handle] at hlast
    refine ⟨_, hrow.call hrec hin hfrom hkept, ?_⟩
    exact hpace.call hrec.effect.utc hrec.effect.instant (fun hbegun => (hrow.begun hbegun).2) hlast
  case before =>
    intro e' older hsuf
    rcases List.suffix_cons_iff.mp hsuf with heq | hsuf
    · obtain ⟨rfl, rfl⟩ := List.cons_eq_cons.mp heq
      exact ⟨q, hrow, hgap⟩
    · exact h.before e' older hsuf
  case atOnce =>
    rw [hrec.effect.utc]
    exact fun hpassed => (h.atOnce hpassed).cons

/-- All that a request of the poll did it did since the launch. -/
theorem Course.log_eq (h₀ : Reachable app c₀) (hcourse : Course app args drift c₀ asked c client)
    (hnew : c.trace = new ++ c₀.trace) (hi : i ∈ asked) : pastOf i c.trace = pastOf i new := by
  have hold : pastOf i c₀.trace = [] := h₀.orderly.pastOf_eq_nil (hcourse.requests i hi).1
  rw [hnew, pastOf_append, hold, List.append_nil]

/-- While its request has no answer, time passes for the poll only while the request is
parked. -/
theorem Course.parked (hreach : Reachable app c) (hcourse : Course app args drift c₀ asked c (.asking i loop))
    {utc : OffsetDateTime} {instant : ℕ} (hprompt : Prompt c (.tick (utc, instant)))
    (hallows : (Client.asking i loop).Allows c (.tick (utc, instant))) :
    ∃ deadline, instant ≤ deadline ∧
      Clocked args.waitCap args.roomId (effectiveInstance args.caller) (pastOf i c.trace) deadline := by
  obtain ⟨-, t, ht, hreq⟩ := hcourse.requests i (hcourse.current i loop rfl)
  have hwaits : Waits instant t := hprompt.2 t (List.mem_of_getElem? ht)
  have hserved : hasStopped t = false := hcourse.served t ht
  have hnone : t.returned = none := by
    have hallows' : c.threads[i]?.bind Thread.returned = none := hallows
    rwa [ht] at hallows'
  obtain ⟨req, status⟩ := t
  obtain rfl : req = .waitRoom args.roomId args.waitRequest := hreq
  cases status with
  | failed => cases hserved
  | dropped => cases hserved
  | running program =>
    rcases hwaits program rfl with ⟨a, rfl⟩ | ⟨rx, deadline, f, rfl, hle⟩
    · cases hnone
    · exact ⟨deadline, hle, hreach.parking.waiting ht _ _ rfl⟩

/-- Time keeps the poll in its pace. -/
theorem Kept.tick (h₀ : Reachable app c₀) (hcourse : Course app args drift c₀ asked c client)
    (hnew : c.trace = new ++ c₀.trace) (hstanding : Standing p inst c₀ asked new c.shared)
    (hroom : p.roomId = args.roomId) (hinst : inst = effectiveInstance args.caller)
    {utc : OffsetDateTime} {instant : ℕ} (hprompt : Prompt c (.tick (utc, instant)))
    (hallows : client.Allows c (.tick (utc, instant)))
    (htick : Store.tick (utc, instant) c.shared = some s')
    (h : Kept args drift p c₀ new c.shared client) : Kept args drift p c₀ new s' client := by
  have hreach := h₀.run hcourse.run
  have hclocks : s'.utc = utc ∧ s'.instant = instant := by
    unfold Store.tick at htick
    split at htick
    · obtain rfl := Option.some_inj.mp htick
      exact ⟨rfl, rfl⟩
    · cases htick
  obtain ⟨hdb, -, hutc, -⟩ := tick_spec htick
  have hdrift : s'.utc - s'.instant = drift := by
    have hequal := hprompt.1
    have hlock := hcourse.inTime.lockstep
    rw [hclocks.1, hclocks.2]
    linarith
  obtain ⟨q, hrow, hpace⟩ := h.now
  have hrow' := hrow.tick hdb hutc
  cases client with
  | asking i loop =>
    obtain ⟨deadline, hle, hclocked⟩ := hcourse.parked hreach hprompt hallows
    have hi := hcourse.current i loop rfl
    rw [hcourse.log_eq h₀ hnew hi, ← hroom, ← hinst] at hclocked
    obtain ⟨handle, hfound, e, he, hid, hcall, hdeadline⟩ :=
      hclocked.inTime hreach hcourse.inTime hnew
    have hsub : new ⊆ c.trace := hnew ▸ List.subset_append_left _ _
    obtain rfl := h.present.found_handle hreach hsub (hstanding.called i hi) hfound
    -- the touch of the wait is a refresh, and the wait is over a cap behind it
    have htouched : Touches p.handle (pastOf i new) :=
      ⟨_, mem_pastOf.mpr ⟨e, he, hid, hcall⟩⟩
    have hpolled : e.before.utc ≤ q.lastPollAt :=
      hrow.utc_le (hcourse.run.history_of_eq hnew) he (by
        rw [(Sigma.mk.inj hcall).1]
        simp [Call.polls])
    have hshort : s'.utc - q.lastPollAt ≤ args.waitCap := by
      have hint : (s'.instant : ℤ) ≤ deadline := by
        rw [hclocks.2]
        exact_mod_cast hle
      linarith
    have hminute : (0 : ℤ) ≤ MINUTE := by decide
    have hbegun : Touches p.handle (pastOf c₀.threads.length new) := by
      rcases hpace.2.1 with rfl | hbegun
      · exact htouched
      · exact hbegun
    exact ⟨⟨q, hrow', hpace.1, hpace.2.1, fun _ => by linarith, fun _ => hshort⟩, h.before,
      fun _ => hbegun⟩
  | sleeping until_ loop =>
    obtain ⟨hbrisk, hbegun, -, hlate⟩ := hpace
    have hawake : instant ≤ until_ := hallows
    exact ⟨⟨q, hrow', hbrisk, hbegun, hclocks.2 ▸ hawake, hlate⟩, h.before, fun _ => hbegun⟩
  | ended => exact hallows.elim

/-- The poll reads an answer, and sleeps or ends. -/
theorem Kept.answer (h₀ : Reachable app c₀)
    (hcourse : Course app args drift c₀ asked c (.asking i loop))
    (hnew : c.trace = new ++ c₀.trace) (hstanding : Standing p inst c₀ asked new c.shared)
    (hroom : p.roomId = args.roomId) (hinst : inst = effectiveInstance args.caller) {a : Outcome}
    (ha : c.threads[i]?.bind Thread.returned = some a)
    (h : Kept args drift p c₀ new c.shared (.asking i loop)) :
    Kept args drift p c₀ new c.shared (args.next loop c.shared.instant a) := by
  have hreach := h₀.run hcourse.run
  have hi := hcourse.current i loop rfl
  obtain ⟨-, t, ht, hreq⟩ := hcourse.requests i hi
  obtain ⟨t', ht', hreturned⟩ := Option.bind_eq_some_iff.mp ha
  obtain rfl := Option.some_inj.mp (ht.symm.trans ht')
  have hdone : WaitDone p.roomId inst (pastOf i new) a := by
    rw [← hcourse.log_eq h₀ hnew hi, hroom, hinst]
    exact hreach.parking.returned ht hreturned _ _ hreq
  have hsub : new ⊆ c.trace := hnew ▸ List.subset_append_left _ _
  obtain ⟨resp, rfl, hhinted, htouched⟩ :=
    h.present.waitDone hreach hsub (hstanding.called i hi) hdone
  obtain ⟨q, hrow, hbrisk, hfirst, -, hshort⟩ := h.now
  have hbegun : Touches p.handle (pastOf c₀.threads.length new) := by
    rcases hfirst with rfl | hbegun
    · exact htouched
    · exact hbegun
  refine ⟨⟨q, hrow, ?_⟩, h.before, h.atOnce⟩
  unfold PollArgs.next
  dsimp only
  cases hdecision : pollDecision resp loop.st with
  | mk action st =>
    cases action with
    | wait secs announce =>
      obtain ⟨-, hsecs, hbrisk'⟩ := pollDecision_wait hbrisk hhinted hdecision
      refine ⟨hbrisk', hbegun, Nat.le_add_right _ _, ?_⟩
      have hlock := hcourse.inTime.lockstep
      have hminute : MINUTE = 60 * 1000000000 := by decide
      have hnanos : ((c.shared.instant + secs.toNat * 1000000000 : ℕ) : ℤ) ≤
          c.shared.instant + MINUTE := by
        rw [hminute]
        omega
      have hrecent := hshort htouched
      linarith
    | deliver => exact ⟨hbegun, hshort htouched⟩
    | exitStatus => exact ⟨hbegun, hshort htouched⟩
    | giveUpEmpty => exact ⟨hbegun, hshort htouched⟩
    | giveUpJoin => exact ⟨hbegun, hshort htouched⟩
    | giveUpStale => exact ⟨hbegun, hshort htouched⟩

/-- The poll wakes up and asks again. -/
theorem Kept.wake (h₀ : Reachable app c₀) {until_ : ℕ}
    (hcourse : Course app args drift c₀ asked c (.sleeping until_ loop))
    (hnew : c.trace = new ++ c₀.trace)
    (h : Kept args drift p c₀ new c.shared (.sleeping until_ loop)) :
    Kept args drift p c₀ new c.shared (.asking c.threads.length loop) := by
  obtain ⟨q, hrow, hpace⟩ := h.now
  have hlate := fun hbegun => hpace.le hcourse.inTime.lockstep hbegun
  refine ⟨⟨q, hrow, hpace.1, .inr hpace.2.1, hlate, fun htouched => ?_⟩, h.before, h.atOnce⟩
  -- the new request has not made a call yet
  obtain ⟨now, hmem⟩ := htouched
  have hnil : pastOf c.threads.length c.trace = [] :=
    (h₀.run hcourse.run).orderly.pastOf_eq_nil le_rfl
  rw [hnew, pastOf_append, List.append_eq_nil_iff] at hnil
  rw [hnil.1] at hmem
  cases hmem

/-- **A tended poll keeps its participant.** -/
theorem Tended.kept (h₀ : Reachable app c₀) (hin : InTime c₀.trace drift c₀)
    (hp : p ∈ c₀.shared.db.participants) (hroom : p.roomId = args.roomId)
    (hbrisk : args.loop.st.Brisk) (h : Tended app args c₀ asked c client) :
    ∀ {new}, c.trace = new ++ c₀.trace →
      Standing p (effectiveInstance args.caller) c₀ asked new c.shared →
      Kept args drift p c₀ new c.shared client := by
  induction h with
  | launch =>
    intro new hnew _
    obtain rfl : new = [] :=
      List.append_cancel_right (show new ++ c₀.trace = [] ++ c₀.trace from hnew.symm)
    have hnone : ¬ Touches p.handle (pastOf c₀.threads.length ([] : List Step)) := by
      rintro ⟨now, hmem⟩
      cases hmem
    refine ⟨⟨p, ?_, hbrisk, .inl rfl, fun hbegun => absurd hbegun hnone,
      fun hbegun => absurd hbegun hnone⟩, ?_, fun hpassed => absurd rfl hpassed⟩
    · exact ⟨hp, ⟨rfl, rfl⟩, rfl, fun e he => (by cases he), fun hbegun => absurd hbegun hnone⟩
    · rintro e older ⟨newer, hnil⟩
      simp at hnil
  | @move asked c c' client a htended hprompt hallows hstep hserved ih =>
    intro new' hnew' hstanding
    have hcourse := htended.course h₀ hin
    have hcourse' := (Tended.move htended hprompt hallows hstep hserved).course h₀ hin
    obtain ⟨new, hnew, hist⟩ := hcourse.run.history
    have hone : (daemon app).Run c c' := .move .refl trivial hstep
    obtain ⟨mid, hmid, hist'⟩ := hone.history
    have hsplit : new' ++ c₀.trace = (mid ++ new) ++ c₀.trace := by
      rw [← hnew', hmid, hnew, List.append_assoc]
    obtain rfl := List.append_cancel_right hsplit
    have hfrom : c₀.shared.utc ≤ c.shared.utc := (History.later hist).utc
    have hbefore := ih hnew
      (hstanding.mono (List.Subset.refl _) (List.suffix_append _ _) hfrom (History.later hist').utc)
    have hquiet : c'.trace = c.trace → mid = [] := fun htrace =>
      List.append_cancel_right (show mid ++ c.trace = [] ++ c.trace from hmid.symm.trans htrace)
    cases (daemon app).move_of_apply hstep with
    | start req =>
      obtain rfl := hquiet rfl
      exact hbefore
    | unroll hi =>
      obtain rfl := hquiet rfl
      exact hbefore
    | stop hi hst =>
      obtain rfl := hquiet rfl
      exact hbefore
    | @call i choice r k f x s' hi hx =>
      obtain rfl : mid = [⟨i, k, x, c.shared, s'⟩] :=
        List.append_cancel_right (show mid ++ c.trace = [_] ++ c.trace from hmid.symm)
      have hreach' := h₀.run hcourse'.run
      have hsuf : ⟨i, k, x, c.shared, s'⟩ :: (new ++ c₀.trace) <:+
          (⟨i, k, x, c.shared, s'⟩ :: c.trace : List Step) := by
        rw [hnew]
      have hrec := hreach'.recorded hsuf
      exact hbefore.call hrec hcourse'.inTime hstanding hfrom
    | @tick t s' ht =>
      obtain rfl := hquiet rfl
      obtain ⟨utc, instant⟩ := t
      refine hbefore.tick h₀ hcourse hnew ?_ hroom rfl hprompt hallows ht
      exact hstanding.mono (List.Subset.refl _) (List.suffix_append _ _) hfrom (History.later hist').utc
  | answer htended ha ih =>
    intro new hnew hstanding
    exact (ih hnew hstanding).answer h₀ (htended.course h₀ hin) hnew hstanding hroom rfl ha
  | wake htended _ ih =>
    intro new hnew hstanding
    refine (ih hnew ?_).wake h₀ (htended.course h₀ hin) hnew
    exact hstanding.mono (List.subset_cons_self _ _) List.suffix_rfl
      (History.later (htended.course h₀ hin).run.history.choose_spec.2).utc le_rfl

/-! ### Never a ghost -/

/-- Who lists the participants `rows` of the room at `now` takes `p` for live: a vote and a
proposal count it, the room is not stale, and `p` is no counterpart gone dark. -/
def SeenLive (p : Participant) (rows : List Participant) (now : OffsetDateTime) : Prop :=
  (∃ q ∈ rows, SameRow p q ∧ livePoller now q = true) ∧
    noLivePoller (rows.map Participant.lastPollAt) now = false ∧
    ∀ handle, handle ≠ p.handle →
      ((rows.filter (·.handle ≠ handle)).all fun q => now - q.lastPollAt > GHOST_AFTER) = false

theorem seenLive_of_row {rows : List Participant} {now : OffsetDateTime} (hq : q ∈ rows)
    (hsame : SameRow p q) (hlive : now - q.lastPollAt ≤ GHOST_AFTER) : SeenLive p rows now := by
  have hdark : ¬ now - q.lastPollAt > GHOST_AFTER := not_lt.mpr hlive
  refine ⟨⟨q, hq, hsame, decide_eq_true hlive⟩, ?_, fun handle hne => ?_⟩
  · rw [noLivePoller, List.all_eq_false]
    exact ⟨q.lastPollAt, List.mem_map_of_mem hq, by simpa using hdark⟩
  · rw [List.all_eq_false]
    refine ⟨q, List.mem_filter.mpr ⟨hq, ?_⟩, by simpa using hdark⟩
    rw [decide_eq_true_eq, hsame.handle]
    exact hne.symm

/-- The request is answered, or is parked. -/
def Rests (c : Daemon) (i : ℕ) : Prop :=
  (∃ a, c.threads[i]?.bind Thread.returned = some a) ∨
    ∃ id rx deadline, c.threads[i]?.bind receiving = some (id, rx, deadline)

/-- Each request of the poll refreshes `p` before it rests, and the first one before any time
has passed; since then `p` is polled again within the gap, no prune deletes it, each extend
counts it, and everybody who lists it takes it for live. -/
structure NeverGhost (p : Participant) (c₀ : Daemon) (asked : List ℕ) (new : List Step) (c : Daemon) :
    Prop where
  launched : c₀.threads.length ∈ asked
  touches : ∀ i ∈ asked, Rests c i → Touches p.handle (pastOf i new)
  atOnce : c.shared.utc ≠ c₀.shared.utc → Touches p.handle (pastOf c₀.threads.length new)
  gaps : ∀ e mid e₀ older, e :: (mid ++ e₀ :: older) <:+ new →
    e.call.polls p.handle = true → e₀.call.polls p.handle = true →
    (∀ x ∈ mid, x.call.polls p.handle = false) →
    Touches p.handle (pastOf c₀.threads.length (e₀ :: older)) →
      e.before.utc - e₀.before.utc ≤ HEALTHY_GAP
  recent : Touches p.handle (pastOf c₀.threads.length new) →
    ∃ q ∈ c.shared.db.participants, SameRow p q ∧ c.shared.utc - q.lastPollAt ≤ HEALTHY_GAP
  pruned : ∀ e older, e :: older <:+ new → Touches p.handle (pastOf c₀.threads.length older) →
    ¬ Removes e p.handle
  counted : ∀ e older voter step now cutoff quorum, e :: older <:+ new →
    Touches p.handle (pastOf c₀.threads.length older) →
    e.call = .tryExtend p.roomId voter step now cutoff quorum →
      ∃ q ∈ (e.before.db.castExtendVote voter now).participants, SameRow p q ∧
        Db.livePoll p.roomId cutoff q = true
  listed : ∀ e older rows now, e :: older <:+ new →
    Touches p.handle (pastOf c₀.threads.length older) →
    (⟨e.call, e.reply⟩ : Sigma Call.Reply) = ⟨.listParticipants p.roomId, rows⟩ →
    ⟨.nowUtc, now⟩ ∈ pastOf e.tid (older ++ c₀.trace) → SeenLive p rows now

/-- The first request of the poll is among its requests. -/
theorem Tended.launched (h : Tended app args c₀ asked c client) : c₀.threads.length ∈ asked := by
  induction h with
  | launch => exact List.mem_cons_self
  | move _ _ _ _ _ ih => exact ih
  | answer _ _ ih => exact ih
  | wake _ _ ih => exact List.mem_cons_of_mem _ ih

/-- A request of the poll that parks has touched the row. -/
theorem Present.clocked (h : Present p new) (hreach : Reachable app c) (hsub : new ⊆ c.trace)
    (hcaller : CalledBy p inst (pastOf i new)) {deadline : ℕ}
    (hclocked : Clocked cap p.roomId inst (pastOf i new) deadline) :
    Touches p.handle (pastOf i new) := by
  obtain ⟨start, rx, handle, now, older, -, hfound, hsuf⟩ := hclocked
  have holder : older ⊆ pastOf i new :=
    ((List.suffix_append [_, _, _, _] older).trans hsuf).subset
  obtain rfl := h.found_handle hreach hsub hcaller (hfound.mono holder)
  exact ⟨now, hsuf.subset (by simp)⟩

/-- **A request of the poll that rests has touched the row.** -/
theorem Kept.touches (h₀ : Reachable app c₀) (hcourse : Course app args drift c₀ asked c client)
    (hnew : c.trace = new ++ c₀.trace) (hstanding : Standing p inst c₀ asked new s)
    (hroom : p.roomId = args.roomId) (hinst : inst = effectiveInstance args.caller)
    (h : Kept args drift p c₀ new c.shared client) (hi : i ∈ asked) (hrests : Rests c i) :
    Touches p.handle (pastOf i new) := by
  have hreach := h₀.run hcourse.run
  have hsub : new ⊆ c.trace := hnew ▸ List.subset_append_left _ _
  have hcaller := hstanding.called i hi
  have hlog := hcourse.log_eq h₀ hnew hi
  obtain ⟨-, t, ht, hreq⟩ := hcourse.requests i hi
  rcases hrests with ⟨a, ha⟩ | ⟨id, rx, deadline, hreceiving⟩
  · rw [ht] at ha
    have hdone : WaitDone p.roomId inst (pastOf i new) a := by
      rw [← hlog, hroom, hinst]
      exact hreach.parking.returned ht ha _ _ hreq
    obtain ⟨-, -, -, htouched⟩ := h.present.waitDone hreach hsub hcaller hdone
    exact htouched
  · rw [ht] at hreceiving
    obtain ⟨r, f, rfl⟩ := receiving_spec hreceiving
    have hclocked := hreach.parking.waiting ht _ _ hreq
    rw [hlog, ← hroom] at hclocked
    exact h.present.clocked hreach hsub (hinst ▸ hcaller) hclocked

/-- An extend counts a row that was polled within the gap. -/
theorem Recorded.counted (h : Recorded app c e (older ++ old)) (hin : InTime old drift c)
    (hearly : (from_ - GHOST_AFTER).FourDigitYear) (hlate : top.FourDigitYear)
    (hrow : RowOf p from_ first tr e.before q) (hfrom : from_ ≤ q.lastPollAt)
    (hle : q.lastPollAt ≤ e.before.utc) (htop : e.before.utc ≤ top)
    (hgap : e.before.utc - q.lastPollAt ≤ HEALTHY_GAP) {voter : String} {step : UInt32}
    {now cutoff : OffsetDateTime} {quorum : CloseQuorum}
    (hcall : e.call = .tryExtend p.roomId voter step now cutoff quorum) :
    ∃ q ∈ (e.before.db.castExtendVote voter now).participants, SameRow p q ∧
      Db.livePoll p.roomId cutoff q = true := by
  obtain ⟨t, -, hdisc⟩ := h.disciplined
  rw [hcall] at hdisc
  obtain ⟨-, -, -, rfl, -, rest, hpast⟩ := hdisc
  have hrecv : e.call.isRecv = false := by
    rw [hcall]
    rfl
  obtain rfl := hin.now_eq h.suffix hrecv hpast
  -- the vote has just refreshed the row, or has left it as it was
  have hlive : ∀ q' : Participant, q'.roomId = p.roomId → from_ ≤ q'.lastPollAt →
      q'.lastPollAt ≤ e.before.utc → e.before.utc - q'.lastPollAt ≤ HEALTHY_GAP →
      Db.livePoll p.roomId (e.before.utc - GHOST_AFTER) q' = true := by
    intro q' hroom hfrom' hle' hgap'
    have horder := format_cutoff_lt hearly hlate hfrom' hle' htop hgap'
    rw [Db.livePoll, Bool.and_eq_true, decide_eq_true_eq, textLe, Bool.not_eq_true',
      decide_eq_false_iff_not]
    exact ⟨hroom, lt_asymm horder⟩
  refine ⟨_, List.mem_map_of_mem hrow.mem, ?_⟩
  split
  · have hpos : (0 : ℤ) ≤ HEALTHY_GAP := by decide
    refine ⟨⟨hrow.same.handle, hrow.same.roomId⟩, hlive _ hrow.same.roomId ?_ le_rfl ?_⟩
    · exact hfrom.trans hle
    · exact (sub_self e.before.utc).trans_le hpos
  · exact ⟨hrow.same, hlive q hrow.same.roomId hfrom hle hgap⟩

theorem Kept.neverGhost (h₀ : Reachable app c₀) (hcourse : Course app args drift c₀ asked c client)
    (hnew : c.trace = new ++ c₀.trace) (hstanding : Standing p inst c₀ asked new c.shared)
    (hroom : p.roomId = args.roomId) (hinst : inst = effectiveInstance args.caller)
    (hlaunched : c₀.threads.length ∈ asked) (h : Kept args drift p c₀ new c.shared client) :
    NeverGhost p c₀ asked new c := by
  have hreach := h₀.run hcourse.run
  have hrec : ∀ {e older}, e :: older <:+ new → Recorded app c e (older ++ c₀.trace) := by
    rintro e older ⟨newer, rfl⟩
    exact hreach.recorded ⟨newer, by rw [hnew]; simp⟩
  constructor
  case launched => exact hlaunched
  case touches => exact fun i hi => h.touches h₀ hcourse hnew hstanding hroom hinst hi
  case atOnce => exact h.atOnce
  case gaps =>
    intro e mid e₀ older hsuf _ hpolls₀ hmid hbegun
    obtain ⟨q, hrow, hgap⟩ := h.before e _ hsuf
    have hlatest : lastRefresh p.handle (mid ++ e₀ :: older) = some e₀ := by
      refine List.find?_eq_some_iff_append.mpr ⟨hpolls₀, mid, older, rfl, fun x hx => ?_⟩
      rw [hmid x hx]
      rfl
    rw [← hrow.refreshed e₀ hlatest]
    obtain ⟨now, hmem⟩ := hbegun
    refine hgap ⟨now, ?_⟩
    rw [pastOf_append]
    exact List.mem_append_right _ hmem
  case recent =>
    intro hbegun
    obtain ⟨q, hrow, hpace⟩ := h.now
    exact ⟨q, hrow.mem, hrow.same, (hpace.le hcourse.inTime.lockstep hbegun).trans (cap_le args)⟩
  case pruned =>
    intro e older hsuf hbegun
    obtain ⟨q, hrow, hgap⟩ := h.before e older hsuf
    obtain ⟨hlow, hhigh⟩ := hrow.begun hbegun
    have hr := hrec hsuf
    rw [← hrow.same.handle]
    exact hr.not_removed hcourse.inTime hstanding.early hstanding.late hrow.mem hlow hhigh
      (hr.effect.utc.symm.trans_le hr.later.utc) (hgap hbegun)
  case counted =>
    intro e older voter step now cutoff quorum hsuf hbegun hcall
    obtain ⟨q, hrow, hgap⟩ := h.before e older hsuf
    obtain ⟨hlow, hhigh⟩ := hrow.begun hbegun
    have hr := hrec hsuf
    exact hr.counted hcourse.inTime hstanding.early hstanding.late hrow hlow hhigh
      (hr.effect.utc.symm.trans_le hr.later.utc) (hgap hbegun) hcall
  case listed =>
    intro e older rows now hsuf hbegun hx hread
    obtain ⟨q, hrow, hgap⟩ := h.before e older hsuf
    have hr := hrec hsuf
    have hnow : now ≤ e.before.utc := hr.utc_read_le hread
    have hrows : e.before.db.listParticipants p.roomId = rows := by
      obtain ⟨sess, hexec⟩ := hr.exec
      obtain ⟨tid, call, reply, before, after⟩ := e
      cases hx
      exact (done_of_read hexec).1
    have hmem : q ∈ rows := by
      rw [← hrows]
      exact mem_listParticipants.mpr ⟨hrow.mem, hrow.same.roomId⟩
    refine seenLive_of_row hmem hrow.same ?_
    have hghost : HEALTHY_GAP ≤ GHOST_AFTER := by decide
    have hrecent := hgap hbegun
    linarith

/-- **A healthy poller is never a ghost.** -/
theorem healthy_poller_never_ghost (h₀ : Reachable app c₀) (hready : UpToDate c₀)
    (hp : p ∈ c₀.shared.db.participants) (hroom : p.roomId = args.roomId)
    (hjoin : args.joinBackoffSecs = 5) (hstale : args.staleBackoffSecs = 30)
    (h : Tended app args c₀ asked c client) (hnew : c.trace = new ++ c₀.trace)
    (hstanding : Standing p (effectiveInstance args.caller) c₀ asked new c.shared) :
    HEALTHY_GAP < GHOST_AFTER ∧ NeverGhost p c₀ asked new c := by
  have hbrisk : args.loop.st.Brisk := by
    rw [PollArgs.loop, hjoin, hstale]
    show (max 5 MIN_BACKOFF_SECS).toNat ≤ 60 ∧ (max 30 MIN_BACKOFF_SECS).toNat ≤ 60
    decide
  have hkept := h.kept h₀ hready.inTime hp hroom hbrisk hnew hstanding
  exact ⟨by decide,
    hkept.neverGhost h₀ (h.course h₀ hready.inTime) hnew hstanding hroom rfl h.launched⟩

/-! ### A poll of bob -/

/-- The poll is not answered yet, and makes the moves it can make. -/
theorem Tended.played (h : Tended app args c₀ asked c (.asking i loop)) : ∀ {n : ℕ},
    (Client.asking i loop).Served (play app (steps i n) c) →
      Tended app args c₀ asked (play app (steps i n) c) (.asking i loop) := by
  intro n
  induction n with
  | zero => exact fun _ => h
  | succ n ih =>
    intro hserved
    have hplay : play app (steps i (n + 1)) c =
        ((daemon app).apply (.step i [UInt16.ofNat i]) (play app (steps i n) c)).getD
          (play app (steps i n) c) := by
      rw [steps, List.replicate_succ', play, List.foldl_append]
      rfl
    have hone : (daemon app).Run (play app (steps i n) c) (play app (steps i (n + 1)) c) := by
      rw [hplay]
      cases hstep : (daemon app).apply (.step i [UInt16.ofNat i]) (play app (steps i n) c) with
      | none => exact .refl
      | some c' => exact .move .refl trivial hstep
    -- a request that has stopped stays so
    have hearlier : (Client.asking i loop).Served (play app (steps i n) c) := by
      intro t ht
      rw [Bool.eq_false_iff]
      intro hstopped
      have hstays := (hone.stopped ht (not_running_of_stopped hstopped)).1
      rw [hserved t hstays] at hstopped
      cases hstopped
    rw [hplay] at hserved ⊢
    cases hstep : (daemon app).apply (.step i [UInt16.ofNat i]) (play app (steps i n) c) with
    | none => exact ih hearlier
    | some c' =>
      rw [hstep] at hserved
      exact .move (a := .step i [UInt16.ofNat i]) (ih hearlier) trivial trivial hstep hserved

theorem prompt_inTurn : ∀ (rs : List Request) (i : ℕ), ∀ a ∈ inTurn i rs, ∀ c, Prompt c a := by
  intro rs
  induction rs with
  | nil =>
    intro i a ha
    cases ha
  | cons r rs ih =>
    intro i a ha c
    rcases List.mem_cons.mp ha with rfl | ha
    · trivial
    · rcases List.mem_append.mp ha with ha | ha
      · obtain rfl := List.eq_of_mem_replicate ha
        trivial
      · exact ih (i + 1) a ha c

theorem upToDate_demo (rs : List Request) : UpToDate (demo rs) :=
  upToDate_of_prompt (runWith_play _ _ (prompt_inTurn rs 0))

/-- All requests have ended or are parked. -/
def waitsUntil (instant : ℕ) (t : Thread Call Call.Reply Request Outcome) : Bool :=
  match t.status with
  | .running (.ret _) => true
  | .running (.call (.recv _ deadline) _) => instant ≤ deadline
  | .running _ => false
  | .failed | .dropped => true

theorem waits_of_waitsUntil {instant : ℕ} {t : Thread Call Call.Reply Request Outcome}
    (h : waitsUntil instant t = true) : Waits instant t := by
  intro program hstatus
  rw [waitsUntil, hstatus] at h
  split at h
  · rename_i heq
    cases heq
    exact .inl ⟨_, rfl⟩
  · rename_i heq
    cases heq
    exact .inr ⟨_, _, _, rfl, of_decide_eq_true h⟩
  · cases h
  · rename_i heq
    cases heq
  · rename_i heq
    cases heq

/-- Bob polls with the defaults of the CLI. -/
def bobPolls : PollArgs := ⟨demoRoom, bob, 50, 0, 2, 5, 3600, 30, 3600⟩

/-- Alice and bob have joined, and bob polls; nobody writes. -/
def gathered : Daemon := demo (gather none [alice, bob])

/-- His first request is parked. -/
def firstPark : Daemon :=
  play .default (steps 3 40) (arrived .default (.waitRoom demoRoom bobPolls.waitRequest) gathered)

/-- Its time is over, and it is answered. -/
def firstAnswer : Daemon :=
  play .default (steps 3 40) { firstPark with
    shared := { firstPark.shared with utc := 50000000000, instant := 50000000000 } }

/-- A second later his second request is parked. -/
def secondPark : Daemon :=
  play .default (steps 4 40) (arrived .default (.waitRoom demoRoom bobPolls.waitRequest) { firstAnswer with
    shared := { firstAnswer.shared with utc := 51000000000, instant := 51000000000 } })

theorem served_of_all (h : (c.threads[i]?.all fun t => !hasStopped t) = true) :
    (Client.asking i loop).Served c := by
  intro t ht
  rw [ht] at h
  simpa using h

theorem apply_tick {utc : OffsetDateTime} {instant : ℕ}
    (h : c.shared.utc ≤ utc ∧ c.shared.instant ≤ instant) :
    (daemon app).apply (.tick (utc, instant)) c =
      some { c with shared := { c.shared with utc := utc, instant := instant } } := by
  show (Store.tick (utc, instant) c.shared).map _ = _
  rw [Store.tick, if_pos h]
  rfl

/-- Time can pass up to this point: all requests wait, and request `i` has no answer. -/
def restful (i : ℕ) (utc : OffsetDateTime) (instant : ℕ) (c : Daemon) : Bool :=
  (c.threads[i]?.all fun t => !hasStopped t) && c.threads.all (waitsUntil instant) &&
    (utc - c.shared.utc = instant - c.shared.instant && c.shared.utc ≤ utc && c.shared.instant ≤ instant)

theorem restful_spec (app : AppState) {utc : OffsetDateTime} {instant : ℕ} (h : restful i utc instant c = true) :
    (∀ loop, (Client.asking i loop).Served c) ∧ Prompt c (.tick (utc, instant)) ∧
      (daemon app).apply (.tick (utc, instant)) c =
        some { c with shared := { c.shared with utc := utc, instant := instant } } := by
  simp only [restful, Bool.and_eq_true, decide_eq_true_eq] at h
  obtain ⟨⟨hserved, hwaits⟩, ⟨hequal, hutc⟩, hinstant⟩ := h
  exact ⟨fun loop => served_of_all hserved,
    ⟨hequal, fun t ht => waits_of_waitsUntil (List.all_eq_true.mp hwaits t ht)⟩,
    apply_tick ⟨hutc, hinstant⟩⟩

theorem Tended.rest (h : Tended app args c₀ asked c (.asking i loop)) {utc : OffsetDateTime}
    {instant : ℕ} (hrest : restful i utc instant c = true)
    (hnone : c.threads[i]?.bind Thread.returned = none) : Tended app args c₀ asked
      { c with shared := { c.shared with utc := utc, instant := instant } } (.asking i loop) := by
  obtain ⟨hserved, hprompt, hstep⟩ := restful_spec app hrest
  exact h.move hprompt hnone hstep (hserved loop)

theorem tended_secondPark : ∃ loop, Tended .default bobPolls gathered [4, 3] secondPark (.asking 4 loop) := by
  have hlength : gathered.threads.length = 3 := by decide +kernel
  have hparked : restful 3 50000000000 50000000000 firstPark = true ∧
      firstPark.threads[3]?.bind Thread.returned = none := by decide +kernel
  have hanswered : restful 3 51000000000 51000000000 firstAnswer = true ∧
      firstAnswer.threads[3]?.bind Thread.returned =
        some (.ok (.waited (.timeout "paused_by_timeout" none))) ∧
      firstAnswer.shared.instant = 50000000000 ∧ firstAnswer.threads.length = 4 := by decide +kernel
  obtain ⟨hserved, -, -⟩ := restful_spec .default hparked.1
  obtain ⟨hserved', hprompt', hstep'⟩ := restful_spec .default hanswered.1
  have hlaunch : Tended .default bobPolls gathered _ _ _ := .launch
  rw [hlength] at hlaunch
  have hpark : Tended .default bobPolls gathered [3] firstPark (.asking 3 bobPolls.loop) :=
    hlaunch.played (hserved _)
  -- fifty seconds later the wait is over
  have htime := hpark.rest hparked.1 hparked.2
  have hanswer : Tended .default bobPolls gathered [3] firstAnswer (.asking 3 bobPolls.loop) :=
    htime.played (hserved' _)
  have hsleep := hanswer.answer hanswered.2.1
  obtain ⟨loop, hloop⟩ : ∃ loop, bobPolls.next bobPolls.loop 50000000000
      (.ok (.waited (.timeout "paused_by_timeout" none))) = .sleeping 51000000000 loop :=
    ⟨⟨{ bobPolls.loop.st with emptyPolls := 1 }, 0⟩, by decide +kernel⟩
  rw [hanswered.2.2.1, hloop] at hsleep
  -- a second later the poll asks again
  have hawake := hsleep.move (a := .tick (51000000000, 51000000000)) hprompt'
    (show _ ≤ _ by decide) hstep' trivial
  have hagain := hawake.wake le_rfl
  dsimp only at hagain
  rw [hanswered.2.2.2] at hagain
  exact ⟨loop, hagain.played (served_of_all (by decide +kernel))⟩

theorem healthy_poller_never_ghost_bobPolls : ∃ new, secondPark.trace = new ++ gathered.trace ∧
    HEALTHY_GAP < GHOST_AFTER ∧ NeverGhost bobJoined gathered [4, 3] new secondPark := by
  obtain ⟨loop, htended⟩ := tended_secondPark
  have hreach : Reachable .default gathered := reachable_demo _
  have hready : UpToDate gathered := upToDate_demo _
  obtain ⟨new, hnew, -⟩ := (htended.course hreach hready.inTime).run.history
  obtain ⟨hbob, hearly⟩ : bobJoined ∈ gathered.shared.db.participants ∧
      (gathered.shared.utc - GHOST_AFTER).FourDigitYear := by decide +kernel
  obtain ⟨hstay, hlate⟩ :
      (∀ e ∈ secondPark.trace, ∀ p ∈ e.before.db.participants, e.call.prunes p = false) ∧
      secondPark.shared.utc.FourDigitYear := by decide +kernel
  have hstanding : Standing bobJoined (effectiveInstance bobPolls.caller) gathered [4, 3] new
      secondPark.shared := by
    refine ⟨fun j hj => .inl (by decide), fun e older hsuf _ => ?_, hearly, hlate⟩
    rintro ⟨p, hp, -, hprunes⟩
    have hmem : e ∈ secondPark.trace := by
      rw [hnew]
      exact List.mem_append_left _ (hsuf.mem List.mem_cons_self)
    rw [hstay e hmem p hp] at hprunes
    cases hprunes
  exact ⟨new, hnew, healthy_poller_never_ghost hreach hready (p := bobJoined)
    hbob rfl rfl rfl htended hnew hstanding⟩

end ChatBotChat
