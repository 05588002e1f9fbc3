/-
A wait that stops, and the cursor it leaves behind.

Between the compare-and-swap that claims a message and the response that carries
it, a wait reads five times more.  `Reachable.cursor_claimed` keeps the cursor of
the caller in step with the wait's own log: while nobody else claims for the
handle, the cursor is where it was exactly as long as the log shows no claim.
A wait that answers without a message has claimed none (`WaitAnswered`), and a
wait that stops has done what its log shows.
-/
import ChatBotChat.Inbox

namespace ChatBotChat

open Interleave

variable {app : AppState} {c₀ c : Daemon} {e : Step} {new : List Step} {id handle : String}
  {p : Participant} {past : Log} {i : ℕ}

/-- The log shows a claim for `handle` that succeeded. -/
def Claimed (handle : String) (past : Log) : Prop := ∃ x ∈ past, x.1.claims handle x.2 = true

@[simp] theorem claimed_nil : ¬ Claimed handle [] := by simp [Claimed]

@[simp] theorem claimed_cons {x : Sigma Call.Reply} :
    Claimed handle (x :: past) ↔ x.1.claims handle x.2 = true ∨ Claimed handle past := by
  simp [Claimed]

theorem Undelivered.not_claimed (h : Undelivered past) : ¬ Claimed handle past := by
  rintro ⟨⟨call, reply⟩, hmem, hclaims⟩
  obtain ⟨seq, cursor, hcall, hreply⟩ := Call.claims_spec hclaims
  dsimp only at hcall hreply
  subst hcall
  rw [eq_of_heq hreply] at hmem
  exact h _ _ _ hmem

/-- The row of `p` is still there with the cursor it had, and what was unread for
it is. -/
def StillClaimable (p : Participant) (s s' : Store) : Prop :=
  ∃ q ∈ s'.db.participants, SameRow p q ∧ q.lastReadSeq = p.lastReadSeq ∧
    s.db.inbox p.roomId p.handle p.lastReadSeq <+: s'.db.inbox q.roomId q.handle q.lastReadSeq

/-- The request has stopped, or answered with no message. -/
def EndsEmpty (t : Thread Call Call.Reply Request Outcome) : Prop :=
  hasStopped t = true ∨ ∃ a, t.returned = some a ∧ ∀ m, ¬ Carries a m

/-- The row of `p` is there, and its cursor has moved exactly if request `i` has
claimed for it. -/
structure InStep (p : Participant) (i : ℕ) (new : List Step) (s : Store) (q : Participant) :
    Prop where
  row : q ∈ s.db.participants
  same : SameRow p q
  le : p.lastReadSeq ≤ q.lastReadSeq
  moved : q.lastReadSeq = p.lastReadSeq ↔ ¬ Claimed p.handle (pastOf i new)

/-- **One call keeps the cursor in step with the log** of the only request that
claims for the handle. -/
theorem InStep.call {tr older : List Step} (h : Recorded app c e (tr ++ older))
    (hkept : ¬ Removes e p.handle)
    (hrival : e.tid ≠ i → e.call.claims p.handle e.reply = false) {q : Participant}
    (hq : InStep p i tr e.before q) :
    InStep p i (e :: tr) e.after (e.call.onParticipant e.reply q) := by
  obtain ⟨hrow, hsame, hle, hmoved⟩ := hq
  refine ⟨h.effect.kept hrow (hsame.handle ▸ hkept), ⟨?_, ?_⟩, ?_, ?_⟩
  · rw [Call.onParticipant_handle, hsame.handle]
  · rw [Call.onParticipant_roomId, hsame.roomId]
  · rw [Call.onParticipant_lastReadSeq]
    exact hle.trans (h.cursor_le q)
  · rw [Call.onParticipant_lastReadSeq]
    by_cases hclaims : e.call.claims q.handle e.reply = true
    · -- a claim moves the cursor beyond where it was
      obtain ⟨t, id, m, -, hclaiming, hcursor⟩ := h.cursor_moved hrow hclaims
      have hlt : q.lastReadSeq < m.seq := hclaiming.spec.2.1
      rw [hsame.handle] at hclaims
      have hown : e.tid = i := by
        by_contra hne
        rw [hrival hne] at hclaims
        cases hclaims
      subst hown
      rw [hcursor, pastOf_cons_self]
      refine iff_of_false (by omega) fun hnone => hnone ?_
      exact claimed_cons.mpr (.inl hclaims)
    · rw [Bool.not_eq_true] at hclaims
      rw [h.cursor_kept hrow hclaims, hmoved]
      rw [hsame.handle] at hclaims
      by_cases hown : e.tid = i
      · subst hown
        simp [pastOf_cons_self, hclaims]
      · rw [pastOf_cons_of_ne hown]

/-- The cursor stays in step with the log of a request along a run in which nobody
else claims for the handle. -/
theorem Reachable.cursor_claimed (h₀ : Reachable app c₀) (hrun : (daemon app).Run c₀ c)
    (hnew : c.trace = new ++ c₀.trace) (hp : p ∈ c₀.shared.db.participants)
    (hkept : NotPruned new p.handle)
    (hrivals : ∀ e ∈ new, e.tid ≠ i → e.call.claims p.handle e.reply = false) :
    ∃ q, InStep p i new c.shared q := by
  refine h₀.induction_from hrun hnew (P := fun tr s => ∃ q, InStep p i tr s q) ?_ ?_ ?_
  · exact ⟨p, hp, ⟨rfl, rfl⟩, le_rfl, iff_of_true rfl claimed_nil⟩
  · rintro tr s₁ s₂ hdb _ _ _ ⟨q, hrow, hsame, hle, hmoved⟩
    exact ⟨q, hdb ▸ hrow, hsame, hle, hmoved⟩
  · rintro e tr hsuf hrec ⟨q, hq⟩
    have hmem : e ∈ new := hsuf.mem List.mem_cons_self
    exact ⟨_, hq.call hrec (hkept e hmem) (hrivals e hmem)⟩

/-- What was unread behind a cursor stays unread behind it. -/
theorem Db.inbox_prefix {db db' : Db} (h : db.messages <+: db'.messages) (id handle : String)
    (afterSeq : ℕ) : db.inbox id handle afterSeq <+: db'.inbox id handle afterSeq :=
  h.filter _

/-- **A wait consumes nothing without delivering it, unless it stops behind its
claim.**  For any run behind the arrival of a wait in which nobody else claims
for `p` and `p` is not pruned: where the wait has stopped, or answered without a
message, the cursor of `p` is where it was, with everything unread that was, if
and only if the wait has not claimed; and a wait that answered has not. -/
theorem wait_consumes_nothing_iff (h₀ : Reachable app c₀) {r : WaitRequest}
    (hrun : (daemon app).Run (arrived app (.waitRoom id r) c₀) c)
    (hnew : c.trace = new ++ c₀.trace) (hp : p ∈ c₀.shared.db.participants)
    (hkept : NotPruned new p.handle)
    (hrivals : ∀ e ∈ new, e.tid ≠ c₀.threads.length → e.call.claims p.handle e.reply = false)
    {t : Thread Call Call.Reply Request Outcome} (ht : c.threads[c₀.threads.length]? = some t)
    (hends : EndsEmpty t) :
    (StillClaimable p c₀.shared c.shared ↔ ¬ Claimed p.handle (pastOf c₀.threads.length new)) ∧
      (hasStopped t = false → StillClaimable p c₀.shared c.shared) := by
  have hreach₀ : Reachable app (arrived app (.waitRoom id r) c₀) := h₀.run (run_arrived _ _ _)
  have hreach : Reachable app c := hreach₀.run hrun
  obtain ⟨q, hrow, hsame, -, hmoved⟩ := hreach₀.cursor_claimed hrun hnew hp hkept hrivals
  have hist : History app c₀.shared new c.shared := hrun.history_of_eq hnew
  have hiff : StillClaimable p c₀.shared c.shared ↔
      ¬ Claimed p.handle (pastOf c₀.threads.length new) := by
    rw [← hmoved]
    constructor
    · rintro ⟨q', hrow', hsame', hcursor, -⟩
      rw [← hreach.wellFormed.participant_unique hrow' hrow (hsame'.handle.trans hsame.handle.symm)]
      exact hcursor
    · intro hcursor
      refine ⟨q, hrow, hsame, hcursor, ?_⟩
      rw [hsame.handle, hsame.roomId, hcursor]
      exact Db.inbox_prefix hist.later.messages _ _ _
  refine ⟨hiff, fun hrunning => hiff.mpr ?_⟩
  rcases hends with hstopped | ⟨a, ha, hempty⟩
  · rw [hstopped] at hrunning
    cases hrunning
  · -- an answer without a message comes from a log without a claim
    have hpast : pastOf c₀.threads.length c.trace = pastOf c₀.threads.length new := by
      rw [hnew, pastOf_append, h₀.orderly.pastOf_eq_nil (Nat.le_refl _), List.append_nil]
    obtain ⟨t', ht', hreq⟩ := hrun.thread_persists
      (show (arrived app (.waitRoom id r) c₀).threads[c₀.threads.length]? = some _ from
        List.getElem?_concat_length)
    obtain rfl := Option.some_inj.mp (ht.symm.trans ht')
    have hconclusion := (hreach.orderly.returned ht ha).2
    rw [hreq, hpast] at hconclusion
    have hund : Undelivered (pastOf c₀.threads.length new) := by
      cases a with
      | error e => exact hconclusion
      | ok answer =>
        cases answer with
        | waited response =>
          cases response with
          | message view surfaceToUser retryAfter roomState =>
            obtain ⟨_, m, _, _, _, _, _, _, _, _, rfl, _⟩ := hconclusion
            exact absurd (.inr ⟨_, _, _, rfl⟩) (hempty m)
          | timeout status retryAfter => exact hconclusion
        | _ => exact hconclusion.elim
    exact hund.not_claimed

/-- Bob's wait comes this many moves far, and its next statement fails. -/
def failing (n : ℕ) : Daemon :=
  play .default (steps 4 n ++ [.fail 4])
    (arrived .default (.waitRoom demoRoom ⟨bob, none⟩) unreadBob)

/-- What is the same in the two runs below. -/
theorem failing_spec (n : ℕ) : (daemon .default).Run
    (arrived .default (.waitRoom demoRoom ⟨bob, none⟩) unreadBob) (failing n) ∧
    Reachable .default unreadBob ∧ unreadBob.threads.length = 4 ∧
    bobJoined ∈ unreadBob.shared.db.participants :=
  ⟨run_play _ _, reachable_demo _, by decide +kernel, by decide +kernel⟩

/-- The compare-and-swap itself fails. -/
theorem wait_consumes_nothing_iff_swapFails :
    StillClaimable bobJoined unreadBob.shared (failing 20).shared := by
  obtain ⟨hrun, hreach, hlength, hbob⟩ := failing_spec 20
  obtain ⟨new, hnew, -⟩ := hrun.history
  rw [arrived_trace] at hnew
  have hsub : ∀ e ∈ new, e ∈ (failing 20).trace := fun e he => by
    rw [hnew]
    exact List.mem_append_left _ he
  obtain ⟨hkept, hclaims⟩ : NotPruned (failing 20).trace bobJoined.handle ∧
      ∀ e ∈ (failing 20).trace, e.call.claims bobJoined.handle e.reply = false := by decide +kernel
  obtain ⟨t, ht, hstopped⟩ : ∃ t, (failing 20).threads[4]? = some t ∧ hasStopped t = true :=
    Option.map_eq_some_iff.mp (by decide +kernel)
  refine (wait_consumes_nothing_iff hreach hrun hnew hbob (fun e he => hkept e (hsub e he))
    (fun e he _ => hclaims e (hsub e he)) (hlength ▸ ht) (.inl hstopped)).1.mpr ?_
  rintro ⟨x, hx, hclaimed⟩
  obtain ⟨e, he, -, rfl⟩ := mem_pastOf.mp hx
  dsimp only at hclaimed
  rw [hclaims e (hsub e he)] at hclaimed
  cases hclaimed

/-- The soft-cap count behind the claim fails: bob is answered with a 500, and what
alice wrote is behind his cursor. -/
theorem wait_consumes_something : ¬ ∀ (c₀ c : Daemon) (new : List Step) (p : Participant)
    (r : WaitRequest) (t : Thread Call Call.Reply Request Outcome), Reachable .default c₀ →
      (daemon .default).Run (arrived .default (.waitRoom p.roomId r) c₀) c →
      c.trace = new ++ c₀.trace → p ∈ c₀.shared.db.participants → NotPruned new p.handle →
      (∀ e ∈ new, e.tid ≠ c₀.threads.length → e.call.claims p.handle e.reply = false) →
      c.threads[c₀.threads.length]? = some t → EndsEmpty t →
      StillClaimable p c₀.shared c.shared := by
  intro h
  obtain ⟨hrun, hreach, hlength, hbob⟩ := failing_spec 23
  obtain ⟨new, hnew, -⟩ := hrun.history
  rw [arrived_trace] at hnew
  have hsub : ∀ e ∈ new, e ∈ (failing 23).trace := fun e he => by
    rw [hnew]
    exact List.mem_append_left _ he
  obtain ⟨hkept, hothers, hmoved⟩ : NotPruned (failing 23).trace bobJoined.handle ∧
      (∀ e ∈ (failing 23).trace, e.tid ≠ 4 →
        e.call.claims bobJoined.handle e.reply = false) ∧
      ∀ q ∈ (failing 23).shared.db.participants, q.handle = bobJoined.handle →
        q.lastReadSeq ≠ bobJoined.lastReadSeq := by decide +kernel
  obtain ⟨t, ht, hstopped⟩ : ∃ t, (failing 23).threads[4]? = some t ∧ hasStopped t = true :=
    Option.map_eq_some_iff.mp (by decide +kernel)
  obtain ⟨q, hrow, hsame, hcursor, -⟩ := h unreadBob (failing 23) new bobJoined ⟨bob, none⟩ t hreach
    hrun hnew hbob (fun e he => hkept e (hsub e he))
    (fun e he hi => hothers e (hsub e he) (hlength ▸ hi)) (hlength ▸ ht) (.inl hstopped)
  exact hmoved q hrow hsame.handle hcursor

end ChatBotChat
