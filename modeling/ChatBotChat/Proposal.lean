/-
What a proposal to close reports.

* `close_proposed_truthful_iff` — a proposal reports the counts of an open room,
  one vote at least, exactly when no other close has closed the room between the
  caller's read of the room and its count, somebody live has a vote standing (the
  caller has, unless its last poll was set back), and the counts fit.
-/
import ChatBotChat.CloseRun

namespace ChatBotChat

open Interleave Lifecycle

variable {app : AppState} {c₀ c : Daemon} {new tr : List Step} {e : Step} {s : Store}
  {id inst handle : String} {state : RoomState} {p q : Participant} {i : ℕ} {room : Room}
  {now : OffsetDateTime} {participants : List Participant} {past newer : Log}
  {response : LifecycleResponse}

/-! ### What a proposal reports -/

/-- The call is the read of the room by request `i`. -/
def readsRoom (i : ℕ) (id : String) (e : Step) : Bool := e.tid = i && e.call = .getRoom id

/-- The room has been closed since request `i` read it. -/
def closedMeanwhile (i : ℕ) (id : String) (tr : List Step) : Bool :=
  since (readsRoom i id) (closesRoom id) tr

/-- Whom a call casts a close vote for, and when. -/
def Call.closeVote : Call → Option (String × OffsetDateTime)
  | .setCloseVote handle (some now) => some (handle, now)
  | _ => none

/-- The participant that request `i` has voted for is live at the instant of the vote. -/
def OwnVoteLive (i : ℕ) (tr : List Step) (s : Store) : Prop :=
  ∀ e ∈ tr, e.tid = i → ∀ vote ∈ e.call.closeVote, ∀ p ∈ s.db.participants,
    p.handle = vote.1 → livePoller vote.2 p = true

instance {tr : List Step} : Decidable (OwnVoteLive i tr s) :=
  inferInstanceAs (Decidable (∀ e ∈ tr, e.tid = i → ∀ vote ∈ e.call.closeVote,
    ∀ p ∈ s.db.participants, p.handle = vote.1 → livePoller vote.2 p = true))

/-- Somebody of the room who is live at `now` has a vote to close standing. -/
def LiveVote (id : String) (now : OffsetDateTime) (s : Store) : Prop :=
  ∃ p ∈ s.db.listParticipants id, p.wantsCloseAt.isSome = true ∧ livePoller now p = true

/-- A proposal whose counts were taken in `s`: it reports them, it lacks votes, it has
one, and the room is open. -/
structure Truthful (response : LifecycleResponse) (id : String) (now : OffsetDateTime) (s : Store) :
    Prop where
  counts : ∃ votes needed, response.votes = some votes ∧ response.needed = some needed ∧
    1 ≤ votes ∧ votes < needed ∧
      countVotes (s.db.listParticipants id) now .all = (votes.toNat, needed.toNat)
  notEnded : s.ended id = false

/-- A call of a request that has read its room, and not again. -/
theorem not_readsRoom {mid : List Step} (hlog : ∀ x ∈ pastOf i mid, x.1 ≠ .getRoom id) :
    ∀ e ∈ mid, readsRoom i id e = false := by
  intro e he
  rw [readsRoom, Bool.and_eq_false_iff, decide_eq_false_iff_not, decide_eq_false_iff_not]
  by_cases htid : e.tid = i
  · exact .inr (hlog _ (mem_pastOf.mpr ⟨e, he, htid, rfl⟩))
  · exact .inl htid

/-- The read of the room, the vote and the count of a close, in the run. -/
theorem Polled.cut {tr : List Step} (hpolled : Polled id inst room p now participants past)
    (hlog : pastOf i tr = newer ++ past) : ∃ late k mid g old,
      tr = late ++ k :: (mid ++ g :: old) ∧ k.tid = i ∧ g.tid = i ∧
        (⟨k.call, k.reply⟩ : Sigma Call.Reply) = ⟨.listParticipants id, participants⟩ ∧
        (⟨g.call, g.reply⟩ : Sigma Call.Reply) = ⟨.getRoom id, some room⟩ ∧
        (∀ e ∈ mid, readsRoom i id e = false) ∧
        ⟨.setCloseVote p.handle (some now), ()⟩ ∈ pastOf i mid := by
  cases hpolled with
  | @mk found hterm hfound =>
    obtain ⟨late, k, rest, rfl, hk, hcount, -, hrest⟩ := pastOf_split hlog
    have hread : pastOf i rest = (⟨.setCloseVote p.handle (some now), ()⟩ ::
        ⟨.touchLastPoll p.handle now, ()⟩ :: ⟨.nowUtc, now⟩ :: found) ++
          ⟨.getRoom id, some room⟩ :: [] := by
      rw [hrest]
      simp
    obtain ⟨mid, g, old, rfl, hg, hroom, hmid, -⟩ := pastOf_split hread
    refine ⟨late, k, mid, g, old, rfl, hk, hg, hcount, hroom, not_readsRoom ?_, ?_⟩
    · rw [hmid]
      cases hfound <;> simp
    · rw [hmid]
      exact List.mem_cons_self

/-- A live vote is one that counts. -/
theorem one_le_votes_iff : 1 ≤ (countVotes (s.db.listParticipants id) now .all).1 ↔
    LiveVote id now s := by
  rw [countVotes, Nat.one_le_iff_ne_zero, ← Nat.pos_iff_ne_zero, List.countP_pos_iff]
  simp only [Bool.and_eq_true]
  rfl

/-- The counts that are reported are the ones that were counted, where they fit. -/
theorem reported_counts_iff {votes needed : ℕ} (hlt : votes < needed) :
    ((1 : UInt32) ≤ UInt32.ofNat votes ∧ UInt32.ofNat votes < UInt32.ofNat needed ∧
      (votes, needed) = ((UInt32.ofNat votes).toNat, (UInt32.ofNat needed).toNat)) ↔
    1 ≤ votes ∧ needed < UInt32.size := by
  constructor
  · rintro ⟨hone, -, hsame⟩
    obtain ⟨hvotes, hneeded⟩ := Prod.mk.inj hsame
    rw [UInt32.le_iff_toNat_le, ← hvotes] at hone
    rw [hneeded]
    exact ⟨hone, UInt32.toNat_lt _⟩
  · rintro ⟨hone, hfits⟩
    have hvotes : (UInt32.ofNat votes).toNat = votes := UInt32.toNat_ofNat_of_lt' (hlt.trans hfits)
    have hneeded : (UInt32.ofNat needed).toNat = needed := UInt32.toNat_ofNat_of_lt' hfits
    rw [UInt32.le_iff_toNat_le, UInt32.lt_iff_toNat_lt, hvotes, hneeded]
    exact ⟨hone, hlt, rfl⟩

/-- **What a proposal reports**: its counts are those that were taken exactly when a
live vote was among them and they fit. -/
theorem truthful_iff {state : RoomState}
    (hlt : (countVotes (s.db.listParticipants id) now .all).1 <
      (countVotes (s.db.listParticipants id) now .all).2) :
    Truthful (proposedResponse state (countVotes (s.db.listParticipants id) now .all)) id now s ↔
      s.ended id = false ∧ LiveVote id now s ∧
        (s.db.listParticipants id).countP (livePoller now) < UInt32.size := by
  have hfits : (countVotes (s.db.listParticipants id) now .all).2 < UInt32.size ↔
      (s.db.listParticipants id).countP (livePoller now) < UInt32.size := by
    rw [countVotes, CloseQuorum.needed_all, max_lt_iff]
    exact and_iff_left (by decide)
  rw [← one_le_votes_iff, ← hfits, ← reported_counts_iff hlt]
  constructor
  · rintro ⟨⟨votes, needed, hvotes, hneeded, hcounts⟩, hopen⟩
    obtain rfl := Option.some_inj.mp hvotes
    obtain rfl := Option.some_inj.mp hneeded
    exact ⟨hopen, hcounts⟩
  · rintro ⟨hopen, hcounts⟩
    exact ⟨⟨_, _, rfl, rfl, hcounts⟩, hopen⟩

/-- The room that a close has read was open then, so that the run had not closed it. -/
theorem CloseRun.open_when_read (h : CloseRun app c₀ c new) {g : Step} {old : List Step}
    (hsuf : g :: old <:+ new)
    (hread : (⟨g.call, g.reply⟩ : Sigma Call.Reply) = ⟨.getRoom id, some room⟩)
    (hterm : room.state.terminal = false) :
    (g :: old).any (closesRoom id) = false ∧ c₀.shared.stateOf id = some room.state := by
  have hrec := h.reach.recorded (h.newcomers.suffix hsuf)
  obtain ⟨sess, hexec⟩ := hrec.exec
  have hhist := h.before hsuf
  obtain ⟨tid, call, reply, before, after⟩ := g
  cases hread
  obtain ⟨hstate, hsame⟩ := stateOf_of_getRoom hexec
  have hafter : after = before := hsame
  have hnow : closesRoom id ⟨tid, .getRoom id, some room, before, after⟩ = false := by
    simp [closesRoom, stateChange, hafter, hstate]
  have hold : old.any (closesRoom id) = false := by
    refine Bool.eq_false_iff.mpr fun hclosed => ?_
    have htrail := h.trail hhist ((List.suffix_cons _ _).trans hsuf) id
    rw [hclosed] at htrail
    have hcontra : room.state = .closed := Option.some_inj.mp (hstate.symm.trans htrail.1)
    rw [hcontra] at hterm
    cases hterm
  refine ⟨by rw [List.any_cons, hnow, hold]; rfl, ?_⟩
  rw [← h.stateOf_open hhist ((List.suffix_cons _ _).trans hsuf) hold]
  exact hstate

/-- A room that was open at first has ended exactly when the run has closed it. -/
theorem CloseRun.ended_eq (h : CloseRun app c₀ c new) (hsuf : e :: tr <:+ new)
    (hstate : c₀.shared.stateOf id = some state) (hterm : state.terminal = false) :
    e.before.ended id = tr.any (closesRoom id) := by
  have htrail := h.trail (h.before hsuf) ((List.suffix_cons _ _).trans hsuf) id
  cases hclosed : tr.any (closesRoom id) with
  | true =>
    rw [hclosed] at htrail
    rw [Store.ended, htrail.1]
    rfl
  | false =>
    rw [hclosed] at htrail
    rw [Store.ended, htrail.1, hstate, Option.any_some, hterm]

/-- Since the start it was closed exactly when it was closed since it was read. -/
theorem CloseRun.closed_eq_meanwhile (h : CloseRun app c₀ c new) {g : Step} {mid old : List Step}
    (hsuf : mid ++ g :: old <:+ new) (hg : g.tid = i)
    (hread : (⟨g.call, g.reply⟩ : Sigma Call.Reply) = ⟨.getRoom id, some room⟩)
    (hterm : room.state.terminal = false) (hmid : ∀ e ∈ mid, readsRoom i id e = false) :
    (mid ++ g :: old).any (closesRoom id) =
      closedMeanwhile i id (mid ++ g :: old ++ c₀.trace) := by
  obtain ⟨hclean, -⟩ := h.open_when_read ((List.suffix_append mid _).trans hsuf) hread hterm
  have hreset : readsRoom i id g = true := by
    obtain ⟨hcall, -⟩ := Sigma.mk.inj hread
    rw [readsRoom, hg, hcall]
    simp
  rw [List.any_append, hclean, Bool.or_false, closedMeanwhile, List.append_assoc, List.cons_append,
    since_append hmid hreset]

/-- The vote that the caller has cast is a live one where it counts, if the caller is live. -/
theorem CloseRun.liveVote (h : CloseRun app c₀ c new)
    (hpolled : Polled id inst room p now participants past) (hlog : pastOf i new = newer ++ past)
    (hsuf : e :: tr <:+ new) (hvoted : ⟨.setCloseVote p.handle (some now), ()⟩ ∈ pastOf i tr)
    (hclear : ∀ x ∈ tr, x.call ≠ .clearCloseVotes id)
    (hlive : OwnVoteLive i (tr ++ c₀.trace) e.before) : LiveVote id now e.before := by
  obtain ⟨q₀, -, hq₀, hkey₀, hroom⟩ := h.voter hpolled hlog
  obtain ⟨q, hq, hkey, hvote⟩ :=
    h.own_vote hsuf hvoted ⟨q₀, hq₀, hkey₀⟩ fun x hx => hroom ▸ hclear x hx
  have hrow : q ∈ e.before.db.listParticipants id :=
    mem_listParticipants.mpr ⟨hq, (Participant.roomId_of_key hkey).trans hroom⟩
  obtain ⟨v, hv, hvtid, hcast⟩ := mem_pastOf.mp hvoted
  refine ⟨q, hrow, hvote, hlive v (List.mem_append_left _ hv) hvtid (p.handle, now) ?_ q hq
    (Participant.handle_of_key hkey)⟩
  rw [(Sigma.mk.inj hcast).1]
  rfl

/-- **A proposal tells the truth unless the room was closed meanwhile.**  In a run of
closes without force, of any number and of any rooms, whatever is answered
`close_proposed` reports the votes of a count `k`.  It reports between one vote and
all but one that are needed, as they were counted, of a room that was open, exactly
when no other close has closed the room between the caller's read of it and its
count, somebody live has a vote standing then, and fewer than 2 ^ 32 are live; and
the vote of the caller is such a one, where the caller is live. -/
theorem close_proposed_truthful_iff (h₀ : Reachable app c₀)
    (hrun : (daemon app).RunWith (System.Only (·.consensusClose = true) c₀.threads.length) c₀ c)
    (hi : c₀.threads.length ≤ i) {r : LifecycleRequest}
    (hreq : c.threads[i]?.map Thread.req = some (.closeRoom id r))
    (hanswer : c.threads[i]?.bind Thread.returned = some (.ok (.closed response)))
    (hproposed : response.status = some "close_proposed") :
    ∃ k older handle now, k :: older <:+ c.trace ∧ k.tid = i ∧ k.call = .listParticipants id ∧
      ⟨.setCloseVote handle (some now), ()⟩ ∈ pastOf i older ∧
      (∃ state, response = proposedResponse state
        (countVotes (k.before.db.listParticipants id) now .all)) ∧
      (Truthful response id now k.before ↔
        closedMeanwhile i id older = false ∧ LiveVote id now k.before ∧
          (k.before.db.listParticipants id).countP (livePoller now) < UInt32.size) ∧
      (OwnVoteLive i older k.before → closedMeanwhile i id older = false →
        LiveVote id now k.before) := by
  obtain ⟨new, hnew, -⟩ := hrun.history
  have h : CloseRun app c₀ c new := ⟨h₀, hrun.run, hrun.newcomers new hnew⟩
  obtain ⟨t, ht, hclose, hconclusion⟩ :=
    h.newcomers.returned h₀.orderly h.reach.closing hi hanswer
  rw [ht] at hreq
  obtain hreq := Option.some_inj.mp hreq
  have hforce : r.force = false := by
    rw [hreq] at hclose
    simpa [Request.consensusClose] using hclose
  obtain ⟨answer, heq, hanswered⟩ := hconclusion id r hreq hforce
  generalize hlog : pastOf i new = past at hanswered
  cases hanswered with
  | missing | terminal _ | stranger | vanished _ | contested _ _ => cases heq
  | closed _ | overtaken _ _ =>
    obtain rfl : response = closedResponse := by simpa [Except.map] using heq
    exact absurd hproposed (by decide)
  | @proposed room p now participants past hpolled hlt =>
    obtain rfl : response = proposedResponse room.state
      (countVotes participants now room.config.closeQuorum) := by simpa [Except.map] using heq
    have hquorum : room.config.closeQuorum = .all := by
      have hread : ⟨.getRoom id, some room⟩ ∈ pastOf i c.trace := by
        rw [hnew, pastOf_append, hlog]
        cases hpolled
        simp
      exact h.reach.read_quorum hread
    rw [hquorum] at hlt ⊢
    obtain ⟨late, k, mid, g, old, rfl, hk, hg, hcount, hread, hmid, hvoted⟩ :=
      hpolled.cut (show pastOf i new = [⟨.notify id, ()⟩] ++ past from hlog)
    have hsuf : k :: (mid ++ g :: old) <:+ late ++ k :: (mid ++ g :: old) :=
      List.suffix_append late _
    have hbehind : mid ++ g :: old <:+ late ++ k :: (mid ++ g :: old) :=
      (List.suffix_cons _ _).trans hsuf
    -- the count is of the participants there were
    have hsuf' := h.newcomers.suffix hsuf
    obtain ⟨sess, hexec⟩ := (h.reach.recorded hsuf').exec
    obtain ⟨hclean, hstate⟩ :=
      h.open_when_read ((List.suffix_append mid _).trans hbehind) hread hpolled.notTerminal
    have hmeanwhile := h.closed_eq_meanwhile hbehind hg hread hpolled.notTerminal hmid
    have hended := (h.ended_eq hsuf hstate hpolled.notTerminal).trans hmeanwhile
    have hown : ⟨.setCloseVote p.handle (some now), ()⟩ ∈ pastOf i (mid ++ g :: old) := by
      rw [pastOf_append]
      exact List.mem_append_left _ hvoted
    have hown' : ⟨.setCloseVote p.handle (some now), ()⟩ ∈
        pastOf i (mid ++ g :: old ++ c₀.trace) := by
      rw [pastOf_append]
      exact List.mem_append_left _ hown
    obtain ⟨tid, call, reply, before, after⟩ := k
    cases hcount
    have hrows : before.db.listParticipants id = reply := (done_of_read hexec).1
    subst hrows
    refine ⟨_, _, p.handle, now, hsuf', hk, rfl, hown', ⟨room.state, rfl⟩, ?_, fun hlive hopen => ?_⟩
    · rw [truthful_iff hlt, hended]
    · exact h.liveVote hpolled (show pastOf i _ = [⟨.notify id, ()⟩] ++ past from hlog) hsuf hown
        (h.not_clear hbehind hstate hpolled.notTerminal (hmeanwhile.trans hopen)) hlive

/-- Alice and bob are in the room. -/
def assembled : Daemon := demo (gather none [alice, bob])

/-- Alice closes. -/
def lonelyClose : List Action :=
  .start (.closeRoom demoRoom ⟨alice, none, false⟩) :: steps 3 40

/-- One vote of two, of a room that is open. -/
def oneOfTwo : LifecycleResponse := ⟨"active", some "close_proposed", some 1, some 2⟩

theorem close_proposed_truthful_iff_lonely : ∃ k older now,
    k :: older <:+ (play .default lonelyClose assembled).trace ∧ k.tid = 3 ∧
      Truthful oneOfTwo demoRoom now k.before := by
  have hdemo : (∀ a ∈ lonelyClose,
        System.Only (·.consensusClose = true) assembled.threads.length assembled a) ∧
      3 = assembled.threads.length ∧
      (play .default lonelyClose assembled).threads[3]?.map Thread.req =
        some (.closeRoom demoRoom ⟨alice, none, false⟩) ∧
      (play .default lonelyClose assembled).threads[3]?.bind Thread.returned =
        some (.ok (.closed oneOfTwo)) ∧
      (play .default lonelyClose assembled).trace.tails.all (fun l => l.head?.all fun k =>
        !decide (k.tid = 3 ∧ k.call = .listParticipants demoRoom) ||
          (OwnVoteLive 3 l.tail k.before &&
            decide ((k.before.db.listParticipants demoRoom).length < UInt32.size) &&
            !closedMeanwhile 3 demoRoom l.tail)) = true := by
    decide +kernel
  obtain ⟨hmoves, hlength, hreq, hanswer, hall⟩ := hdemo
  obtain ⟨k, older, handle, now, hsuf, hk, hcall, -, -, hiff, hown⟩ :=
    close_proposed_truthful_iff (reachable_demo _) (runWith_only hmoves) hlength.ge hreq hanswer rfl
  have hcount := List.all_eq_true.mp hall (k :: older) ((List.mem_tails _ _).mpr hsuf)
  simp only [List.head?_cons, Option.all_some, hk, hcall, List.tail_cons, and_self, decide_true,
    Bool.not_true, Bool.false_or, Bool.and_eq_true, decide_eq_true_eq, Bool.not_eq_true'] at hcount
  obtain ⟨⟨hlive, hfew⟩, hopen⟩ := hcount
  exact ⟨k, older, now, hsuf, hk, hiff.mpr
    ⟨hopen, hown (of_decide_eq_true hlive) hopen, List.countP_le_length.trans_lt hfew⟩⟩

/-- Alice has voted; bob votes, counts, closes and clears the votes; alice goes on. -/
def hollowProposal : List Action :=
  .start (.closeRoom demoRoom ⟨alice, none, false⟩) :: (steps 3 5 ++
    .start (.closeRoom demoRoom ⟨bob, none, false⟩) :: (steps 4 40 ++ steps 3 40))

/-- Alice is told that none of two votes has been cast, in a room that is closed. -/
theorem not_close_proposed_truthful :
    ¬ ∀ (app : AppState) (c₀ c : Daemon) (i : ℕ) (id : String) (r : LifecycleRequest)
      (response : LifecycleResponse), Reachable app c₀ →
      (daemon app).RunWith (System.Only (·.consensusClose = true) c₀.threads.length) c₀ c →
      c₀.threads.length ≤ i → c.threads[i]?.map Thread.req = some (.closeRoom id r) →
      c.threads[i]?.bind Thread.returned = some (.ok (.closed response)) →
      response.status = some "close_proposed" →
        ∃ k older, k :: older <:+ c.trace ∧ k.tid = i ∧ k.call = .listParticipants id ∧
          (∃ votes needed, response.votes = some votes ∧ response.needed = some needed ∧
            1 ≤ votes ∧ votes < needed) ∧ k.before.ended id = false := by
  intro h
  have hdemo : (∀ a ∈ hollowProposal,
        System.Only (·.consensusClose = true) assembled.threads.length assembled a) ∧
      3 = assembled.threads.length ∧
      (play .default hollowProposal assembled).threads[3]?.map Thread.req =
        some (.closeRoom demoRoom ⟨alice, none, false⟩) ∧
      (play .default hollowProposal assembled).threads[3]?.bind Thread.returned =
        some (.ok (.closed ⟨"active", some "close_proposed", some 0, some 2⟩)) := by
    decide +kernel
  obtain ⟨hmoves, hlength, hreq, hanswer⟩ := hdemo
  obtain ⟨k, older, -, -, -, ⟨votes, needed, hvotes, -, hone, -⟩, -⟩ :=
    h _ _ _ 3 demoRoom _ _ (reachable_demo _) (runWith_only hmoves) hlength.ge hreq hanswer rfl
  obtain rfl : 0 = votes := Option.some_inj.mp hvotes
  exact absurd hone (by decide)

end ChatBotChat
