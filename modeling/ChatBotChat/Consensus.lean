/-
Closing by consensus.

A close records its vote, counts the votes and changes the state in three calls.
What it counted can be out of date when the state changes: participants join,
return, or withdraw their votes in between, and the message that withdraws a
vote lands one call before the vote is withdrawn.

* `consensus_close_iff` — at the instant a close without force changes the state,
  the live participants agree exactly when none of them is in such a gap.
-/
import ChatBotChat.Audit
import ChatBotChat.Cursors
import ChatBotChat.Extension

namespace ChatBotChat

open Interleave

variable {s s' : Store} {sess : List UInt16} {c : Call} {r : c.Reply} {app : AppState}
  {id handle : String} {tr older : List Step} {e : Step} {p : Participant}

/-! ### Votes -/

namespace Call

/-- The call casts the close vote of `handle`. -/
def castsClose (handle : String) : Call → Bool
  | .setCloseVote handle' (some _) => handle = handle'
  | _ => false

/-- The call takes the close vote of `handle`, a participant of the room, away. -/
def dropsClose (id handle : String) : Call → Bool
  | .setCloseVote handle' none => handle = handle'
  | .clearCloseVotes id' => id = id'
  | _ => false

/-- The call casts the close vote of `handle`, or withdraws it after a message. -/
def writesClose (handle : String) : Call → Bool
  | .setCloseVote handle' _ => handle = handle'
  | _ => false

/-- The call shows that `handle` is live. -/
def polls (handle : String) : Call → Bool
  | .touchLastPoll handle' _ => handle = handle'
  | .tryExtend _ voter _ _ _ _ => handle = voter
  | _ => false

theorem writesClose_of_casts {handle : String} {c : Call} (h : c.castsClose handle = true) :
    c.writesClose handle = true := by
  cases c
  case setCloseVote handle' at_ =>
    cases at_ with
    | none => cases h
    | some now => exact h
  all_goals cases h

end Call

/-- A conversation message of `handle` landed in the room. -/
def messages (id handle : String) (e : Step) : Bool :=
  (e.call.landed e.reply).any fun m => m.roomId = id && m.sender = handle && m.msgType = .msg

/-- The call leaves `handle` in the room without a vote that is still to come: it
joined, its vote was taken away, or it was polled and had none. -/
def unsettles (id handle : String) (e : Step) : Bool :=
  (e.call.joined e.reply).any (·.handle = handle) || e.call.dropsClose id handle ||
    (e.call.polls handle &&
      e.before.db.participants.any fun q => q.handle = handle && q.wantsCloseAt.isNone)

/-- `handle` joined, lost its vote or was polled without one, and has not voted
since. -/
def unsettled (id handle : String) (tr : List Step) : Bool :=
  since (fun e => e.call.castsClose handle) (unsettles id handle) tr

/-- `handle` has sent a message since it voted. -/
def messagedSinceVote (id handle : String) (tr : List Step) : Bool :=
  since (fun e => e.call.castsClose handle) (messages id handle) tr

/-- A message of `handle` has landed, and the send has not withdrawn its vote yet. -/
def retracting (id handle : String) (tr : List Step) : Bool :=
  since (fun e => e.call.writesClose handle) (messages id handle) tr

/-- The vote of a participant stands: it is set, and its owner has sent nothing
since it was cast. -/
def standing (id : String) (tr : List Step) (p : Participant) : Bool :=
  p.wantsCloseAt.isSome && !messagedSinceVote id p.handle tr

/-- The close quorum of a room. -/
def quorumOf (s : Store) (id : String) : CloseQuorum :=
  ((s.db.roomRow id).bind fun row => row.config.closeQuorum).getD .all

/-- As many live participants of the room have a standing vote as its quorum needs. -/
def Agreed (id : String) (tr : List Step) (s : Store) : Prop :=
  (quorumOf s id).needed ((s.db.listParticipants id).countP (livePoller s.utc)) ≤
    (s.db.listParticipants id).countP fun p => livePoller s.utc p && standing id tr p

instance : Decidable (Agreed id tr s) := inferInstanceAs (Decidable (_ ≤ _))

/-! ### What a call does to a vote -/

theorem castsClose_spec (h : c.castsClose p.handle = true) :
    (c.onParticipant r p).wantsCloseAt.isSome = true := by
  cases c
  case setCloseVote handle' at_ =>
    cases at_ with
    | none => cases h
    | some now =>
      have heq : p.handle = handle' := by simpa [Call.castsClose] using h
      simp [Call.onParticipant, heq]
  all_goals cases h

theorem dropsClose_spec (h : c.dropsClose p.roomId p.handle = true) :
    (c.onParticipant r p).wantsCloseAt.isSome = false := by
  cases c
  case setCloseVote handle' at_ =>
    cases at_ with
    | none =>
      have heq : p.handle = handle' := by simpa [Call.dropsClose] using h
      simp [Call.onParticipant, heq]
    | some now => cases h
  case clearCloseVotes id' =>
    have heq : p.roomId = id' := by simpa [Call.dropsClose] using h
    simp [Call.onParticipant, heq]
  all_goals cases h

/-- Any other call leaves the vote alone. -/
theorem wantsCloseAt_kept (hcast : c.castsClose p.handle = false)
    (hdrop : c.dropsClose p.roomId p.handle = false) :
    (c.onParticipant r p).wantsCloseAt = p.wantsCloseAt := by
  cases c
  case setCloseVote handle' at_ =>
    have hne : ¬ p.handle = handle' := by
      cases at_ with
      | none => simpa [Call.dropsClose] using hdrop
      | some now => simpa [Call.castsClose] using hcast
    simp [Call.onParticipant, hne]
  case clearCloseVotes id' =>
    have hne : ¬ p.roomId = id' := by simpa [Call.dropsClose] using hdrop
    simp [Call.onParticipant, hne]
  case tryExtend =>
    cases r <;> simp only [Call.onParticipant] <;> split_ifs <;> rfl
  all_goals
    simp only [Call.onParticipant]
    try split
  all_goals rfl

/-- A call that does not poll leaves the last poll alone. -/
theorem lastPollAt_kept (hpolls : c.polls p.handle = false) :
    (c.onParticipant r p).lastPollAt = p.lastPollAt := by
  cases c
  case touchLastPoll handle' now =>
    have hne : ¬ p.handle = handle' := by simpa [Call.polls] using hpolls
    simp [Call.onParticipant, hne]
  case tryExtend id voter step now cutoff quorum =>
    have hne : ¬ p.handle = voter := by simpa [Call.polls] using hpolls
    cases r with
    | extended cap =>
      simp only [Call.onParticipant, if_neg hne]
      split <;> rfl
    | proposed votes needed => simp only [Call.onParticipant, if_neg hne]
  all_goals
    simp only [Call.onParticipant]
    try split
  all_goals rfl

/-- A participant joins without a vote, under a handle that is free, and its call
casts none. -/
theorem Recorded.joined_close {c : Daemon} (h : Recorded app c e tr)
    (hp : e.call.joined e.reply = some p) :
    p.wantsCloseAt = none ∧ (∀ q ∈ e.before.db.participants, q.handle ≠ p.handle) ∧
      e.call.castsClose p.handle = false := by
  obtain ⟨t, -, hd⟩ := h.disciplined
  obtain ⟨sess, hexec⟩ := h.exec
  have hfree := fun q hq => ((joined_spec hexec hp).2 q hq).1
  refine ⟨?_, hfree, ?_⟩
  · obtain ⟨tid, call, reply, before, after⟩ := e
    cases call
    case createParticipant p' =>
      cases reply
      · obtain rfl := Option.some_inj.mp hp
        exact hd.2.1
      · cases hp
    all_goals cases hp
  · cases hcall : e.call
    case setCloseVote =>
      obtain ⟨tid, call, reply, before, after⟩ := e
      cases hcall
      cases hp
    all_goals rfl

/-! ### Votes and messages -/

/-- A vote whose owner has sent a message since is about to be withdrawn. -/
def VotesFresh (tr : List Step) (s : Store) : Prop :=
  ∀ p ∈ s.db.participants, p.wantsCloseAt.isSome = true →
    messagedSinceVote p.roomId p.handle tr = true → retracting p.roomId p.handle tr = true

theorem writesClose_eq_false (hcast : c.castsClose handle = false)
    (hdrop : c.dropsClose id handle = false) : c.writesClose handle = false := by
  cases c
  case setCloseVote handle' at_ =>
    cases at_ with
    | none => exact hdrop
    | some now => exact hcast
  all_goals rfl

theorem VotesFresh.call {c : Daemon} (h : Recorded app c e tr) (hfresh : VotesFresh tr e.before) :
    VotesFresh (e :: tr) e.after := by
  intro p' hp' hvote hmessaged
  rcases h.effect.mem_participants.mp hp' with ⟨p, hp, -, rfl⟩ | hjoined
  · rw [Call.onParticipant_roomId, Call.onParticipant_handle] at hmessaged ⊢
    rw [messagedSinceVote, since, Bool.and_eq_true, Bool.not_eq_true', Bool.or_eq_true] at hmessaged
    obtain ⟨hcast, hmessaged⟩ := hmessaged
    have hdrop : e.call.dropsClose p.roomId p.handle = false := by
      refine Bool.eq_false_iff.mpr fun hdrop => ?_
      rw [dropsClose_spec hdrop] at hvote
      cases hvote
    rw [wantsCloseAt_kept hcast hdrop] at hvote
    rw [retracting, since, Bool.and_eq_true, Bool.not_eq_true', Bool.or_eq_true]
    exact ⟨writesClose_eq_false hcast hdrop, hmessaged.imp_right (hfresh p hp hvote)⟩
  · rw [(h.joined_close hjoined).1] at hvote
    cases hvote

theorem Reachable.votesFresh {c : Daemon} (h : Reachable app c) : Throughout c VotesFresh := by
  refine h.induction ?_ ?_ ?_
  · rintro s₀ ⟨hdb, -⟩
    simp [VotesFresh, hdb, Db.empty]
  · intro tr s₁ s₂ hdb _ _ _ hfresh
    rwa [VotesFresh, hdb]
  · intro e tr hrec hfresh
    exact hfresh.call hrec

/-- A vote that is set stands unless its owner's send is about to withdraw it. -/
theorem standing_iff (hfresh : VotesFresh tr s) (hp : p ∈ s.db.participants) :
    standing p.roomId tr p = true ↔
      p.wantsCloseAt.isSome = true ∧ retracting p.roomId p.handle tr = false := by
  rw [standing, Bool.and_eq_true, Bool.not_eq_true']
  refine and_congr_right fun hvote => ⟨fun hnone => ?_, fun hnone => ?_⟩
  · -- a vote is a write, so that fewer messages follow the last write
    refine Bool.eq_false_iff.mpr fun hretracting => ?_
    have hmessaged : messagedSinceVote p.roomId p.handle tr = true :=
      since_mono (fun _ hx => Call.writesClose_of_casts hx) hretracting
    rw [hnone] at hmessaged
    cases hmessaged
  · refine Bool.eq_false_iff.mpr fun hmessaged => ?_
    rw [hfresh p hp hvote hmessaged] at hnone
    cases hnone

/-! ### Since the count -/

/-- Since a count at `now` that everybody live had voted in: who has a vote is
settled, and who is settled and was live then has a vote. -/
def Settling (id : String) (now : OffsetDateTime) (tr : List Step) (s : Store) : Prop :=
  ∀ p ∈ s.db.participants, p.roomId = id →
    (p.wantsCloseAt.isSome = true → unsettled id p.handle tr = false) ∧
      (unsettled id p.handle tr = false → livePoller now p = true → p.wantsCloseAt.isSome = true)

/-- What becomes of a participant's standing with one more call. -/
theorem unsettled_cons : unsettled id handle (e :: tr) = false ↔
    e.call.castsClose handle = true ∨
      unsettles id handle e = false ∧ unsettled id handle tr = false := by
  rw [unsettled, since, Bool.and_eq_false_iff, Bool.not_eq_false', Bool.or_eq_false_iff]
  rfl

theorem Settling.call {c : Daemon} {now : OffsetDateTime} (h : Recorded app c e older)
    (hsettling : Settling id now tr e.before) : Settling id now (e :: tr) e.after := by
  intro p' hp' hroom
  rw [unsettled_cons]
  rcases h.effect.mem_participants.mp hp' with ⟨p, hp, -, rfl⟩ | hjoined
  · rw [Call.onParticipant_roomId] at hroom
    rw [Call.onParticipant_handle]
    obtain ⟨hvoted, hlive⟩ := hsettling p hp hroom
    subst hroom
    by_cases hcast : e.call.castsClose p.handle = true
    · exact ⟨fun _ => .inl hcast, fun _ _ => castsClose_spec hcast⟩
    · rw [Bool.not_eq_true] at hcast
      constructor
      · intro hvote
        have hdrop : e.call.dropsClose p.roomId p.handle = false := by
          refine Bool.eq_false_iff.mpr fun hdrop => ?_
          rw [dropsClose_spec hdrop] at hvote
          cases hvote
        rw [wantsCloseAt_kept hcast hdrop] at hvote
        refine .inr ⟨?_, hvoted hvote⟩
        rw [unsettles, hdrop, Bool.or_false, Bool.or_eq_false_iff]
        constructor
        · -- nobody joins under a handle that is taken
          rw [Option.any_eq_false]
          intro q hq
          have hne := (h.joined_close hq).2.1 p hp
          simpa using hne.symm
        · rw [Bool.and_eq_false_iff, List.any_eq_false]
          refine .inr fun q hq hmatch => ?_
          rw [Bool.and_eq_true, decide_eq_true_eq] at hmatch
          obtain rfl := h.wellFormed_before.participant_unique hq hp hmatch.1
          rw [Option.isNone_iff_eq_none.mp hmatch.2] at hvote
          cases hvote
      · rintro (hcast' | ⟨hsettled, holder⟩) hlive'
        · rw [hcast] at hcast'
          cases hcast'
        rw [unsettles, Bool.or_eq_false_iff, Bool.or_eq_false_iff] at hsettled
        obtain ⟨⟨-, hdrop⟩, hpolled⟩ := hsettled
        rw [wantsCloseAt_kept hcast hdrop]
        by_cases hpolls : e.call.polls p.handle = true
        · -- whoever was polled had a vote
          rw [hpolls, Bool.true_and, List.any_eq_false] at hpolled
          have hsome := hpolled p hp
          simpa [Option.isNone_iff_eq_none, Option.isSome_iff_ne_none] using hsome
        · rw [Bool.not_eq_true] at hpolls
          rw [livePoller, lastPollAt_kept hpolls] at hlive'
          exact hlive holder hlive'
  · obtain ⟨hnone, -, hcast⟩ := h.joined_close hjoined
    constructor
    · intro hvote
      rw [hnone] at hvote
      cases hvote
    · rintro (hcast' | ⟨hsettled, -⟩) -
      · rw [hcast] at hcast'
        cases hcast'
      · simp [unsettles, hjoined] at hsettled

/-- A count that reaches the quorum of all: somebody is live, and everybody who is
has voted. -/
theorem countVotes_all {rows : List Participant} {now : OffsetDateTime} :
    (countVotes rows now .all).2 ≤ (countVotes rows now .all).1 ↔
      (∃ p ∈ rows, livePoller now p = true) ∧
        ∀ p ∈ rows, livePoller now p = true → p.wantsCloseAt.isSome = true := by
  rw [← CloseQuorum.needed_all_le_votes]
  simp only [countVotes, Bool.and_comm]

/-! ### The change of state -/

/-- What has been recorded since the last call of request `i`. -/
def sinceLastCall (i : ℕ) (tr : List Step) : List Step := tr.takeWhile (·.tid ≠ i)

theorem sinceLastCall_eq {i : ℕ} {k : Step} {mid : List Step} (hmid : pastOf i mid = [])
    (hk : k.tid = i) : sinceLastCall i (mid ++ k :: older) = mid := by
  have hother : ∀ x ∈ mid, decide (x.tid ≠ i) = true := by
    intro x hx
    rw [decide_eq_true_eq]
    intro hi
    have hmem := mem_pastOf.mpr ⟨x, hx, hi, rfl⟩
    rw [hmid] at hmem
    cases hmem
  rw [sinceLastCall, List.takeWhile_append_of_pos hother, List.takeWhile_cons_of_neg (by simp [hk]),
    List.append_nil]

/-- Only a transition changes the state of a room. -/
theorem call_of_stateChange {a b : RoomState} (hwf : e.before.db.WellFormed)
    (h : Store.exec sess e.call e.before = .done e.reply e.after)
    (hchange : stateChange id e = some (a, b)) :
    ∃ from_ now detail, e.call = .updateRoomState id from_ b now detail := by
  unfold stateChange at hchange
  split at hchange
  · rename_i a' b' ha hb
    split_ifs at hchange with hne
    cases hchange
    obtain ⟨row, hrow, rfl⟩ := Option.map_eq_some_iff.mp ha
    obtain ⟨hmem, rfl⟩ := Db.mem_of_roomRow hrow
    have hmem' := (effect_of_exec h).mem_rooms.mpr (.inl ⟨row, hmem, rfl⟩)
    have hafter := stateOf_of_mem (hwf.exec h) hmem'
    rw [Call.onRoom_id, Call.onRoom_state, hb] at hafter
    obtain ⟨tid, call, reply, before, after⟩ := e
    cases call
    case updateRoomState id' from_ to_ now detail =>
      cases reply
      · exact absurd (Option.some_inj.mp hafter).symm hne
      · simp only [Call.nextState] at hafter
        split at hafter
        · rename_i hmatch
          rw [Bool.and_eq_true, decide_eq_true_eq] at hmatch
          obtain rfl := Option.some_inj.mp hafter
          exact ⟨from_, now, detail, by rw [hmatch.1]⟩
        · exact absurd (Option.some_inj.mp hafter).symm hne
    all_goals exact absurd (Option.some_inj.mp hafter).symm hne
  · cases hchange

/-- A close without force changes the state of the room to closed. -/
def ClosesByConsensus (c : Daemon) (id : String) (e : Step) : Prop :=
  (c.threads[e.tid]?.map fun t => t.req.consensusClose) = some true ∧
    (stateChange id e).map Prod.snd = some .closed

instance {c : Daemon} : Decidable (ClosesByConsensus c id e) := inferInstanceAs (Decidable (_ ∧ _))

theorem livePoller_earlier {now now' : OffsetDateTime} (hle : now ≤ now')
    (h : livePoller now' p = true) : livePoller now p = true := by
  unfold livePoller at *
  rw [decide_eq_true_eq] at *
  exact le_trans (Int.sub_le_sub_right hle _) h

theorem quorumOf_all (hall : AllQuorum s) : quorumOf s id = .all := by
  unfold quorumOf
  cases hrow : s.db.roomRow id with
  | none => rfl
  | some row => rw [Option.bind_some, hall row (Db.mem_of_roomRow hrow).1, Option.getD_some]

/-- The quorum of a room that was read is that of all. -/
theorem Reachable.read_quorum {c : Daemon} (h : Reachable app c) {i : ℕ} {room : Room}
    (hread : ⟨.getRoom id, some room⟩ ∈ pastOf i c.trace) : room.config.closeQuorum = .all := by
  obtain ⟨s₀, -, hist⟩ := h.history
  obtain ⟨row, hrow, -, -, -, hquorum⟩ := hist.seenRoom hread
  rw [hquorum, h.extendInvariant.now.quorum row hrow, Option.getD_some]

/-- **Consensus close is safe where nothing came in between.**  Whenever a close
without force changes the state of a room to closed, the live participants agree
exactly when somebody is live; nobody live has, since the votes were counted,
joined, lost its vote or been polled without one, unless it has voted after that;
and no send of somebody live has landed its message but not yet withdrawn the
vote. -/
theorem consensus_close_iff {c : Daemon} (h : Reachable app c) (hsuf : e :: older <:+ c.trace)
    (hclose : ClosesByConsensus c id e) :
    Agreed id older e.before ↔
      (∃ p ∈ e.before.db.listParticipants id, livePoller e.before.utc p = true) ∧
      ∀ p ∈ e.before.db.listParticipants id, livePoller e.before.utc p = true →
        unsettled id p.handle (sinceLastCall e.tid older) = false ∧
          retracting id p.handle older = false := by
  obtain ⟨hreq, hflip⟩ := hclose
  obtain ⟨⟨_, _⟩, hflip, rfl⟩ := Option.map_eq_some_iff.mp hflip
  have hrec := h.recorded hsuf
  obtain ⟨sess, hexec⟩ := hrec.exec
  obtain ⟨from_, now, detail, hcall⟩ := call_of_stateChange hrec.wellFormed_before hexec hflip
  obtain ⟨t, ht, hd⟩ := hrec.disciplined
  rw [ht] at hreq
  rw [hcall] at hd
  have hcounted : Counted id from_ now (pastOf e.tid older) := hd.2.2.2 (Option.some_inj.mp hreq)
  -- the count, and what came between it and the change of state
  generalize hlog : pastOf e.tid older = past at hcounted
  obtain @⟨_, room, handle, participants, hroom, -, -, hvotes⟩ := hcounted
  obtain ⟨mid, k, rest, rfl, hk, hlist, hmid, hpast⟩ :=
    pastOf_split (show pastOf e.tid older = [] ++ _ from hlog)
  have hsuf' : k :: rest <:+ c.trace :=
    ((List.suffix_append mid _).trans (List.suffix_cons e _)).trans hsuf
  have hrec' := h.recorded hsuf'
  have hsettling : Settling id now mid e.before := by
    refine h.induction_since ((List.suffix_cons e _).trans hsuf) (h.history_between hsuf) ?_ ?_ ?_
    · have hquorum : room.config.closeQuorum = .all := by
        obtain ⟨newer, htr⟩ := (List.suffix_cons k rest).trans hsuf'
        have hread : ⟨.getRoom id, some room⟩ ∈ pastOf e.tid c.trace := by
          rw [← htr, pastOf_append, hpast]
          simp [hroom]
        exact h.read_quorum hread
      rw [hquorum, countVotes_all] at hvotes
      obtain ⟨sess', hexec'⟩ := hrec'.exec
      obtain ⟨tid, call, reply, before, after⟩ := k
      cases hlist
      have hread : before.db.listParticipants id = reply := (done_of_read hexec').1
      have hafter : after = before := (done_of_read hexec').2
      intro p hp hid
      have hrow : p ∈ reply := by
        rw [← hread, mem_listParticipants]
        exact ⟨hafter ▸ hp, hid⟩
      exact ⟨fun _ => rfl, fun _ => hvotes.2 p hrow⟩
    · intro tr s₁ s₂ hdb _ _ _ hsettling
      rwa [Settling, hdb]
    · intro e' tr _ hrec' hsettling
      exact hsettling.call hrec'
  have hle : now ≤ e.before.utc := hrec.utc_read_le (i := e.tid) (by
    rw [hlog]
    simp)
  have hfresh : VotesFresh _ e.before := h.votesFresh.before hsuf
  rw [sinceLastCall_eq hmid hk, Agreed, quorumOf_all (h.extendInvariant.before hsuf).quorum,
    CloseQuorum.needed_all_le_votes]
  refine and_congr_right fun _ => forall_congr' fun p => forall_congr' fun hmem =>
    forall_congr' fun hlive => ?_
  obtain ⟨hp, rfl⟩ := mem_listParticipants.mp hmem
  obtain ⟨hvoted, hsettled⟩ := hsettling p hp rfl
  rw [standing_iff hfresh hp]
  exact and_congr_left fun _ => ⟨hvoted, fun hnone => hsettled hnone (livePoller_earlier hle hlive)⟩

/-- Alice and bob close their room one after the other. -/
def bothClose : List Request := gather none [alice, bob] ++
  [.closeRoom demoRoom ⟨alice, none, false⟩, .closeRoom demoRoom ⟨bob, none, false⟩]

theorem consensus_close_iff_both : ∃ e older, e :: older <:+ (demo bothClose).trace ∧
    ClosesByConsensus (demo bothClose) demoRoom e ∧ e.tid = 4 ∧
    (e.before.db.listParticipants demoRoom).length = 2 ∧ Agreed demoRoom older e.before := by
  have hflip : ∃ l ∈ (demo bothClose).trace.tails, l.head?.any (fun e =>
      ClosesByConsensus (demo bothClose) demoRoom e && (e.tid = 4 &&
        (e.before.db.listParticipants demoRoom).length = 2) &&
        (e.before.db.listParticipants demoRoom).any (livePoller e.before.utc) &&
        (e.before.db.listParticipants demoRoom).all fun p =>
          !unsettled demoRoom p.handle (sinceLastCall e.tid l.tail) &&
            !retracting demoRoom p.handle l.tail) = true := by
    decide +kernel
  obtain ⟨_ | ⟨e, older⟩, hsuf, hmatch⟩ := hflip
  · cases hmatch
  rw [List.mem_tails] at hsuf
  simp only [List.head?_cons, Option.any_some, List.tail_cons, Bool.and_eq_true, decide_eq_true_eq,
    List.any_eq_true, List.all_eq_true, Bool.not_eq_true'] at hmatch
  obtain ⟨⟨⟨hclose, htid, htwo⟩, hlive⟩, hquiet⟩ := hmatch
  exact ⟨e, older, hsuf, hclose, htid, htwo,
    (consensus_close_iff (reachable_demo _) hsuf hclose).mpr ⟨hlive, fun p hp _ => hquiet p hp⟩⟩

/-- Alice has voted to close; bob votes and counts two votes of two; alice writes
again; bob goes on. -/
def dissent : Daemon :=
  play .default (.start (.closeRoom demoRoom ⟨bob, none, false⟩) :: (steps 4 6 ++
      .start (.sendMessage demoRoom ⟨alice, none, "wait", false⟩) :: (steps 5 40 ++ steps 4 40)))
    (demo (gather none [alice, bob] ++ [.closeRoom demoRoom ⟨alice, none, false⟩]))

/-- The room closes although alice, who is live, has withdrawn her vote. -/
theorem consensus_close_not_always :
    ¬ ∀ c, Reachable .default c → ∀ e older id, e :: older <:+ c.trace →
      ClosesByConsensus c id e → Agreed id older e.before := by
  intro h
  have hflip : ∃ l ∈ dissent.trace.tails, l.head?.any (fun e =>
      ClosesByConsensus dissent demoRoom e && !Agreed demoRoom l.tail e.before) = true := by
    decide +kernel
  obtain ⟨_ | ⟨e, older⟩, hsuf, hmatch⟩ := hflip
  · cases hmatch
  rw [List.mem_tails] at hsuf
  simp only [List.head?_cons, Option.any_some, List.tail_cons, Bool.and_eq_true, decide_eq_true_eq,
    Bool.not_eq_true'] at hmatch
  exact of_decide_eq_false hmatch.2 (h dissent ((reachable_demo _).play _) e older demoRoom hsuf hmatch.1)

end ChatBotChat
