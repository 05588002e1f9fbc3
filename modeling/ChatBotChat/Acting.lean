/-
Whom a request acts as.

A request comes under one name.  It looks up the participant that the name stands
for, and from then on every call that it makes for a participant is made for that
one; only a join that has found nobody lets somebody in.  `ActingCall` says so of
every call of every request, from the log of the request alone.
-/
import ChatBotChat.Naming
import ChatBotChat.Waiting

namespace ChatBotChat

open Interleave Lifecycle

variable {app : AppState} {past : Log} {id inst handle : String} {p : Participant}

/-! ### Names -/

/-- Who makes a request. -/
def Request.caller : Request → Option Caller
  | .joinRoom _ r => some r.toCaller
  | .sendMessage _ r => some r.toCaller
  | .signalRoom _ r => some r.toCaller
  | .waitRoom _ r => some r.toCaller
  | .closeRoom _ r | .pauseRoom _ r | .wakeRoom _ r => some r.toCaller
  | .extendRoom _ caller => some caller
  | .openRoom _ | .listRooms _ _ | .pruneRoom _ | .sweep | .claimNextUnread _ _ => none

/-- The request is about the room `id`, and its caller comes under the name `inst`. -/
def Request.ComesAs (id inst : String) (req : Request) : Prop :=
  req.room = some id ∧ req.caller.map effectiveInstance = some inst

/-- The call is made for this participant, if it is made for one, and lets nobody in. -/
def Call.ActsAs (handle : String) : Call → Prop
  | .createParticipant _ => False
  | .setNickname h _ | .setCloseVote h _ | .clearExtendVote h | .touchLastPoll h _
  | .tryExtend _ h _ _ _ _ | .createMessageTyped _ h _ _ _ _ _ _
  | .createMessageCapped _ h _ _ _ _ _ | .readCursor h | .nextUnread _ h _
  | .advanceCursor _ h _ => h = handle
  | _ => True

/-- What a request under this name has found out before a call. -/
def ActingCall (id inst : String) (past : Log) (k : Call) : Prop :=
  (∀ handle, k.ActsAs handle) ∨ (∃ p, Met id inst p past ∧ k.ActsAs p.handle) ∨
    (∃ p, k = .createParticipant p) ∧ stranger id inst ⊆ past

def ActingDiscipline (req : Request) (past : Log) (k : Call) : Prop :=
  ∀ id inst, req.ComesAs id inst → ActingCall id inst past k

theorem actsAs_of_glance {k : Call} (hk : k.glance = true) : k.ActsAs handle := by
  cases k <;> trivial

/-- Once the caller is found, calls that are made for it may follow. -/
theorem Calls.acting {α : Type} {q : Task α} (h : q.Calls (·.ActsAs p.handle))
    (hmet : Met id inst p past) : q.Upholds (ActingCall id inst) past fun _ _ => True := by
  refine (h.upholds fun past' k hsuf hk => ?_).mono fun _ _ _ => trivial
  exact .inr (.inl ⟨p, hmet.mono hsuf.subset, hk⟩)

/-- The rule of a handler that looks up its caller and then acts as it. -/
theorem resolveParticipant_acting {α : Type} {k : Option Participant → Task α}
    (hnone : (k none).Calls fun c => ∀ handle, c.ActsAs handle)
    (hsome : ∀ p, (k (some p)).Calls (·.ActsAs p.handle)) :
    (resolveParticipant id inst >>= k).Upholds (ActingCall id inst) past fun _ _ => True := by
  refine .bind (resolveParticipant_identified (fun _ => ⟨.inl fun _ => trivial,
    .inl fun _ => trivial⟩) ?_ fun found p hfound => ?_)
  · exact (hnone.upholds fun _ _ _ hc => .inl hc).mono fun _ _ _ => trivial
  · exact Calls.acting (hsome p) (.inl ⟨found, hfound, List.subset_append_left _ _⟩)

/-! ### Writers -/

theorem recipientKnown_calls {to_ : Option String} :
    (recipientKnown id to_).Calls (·.ActsAs handle) := by
  cases to_ with
  | none => trivial
  | some h => exact .step trivial fun _ => trivial

theorem reviveRoom_calls {state : RoomState} {now : OffsetDateTime} :
    (reviveRoom id state now).Calls (·.ActsAs handle) := by
  unfold reviveRoom
  split
  · split
    · exact .step trivial fun _ => trivial
    · trivial
  · trivial

theorem sendMessage_acting (id : String) (r : SendMessageRequest) :
    (sendMessage id r).Upholds (ActingCall id (effectiveInstance r.toCaller)) []
      fun _ _ => True := by
  refine .step (.inl fun _ => trivial) fun room => ?_
  cases room with
  | none => exact trivial
  | some room =>
    cases hwritable : rejectUnlessWritable room with
    | error e =>
      simp only [hwritable]
      exact trivial
    | ok _ =>
      simp only [hwritable]
      refine resolveParticipant_acting ?_ fun sender => ?_
      · exact trivial
      · refine .bind recipientKnown_calls fun known => ?_
        cases known with
        | false => exact trivial
        | true =>
          refine .step trivial fun now => .step rfl fun msg => ?_
          cases msg with
          | none => exact trivial
          | some msg =>
            refine .step rfl fun _ => .step rfl fun _ => .step trivial fun _ => ?_
            exact .bind reviveRoom_calls fun _ => .step trivial fun _ => trivial

theorem blockerPause_calls {r : SignalRequest} {state : RoomState} {msgType : MessageType}
    {now : OffsetDateTime} {pauseTo : Option RoomState} :
    (blockerPause id r state msgType now pauseTo).Calls (·.ActsAs handle) := by
  unfold blockerPause
  split
  · refine .step trivial fun changed => ?_
    cases changed <;> exact trivial
  · exact trivial

theorem signalRoom_acting (id : String) (r : SignalRequest) :
    (signalRoom id r).Upholds (ActingCall id (effectiveInstance r.toCaller)) []
      fun _ _ => True := by
  refine .step (.inl fun _ => trivial) fun room => ?_
  cases room with
  | none => exact trivial
  | some room =>
    cases hwritable : rejectUnlessWritable room with
    | error e =>
      simp only [hwritable]
      exact trivial
    | ok _ =>
      simp only [hwritable]
      refine resolveParticipant_acting ?_ fun sender => ?_
      · exact trivial
      · cases hfields : signalFields r with
        | error e => exact trivial
        | ok fields =>
          dsimp only
          split
          · exact trivial
          · refine .step trivial fun now => .bind blockerPause_calls fun paused => ?_
            cases paused with
            | error e => exact trivial
            | ok _ => exact .step rfl fun _ => .step trivial fun _ => trivial

theorem closeNow_calls {from_ : RoomState} {now : OffsetDateTime} :
    (closeNow id from_ now).Calls (·.ActsAs handle) := by
  have hring : (do
      perform (.clearCloseVotes id)
      perform (.notify id)
      return .ok () : Task (Except ApiError Unit)).Calls (·.ActsAs handle) :=
    .step trivial fun _ => .step trivial fun _ => trivial
  unfold closeNow
  split
  · exact trivial
  · refine .step trivial fun changed => ?_
    cases changed with
    | true => exact hring
    | false =>
      refine .step trivial fun cur => ?_
      cases cur with
      | none => exact trivial
      | some cur =>
        by_cases hterm : cur.state.terminal = true
        · simp only [hterm, ↓reduceIte]
          exact hring
        · simp only [hterm]
          exact trivial

theorem closeRoom_acting (id : String) (r : LifecycleRequest) :
    (closeRoom id r).Upholds (ActingCall id (effectiveInstance r.toCaller)) []
      fun _ _ => True := by
  refine .step (.inl fun _ => trivial) fun room => ?_
  cases room with
  | none => exact trivial
  | some room =>
    by_cases hterm : room.state.terminal = true
    · simp only [hterm, ↓reduceIte]
      exact trivial
    · simp only [hterm]
      refine resolveParticipant_acting ?_ fun closer => .step trivial fun now => ?_
      · exact trivial
      · by_cases hforce : r.force = true
        · simp only [hforce, ↓reduceIte]
          refine .bind closeNow_calls fun closed => ?_
          cases closed <;> exact trivial
        · simp only [hforce]
          refine .step rfl fun _ => .step rfl fun _ => .step trivial fun participants => ?_
          split
          · refine .bind closeNow_calls fun closed => ?_
            cases closed <;> exact trivial
          · exact .step trivial fun _ => trivial

theorem extendRoom_acting (id : String) (r : Caller) :
    (extendRoom id r).Upholds (ActingCall id (effectiveInstance r)) [] fun _ _ => True := by
  refine .step (.inl fun _ => trivial) fun room => ?_
  cases room with
  | none => exact trivial
  | some room =>
    by_cases hhalted : room.state.halted = true
    · simp only [hhalted, ↓reduceIte]
      exact trivial
    · simp only [hhalted]
      refine resolveParticipant_acting ?_ fun voter => .step trivial fun now => ?_
      · exact trivial
      · refine .step rfl fun outcome => ?_
        cases outcome with
        | extended cap => exact .step rfl fun _ => .step trivial fun _ => trivial
        | proposed votes needed => exact .step trivial fun _ => trivial

theorem applyTransition_acting {r : LifecycleRequest} {event : LifecycleEvent}
    {detail : Option String} :
    (applyTransition id r event detail).Upholds (ActingCall id (effectiveInstance r.toCaller)) []
      fun _ _ => True := by
  refine .step (.inl fun _ => trivial) fun room => ?_
  cases room with
  | none => exact trivial
  | some room =>
    refine resolveParticipant_acting ?_ fun caller => ?_
    · exact trivial
    · cases hto : transition room.state event with
      | none => exact trivial
      | some to_ =>
        refine .step trivial fun now => .step trivial fun changed => ?_
        cases changed with
        | false => exact trivial
        | true => exact .step trivial fun _ => trivial

/-! ### Waiting -/

theorem Looks.calls {α : Type} {n : ℕ} {q : Task α} (h : Looks n q) :
    q.Calls (·.ActsAs handle) := Prog.Only.calls (fun _ => actsAs_of_glance) h

theorem claimNextUnread_calls : (claimNextUnread id handle).Calls (·.ActsAs handle) := by
  refine .iterate fun _ => .step rfl fun cursor => ?_
  cases cursor with
  | none => exact trivial
  | some cursor =>
    refine .step rfl fun m => ?_
    cases m with
    | none => exact trivial
    | some m =>
      refine .step rfl fun claimed => ?_
      cases claimed <;> exact trivial

theorem waitForMessageUntil_calls {timeout : ℕ} {yields : Task Bool}
    (hyields : yields.Calls (·.ActsAs handle)) :
    (waitForMessageUntil id handle timeout yields).Calls (·.ActsAs handle) := by
  refine .step trivial fun now => .step rfl fun _ => .step trivial fun rx => ?_
  refine .step trivial fun start => .iterate fun _ => .bind claimNextUnread_calls fun m => ?_
  cases m with
  | some m => exact trivial
  | none =>
    refine .step trivial fun instant => ?_
    by_cases hlate : start + timeout ≤ instant
    · simp only [hlate, ↓reduceIte]
      exact trivial
    · simp only [hlate]
      refine .bind hyields fun stop => ?_
      cases stop with
      | true => exact trivial
      | false =>
        refine .step trivial fun outcome => ?_
        cases outcome with
        | ping => exact trivial
        | lagged => exact trivial
        | elapsed => exact trivial
        | closed =>
          refine .bind claimNextUnread_calls fun m => ?_
          cases m <;> exact trivial

theorem looks_waitRelevantChange : Looks 5 (waitRelevantChange id handle) := by
  refine (Looks.perform rfl).bind (n := 4) fun room => ?_
  cases hhalted : room.elim false (·.state.halted) with
  | true => exact .pure _
  | false =>
    refine looks_closeProposed.bind (n := 2) fun closing => ?_
    cases closing with
    | true => exact .pure _
    | false => exact looks_extendProposed

theorem waitRoom_acting (app : AppState) (id : String) (r : WaitRequest) :
    (waitRoom app id r).Upholds (ActingCall id (effectiveInstance r.toCaller)) []
      fun _ _ => True := by
  refine .step (.inl fun _ => trivial) fun room => ?_
  cases room with
  | none => exact trivial
  | some room =>
    refine resolveParticipant_acting ?_ fun caller => .step trivial fun now => ?_
    · exact trivial
    · refine .step rfl fun _ => ?_
      by_cases hhalted : room.state.halted = true
      · simp only [hhalted, ↓reduceIte]
        refine .bind (waitForMessageUntil_calls trivial) fun outcome => ?_
        cases outcome <;> exact trivial
      · simp only [hhalted]
        refine .bind looks_hasCounterpart.calls fun counterpart => ?_
        cases counterpart with
        | false => exact trivial
        | true =>
          refine .bind looks_parkCap.calls fun cap => ?_
          refine .bind (waitForMessageUntil_calls looks_waitRelevantChange.calls) fun outcome => ?_
          refine .bind looks_activeSentinelBackoff.calls fun away => ?_
          refine .bind looks_retryHint.calls fun retryAfter => ?_
          cases outcome with
          | message m => exact .step trivial fun consecutive => trivial
          | pausedByTimeout => exact looks_timeoutResponse.calls

/-! ### Joining -/

/-- The calls of a join: those that act as nobody, an insert and a nickname. -/
def Call.OfJoiner (k : Call) : Prop :=
  (∀ handle, k.ActsAs handle) ∨ (∃ p, k = .createParticipant p) ∨
    ∃ handle nickname, k = .setNickname handle nickname

theorem renameIfSupplied_calls {nickname : Option String} :
    (renameIfSupplied handle nickname).Calls Call.OfJoiner := by
  unfold renameIfSupplied
  split
  · exact ⟨.inr (.inr ⟨_, _, rfl⟩), fun _ => trivial⟩
  · exact trivial

theorem recentMessageViewsUpTo_calls {maxSeq : ℕ} :
    (recentMessageViewsUpTo id maxSeq).Calls Call.OfJoiner :=
  .step (.inl fun _ => trivial) fun _ => trivial

theorem joinAttempt_calls {room : Room} {startSeq : ℕ} {nickname : Option String}
    {ident : JoinIdentity} (tried : ℕ) :
    (joinAttempt id room startSeq nickname ident tried).Calls Call.OfJoiner := by
  refine .step (.inl fun _ => trivial) fun roster => .step (.inl fun _ => trivial) fun sess => ?_
  cases hderive : deriveHandle ident roster (sess.map sessHex) with
  | reused h =>
    refine .bind renameIfSupplied_calls fun _ => .step (.inl fun _ => trivial) fun row => ?_
    exact .bind recentMessageViewsUpTo_calls fun recent => trivial
  | created handle =>
    refine .step (.inl fun _ => trivial) fun now => .step (.inr (.inl ⟨_, rfl⟩)) fun outcome => ?_
    cases outcome with
    | inserted => exact .bind recentMessageViewsUpTo_calls fun recent => trivial
    | uniqueViolation =>
      by_cases hlt : tried + 1 < MAX_ATTEMPTS
      · simp only [hlt, ↓reduceIte]
        refine .step (.inl fun _ => trivial) fun row => ?_
        cases row with
        | some p => exact .bind recentMessageViewsUpTo_calls fun recent => trivial
        | none => exact trivial
      · simp only [hlt, ↓reduceIte]
        exact trivial

theorem joinRoom_calls (id : String) (r : JoinRoomRequest) :
    (joinRoom id r).Calls Call.OfJoiner := by
  refine .step (.inl fun _ => trivial) fun room => ?_
  cases room with
  | none => exact trivial
  | some room =>
    refine .step (.inl fun _ => trivial) fun startSeq => ?_
    refine .bind (.step (.inl fun _ => trivial) fun byInstance => ?_) fun found => ?_
    · cases byInstance with
      | some p => exact trivial
      | none => exact ⟨.inl fun _ => trivial, fun _ => trivial⟩
    · cases found with
      | some p =>
        refine .bind renameIfSupplied_calls fun _ => ?_
        exact .bind recentMessageViewsUpTo_calls fun recent => trivial
      | none => exact .iterate joinAttempt_calls

theorem joinRoom_acting (id : String) (r : JoinRoomRequest) :
    (joinRoom id r).Upholds (ActingCall id (effectiveInstance r.toCaller)) [] fun _ _ => True := by
  have hcalls : (joinRoom id r).Upholds (fun _ k => k.OfJoiner) [] fun past _ => [] <:+ past :=
    (joinRoom_calls id r).upholds fun _ _ _ hk => hk
  refine ((joinRoom_naming id r).and hcalls).imp ?_ fun _ _ _ => trivial
  rintro past k ⟨hnaming, hidle | ⟨p, rfl⟩ | ⟨handle, nickname, rfl⟩⟩
  · exact .inl hidle
  · exact .inr (.inr ⟨⟨p, rfl⟩, hnaming.2⟩)
  · obtain ⟨-, -, p, rfl, hmet⟩ := hnaming
    exact .inr (.inl ⟨p, hmet, rfl⟩)

/-! ### Every request -/

theorem serve_acting (app : AppState) (req : Request) :
    (serve app req).Upholds (ActingDiscipline req) [] fun _ _ => True := by
  by_cases hcomes : ∃ id inst, req.ComesAs id inst
  · obtain ⟨id, inst, hcomes⟩ := hcomes
    have hacting : (serve app req).Upholds (ActingCall id inst) [] fun _ _ => True := by
      obtain ⟨hroom, hcaller⟩ := hcomes
      cases req with
      | joinRoom id' r =>
        cases hroom
        cases hcaller
        exact upholds_answering.mpr (joinRoom_acting id r)
      | sendMessage id' r =>
        cases hroom
        cases hcaller
        exact upholds_answering.mpr (sendMessage_acting id r)
      | signalRoom id' r =>
        cases hroom
        cases hcaller
        exact upholds_answering.mpr (signalRoom_acting id r)
      | waitRoom id' r =>
        cases hroom
        cases hcaller
        exact upholds_answering.mpr (waitRoom_acting app id r)
      | closeRoom id' r =>
        cases hroom
        cases hcaller
        exact upholds_answering.mpr (closeRoom_acting id r)
      | extendRoom id' r =>
        cases hroom
        cases hcaller
        exact upholds_answering.mpr (extendRoom_acting id r)
      | pauseRoom id' r =>
        cases hroom
        cases hcaller
        exact upholds_answering.mpr applyTransition_acting
      | wakeRoom id' r =>
        cases hroom
        cases hcaller
        exact upholds_answering.mpr applyTransition_acting
      | openRoom r => cases hroom
      | listRooms state all => cases hroom
      | pruneRoom id' => cases hcaller
      | sweep => cases hroom
      | claimNextUnread id' handle => cases hcaller
    refine hacting.imp ?_ fun _ _ _ => trivial
    rintro past k hk id' inst' ⟨hroom, hcaller⟩
    obtain rfl := Option.some_inj.mp (hcomes.1.symm.trans hroom)
    obtain rfl := Option.some_inj.mp (hcomes.2.symm.trans hcaller)
    exact hk
  · refine Prog.upholds_of_forall ?_ fun _ _ => trivial
    exact fun past k id inst h => absurd ⟨id, inst, h⟩ hcomes

/-- **Every request of a reachable daemon** acts as whom it has found out to be. -/
theorem Reachable.acting {c : Daemon} (h : Reachable app c) :
    System.Upheld ActingDiscipline (fun _ _ _ => True) c := by
  obtain ⟨utc, instant, hrun⟩ := h
  have hbody : ∀ r, ((daemon app).body r).Upholds (ActingDiscipline r) [] fun _ _ => True :=
    serve_acting app
  exact hrun.upheld hbody

end ChatBotChat
