/-
What a request knows when it makes a call, from the replies of its own earlier
calls alone.

`Discipline req past call` is the one statement about this: for every call that
changes something, it says what the handler of `req` has read before it, and in
which order.  `Conclusion req past a` says the same of an answer.  Both are
about one request by itself; that they hold in every interleaving is
`RunWith.upheld`, and what they imply about the shared state is derived once
the replies are related to it.

A claim of the inbox is three calls, and a claim that lost the race for the
cursor goes round again, so that a claim is described by the whole piece of the
log it leaves: `FoundNothing` or `Delivered`.
-/
import ChatBotChat.Daemon

namespace ChatBotChat

open Interleave Lifecycle

/-! ### Pieces of a log -/

/-- The calls that read and take no part in a claim. -/
def Call.glance : Call → Bool
  | .nowUtc | .instantNow | .getRoom _ | .listParticipants _ | .getParticipantByInstance _ _
  | .getParticipantByHandle _ _ | .latestMessageFromOther _ _ | .roomLatestMessage _
  | .consecutiveMsgCount _ _ => true
  | _ => false

/-- A piece of a log that only reads. -/
def Glances (past : Log) : Prop := ∀ x ∈ past, x.1.glance = true

/-- Rounds of a claim that lost the race for the cursor. -/
inductive Lost (roomId handle : String) : Log → Prop
  | start : Lost roomId handle []
  | round {tries : Log} {cursor : ℕ} {m : Message} : Lost roomId handle tries →
      Lost roomId handle (⟨.advanceCursor m.seq handle cursor, false⟩ ::
        ⟨.nextUnread roomId handle cursor, some m⟩ :: ⟨.readCursor handle, some cursor⟩ :: tries)

/-- A whole claim that found nothing unread. -/
inductive FoundNothing (roomId handle : String) : Log → Prop
  | gone {tries : Log} : Lost roomId handle tries →
      FoundNothing roomId handle (⟨.readCursor handle, none⟩ :: tries)
  | caughtUp {tries : Log} {cursor : ℕ} : Lost roomId handle tries →
      FoundNothing roomId handle (⟨.nextUnread roomId handle cursor, none⟩ ::
        ⟨.readCursor handle, some cursor⟩ :: tries)

/-- A whole claim that delivered `m`. -/
inductive Delivered (roomId handle : String) (m : Message) : Log → Prop
  | round {tries : Log} {cursor : ℕ} : Lost roomId handle tries →
      Delivered roomId handle m (⟨.advanceCursor m.seq handle cursor, true⟩ ::
        ⟨.nextUnread roomId handle cursor, some m⟩ :: ⟨.readCursor handle, some cursor⟩ :: tries)

/-- No claim of the log has delivered anything. -/
def Undelivered (past : Log) : Prop :=
  ∀ seq handle cursor, ⟨.advanceCursor seq handle cursor, true⟩ ∉ past

/-- The log shows that the caller is the participant `handle` of the room. -/
def ResolvedIn (past : Log) (id handle : String) : Prop :=
  ∃ (p : Participant) (inst : String), p.handle = handle ∧
    (⟨.getParticipantByInstance id inst, some p⟩ ∈ past ∨
      ⟨.getParticipantByHandle id inst, some p⟩ ∈ past)

/-- The log shows a subscription that every later ping of the room reaches, and
that its request has subscribed or has just been woken. -/
inductive Awake (id : String) (rx : ℕ) : Log → Prop
  | subscribed {older : Log} {start : ℕ} :
      Awake id rx (⟨.instantNow, start⟩ :: ⟨.subscribe id, rx⟩ :: older)
  | woken {older : Log} {deadline : ℕ} {outcome : RecvOutcome} :
      ⟨.subscribe id, rx⟩ ∈ older → Awake id rx (⟨.recv rx deadline, outcome⟩ :: older)

/-- A park: since it woke, the request has found no message to claim, and then
neither a halted room nor a proposal to answer. -/
inductive Parked (id handle : String) (rx : ℕ) : Log → Prop
  | mk {claim older : Log} {instant : ℕ} {room : Option Room} {t₁ t₂ : OffsetDateTime}
      {closing extending : List Participant} :
      Awake id rx older → ResolvedIn older id handle → FoundNothing id handle claim →
      room.elim false (·.state.halted) = false →
      proposalPending Participant.wantsCloseAt closing handle t₁ = false →
      proposalPending Participant.wantsExtendAt extending handle t₂ = false →
      Parked id handle rx (⟨.listParticipants id, extending⟩ :: ⟨.nowUtc, t₂⟩ ::
        ⟨.listParticipants id, closing⟩ :: ⟨.nowUtc, t₁⟩ :: ⟨.getRoom id, room⟩ ::
        ⟨.instantNow, instant⟩ :: (claim ++ older))

/-- The log shows the monotonic clock going back. -/
def WentBack (past : Log) : Prop :=
  ∃ (i j : ℕ) (newer older : Log), i < j ∧
    past = ⟨.instantNow, i⟩ :: (newer ++ ⟨.instantNow, j⟩ :: older)

/-- A vote count that reaches the quorum, right after the caller's own vote. -/
inductive Counted (id : String) (from_ : RoomState) (now : OffsetDateTime) : Log → Prop
  | mk {older : Log} {room : Room} {handle : String} {participants : List Participant} :
      ⟨.getRoom id, some room⟩ ∈ older → room.state = from_ → ResolvedIn older id handle →
      (countVotes participants now room.config.closeQuorum).2 ≤
        (countVotes participants now room.config.closeQuorum).1 →
      Counted id from_ now (⟨.listParticipants id, participants⟩ ::
        ⟨.setCloseVote handle (some now), ()⟩ :: ⟨.touchLastPoll handle now, ()⟩ ::
        ⟨.nowUtc, now⟩ :: older)

/-! ### The discipline -/

/-- The room a request is about. -/
def Request.room : Request → Option String
  | .joinRoom id _ | .sendMessage id _ | .signalRoom id _ | .waitRoom id _ | .closeRoom id _
  | .extendRoom id _ | .pauseRoom id _ | .wakeRoom id _ | .pruneRoom id
  | .claimNextUnread id _ => some id
  | .openRoom _ | .listRooms _ _ | .sweep => none

/-- A close without force. -/
def Request.consensusClose : Request → Bool
  | .closeRoom _ req => !req.force
  | _ => false

/-- Whose inbox a request claims from. -/
def ClaimsFor (req : Request) (past : Log) (id handle : String) : Prop :=
  match req with
  | .waitRoom id' _ => id' = id ∧ ResolvedIn past id handle
  | .claimNextUnread id' handle' => id' = id ∧ handle' = handle
  | _ => False

/-- What the handler of `req` has done before it makes a call. -/
def Discipline (req : Request) (past : Log) : Call → Prop
  | .createRoom room => (∃ r, req = .openRoom r) ∧ room.state = .active ∧
      room.config.closeQuorum = .all ∧ 1 ≤ room.config.hardCap ∧ 2 ≤ room.config.softCap
  | .updateRoomState id from_ to_ now _ => (req.room = some id ∨ req = .sweep) ∧
      Edge from_ to_ ∧ from_ ≠ to_ ∧ (req.consensusClose = true → Counted id from_ now past)
  | .createParticipant p => (∃ r, req = .joinRoom p.roomId r) ∧ p.wantsCloseAt = none ∧
      p.wantsExtendAt = none ∧ ⟨.currentSeq p.roomId, p.lastReadSeq⟩ ∈ past
  | .setCloseVote handle none => ∃ id r recipient body createdAt fromHuman cap m older,
      req = .sendMessage id r ∧ ResolvedIn past id handle ∧
        past = ⟨.createMessageCapped id handle recipient body createdAt fromHuman cap, some m⟩ :: older
  | .setCloseVote handle (some now) => ∃ id r older, req = .closeRoom id r ∧
      ResolvedIn past id handle ∧ past = ⟨.touchLastPoll handle now, ()⟩ :: ⟨.nowUtc, now⟩ :: older
  | .clearCloseVotes id => ∃ r, req = .closeRoom id r
  | .clearExtendVote handle => ∃ id r, req = .sendMessage id r ∧ ResolvedIn past id handle
  | .touchLastPoll handle now => ∃ id older, req.room = some id ∧ ResolvedIn past id handle ∧
      past = ⟨.nowUtc, now⟩ :: older
  | .tryExtend id voter step now cutoff quorum => (∃ r, req = .extendRoom id r) ∧
      ResolvedIn past id voter ∧ step = EXTEND_STEP ∧ cutoff = now - GHOST_AFTER ∧
      (∃ room, ⟨.getRoom id, some room⟩ ∈ past ∧ quorum = room.config.closeQuorum) ∧
      ∃ older, past = ⟨.nowUtc, now⟩ :: older
  | .pruneStaleParticipants id cutoff => req = .pruneRoom id ∧
      ∃ now older, past = ⟨.nowUtc, now⟩ :: older ∧ cutoff = now - GHOST_AFTER
  | .createMessageTyped id sender recipient _ _ msgType _ _ => req.room = some id ∧
      ResolvedIn past id sender ∧ recipient = none ∧ msgType ≠ .msg
  | .createMessageCapped id sender recipient _ _ fromHuman cap =>
      (∃ r, req = .sendMessage id r ∧ recipient = r.to_ ∧ fromHuman = r.fromHuman) ∧
      ResolvedIn past id sender ∧
      ∃ room, ⟨.getRoom id, some room⟩ ∈ past ∧ cap = room.config.hardCap.toNat
  | .advanceCursor seq handle cursor => ∃ id m older, past = ⟨.nextUnread id handle cursor, some m⟩ ::
      ⟨.readCursor handle, some cursor⟩ :: older ∧ m.seq = seq ∧ ClaimsFor req older id handle ∧
      Undelivered older
  | .notify id => req.room = some id
  | .recv rx _ => ∃ id r handle, req = .waitRoom id r ∧ ResolvedIn past id handle ∧
      (Parked id handle rx past ∨ WentBack past)
  | _ => True

/-! ### Answers -/

/-- A send, signal, close, extend, pause or wake. -/
def Request.writes : Request → Bool
  | .sendMessage _ _ | .signalRoom _ _ | .closeRoom _ _ | .extendRoom _ _ | .pauseRoom _ _
  | .wakeRoom _ _ => true
  | _ => false

/-- The answer to an insert under `cap`. -/
def insertAnswer (cap : UInt32) : Option Message → Outcome
  | none => .error (hardCapReached cap)
  | some m => .ok (.sent m.seq)

/-- A send is answered as its insert was. -/
def SendAnswered (id : String) (past : Log) (a : Outcome) : Prop :=
  ∀ sender recipient body createdAt fromHuman cap reply,
    ⟨.createMessageCapped id sender recipient body createdAt fromHuman cap, reply⟩ ∈ past →
      ∃ room, ⟨.getRoom id, some room⟩ ∈ past ∧ cap = room.config.hardCap.toNat ∧
        a = insertAnswer room.config.hardCap reply

/-- What the response to a vote reports. -/
def Reports (response : ExtendResponse) : ExtendOutcome → Prop
  | .extended cap => response.status = "extended" ∧ response.hardCap = some cap
  | .proposed _ _ => response.status = "extend_proposed" ∧ response.hardCap = none

/-- An extend reports what its vote was answered with. -/
def ExtendAnswered (id : String) (past : Log) (a : Outcome) : Prop :=
  ∀ response, a = .ok (.extended response) → ∃ voter step now cutoff quorum outcome,
    ⟨.tryExtend id voter step now cutoff quorum, outcome⟩ ∈ past ∧ Reports response outcome

/-- How a wait that delivered `m` answers: drained from a halted room, or with
the soft-cap flag of a room that takes traffic. -/
def Surfaced (id : String) (m : Message) (surfaceToUser : Bool) (newer older : Log) : Prop :=
  ∃ room, ⟨.getRoom id, some room⟩ ∈ older ∧
    ((room.state.halted = true ∧ surfaceToUser = false) ∨
      (room.state.halted = false ∧ ∃ n : ℕ, ⟨.consecutiveMsgCount id m.seq, n⟩ ∈ newer ∧
        surfaceToUser = decide ((n : ℤ) = room.config.softCap.toNat - 1)))

/-- A wait answers with the message it claimed, and with a status otherwise. -/
def WaitAnswered (id : String) (past : Log) : Outcome → Prop
  | .ok (.waited (.message view surfaceToUser _ _)) => ∃ handle m newer claim older,
      past = newer ++ (claim ++ older) ∧ Delivered id handle m claim ∧ Undelivered newer ∧
        Undelivered older ∧ ResolvedIn older id handle ∧ view = messageView m ∧
        Surfaced id m surfaceToUser newer older
  | .ok (.waited (.timeout _ _)) => Undelivered past
  | .ok _ => False
  | .error _ => Undelivered past

def ClaimAnswered (id handle : String) (past : Log) : Outcome → Prop
  | .ok (.claimed none) => FoundNothing id handle past
  | .ok (.claimed (some m)) => Delivered id handle m past
  | _ => False

/-- What a request has done when it answers. -/
def Conclusion (req : Request) (past : Log) (a : Outcome) : Prop :=
  (req.writes = true → ∀ id, req.room = some id → (∃ answer, a = .ok answer) →
    ∃ older, past = ⟨.notify id, ()⟩ :: older) ∧
  match req with
  | .sendMessage id _ => SendAnswered id past a
  | .extendRoom id _ => ExtendAnswered id past a
  | .waitRoom id _ => WaitAnswered id past a
  | .claimNextUnread id handle => ClaimAnswered id handle past a
  | _ => True

end ChatBotChat
