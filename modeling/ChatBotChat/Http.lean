/-
The request handlers of `http.rs` and the sweep of `sweeper.rs`, as programs
over the daemon's calls.

A failed statement ends a handler with a 500 wherever it happens; that is a
move of the system (`Interleave.System`), not a branch of these programs.  The
early returns are the handlers' own answers.
-/
import ChatBotChat.Waiter

namespace ChatBotChat

open Interleave

/-- What the handlers share besides the store: the long-poll cap, in
nanoseconds. -/
structure AppState where
  waitCap : ℕ

/-- `DEFAULT_WAIT_CAP`, 600 seconds. -/
def AppState.default : AppState := ⟨600 * 1000000000⟩

/-! ### Identity -/

/-- The identity key of a request: explicit, or synthesized from the tuple. -/
def effectiveInstance (c : Caller) : String :=
  if c.inst = "" then c.repo ++ "\n" ++ c.model ++ "\n" ++ c.cwd else c.inst

/-- The calling participant: by instance, else by handle. -/
def resolveParticipant (roomId inst : String) : Task (Option Participant) := do
  if let some p ← perform (.getParticipantByInstance roomId inst) then return some p
  perform (.getParticipantByHandle roomId inst)

def NOT_A_PARTICIPANT : ApiError :=
  .badRequest "not a participant of this room; join first"

def messageView (m : Message) : MessageView :=
  ⟨m.seq, m.sender, m.recipient, m.body, Rfc3339.format m.createdAt, m.msgType.asStr,
    m.severity.map Severity.asStr, m.questionText⟩

/-! ### Opening and joining -/

def MAX_ATTEMPTS : ℕ := 64

/-- The error of an insert that met a unique key. -/
def uniqueError : ApiError := .internal "database error: UNIQUE constraint failed"

/-- The configuration of a new room, if its caps are not degenerate. -/
def openConfig (req : OpenRoomRequest) : Except ApiError RoomConfig :=
  let defaults := RoomConfig.default
  let config : RoomConfig := ⟨req.hardCap.getD defaults.hardCap,
    req.softCap.getD defaults.softCap, defaults.closeQuorum⟩
  if config.hardCap < 1 ∨ config.softCap < 2 then
    .error (.badRequest ("invalid caps: hard_cap must be >= 1 and soft_cap >= 2 (got hard_cap=" ++
      toString config.hardCap ++ ", soft_cap=" ++ toString config.softCap ++ ")"))
  else .ok config

def openRoom (req : OpenRoomRequest) : Task (Except ApiError OpenRoomResponse) := do
  let now ← perform .nowUtc
  let base := roomId req.subject now
  match openConfig req with
  | .error e => return .error e
  | .ok config =>
    Prog.iterate (fun tried : ℕ => do
      let attempt := tried + 1
      let candidate := if attempt = 1 then base else base ++ "-" ++ toString attempt
      match ← perform (.createRoom ⟨candidate, req.subject, now, now, .active, now, config,
          req.prevRoomId⟩) with
      | .inserted => return .inr (.ok ⟨candidate, shareLine candidate⟩)
      | .uniqueViolation =>
        if attempt < MAX_ATTEMPTS then return .inl attempt else return .inr (.error uniqueError)) 0

/-- A blank nickname is not supplied. -/
def normalizeNickname (nickname : Option String) : Option String :=
  (nickname.map fun n => String.ofList (trimMatches isWhitespace n.toList)).filter (· ≠ "")

def RECENT_MESSAGE_LIMIT : ℕ := 50

def recentMessageViewsUpTo (roomId : String) (maxSeq : ℕ) : Task (List MessageView) := do
  let msgs ← perform (.recentMessagesUpTo roomId maxSeq RECENT_MESSAGE_LIMIT)
  return msgs.map messageView

def joinResponse (handle : String) (resumed : Bool) (room : Room) (recent : List MessageView) :
    Except ApiError JoinRoomResponse :=
  .ok ⟨handle, resumed, room.state.asStr, recent⟩

/-- Set the nickname if one was supplied. -/
def renameIfSupplied (handle : String) (nickname : Option String) : Task Unit :=
  if nickname.isSome then perform (.setNickname handle nickname) else pure ()

/-- One attempt to mint a participant; on the left, try again. -/
def joinAttempt (id : String) (room : Room) (startSeq : ℕ) (nickname : Option String)
    (ident : JoinIdentity) (tried : ℕ) : Task (ℕ ⊕ Except ApiError JoinRoomResponse) := do
  let attempt := tried + 1
  let existing ← perform (.listParticipants id)
  let sess ← perform .randSessCandidates
  match deriveHandle ident existing (sess.map sessHex) with
  | .reused h =>
    renameIfSupplied h nickname
    let row ← perform (.getParticipantByInstance id ident.inst)
    let cursor := (row.map Participant.lastReadSeq).getD startSeq
    let recent ← recentMessageViewsUpTo id cursor
    return .inr (joinResponse h true room recent)
  | .created handle =>
    let now ← perform .nowUtc
    match ← perform (.createParticipant ⟨handle, id, ident.repo, ident.model, ident.cwd, ident.inst,
        now, now, startSeq, nickname, none, none⟩) with
    | .inserted =>
      let recent ← recentMessageViewsUpTo id startSeq
      return .inr (joinResponse handle false room recent)
    | .uniqueViolation =>
      if attempt < MAX_ATTEMPTS then
        -- a concurrent join took the instance, or the random suffix collided
        match ← perform (.getParticipantByInstance id ident.inst) with
        | some p =>
          let recent ← recentMessageViewsUpTo id p.lastReadSeq
          return .inr (joinResponse p.handle true room recent)
        | none => return .inl attempt
      else return .inr (.error uniqueError)

def joinRoom (id : String) (req : JoinRoomRequest) : Task (Except ApiError JoinRoomResponse) := do
  let some room ← perform (.getRoom id) | return .error .notFound
  let startSeq ← perform (.currentSeq id)
  let nickname := normalizeNickname req.nickname
  let ident : JoinIdentity := ⟨req.repo, req.model, req.cwd, effectiveInstance req.toCaller⟩
  match ← resolveParticipant id ident.inst with
  | some p =>
    renameIfSupplied p.handle nickname
    let recent ← recentMessageViewsUpTo id p.lastReadSeq
    return joinResponse p.handle true room recent
  | none => Prog.iterate (joinAttempt id room startSeq nickname ident) 0

def pruneRoom (id : String) : Task (Except ApiError PruneResponse) := do
  let some _ ← perform (.getRoom id) | return .error .notFound
  let now ← perform .nowUtc
  let pruned ← perform (.pruneStaleParticipants id (now - Lifecycle.GHOST_AFTER))
  let remaining ← perform (.listParticipants id)
  return .ok ⟨UInt32.ofNat pruned, UInt32.ofNat remaining.length⟩

/-! ### Sending and signalling -/

def EXTEND_STEP : UInt32 := 20

/-- The refusal of a send at the cap. -/
def hardCapReached (cap : UInt32) : ApiError :=
  .conflict ("hard cap reached (" ++ toString cap ++ " messages); cbc_extend (consensus +" ++
    toString EXTEND_STEP ++ ") to keep going, or close the room")

/-- A paused, closed or archived room takes no new traffic. -/
def rejectUnlessWritable (room : Room) : Except ApiError Unit :=
  match room.state with
  | .active | .idle | .stale => .ok ()
  | .paused | .closed | .archived =>
    .error (.conflict ("room is " ++ room.state.asStr ++ "; it is not accepting messages"))

/-- A target must be a participant. -/
def recipientKnown (id : String) (to_ : Option String) : Task Bool :=
  match to_ with
  | none => pure true
  | some h => do
    let participants ← perform (.listParticipants id)
    return participants.any (·.handle = h)

/-- A message on an idle or stale room revives it. -/
def reviveRoom (id : String) (state : RoomState) (now : OffsetDateTime) : Task Unit :=
  if state = .idle ∨ state = .stale then
    match Lifecycle.transition state .message with
    | some to_ => do let _ ← perform (.updateRoomState id state to_ now none)
    | none => pure ()
  else pure ()

def sendMessage (id : String) (req : SendMessageRequest) : Task (Except ApiError ℕ) := do
  let some room ← perform (.getRoom id) | return .error .notFound
  if let .error e := rejectUnlessWritable room then return .error e
  let some sender ← resolveParticipant id (effectiveInstance req.toCaller)
    | return .error NOT_A_PARTICIPANT
  unless ← recipientKnown id req.to_ do
    return .error (.badRequest "recipient is not a participant of this room")
  let now ← perform .nowUtc
  let some msg ← perform (.createMessageCapped id sender.handle req.to_ req.body now req.fromHuman
      room.config.hardCap.toNat)
    | return .error (hardCapReached room.config.hardCap)
  perform (.setCloseVote sender.handle none)
  perform (.clearExtendVote sender.handle)
  perform (.touchLastActivity id now)
  reviveRoom id room.state now
  perform (.notify id)
  return .ok msg.seq

/-- The sentinel a signal request asks for, with its severity and body. -/
def signalFields (req : SignalRequest) : Except ApiError (MessageType × Option Severity × String) :=
  match MessageType.parse req.signalType with
  | some .waitingUser =>
    match req.severity with
    | none => .error (.badRequest "waiting_user requires a severity (low|med|high)")
    | some s =>
      match Severity.parse s with
      | none => .error (.badRequest ("invalid severity '" ++ s ++ "'"))
      | some severity =>
        if req.questionText = none ∨ req.questionText = some "" then
          .error (.badRequest "waiting_user requires a non-empty question_text")
        else .ok (.waitingUser, some severity, "")
  | some .fold =>
    if req.severity.isSome then .error (.badRequest "fold takes no severity")
    else if req.questionText.isSome then .error (.badRequest "fold takes no question_text")
    else .ok (.fold, none, "")
  | some .blockerRealWork =>
    if req.severity.isSome then .error (.badRequest "blocker_real_work takes no severity")
    else if req.questionText.isSome then
      .error (.badRequest "blocker_real_work takes no question_text")
    else .ok (.blockerRealWork, none, req.reason.getD "")
  | _ => .error (.badRequest ("unsupported signal type '" ++ req.signalType ++
      "'; expected waiting_user, fold or blocker_real_work"))

def CHANGED_CONCURRENTLY : ApiError := .conflict "room state changed concurrently; retry"

/-- The pause a `blocker_real_work` signal drives, before its sentinel. -/
def blockerPause (id : String) (req : SignalRequest) (state : RoomState) (msgType : MessageType)
    (now : OffsetDateTime) (pauseTo : Option RoomState) : Task (Except ApiError Unit) :=
  match msgType, pauseTo with
  | .blockerRealWork, some to_ => do
    let changed ← perform (.updateRoomState id state to_ now req.reason)
    if changed then return .ok () else return .error CHANGED_CONCURRENTLY
  | _, _ => pure (.ok ())

def signalRoom (id : String) (req : SignalRequest) : Task (Except ApiError ℕ) := do
  let some room ← perform (.getRoom id) | return .error .notFound
  if let .error e := rejectUnlessWritable room then return .error e
  let some sender ← resolveParticipant id (effectiveInstance req.toCaller)
    | return .error NOT_A_PARTICIPANT
  match signalFields req with
  | .error e => return .error e
  | .ok (msgType, severity, body) =>
    let pauseTo := Lifecycle.transition room.state .pause
    if msgType = .blockerRealWork ∧ pauseTo = none then
      return .error (.conflict ("cannot Pause from " ++ room.state.asStr))
    let now ← perform .nowUtc
    if let .error e ← blockerPause id req room.state msgType now pauseTo then return .error e
    let msg ← perform (.createMessageTyped id sender.handle none body now msgType severity
      req.questionText)
    perform (.notify id)
    return .ok msg.seq

/-! ### Closing -/

/-- A closed or archived room takes no further close. -/
def RoomState.terminal : RoomState → Bool
  | .closed | .archived => true
  | _ => false

def cannotClose (state : RoomState) : ApiError := .conflict ("cannot close from " ++ state.asStr)

def closeResponse (status : String) (state : RoomState) (progress : Option (UInt32 × UInt32)) :
    LifecycleResponse :=
  ⟨state.asStr, some status, progress.map Prod.fst, progress.map Prod.snd⟩

/-- The transition to `closed` itself.  A lost race is a success if the room
ended up terminal anyway. -/
def closeNow (id : String) (from_ : RoomState) (now : OffsetDateTime) :
    Task (Except ApiError Unit) := do
  match Lifecycle.transition from_ .close with
  | none => return .error (cannotClose from_)
  | some to_ =>
    let changed ← perform (.updateRoomState id from_ to_ now none)
    unless changed do
      let some cur ← perform (.getRoom id) | return .error .notFound
      unless cur.state.terminal do return .error CHANGED_CONCURRENTLY
    perform (.clearCloseVotes id)
    perform (.notify id)
    return .ok ()

/-- Live in the eyes of a handler whose clock reads `now`. -/
def livePoller (now : OffsetDateTime) (p : Participant) : Bool :=
  now - p.lastPollAt ≤ Lifecycle.GHOST_AFTER

/-- The live close votes among `participants`, and how many are needed. -/
def countVotes (participants : List Participant) (now : OffsetDateTime) (quorum : CloseQuorum) :
    ℕ × ℕ :=
  let live := participants.countP (livePoller now)
  let votes := participants.countP fun p => p.wantsCloseAt.isSome && livePoller now p
  (votes, quorum.needed live)

def closeRoom (id : String) (req : LifecycleRequest) :
    Task (Except ApiError LifecycleResponse) := do
  let some room ← perform (.getRoom id) | return .error .notFound
  if room.state.terminal then return .error (cannotClose room.state)
  let some closer ← resolveParticipant id (effectiveInstance req.toCaller)
    | return .error NOT_A_PARTICIPANT
  let now ← perform .nowUtc
  if req.force then
    match ← closeNow id room.state now with
    | .error e => return .error e
    | .ok () => return .ok (closeResponse "closed" .closed none)
  perform (.touchLastPoll closer.handle now)
  perform (.setCloseVote closer.handle (some now))
  let participants ← perform (.listParticipants id)
  let (votes, needed) := countVotes participants now room.config.closeQuorum
  if votes ≥ needed then
    match ← closeNow id room.state now with
    | .error e => return .error e
    | .ok () => return .ok (closeResponse "closed" .closed none)
  else
    perform (.notify id)
    return .ok (closeResponse "close_proposed" room.state
      (some (UInt32.ofNat votes, UInt32.ofNat needed)))

/-! ### Extending -/

def extendBody (hardCap : UInt32) : String :=
  "Message cap extended to " ++ toString hardCap ++ " by consensus (+" ++ toString EXTEND_STEP ++
    ")."

def extendRoom (id : String) (req : Caller) : Task (Except ApiError ExtendResponse) := do
  let some room ← perform (.getRoom id) | return .error .notFound
  if room.state.halted then
    return .error (.conflict ("cannot extend from " ++ room.state.asStr))
  let some voter ← resolveParticipant id (effectiveInstance req)
    | return .error NOT_A_PARTICIPANT
  let now ← perform .nowUtc
  match ← perform (.tryExtend id voter.handle EXTEND_STEP now (now - Lifecycle.GHOST_AFTER)
      room.config.closeQuorum) with
  | .extended hardCap =>
    let _ ← perform (.createMessageTyped id voter.handle none (extendBody hardCap) now .extend none
      none)
    perform (.notify id)
    return .ok ⟨room.state.asStr, "extended", none, none, some hardCap⟩
  | .proposed votes needed =>
    perform (.notify id)
    return .ok ⟨room.state.asStr, "extend_proposed", some votes, some needed, none⟩

/-! ### Pausing and waking -/

def applyTransition (id : String) (req : LifecycleRequest) (event : LifecycleEvent)
    (detail : Option String) : Task (Except ApiError LifecycleResponse) := do
  let some room ← perform (.getRoom id) | return .error .notFound
  let some _ ← resolveParticipant id (effectiveInstance req.toCaller)
    | return .error NOT_A_PARTICIPANT
  match Lifecycle.transition room.state event with
  | none => return .error (.conflict ("cannot " ++ event.debug ++ " from " ++ room.state.asStr))
  | some to_ =>
    let now ← perform .nowUtc
    let changed ← perform (.updateRoomState id room.state to_ now detail)
    unless changed do return .error CHANGED_CONCURRENTLY
    perform (.notify id)
    return .ok ⟨to_.asStr, none, none, none⟩

def pauseRoom (id : String) (req : LifecycleRequest) : Task (Except ApiError LifecycleResponse) :=
  applyTransition id req .pause req.reason

def wakeRoom (id : String) (req : LifecycleRequest) : Task (Except ApiError LifecycleResponse) :=
  applyTransition id req .wake none

/-! ### Waiting -/

/-- Another participant has joined. -/
def hasCounterpart (roomId handle : String) : Task Bool := do
  let participants ← perform (.listParticipants roomId)
  return participants.any (·.handle ≠ handle)

/-- A live other participant has voted, and the caller has not. -/
def proposalPending (vote : Participant → Option OffsetDateTime) (participants : List Participant)
    (handle : String) (now : OffsetDateTime) : Bool :=
  if participants.any fun p => p.handle = handle && (vote p).isSome then false
  else participants.any fun p => p.handle ≠ handle && (vote p).isSome && livePoller now p

def closeProposed (roomId handle : String) : Task Bool := do
  let now ← perform .nowUtc
  let participants ← perform (.listParticipants roomId)
  return proposalPending Participant.wantsCloseAt participants handle now

def extendProposed (roomId handle : String) : Task Bool := do
  let now ← perform .nowUtc
  let participants ← perform (.listParticipants roomId)
  return proposalPending Participant.wantsExtendAt participants handle now

/-- There are others, and every one of them has gone dark. -/
def counterpartIsStale (roomId handle : String) : Task Bool := do
  let now ← perform .nowUtc
  let participants ← perform (.listParticipants roomId)
  let others := participants.filter (·.handle ≠ handle)
  return !others.isEmpty && others.all fun p => now - p.lastPollAt > Lifecycle.GHOST_AFTER

/-- The backoff of an active `waiting_user` sentinel. -/
def activeSentinelBackoff (roomId handle : String) : Task (Option UInt32) := do
  match ← perform (.latestMessageFromOther roomId handle) with
  | none => return none
  | some m =>
    if m.msgType = .waitingUser then
      match m.severity with
      | none => return none
      | some severity =>
        let now ← perform .nowUtc
        return some (backoffSecs severity (Rfc3339.Duration.wholeSeconds (now - m.createdAt)))
    else return none

/-- The backoff of a counterpart that has read the caller's latest message. -/
def counterpartBusyBackoff (roomId handle : String) : Task (Option UInt32) := do
  let some latest ← perform (.roomLatestMessage roomId) | return none
  if latest.sender ≠ handle then return none
  let participants ← perform (.listParticipants roomId)
  if participants.any fun p => p.handle ≠ handle && latest.seq ≤ p.lastReadSeq then
    let now ← perform .nowUtc
    return some (backoffSecs .med (Rfc3339.Duration.wholeSeconds (now - latest.createdAt)))
  else return none

/-- The condition that ends a park early. -/
def waitRelevantChange (roomId handle : String) : Task Bool := do
  let room ← perform (.getRoom roomId)
  if room.elim false (·.state.halted) then return true
  if ← closeProposed roomId handle then return true
  extendProposed roomId handle

/-- The status of a wait that claimed no message, from the current state. -/
def timeoutResponse (id handle : String) (retryAfter : Option UInt32) (awayActive : Bool) :
    Task (Except ApiError WaitResponse) := do
  let some room ← perform (.getRoom id) | return .error .notFound
  if room.state.halted then return .ok (.timeout room.state.asStr none)
  if ← closeProposed id handle then
    return .ok (.timeout WaitStatus.closeProposed.asWire none)
  if ← extendProposed id handle then
    return .ok (.timeout WaitStatus.extendProposed.asWire none)
  if awayActive then return .ok (.timeout WaitStatus.pausedByTimeout.asWire retryAfter)
  if ← counterpartIsStale id handle then
    return .ok (.timeout WaitStatus.counterpartStale.asWire none)
  return .ok (.timeout WaitStatus.pausedByTimeout.asWire retryAfter)

/-- How long to park: shorter behind an away-signal, not at all behind a dark
counterpart or a pending proposal, else the full cap. -/
def parkCap (id handle : String) (fullCap : ℕ) : Task ℕ := do
  match ← activeSentinelBackoff id handle with
  | some secs => return min fullCap (secs.toNat * 1000000000)
  | none =>
    if ← counterpartIsStale id handle then return 0
    if ← closeProposed id handle then return 0
    if ← extendProposed id handle then return 0
    return fullCap

/-- The response hint, re-derived after the wake: the explicit away-signal wins
over the inferred busy counterpart. -/
def retryHint (id handle : String) (away : Option UInt32) : Task (Option UInt32) :=
  match away with
  | some secs => pure (some secs)
  | none => counterpartBusyBackoff id handle

/-- The drain of a halted room: at most one message, never a park. -/
def drainHalted (id handle : String) (state : RoomState) : Task (Except ApiError WaitResponse) := do
  match ← waitForMessage id handle 0 with
  | .message m => return .ok (.message (messageView m) false none (some state.asStr))
  | .pausedByTimeout => return .ok (.timeout state.asStr none)

def waitRoom (app : AppState) (id : String) (req : WaitRequest) :
    Task (Except ApiError WaitResponse) := do
  let some room ← perform (.getRoom id) | return .error .notFound
  let some caller ← resolveParticipant id (effectiveInstance req.toCaller)
    | return .error NOT_A_PARTICIPANT
  let now ← perform .nowUtc
  perform (.touchLastPoll caller.handle now)
  if room.state.halted then drainHalted id caller.handle room.state
  else
    unless ← hasCounterpart id caller.handle do
      return .ok (.timeout WaitStatus.awaitingCounterpart.asWire none)
    let fullCap := match req.maxWaitSecs with
      | some secs => min app.waitCap (secs.toNat * 1000000000)
      | none => app.waitCap
    let cap ← parkCap id caller.handle fullCap
    let outcome ← waitForMessageUntil id caller.handle cap (waitRelevantChange id caller.handle)
    let away ← activeSentinelBackoff id caller.handle
    let retryAfter ← retryHint id caller.handle away
    match outcome with
    | .message m =>
      let consecutive ← perform (.consecutiveMsgCount id m.seq)
      let surfaceToUser := decide ((consecutive : ℤ) = room.config.softCap.toNat - 1)
      return .ok (.message (messageView m) surfaceToUser retryAfter none)
    | .pausedByTimeout => timeoutResponse id caller.handle retryAfter away.isSome

/-! ### Browsing and sweeping -/

def roomSummary (row : Room × ℕ) : RoomSummary :=
  ⟨row.1.id, row.1.state.asStr, row.1.subject, Rfc3339.format row.1.lastActivityAt, row.2⟩

def listRooms (state : Option RoomState) (all : Bool) :
    Task (Except ApiError (List RoomSummary)) := do
  let rows ← perform (.listRooms state all)
  return .ok (rows.map roomSummary)

/-- One transition the sweep applied. -/
structure SweepOutcome where
  roomId : String
  from_ : RoomState
  to_ : RoomState
deriving DecidableEq

/-- Apply the time-based transition one room is due, if any. -/
def sweepRoom (now : OffsetDateTime) (room : Room) : Task (Option SweepOutcome) := do
  let participants ← perform (.listParticipants room.id)
  let polls := participants.map Participant.lastPollAt
  match Lifecycle.computeTimeEvent room.state room.lastActivityAt room.stateChangedAt polls now with
  | none => return none
  | some event =>
    match Lifecycle.transition room.state event with
    | none => return none
    | some to_ =>
      let changed ← perform (.updateRoomState room.id room.state to_ now none)
      return if changed then some ⟨room.id, room.state, to_⟩ else none

/-- The loop of a sweep pass. -/
def sweepRooms (now : OffsetDateTime) : List Room → Task (List SweepOutcome)
  | [] => return []
  | room :: rooms => do
    let outcome ← sweepRoom now room
    let outcomes ← sweepRooms now rooms
    return outcome.toList ++ outcomes

/-- One sweep pass at logical time `now`. -/
def sweepOnce (now : OffsetDateTime) : Task (List SweepOutcome) := do
  let rooms ← perform .listRoomsForSweep
  sweepRooms now rooms

/-- One tick of `run_sweeper`. -/
def sweepTick : Task (List SweepOutcome) := do
  let now ← perform .nowUtc
  sweepOnce now

end ChatBotChat
