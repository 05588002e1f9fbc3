/-
The bodies of requests and responses.

Each of them is a record whose members are those of the struct, in its order; which of
them may be missing is as its attributes say.  The numbers that a handler counts with are
those of an `i64` here.
-/
import ChatBotChat.JsonRecord
import ChatBotChat.Wire

namespace ChatBotChat.Wire

open JsonCodec

variable {σ : Type}

/-! ### Requests -/

/-- The members that all requests of participants start with. -/
def callerForm (caller : σ → Caller) : Form σ Caller :=
  (Form.pure Caller.mk).and (.always "repo".toList text fun s => (caller s).repo)
    |>.and (.always "model".toList text fun s => (caller s).model)
    |>.and (.always "cwd".toList text fun s => (caller s).cwd)
    |>.and (.orDefault "instance".toList text "" fun s => (caller s).inst)

def openRoomRequest : RecordForm OpenRoomRequest where
  form := (Form.pure OpenRoomRequest.mk).and (.always "subject".toList text (·.subject))
    |>.and (.nullableOrDefault "hard_cap".toList uint32 (·.hardCap))
    |>.and (.nullableOrDefault "soft_cap".toList uint32 (·.softCap))
    |>.and (.nullableOrDefault "prev_room_id".toList text (·.prevRoomId))
  nodup := by decide
  whole _ := rfl

def joinRoomRequest : RecordForm JoinRoomRequest where
  form := (Form.pure JoinRoomRequest.mk).and (callerForm (·.toCaller))
    |>.and (.skipped "nickname".toList text (·.nickname))
  nodup := by decide
  whole _ := rfl

def sendMessageRequest : RecordForm SendMessageRequest where
  form := (Form.pure SendMessageRequest.mk).and (callerForm (·.toCaller))
    |>.and (.nullableOrDefault "to".toList text (·.to_))
    |>.and (.always "body".toList text (·.body))
    |>.and (.orDefault "from_human".toList flag false (·.fromHuman))
  nodup := by decide
  whole _ := rfl

def signalRequest : RecordForm SignalRequest where
  form := (Form.pure SignalRequest.mk).and (callerForm (·.toCaller))
    |>.and (.always "type".toList text (·.signalType))
    |>.and (.nullableOrDefault "severity".toList text (·.severity))
    |>.and (.nullableOrDefault "question_text".toList text (·.questionText))
    |>.and (.nullableOrDefault "reason".toList text (·.reason))
  nodup := by decide
  whole _ := rfl

def lifecycleRequest : RecordForm LifecycleRequest where
  form := (Form.pure LifecycleRequest.mk).and (callerForm (·.toCaller))
    |>.and (.nullableOrDefault "reason".toList text (·.reason))
    |>.and (.orDefault "force".toList flag false (·.force))
  nodup := by decide
  whole _ := rfl

def extendRequest : RecordForm Caller where
  form := callerForm id
  nodup := by decide
  whole _ := rfl

/-- The wait's parameters come in the query. -/
def waitRequest : RecordForm WaitRequest where
  form := (Form.pure WaitRequest.mk).and (callerForm (·.toCaller))
    |>.and (.skipped "max_wait_secs".toList uint32Text (·.maxWaitSecs))
  nodup := by decide
  whole _ := rfl

/-! ### Responses -/

def MessageView.codec : Codec MessageView where
  encode := MessageView.encode
  decode := MessageView.decode
  decode_encode view := by
    have hback := view.decode_older []
    rwa [older_nil] at hback
  encode_ne_null _ := nofun

structure JoinRoomResponse where
  handle : String
  resumed : Bool
  roomState : String
  recentMessages : List MessageView
deriving DecidableEq

structure RoomSummary where
  roomId : String
  state : String
  subject : String
  lastActivityAt : String
  participantCount : Int64
deriving DecidableEq

structure ParticipantView where
  handle : String
  repo : String
  model : String
  cwd : String
  joinedAt : String
  secondsSincePoll : Int64
  stale : Bool
  pollLive : Bool
  nickname : Option String
deriving DecidableEq

structure RoomStatus where
  id : String
  subject : String
  state : String
  startedAt : String
  lastActivityAt : String
  participants : List ParticipantView
deriving DecidableEq

structure RoomTranscript where
  id : String
  subject : String
  state : String
  startedAt : String
  lastActivityAt : String
  hardCap : UInt32
  softCap : UInt32
  hardCapCount : Int64
  softCapConsecutive : Int64
  participants : List ParticipantView
  messages : List MessageView
deriving DecidableEq

def openRoomResponse : RecordForm OpenRoomResponse where
  form := (Form.pure OpenRoomResponse.mk).and (.always "room_id".toList text (·.roomId))
    |>.and (.always "share_line".toList text (·.shareLine))
  nodup := by decide
  whole _ := rfl

def joinRoomResponse : RecordForm JoinRoomResponse where
  form := (Form.pure JoinRoomResponse.mk).and (.always "handle".toList text (·.handle))
    |>.and (.always "resumed".toList flag (·.resumed))
    |>.and (.always "room_state".toList text (·.roomState))
    |>.and (.always "recent_messages".toList MessageView.codec.list (·.recentMessages))
  nodup := by decide
  whole _ := rfl

/-- The response to a send and to a signal. -/
def seqResponse : RecordForm Int64 where
  form := .always "seq".toList int64 id
  nodup := by decide
  whole _ := rfl

def lifecycleResponse : RecordForm LifecycleResponse where
  form := (Form.pure LifecycleResponse.mk).and (.always "state".toList text (·.state))
    |>.and (.skipped "status".toList text (·.status))
    |>.and (.skipped "votes".toList uint32 (·.votes))
    |>.and (.skipped "needed".toList uint32 (·.needed))
  nodup := by decide
  whole _ := rfl

def extendResponse : RecordForm ExtendResponse where
  form := (Form.pure ExtendResponse.mk).and (.always "state".toList text (·.state))
    |>.and (.always "status".toList text (·.status))
    |>.and (.skipped "votes".toList uint32 (·.votes))
    |>.and (.skipped "needed".toList uint32 (·.needed))
    |>.and (.skipped "hard_cap".toList uint32 (·.hardCap))
  nodup := by decide
  whole _ := rfl

def pruneResponse : RecordForm PruneResponse where
  form := (Form.pure PruneResponse.mk).and (.always "pruned".toList uint32 (·.pruned))
    |>.and (.always "remaining".toList uint32 (·.remaining))
  nodup := by decide
  whole _ := rfl

def roomSummary : RecordForm RoomSummary where
  form := (Form.pure RoomSummary.mk).and (.always "room_id".toList text (·.roomId))
    |>.and (.always "state".toList text (·.state))
    |>.and (.always "subject".toList text (·.subject))
    |>.and (.always "last_activity_at".toList text (·.lastActivityAt))
    |>.and (.always "participant_count".toList int64 (·.participantCount))
  nodup := by decide
  whole _ := rfl

def participantView : RecordForm ParticipantView where
  form := (Form.pure ParticipantView.mk).and (.always "handle".toList text (·.handle))
    |>.and (.always "repo".toList text (·.repo))
    |>.and (.always "model".toList text (·.model))
    |>.and (.always "cwd".toList text (·.cwd))
    |>.and (.always "joined_at".toList text (·.joinedAt))
    |>.and (.always "seconds_since_poll".toList int64 (·.secondsSincePoll))
    |>.and (.always "stale".toList flag (·.stale))
    |>.and (.orDefault "poll_live".toList flag false (·.pollLive))
    |>.and (.skipped "nickname".toList text (·.nickname))
  nodup := by decide
  whole _ := rfl

def roomStatus : RecordForm RoomStatus where
  form := (Form.pure RoomStatus.mk).and (.always "id".toList text (·.id))
    |>.and (.always "subject".toList text (·.subject))
    |>.and (.always "state".toList text (·.state))
    |>.and (.always "started_at".toList text (·.startedAt))
    |>.and (.always "last_activity_at".toList text (·.lastActivityAt))
    |>.and (.always "participants".toList participantView.codec.list (·.participants))
  nodup := by decide
  whole _ := rfl

def roomTranscript : RecordForm RoomTranscript where
  form := (Form.pure RoomTranscript.mk).and (.always "id".toList text (·.id))
    |>.and (.always "subject".toList text (·.subject))
    |>.and (.always "state".toList text (·.state))
    |>.and (.always "started_at".toList text (·.startedAt))
    |>.and (.always "last_activity_at".toList text (·.lastActivityAt))
    |>.and (.always "hard_cap".toList uint32 (·.hardCap))
    |>.and (.always "soft_cap".toList uint32 (·.softCap))
    |>.and (.always "hard_cap_count".toList int64 (·.hardCapCount))
    |>.and (.always "soft_cap_consecutive".toList int64 (·.softCapConsecutive))
    |>.and (.always "participants".toList participantView.codec.list (·.participants))
    |>.and (.always "messages".toList MessageView.codec.list (·.messages))
  nodup := by decide
  whole _ := rfl

/-- The text of `ErrorEnvelope`. -/
def errorEnvelope : RecordForm String where
  form := .always "error".toList text id
  nodup := by decide
  whole _ := rfl

end ChatBotChat.Wire
