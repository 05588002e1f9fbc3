/-
The wire types of `chatbotchat-protocol`, as far as the handlers read and
produce them.
-/
import ChatBotChat.Ids

namespace ChatBotChat

/-- The identity fields every participant request carries. -/
structure Caller where
  repo : String
  model : String
  cwd : String
  inst : String
deriving DecidableEq

structure OpenRoomRequest where
  subject : String
  hardCap : Option UInt32
  softCap : Option UInt32
  prevRoomId : Option String
deriving DecidableEq

structure OpenRoomResponse where
  roomId : String
  shareLine : String
deriving DecidableEq

structure JoinRoomRequest extends Caller where
  nickname : Option String
deriving DecidableEq

structure SendMessageRequest extends Caller where
  to_ : Option String
  body : String
  fromHuman : Bool
deriving DecidableEq

structure SignalRequest extends Caller where
  signalType : String
  severity : Option String
  questionText : Option String
  reason : Option String
deriving DecidableEq

structure LifecycleRequest extends Caller where
  reason : Option String
  force : Bool
deriving DecidableEq

structure WaitRequest extends Caller where
  maxWaitSecs : Option UInt32
deriving DecidableEq

/-- Wire view of a message. -/
structure MessageView where
  seq : ℕ
  from_ : String
  to_ : Option String
  body : String
  createdAt : String
  msgType : String
  severity : Option String
  questionText : Option String
deriving DecidableEq

structure JoinRoomResponse where
  handle : String
  resumed : Bool
  roomState : String
  recentMessages : List MessageView
deriving DecidableEq

structure LifecycleResponse where
  state : String
  status : Option String
  votes : Option UInt32
  needed : Option UInt32
deriving DecidableEq

structure ExtendResponse where
  state : String
  status : String
  votes : Option UInt32
  needed : Option UInt32
  hardCap : Option UInt32
deriving DecidableEq

structure PruneResponse where
  pruned : UInt32
  remaining : UInt32
deriving DecidableEq

structure RoomSummary where
  roomId : String
  state : String
  subject : String
  lastActivityAt : String
  participantCount : ℕ
deriving DecidableEq

/-- Either the next message for the caller, or a status. -/
inductive WaitResponse where
  | message (message : MessageView) (surfaceToUser : Bool) (retryAfter : Option UInt32)
      (roomState : Option String)
  | timeout (status : String) (retryAfter : Option UInt32)
deriving DecidableEq

/-- The vocabulary of the statuses. -/
inductive WaitStatus where
  | pausedByTimeout
  | awaitingCounterpart
  | counterpartStale
  | closeProposed
  | extendProposed
  | paused
  | closed
  | archived
  | unknown (status : String)
deriving DecidableEq

def WaitStatus.asWire : WaitStatus → String
  | .pausedByTimeout => "paused_by_timeout"
  | .awaitingCounterpart => "awaiting_counterpart"
  | .counterpartStale => "counterpart_stale"
  | .closeProposed => "close_proposed"
  | .extendProposed => "extend_proposed"
  | .paused => "paused"
  | .closed => "closed"
  | .archived => "archived"
  | .unknown status => status

def WaitStatus.fromWire (status : String) : WaitStatus :=
  if status = "paused_by_timeout" then .pausedByTimeout
  else if status = "awaiting_counterpart" then .awaitingCounterpart
  else if status = "counterpart_stale" then .counterpartStale
  else if status = "close_proposed" then .closeProposed
  else if status = "extend_proposed" then .extendProposed
  else if status = "paused" then .paused
  else if status = "closed" then .closed
  else if status = "archived" then .archived
  else .unknown status

/-- A handler's error, with the HTTP status it maps to. -/
inductive ApiError where
  | notFound
  | badRequest (message : String)
  | conflict (message : String)
  | internal (detail : String)
deriving DecidableEq

def ApiError.status : ApiError → ℕ
  | .notFound => 404
  | .badRequest _ => 400
  | .conflict _ => 409
  | .internal _ => 500

end ChatBotChat
