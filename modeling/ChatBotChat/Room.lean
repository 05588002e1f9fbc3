/-
Rooms, participants, messages and events: the rows of the daemon's tables, as
`room.rs`, `participant.rs`, `message.rs` and `event.rs` declare them.

Timestamps are instants; the text the tables hold is `Rfc3339.format` of them,
and statements of the database that compare timestamps compare that text
(`Storage.lean`).
-/
import ChatBotChat.Rfc3339.Text

namespace ChatBotChat

abbrev OffsetDateTime : Type := Rfc3339.Instant
abbrev Duration : Type := Rfc3339.Duration

/-- Lifecycle state of a room. -/
inductive RoomState where
  | active
  | idle
  | paused
  | stale
  | closed
  | archived
deriving DecidableEq

def RoomState.asStr : RoomState → String
  | .active => "active"
  | .idle => "idle"
  | .paused => "paused"
  | .stale => "stale"
  | .closed => "closed"
  | .archived => "archived"

/-- The states in which a room takes no traffic and `wait` does not park. -/
def RoomState.halted : RoomState → Bool
  | .paused | .closed | .archived => true
  | .active | .idle | .stale => false

/-- How many live participants must vote before a close or an extend lands. -/
inductive CloseQuorum where
  | all
  | majority
deriving DecidableEq

/-- Votes needed, given the number of live participants; at least one. -/
def CloseQuorum.needed (q : CloseQuorum) (live : ℕ) : ℕ :=
  let n := match q with
    | .all => live
    | .majority => live / 2 + 1
  max n 1

theorem CloseQuorum.needed_all (live : ℕ) : CloseQuorum.all.needed live = max live 1 := rfl

/-- Under the quorum of all, the votes of the live suffice exactly when somebody
is live and everybody who is has voted. -/
theorem CloseQuorum.needed_all_le_votes {α : Type} (live voted : α → Bool) (rows : List α) :
    CloseQuorum.all.needed (rows.countP live) ≤ rows.countP (fun p => live p && voted p) ↔
      (∃ p ∈ rows, live p = true) ∧ ∀ p ∈ rows, live p = true → voted p = true := by
  have hsplit : rows.countP live =
      rows.countP (fun p => live p && voted p) + rows.countP (fun p => live p && !voted p) := by
    rw [List.countP_eq_countP_filter_add rows live voted, List.countP_filter, List.countP_filter]
  have hall : rows.countP (fun p => live p && !voted p) = 0 ↔
      ∀ p ∈ rows, live p = true → voted p = true := by
    simp [List.countP_eq_zero]
  rw [needed_all, max_le_iff, ← hall, ← List.countP_pos_iff (p := live)]
  omega

/-- Per-room caps and close policy. -/
structure RoomConfig where
  hardCap : UInt32
  softCap : UInt32
  closeQuorum : CloseQuorum
deriving DecidableEq

def RoomConfig.default : RoomConfig := ⟨20, 4, .all⟩

structure Room where
  id : String
  subject : String
  startedAt : OffsetDateTime
  lastActivityAt : OffsetDateTime
  state : RoomState
  /-- When the room last entered `state`. -/
  stateChangedAt : OffsetDateTime
  config : RoomConfig
  prevRoomId : Option String
deriving DecidableEq

structure Participant where
  handle : String
  roomId : String
  repo : String
  model : String
  cwd : String
  /-- The identity key within the room. -/
  inst : String
  joinedAt : OffsetDateTime
  lastPollAt : OffsetDateTime
  /-- The read cursor: the `seq` of the last message consumed by `wait`. -/
  lastReadSeq : ℕ
  nickname : Option String
  wantsCloseAt : Option OffsetDateTime
  wantsExtendAt : Option OffsetDateTime
deriving DecidableEq

/-- The kind of a message row; only `msg` counts toward the caps. -/
inductive MessageType where
  | msg
  | waitingUser
  | blockerRealWork
  | fold
  | close
  | extend
deriving DecidableEq

namespace MessageType

def asStr : MessageType → String
  | .msg => "msg"
  | .waitingUser => "waiting_user"
  | .blockerRealWork => "blocker_real_work"
  | .fold => "fold"
  | .close => "close"
  | .extend => "extend"

def parse (s : String) : Option MessageType :=
  if s = "msg" then some .msg
  else if s = "waiting_user" then some .waitingUser
  else if s = "blocker_real_work" then some .blockerRealWork
  else if s = "fold" then some .fold
  else if s = "close" then some .close
  else if s = "extend" then some .extend
  else none

end MessageType

/-- Severity of a `waiting_user` sentinel. -/
inductive Severity where
  | low
  | med
  | high
deriving DecidableEq

namespace Severity

def asStr : Severity → String
  | .low => "low"
  | .med => "med"
  | .high => "high"

def parse (s : String) : Option Severity :=
  if s = "low" then some .low
  else if s = "med" then some .med
  else if s = "high" then some .high
  else none

end Severity

structure Message where
  /-- Primary key, and the long-poll read cursor. -/
  seq : ℕ
  roomId : String
  sender : String
  /-- `none` is a broadcast. -/
  recipient : Option String
  body : String
  createdAt : OffsetDateTime
  msgType : MessageType
  /-- The sender folded its user's input into this turn. -/
  fromHuman : Bool
  severity : Option Severity
  questionText : Option String
deriving DecidableEq

/-- `archive` for a transition into `archived`, `transition` otherwise. -/
inductive EventKind where
  | transition
  | archive
deriving DecidableEq

/-- A row of the append-only lifecycle log. -/
structure Event where
  id : ℕ
  roomId : String
  kind : EventKind
  fromState : Option RoomState
  toState : Option RoomState
  detail : Option String
  at_ : OffsetDateTime
deriving DecidableEq

end ChatBotChat
