/-
The calls a request handler makes, and what each of them does to the daemon's
shared state: the statements of the database, the wakeup hub, the two clocks
and the source of random handle suffixes.

The hub keeps one broadcast channel a room.  A receiver counts the pings sent
to its room since it subscribed and not yet received; a receiver that is more
than the channel's capacity behind is told so once (`lagged`).
-/
import ChatBotChat.Interleave.System
import ChatBotChat.Storage

namespace ChatBotChat

open Interleave

/-! ### The hub -/

structure Receiver where
  roomId : String
  pending : ℕ
deriving DecidableEq

/-- Every receiver ever subscribed; a receiver is named by its place. -/
structure Hub where
  receivers : List Receiver

/-- `broadcast::channel(16)`. -/
def CHANNEL_CAPACITY : ℕ := 16

/-- What `recv` under a timeout ends with. -/
inductive RecvOutcome where
  | ping
  | lagged
  | closed
  | elapsed
deriving DecidableEq

namespace Hub

def subscribe (hub : Hub) (roomId : String) : ℕ × Hub :=
  (hub.receivers.length, ⟨hub.receivers ++ [⟨roomId, 0⟩]⟩)

def notify (hub : Hub) (roomId : String) : Hub :=
  ⟨hub.receivers.map fun rx => if rx.roomId = roomId then { rx with pending := rx.pending + 1 }
    else rx⟩

def setPending (hub : Hub) (rx n : ℕ) : Hub :=
  ⟨hub.receivers.modify rx fun r => { r with pending := n }⟩

def pending (hub : Hub) (rx : ℕ) : ℕ := (hub.receivers[rx]?.map Receiver.pending).getD 0

end Hub

/-! ### Calls -/

inductive Call where
  | nowUtc
  | instantNow
  | randSessCandidates
  | createRoom (room : Room)
  | getRoom (id : String)
  | updateRoomState (roomId : String) (from_ to_ : RoomState) (now : OffsetDateTime)
      (detail : Option String)
  | touchLastActivity (roomId : String) (now : OffsetDateTime)
  | listRoomsForSweep
  | listRooms (state : Option RoomState) (all : Bool)
  | createParticipant (p : Participant)
  | setNickname (handle : String) (nickname : Option String)
  | setCloseVote (handle : String) (at_ : Option OffsetDateTime)
  | clearCloseVotes (roomId : String)
  | clearExtendVote (handle : String)
  | touchLastPoll (handle : String) (now : OffsetDateTime)
  | tryExtend (roomId voterHandle : String) (step : UInt32) (now ghostCutoff : OffsetDateTime)
      (quorum : CloseQuorum)
  | getParticipantByInstance (roomId inst : String)
  | getParticipantByHandle (roomId handle : String)
  | pruneStaleParticipants (roomId : String) (cutoff : OffsetDateTime)
  | listParticipants (roomId : String)
  | createMessageTyped (roomId sender : String) (recipient : Option String) (body : String)
      (createdAt : OffsetDateTime) (msgType : MessageType) (severity : Option Severity)
      (questionText : Option String)
  | createMessageCapped (roomId sender : String) (recipient : Option String) (body : String)
      (createdAt : OffsetDateTime) (fromHuman : Bool) (hardCap : ℤ)
  | nextUnread (roomId handle : String) (afterSeq : ℕ)
  | latestMessageFromOther (roomId handle : String)
  | roomLatestMessage (roomId : String)
  | currentSeq (roomId : String)
  | consecutiveMsgCount (roomId : String) (upToSeq : ℕ)
  | recentMessagesUpTo (roomId : String) (maxSeq limit : ℕ)
  | readCursor (handle : String)
  | advanceCursor (seq : ℕ) (handle : String) (cursor : ℕ)
  | subscribe (roomId : String)
  | notify (roomId : String)
  | recv (rx deadline : ℕ)
deriving DecidableEq

abbrev Call.Reply : Call → Type
  | .nowUtc => OffsetDateTime
  | .instantNow => ℕ
  | .randSessCandidates => List UInt16
  | .createRoom _ => InsertOutcome
  | .getRoom _ => Option Room
  | .updateRoomState .. => Bool
  | .touchLastActivity .. => Unit
  | .listRoomsForSweep => List Room
  | .listRooms .. => List (Room × ℕ)
  | .createParticipant _ => InsertOutcome
  | .setNickname .. => Unit
  | .setCloseVote .. => Unit
  | .clearCloseVotes _ => Unit
  | .clearExtendVote _ => Unit
  | .touchLastPoll .. => Unit
  | .tryExtend .. => ExtendOutcome
  | .getParticipantByInstance .. => Option Participant
  | .getParticipantByHandle .. => Option Participant
  | .pruneStaleParticipants .. => ℕ
  | .listParticipants _ => List Participant
  | .createMessageTyped .. => Message
  | .createMessageCapped .. => Option Message
  | .nextUnread .. => Option Message
  | .latestMessageFromOther .. => Option Message
  | .roomLatestMessage _ => Option Message
  | .currentSeq _ => ℕ
  | .consecutiveMsgCount .. => ℕ
  | .recentMessagesUpTo .. => List Message
  | .readCursor _ => Option ℕ
  | .advanceCursor .. => Bool
  | .subscribe _ => ℕ
  | .notify _ => Unit
  | .recv .. => RecvOutcome

/-- The daemon's shared state: its database, its hub, the wall clock and the
monotonic clock (both in nanoseconds). -/
structure Store where
  db : Db
  hub : Hub
  utc : OffsetDateTime
  instant : ℕ

namespace Store

/-- A statement that only reads. -/
def read {β : Type} (s : Store) (r : β) : Exec β Store := .done r s

/-- A statement that only reads and can meet a corrupt row. -/
def tryRead {β : Type} (s : Store) : Option β → Exec β Store
  | none => .failed
  | some r => .done r s

/-- A statement that writes. -/
def write {β : Type} (s : Store) (r : β) (db : Db) : Exec β Store := .done r { s with db := db }

/-- A statement that writes and can fail. -/
def tryWrite {β : Type} (s : Store) : Option (β × Db) → Exec β Store
  | none => .failed
  | some (r, db) => s.write r db

/-- Receive a ping, or time out; a receiver with nothing pending and time left
stays blocked. -/
def recv (s : Store) (rx deadline : ℕ) : Exec RecvOutcome Store :=
  let n := s.hub.pending rx
  if n = 0 then
    if deadline ≤ s.instant then .done .elapsed s else .blocked
  else if CHANNEL_CAPACITY < n then
    .done .lagged { s with hub := s.hub.setPending rx CHANNEL_CAPACITY }
  else .done .ping { s with hub := s.hub.setPending rx (n - 1) }

/-- The effect of a call; `sess` are the random suffixes drawn, if it draws any. -/
def exec (sess : List UInt16) : (c : Call) → Store → Exec c.Reply Store
  | .nowUtc, s => s.read s.utc
  | .instantNow, s => s.read s.instant
  | .randSessCandidates, s => s.read sess
  | .createRoom room, s => s.write (s.db.createRoom room).1 (s.db.createRoom room).2
  | .getRoom id, s => s.tryRead (s.db.getRoom id)
  | .updateRoomState roomId from_ to_ now detail, s =>
    s.write (s.db.updateRoomState roomId from_ to_ now detail).1
      (s.db.updateRoomState roomId from_ to_ now detail).2
  | .touchLastActivity roomId now, s => s.write () (s.db.touchLastActivity roomId now)
  | .listRoomsForSweep, s => s.tryRead s.db.listRoomsForSweep
  | .listRooms state all, s => s.tryRead (s.db.listRooms state all)
  | .createParticipant p, s => s.tryWrite (s.db.createParticipant p)
  | .setNickname handle nickname, s => s.write () (s.db.setNickname handle nickname)
  | .setCloseVote handle at_, s => s.write () (s.db.setCloseVote handle at_)
  | .clearCloseVotes roomId, s => s.write () (s.db.clearCloseVotes roomId)
  | .clearExtendVote handle, s => s.write () (s.db.clearExtendVote handle)
  | .touchLastPoll handle now, s => s.write () (s.db.touchLastPoll handle now)
  | .tryExtend roomId voter step now cutoff quorum, s =>
    s.tryWrite (s.db.tryExtend roomId voter step now cutoff quorum)
  | .getParticipantByInstance roomId inst, s => s.read (s.db.getParticipantByInstance roomId inst)
  | .getParticipantByHandle roomId handle, s => s.read (s.db.getParticipantByHandle roomId handle)
  | .pruneStaleParticipants roomId cutoff, s =>
    s.write (s.db.pruneStaleParticipants roomId cutoff).1
      (s.db.pruneStaleParticipants roomId cutoff).2
  | .listParticipants roomId, s => s.read (s.db.listParticipants roomId)
  | .createMessageTyped roomId sender recipient body createdAt msgType severity question, s =>
    s.tryWrite (s.db.createMessageTyped roomId sender recipient body createdAt msgType severity
      question)
  | .createMessageCapped roomId sender recipient body createdAt fromHuman hardCap, s =>
    s.tryWrite (s.db.createMessageCapped roomId sender recipient body createdAt fromHuman hardCap)
  | .nextUnread roomId handle afterSeq, s => s.read (s.db.nextUnread roomId handle afterSeq)
  | .latestMessageFromOther roomId handle, s => s.read (s.db.latestMessageFromOther roomId handle)
  | .roomLatestMessage roomId, s => s.read (s.db.roomLatestMessage roomId)
  | .currentSeq roomId, s => s.read (s.db.currentSeq roomId)
  | .consecutiveMsgCount roomId upToSeq, s => s.read (s.db.consecutiveMsgCount roomId upToSeq)
  | .recentMessagesUpTo roomId maxSeq limit, s =>
    s.read (s.db.recentMessagesUpTo roomId maxSeq limit)
  | .readCursor handle, s => s.read (s.db.readCursor handle)
  | .advanceCursor seq handle cursor, s =>
    s.write (s.db.advanceCursor seq handle cursor).1 (s.db.advanceCursor seq handle cursor).2
  | .subscribe roomId, s =>
    .done (s.hub.subscribe roomId).1 { s with hub := (s.hub.subscribe roomId).2 }
  | .notify roomId, s => .done () { s with hub := s.hub.notify roomId }
  | .recv rx deadline, s => s.recv rx deadline

/-- Time passes; neither clock goes back. -/
def tick (t : OffsetDateTime × ℕ) (s : Store) : Option Store :=
  if s.utc ≤ t.1 ∧ s.instant ≤ t.2 then some { s with utc := t.1, instant := t.2 } else none

end Store

end ChatBotChat
