/-
The daemon's database and the statements of `storage.rs` that run on it.

A table is the list of its rows in the order of their rowids; `messages` and
`events` have their rowid as primary key, so that the list is in key order and
a new row goes to its end.  Rows are never deleted except by the prune.  Each
function below is one statement, or one transaction, and takes effect at once;
`none` is a statement that fails (a corrupt row, a foreign key, a missing row)
and changes nothing.
-/
import ChatBotChat.Lifecycle
import Mathlib.Data.List.Sort

namespace ChatBotChat

/-! ### Rows -/

/-- The `config` column: JSON, whose numbers are not bounded by the column.
`close_quorum` is missing from rows older than the field. -/
structure ConfigJson where
  hardCap : ℤ
  softCap : ℤ
  closeQuorum : Option CloseQuorum
deriving DecidableEq

/-- Decoding a JSON number into a `u32` fails outside its range. -/
def decodeU32 (n : ℤ) : Option UInt32 :=
  if 0 ≤ n ∧ n < 4294967296 then some (UInt32.ofNat n.toNat) else none

/-- `serde_json::from_str` of the column. -/
def ConfigJson.decode (c : ConfigJson) : Option RoomConfig := do
  let hardCap ← decodeU32 c.hardCap
  let softCap ← decodeU32 c.softCap
  return ⟨hardCap, softCap, c.closeQuorum.getD .all⟩

/-- `serde_json::to_string` of a configuration. -/
def RoomConfig.toJson (c : RoomConfig) : ConfigJson :=
  ⟨c.hardCap.toNat, c.softCap.toNat, some c.closeQuorum⟩

/-- A row of `rooms`. -/
structure RoomRow where
  id : String
  subject : String
  startedAt : OffsetDateTime
  lastActivityAt : OffsetDateTime
  state : RoomState
  stateChangedAt : OffsetDateTime
  config : ConfigJson
  prevRoomId : Option String
deriving DecidableEq

/-- `row_to_room`: `none` is a corrupt row. -/
def rowToRoom (row : RoomRow) : Option Room := do
  let config ← row.config.decode
  return ⟨row.id, row.subject, row.startedAt, row.lastActivityAt, row.state, row.stateChangedAt,
    config, row.prevRoomId⟩

/-- The row of a new room. -/
def Room.toRow (room : Room) : RoomRow :=
  ⟨room.id, room.subject, room.startedAt, room.lastActivityAt, room.state, room.stateChangedAt,
    room.config.toJson, room.prevRoomId⟩

structure Db where
  rooms : List RoomRow
  participants : List Participant
  messages : List Message
  events : List Event

def Db.empty : Db := ⟨[], [], [], []⟩

/-- What an insert does under the table's unique keys. -/
inductive InsertOutcome where
  | inserted
  | uniqueViolation
deriving DecidableEq

/-- Whether the cap bumped, or the vote is still a pending proposal. -/
inductive ExtendOutcome where
  | extended (hardCap : UInt32)
  | proposed (votes needed : UInt32)
deriving DecidableEq

/-! ### Comparing and sorting as the database does -/

/-- `a <= b` on two timestamp columns, which is a comparison of their text. -/
def textLe (a b : OffsetDateTime) : Bool := !decide (Rfc3339.format b < Rfc3339.format a)

/-- `a < b` on two timestamp columns. -/
def textLt (a b : OffsetDateTime) : Bool := decide (Rfc3339.format a < Rfc3339.format b)

/-- `ORDER BY` a timestamp column; ties stay in the order of the rows. -/
def orderBy {α : Type} (key : α → OffsetDateTime) (rows : List α) : List α :=
  rows.insertionSort fun a b => textLe (key a) (key b)

/-- `ORDER BY` a timestamp column `DESC`; ties stay in the order of the rows. -/
def orderByDesc {α : Type} (key : α → OffsetDateTime) (rows : List α) : List α :=
  rows.insertionSort fun a b => textLe (key b) (key a)

/-- The largest of the keys, 0 if there is none: `COALESCE(MAX(…), 0)`. -/
def maxKey (keys : List ℕ) : ℕ := keys.foldr max 0

namespace Db

/-- The row of a room. -/
def roomRow (db : Db) (id : String) : Option RoomRow := db.rooms.find? (·.id = id)

def hasRoom (db : Db) (id : String) : Bool := db.rooms.any (·.id = id)

/-- `UPDATE participants SET … WHERE sel`. -/
def updateParticipants (db : Db) (sel : Participant → Bool) (f : Participant → Participant) : Db :=
  { db with participants := db.participants.map fun p => if sel p then f p else p }

/-- `UPDATE rooms SET … WHERE sel`. -/
def updateRooms (db : Db) (sel : RoomRow → Bool) (f : RoomRow → RoomRow) : Db :=
  { db with rooms := db.rooms.map fun row => if sel row then f row else row }

/-! ### Rooms -/

def createRoom (db : Db) (room : Room) : InsertOutcome × Db :=
  if db.hasRoom room.id then (.uniqueViolation, db)
  else
    (.inserted, { db with rooms := db.rooms ++ [room.toRow] })

def getRoom (db : Db) (id : String) : Option (Option Room) :=
  match db.roomRow id with
  | none => some none
  | some row => (rowToRoom row).map some

/-- Move a room from `from_` to `to_` if it is in `from_` now, and log it: one
transaction. -/
def updateRoomState (db : Db) (roomId : String) (from_ to_ : RoomState) (now : OffsetDateTime)
    (detail : Option String) : Bool × Db :=
  if db.rooms.any fun row => row.id = roomId && row.state = from_ then
    let db := db.updateRooms (fun row => row.id = roomId && row.state = from_)
      fun row => { row with state := to_, stateChangedAt := now }
    let kind := if to_ = .archived then EventKind.archive else EventKind.transition
    (true, { db with events := db.events ++
      [⟨maxKey (db.events.map Event.id) + 1, roomId, kind, some from_, some to_, detail, now⟩] })
  else (false, db)

/-- All events of a room, oldest first. -/
def listEvents (db : Db) (roomId : String) : List Event := db.events.filter (·.roomId = roomId)

def touchLastActivity (db : Db) (roomId : String) (now : OffsetDateTime) : Db :=
  db.updateRooms (·.id = roomId) fun row => { row with lastActivityAt := now }

def listRoomsForSweep (db : Db) : Option (List Room) :=
  (db.rooms.filter (·.state ≠ .archived)).mapM rowToRoom

/-- Rooms with their participant counts, newest activity first. -/
def listRooms (db : Db) (state : Option RoomState) (all : Bool) : Option (List (Room × ℕ)) :=
  let rows := match state, all with
    | some s, _ => db.rooms.filter (·.state = s)
    | none, true => db.rooms
    | none, false => db.rooms.filter (·.state ≠ .archived)
  (orderByDesc RoomRow.lastActivityAt rows).mapM fun row => do
    return (← rowToRoom row, db.participants.countP (·.roomId = row.id))

/-! ### Participants -/

/-- `handle` is the primary key, and `(room_id, instance)` is unique. -/
def createParticipant (db : Db) (p : Participant) : Option (InsertOutcome × Db) :=
  if db.participants.any fun q =>
      q.handle = p.handle || (q.roomId = p.roomId && q.inst = p.inst) then
    some (.uniqueViolation, db)
  else if db.hasRoom p.roomId then
    some (.inserted, { db with participants := db.participants ++ [p] })
  else none

def setNickname (db : Db) (handle : String) (nickname : Option String) : Db :=
  db.updateParticipants (·.handle = handle) fun p => { p with nickname := nickname }

def setCloseVote (db : Db) (handle : String) (at_ : Option OffsetDateTime) : Db :=
  db.updateParticipants (·.handle = handle) fun p => { p with wantsCloseAt := at_ }

def clearCloseVotes (db : Db) (roomId : String) : Db :=
  db.updateParticipants (·.roomId = roomId) fun p => { p with wantsCloseAt := none }

def clearExtendVote (db : Db) (handle : String) : Db :=
  db.updateParticipants (·.handle = handle) fun p => { p with wantsExtendAt := none }

def touchLastPoll (db : Db) (handle : String) (now : OffsetDateTime) : Db :=
  db.updateParticipants (·.handle = handle) fun p => { p with lastPollAt := now }

/-- Live in the eyes of the database: polled at or after the cutoff. -/
def livePoll (roomId : String) (cutoff : OffsetDateTime) (p : Participant) : Bool :=
  p.roomId = roomId && textLe cutoff p.lastPollAt

/-- Whether the extend votes of a room's live participants reach the quorum. -/
def extendQuorumMet (db : Db) (roomId : String) (cutoff : OffsetDateTime)
    (quorum : CloseQuorum) : Bool :=
  let live := db.participants.countP (livePoll roomId cutoff)
  let voted := db.participants.countP fun p => livePoll roomId cutoff p && p.wantsExtendAt.isSome
  quorum.needed live ≤ voted

/-- The first statement of `tryExtend`: the vote, which also proves presence. -/
def castExtendVote (db : Db) (voterHandle : String) (now : OffsetDateTime) : Db :=
  db.updateParticipants (·.handle = voterHandle) fun p =>
    { p with wantsExtendAt := some now, lastPollAt := now }

/-- Record an extend vote and, if a quorum of live participants has now voted,
bump the hard cap and clear the votes: one transaction.  The sum is an integer
of the database and is cut to 32 bits only in the reply. -/
def tryExtend (db : Db) (roomId voterHandle : String) (step : UInt32)
    (now ghostCutoff : OffsetDateTime) (quorum : CloseQuorum) : Option (ExtendOutcome × Db) :=
  let db := db.castExtendVote voterHandle now
  let live := db.participants.countP (livePoll roomId ghostCutoff)
  let voted := db.participants.countP fun p =>
    livePoll roomId ghostCutoff p && p.wantsExtendAt.isSome
  if db.extendQuorumMet roomId ghostCutoff quorum then
    match db.roomRow roomId with
    | none => none
    | some row =>
      let newCap := row.config.hardCap + step.toNat
      let db := db.updateRooms (·.id = roomId) fun row =>
        { row with config := { row.config with hardCap := row.config.hardCap + step.toNat } }
      some (.extended (UInt32.ofNat newCap.toNat),
        db.updateParticipants (·.roomId = roomId) fun p => { p with wantsExtendAt := none })
  else
    some (.proposed (UInt32.ofNat voted) (UInt32.ofNat (quorum.needed live)), db)

def getParticipantByInstance (db : Db) (roomId inst : String) : Option Participant :=
  db.participants.find? fun p => p.roomId = roomId && p.inst = inst

def getParticipantByHandle (db : Db) (roomId handle : String) : Option Participant :=
  db.participants.find? fun p => p.roomId = roomId && p.handle = handle

/-- The rows the prune deletes: last poll before the cutoff. -/
def prunable (roomId : String) (cutoff : OffsetDateTime) (p : Participant) : Bool :=
  p.roomId = roomId && textLt p.lastPollAt cutoff

def pruneStaleParticipants (db : Db) (roomId : String) (cutoff : OffsetDateTime) : ℕ × Db :=
  (db.participants.countP (prunable roomId cutoff),
    { db with participants := db.participants.filter fun p => !prunable roomId cutoff p })

def listParticipants (db : Db) (roomId : String) : List Participant :=
  orderBy Participant.joinedAt (db.participants.filter (·.roomId = roomId))

/-! ### Messages -/

/-- The next rowid of `messages`. -/
def nextSeq (db : Db) : ℕ := maxKey (db.messages.map Message.seq) + 1

def insertMessage (db : Db) (m : Message) : Option (Message × Db) :=
  if db.hasRoom m.roomId then some (m, { db with messages := db.messages ++ [m] }) else none

/-- Append a message of any type; never gated by the cap. -/
def createMessageTyped (db : Db) (roomId sender : String) (recipient : Option String)
    (body : String) (createdAt : OffsetDateTime) (msgType : MessageType)
    (severity : Option Severity) (questionText : Option String) : Option (Message × Db) :=
  db.insertMessage ⟨db.nextSeq, roomId, sender, recipient, body, createdAt, msgType, false,
    severity, questionText⟩

/-- The rows that count toward the caps. -/
def countsTowardCap (roomId : String) (m : Message) : Bool := m.roomId = roomId && m.msgType = .msg

def countCappedMessages (db : Db) (roomId : String) : ℕ :=
  db.messages.countP (countsTowardCap roomId)

/-- Append a `msg` if the room holds fewer than `hardCap` of them: one statement. -/
def createMessageCapped (db : Db) (roomId sender : String) (recipient : Option String)
    (body : String) (createdAt : OffsetDateTime) (fromHuman : Bool) (hardCap : ℤ) :
    Option (Option Message × Db) :=
  if (db.messages.countP fun m => m.roomId = roomId && m.msgType = .msg : ℤ) < hardCap then
    (db.insertMessage ⟨db.nextSeq, roomId, sender, recipient, body, createdAt, .msg, fromHuman,
      none, none⟩).map fun (m, db) => (some m, db)
  else some (none, db)

/-- Rows addressed to `handle` or to all, by somebody else. -/
def addressedTo (roomId handle : String) (m : Message) : Bool :=
  m.roomId = roomId && m.sender ≠ handle && (m.recipient = none || m.recipient = some handle)

/-- The oldest message after `afterSeq` that is addressed to `handle`. -/
def nextUnread (db : Db) (roomId handle : String) (afterSeq : ℕ) : Option Message :=
  db.messages.find? fun m => afterSeq < m.seq && addressedTo roomId handle m

def latestMessageFromOther (db : Db) (roomId handle : String) : Option Message :=
  (db.messages.filter fun m => m.roomId = roomId && m.sender ≠ handle).getLast?

def roomLatestMessage (db : Db) (roomId : String) : Option Message :=
  (db.messages.filter (·.roomId = roomId)).getLast?

/-- The highest `seq` in a room, or 0. -/
def currentSeq (db : Db) (roomId : String) : ℕ :=
  maxKey ((db.messages.filter (·.roomId = roomId)).map Message.seq)

/-- The rows that end a run of autonomous turns. -/
def resetsSoftCap (m : Message) : Bool :=
  (m.msgType = .msg && m.fromHuman) || m.msgType = .waitingUser

/-- The rows that lengthen it. -/
def autonomous (m : Message) : Bool := m.msgType = .msg && !m.fromHuman

/-- The highest resetting row of a room at or before `upToSeq`, or 0. -/
def resetBoundary (db : Db) (roomId : String) (upToSeq : ℕ) : ℕ :=
  maxKey ((db.messages.filter fun m =>
    m.roomId = roomId && m.seq ≤ upToSeq && resetsSoftCap m).map Message.seq)

/-- Autonomous turns since the last human input, up to `upToSeq`. -/
def consecutiveMsgCount (db : Db) (roomId : String) (upToSeq : ℕ) : ℕ :=
  db.messages.countP fun m => m.roomId = roomId && autonomous m && m.seq ≤ upToSeq &&
    db.resetBoundary roomId upToSeq < m.seq

/-- The last `limit` messages of a room at or before `maxSeq`, oldest first. -/
def recentMessagesUpTo (db : Db) (roomId : String) (maxSeq limit : ℕ) : List Message :=
  (db.messages.filter fun m => m.roomId = roomId && m.seq ≤ maxSeq).rtake limit

/-! ### The read cursor -/

def readCursor (db : Db) (handle : String) : Option ℕ :=
  (db.participants.find? (·.handle = handle)).map Participant.lastReadSeq

/-- The rows a cursor write from `cursor` matches. -/
def atCursor (handle : String) (cursor : ℕ) (p : Participant) : Bool :=
  p.handle = handle && p.lastReadSeq = cursor

/-- Compare-and-swap of the cursor: did exactly one row match? -/
def advanceCursor (db : Db) (seq : ℕ) (handle : String) (cursor : ℕ) : Bool × Db :=
  (db.participants.countP (atCursor handle cursor) == 1,
    db.updateParticipants (atCursor handle cursor) fun p => { p with lastReadSeq := seq })

end Db

end ChatBotChat
