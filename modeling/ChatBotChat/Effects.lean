/-
What each call does to the rows of the database.

Every table evolves row by row: a call maps the rows it finds (`onRoom`,
`onParticipant`), deletes some (`prunes`) and appends at most one (`opened`,
`joined`, `landed`, `logged`).  `Effect` says this of all tables at once, and
`effect_of_exec` is the one place where the statements are unfolded.
-/
import ChatBotChat.Calls
import Mathlib.Data.List.Nodup

namespace ChatBotChat

open Interleave

namespace Call

/-- The message a call inserted. -/
def landed : (c : Call) → c.Reply → Option Message
  | .createMessageTyped .., m => some m
  | .createMessageCapped .., m => m
  | _, _ => none

/-- The room a call opened. -/
def opened : (c : Call) → c.Reply → Option RoomRow
  | .createRoom room, .inserted => some room.toRow
  | _, _ => none

/-- The participant a call minted. -/
def joined : (c : Call) → c.Reply → Option Participant
  | .createParticipant p, .inserted => some p
  | _, _ => none

/-- The audit row a call appended. -/
def logged (db : Db) : (c : Call) → c.Reply → Option Event
  | .updateRoomState id from_ to_ now detail, true =>
    some ⟨maxKey (db.events.map Event.id) + 1, id,
      if to_ = .archived then .archive else .transition, some from_, some to_, detail, now⟩
  | _, _ => none

/-- What becomes of a room. -/
def onRoom : (c : Call) → c.Reply → RoomRow → RoomRow
  | .updateRoomState id from_ to_ now _, true, row =>
    if row.id = id && row.state = from_ then { row with state := to_, stateChangedAt := now }
    else row
  | .touchLastActivity id now, _, row =>
    if row.id = id then { row with lastActivityAt := now } else row
  | .tryExtend id _ step _ _ _, .extended _, row =>
    if row.id = id then
      { row with config := { row.config with hardCap := row.config.hardCap + step.toNat } }
    else row
  | _, _, row => row

/-- The participants a call deletes. -/
def prunes : Call → Participant → Bool
  | .pruneStaleParticipants id cutoff, p => Db.prunable id cutoff p
  | _, _ => false

/-- What becomes of a participant that is not deleted. -/
def onParticipant : (c : Call) → c.Reply → Participant → Participant
  | .setNickname handle nickname, _, p =>
    if p.handle = handle then { p with nickname := nickname } else p
  | .setCloseVote handle at_, _, p =>
    if p.handle = handle then { p with wantsCloseAt := at_ } else p
  | .clearCloseVotes id, _, p => if p.roomId = id then { p with wantsCloseAt := none } else p
  | .clearExtendVote handle, _, p =>
    if p.handle = handle then { p with wantsExtendAt := none } else p
  | .touchLastPoll handle now, _, p =>
    if p.handle = handle then { p with lastPollAt := now } else p
  | .tryExtend id voter _ now _ _, outcome, p =>
    let p := if p.handle = voter then { p with wantsExtendAt := some now, lastPollAt := now } else p
    match outcome with
    | .extended _ => if p.roomId = id then { p with wantsExtendAt := none } else p
    | .proposed _ _ => p
  | .advanceCursor seq handle cursor, _, p =>
    if Db.atCursor handle cursor p then { p with lastReadSeq := seq } else p
  | _, _, p => p

end Call

/-- What a call with its reply did to the database and the clocks. -/
structure Effect (s : Store) (c : Call) (r : c.Reply) (s' : Store) : Prop where
  messages : s'.db.messages = s.db.messages ++ (c.landed r).toList
  events : s'.db.events = s.db.events ++ (c.logged s.db r).toList
  rooms : s'.db.rooms = s.db.rooms.map (c.onRoom r) ++ (c.opened r).toList
  participants : s'.db.participants =
    (s.db.participants.filter fun p => !c.prunes p).map (c.onParticipant r) ++
      (c.joined r).toList
  utc : s'.utc = s.utc
  instant : s'.instant = s.instant

variable {s s' : Store} {sess : List UInt16}

/-- A call that leaves the participants alone. -/
theorem participants_frame {c : Call} {r : c.Reply} (hjoined : c.joined r = none)
    (hprunes : ∀ p, c.prunes p = false) (hpart : ∀ p, c.onParticipant r p = p)
    (rows : List Participant) :
    rows = (rows.filter fun p => !c.prunes p).map (c.onParticipant r) ++ (c.joined r).toList := by
  simp [hjoined, hprunes, funext hpart]

/-- A call that leaves the rooms alone. -/
theorem rooms_frame {c : Call} {r : c.Reply} (hopened : c.opened r = none)
    (hroom : ∀ row, c.onRoom r row = row) (rows : List RoomRow) :
    rows = rows.map (c.onRoom r) ++ (c.opened r).toList := by
  simp [hopened, funext hroom]

/-- A call that changes no table. -/
theorem Effect.of_db_eq {c : Call} {r : c.Reply} (hdb : s'.db = s.db) (hutc : s'.utc = s.utc)
    (hinstant : s'.instant = s.instant) (hlanded : c.landed r = none)
    (hlogged : c.logged s.db r = none) (hopened : c.opened r = none) (hjoined : c.joined r = none)
    (hroom : ∀ row, c.onRoom r row = row) (hprunes : ∀ p, c.prunes p = false)
    (hpart : ∀ p, c.onParticipant r p = p) : Effect s c r s' where
  messages := by simp [hdb, hlanded]
  events := by simp [hdb, hlogged]
  rooms := by rw [hdb, ← rooms_frame hopened hroom]
  participants := by rw [hdb, ← participants_frame hjoined hprunes hpart]
  utc := hutc
  instant := hinstant

/-- A call that rewrites participants. -/
theorem Effect.of_participants {c : Call} {r : c.Reply} {f : Participant → Participant}
    (hlanded : c.landed r = none) (hlogged : c.logged s.db r = none) (hopened : c.opened r = none)
    (hjoined : c.joined r = none) (hroom : ∀ row, c.onRoom r row = row)
    (hprunes : ∀ p, c.prunes p = false) (hpart : ∀ p, c.onParticipant r p = f p) :
    Effect s c r { s with db := { s.db with participants := s.db.participants.map f } } where
  messages := by simp [hlanded]
  events := by simp [hlogged]
  rooms := rooms_frame hopened hroom _
  participants := by simp [hjoined, hprunes, funext hpart]
  utc := rfl
  instant := rfl

/-- A call that rewrites rooms and logs at most one event. -/
theorem Effect.of_rooms {c : Call} {r : c.Reply} {f : RoomRow → RoomRow} {events : List Event}
    (hlanded : c.landed r = none) (hopened : c.opened r = none) (hjoined : c.joined r = none)
    (hprunes : ∀ p, c.prunes p = false) (hpart : ∀ p, c.onParticipant r p = p)
    (hevents : events = s.db.events ++ (c.logged s.db r).toList)
    (hroom : ∀ row, c.onRoom r row = f row) :
    Effect s c r { s with db := { s.db with rooms := s.db.rooms.map f, events := events } } where
  messages := by simp [hlanded]
  events := hevents
  rooms := by simp [hopened, funext hroom]
  participants := participants_frame hjoined hprunes hpart _
  utc := rfl
  instant := rfl

/-- A call that inserts a message. -/
theorem Effect.of_message {c : Call} {r : c.Reply} {m : Message} (hlanded : c.landed r = some m)
    (hlogged : c.logged s.db r = none) (hopened : c.opened r = none) (hjoined : c.joined r = none)
    (hroom : ∀ row, c.onRoom r row = row) (hprunes : ∀ p, c.prunes p = false)
    (hpart : ∀ p, c.onParticipant r p = p) :
    Effect s c r { s with db := { s.db with messages := s.db.messages ++ [m] } } where
  messages := by simp [hlanded]
  events := by simp [hlogged]
  rooms := rooms_frame hopened hroom _
  participants := participants_frame hjoined hprunes hpart _
  utc := rfl
  instant := rfl

theorem effect_createRoom {room : Room} :
    Effect s (.createRoom room) (s.db.createRoom room).1
      { s with db := (s.db.createRoom room).2 } := by
  unfold Db.createRoom
  split
  · exact .of_db_eq rfl rfl rfl rfl rfl rfl rfl (fun _ => rfl) (fun _ => rfl) fun _ => rfl
  · exact {
      messages := (List.append_nil _).symm
      events := (List.append_nil _).symm
      rooms := congrArg (· ++ [room.toRow]) (List.map_id _).symm
      participants := participants_frame rfl (fun _ => rfl) (fun _ => rfl) _
      utc := rfl
      instant := rfl }

theorem effect_updateRoomState {id : String} {from_ to_ : RoomState} {now : OffsetDateTime}
    {detail : Option String} :
    Effect s (.updateRoomState id from_ to_ now detail)
      (s.db.updateRoomState id from_ to_ now detail).1
      { s with db := (s.db.updateRoomState id from_ to_ now detail).2 } := by
  unfold Db.updateRoomState
  split
  · exact .of_rooms rfl rfl rfl (fun _ => rfl) (fun _ => rfl) rfl fun _ => rfl
  · exact .of_db_eq rfl rfl rfl rfl rfl rfl rfl (fun _ => rfl) (fun _ => rfl) fun _ => rfl

theorem effect_createParticipant {p : Participant} {r : InsertOutcome} {db : Db}
    (h : s.db.createParticipant p = some (r, db)) :
    Effect s (.createParticipant p) r { s with db := db } := by
  unfold Db.createParticipant at h
  split at h
  · cases h
    exact .of_db_eq rfl rfl rfl rfl rfl rfl rfl (fun _ => rfl) (fun _ => rfl) fun _ => rfl
  · split at h
    · cases h
      exact {
        messages := (List.append_nil _).symm
        events := (List.append_nil _).symm
        rooms := rooms_frame rfl (fun _ => rfl) _
        participants := by
          have hkept : (s.db.participants.filter fun q => !(Call.createParticipant p).prunes q) =
              s.db.participants := List.filter_eq_self.mpr fun _ _ => rfl
          rw [hkept]
          exact congrArg (· ++ [p]) (List.map_id _).symm
        utc := rfl
        instant := rfl }
    · cases h

theorem effect_tryExtend {id voter : String} {step : UInt32} {now cutoff : OffsetDateTime}
    {quorum : CloseQuorum} {r : ExtendOutcome} {db : Db}
    (h : s.db.tryExtend id voter step now cutoff quorum = some (r, db)) :
    Effect s (.tryExtend id voter step now cutoff quorum) r { s with db := db } := by
  simp only [Db.tryExtend] at h
  split at h
  · split at h
    · cases h
    · cases h
      constructor <;> simp [Call.landed, Call.logged, Call.onRoom, Call.opened, Call.joined,
        Call.prunes, Call.onParticipant, Db.updateParticipants, Db.updateRooms, Db.castExtendVote,
        Function.comp_def]
  · cases h
    exact .of_participants rfl rfl rfl rfl (fun _ => rfl) (fun _ => rfl)
      fun p => by simp [Call.onParticipant]

theorem effect_pruneStaleParticipants {id : String} {cutoff : OffsetDateTime} :
    Effect s (.pruneStaleParticipants id cutoff) (s.db.pruneStaleParticipants id cutoff).1
      { s with db := (s.db.pruneStaleParticipants id cutoff).2 } where
  messages := (List.append_nil _).symm
  events := (List.append_nil _).symm
  rooms := rooms_frame rfl (fun _ => rfl) _
  participants := ((List.append_nil _).trans (List.map_id _)).symm
  utc := rfl
  instant := rfl

theorem effect_createMessageTyped {id sender : String} {recipient : Option String} {body : String}
    {createdAt : OffsetDateTime} {msgType : MessageType} {severity : Option Severity}
    {question : Option String} {m : Message} {db : Db}
    (h : s.db.createMessageTyped id sender recipient body createdAt msgType severity question =
      some (m, db)) :
    Effect s (.createMessageTyped id sender recipient body createdAt msgType severity question) m
      { s with db := db } := by
  simp only [Db.createMessageTyped, Db.insertMessage] at h
  split at h
  · cases h
    exact .of_message rfl rfl rfl rfl (fun _ => rfl) (fun _ => rfl) fun _ => rfl
  · cases h

theorem effect_createMessageCapped {id sender : String} {recipient : Option String} {body : String}
    {createdAt : OffsetDateTime} {fromHuman : Bool} {cap : ℤ} {m : Option Message} {db : Db}
    (h : s.db.createMessageCapped id sender recipient body createdAt fromHuman cap =
      some (m, db)) :
    Effect s (.createMessageCapped id sender recipient body createdAt fromHuman cap) m
      { s with db := db } := by
  simp only [Db.createMessageCapped, Db.insertMessage] at h
  split at h
  · split at h
    · cases h
      exact .of_message rfl rfl rfl rfl (fun _ => rfl) (fun _ => rfl) fun _ => rfl
    · cases h
  · cases h
    exact .of_db_eq rfl rfl rfl rfl rfl rfl rfl (fun _ => rfl) (fun _ => rfl) fun _ => rfl

theorem done_of_tryWrite {β : Type} {x : Option (β × Db)} {r : β} (h : s.tryWrite x = .done r s') :
    ∃ db, x = some (r, db) ∧ s' = { s with db := db } := by
  cases x with
  | none => cases h
  | some x =>
    cases h
    exact ⟨_, rfl, rfl⟩

theorem done_of_tryRead {β : Type} {x : Option β} {r : β} (h : s.tryRead x = .done r s') :
    x = some r ∧ s' = s := by
  cases x with
  | none => cases h
  | some x =>
    cases h
    exact ⟨rfl, rfl⟩

theorem done_of_read {β : Type} {x r : β} (h : s.read x = .done r s') : x = r ∧ s' = s := by
  cases h
  exact ⟨rfl, rfl⟩

theorem done_of_recv {rx deadline : ℕ} {r : RecvOutcome} (h : s.recv rx deadline = .done r s') :
    s'.db = s.db ∧ s'.utc = s.utc ∧ s'.instant = s.instant := by
  simp only [Store.recv] at h
  split_ifs at h <;> cases h <;> exact ⟨rfl, rfl, rfl⟩

/-- **Every executed call has its effect.** -/
theorem effect_of_exec {c : Call} {r : c.Reply} (h : Store.exec sess c s = .done r s') :
    Effect s c r s' := by
  have hread : ∀ c r, c.landed r = none → c.logged s.db r = none → c.opened r = none →
      c.joined r = none → (∀ row, c.onRoom r row = row) → (∀ p, c.prunes p = false) →
      (∀ p, c.onParticipant r p = p) → s' = s → Effect s c r s' := by
    rintro c r h₁ h₂ h₃ h₄ h₅ h₆ h₇ rfl
    exact .of_db_eq rfl rfl rfl h₁ h₂ h₃ h₄ h₅ h₆ h₇
  cases c with
  | createRoom room => cases h; exact effect_createRoom
  | updateRoomState id from_ to_ now detail => cases h; exact effect_updateRoomState
  | touchLastActivity id now =>
    cases h
    exact .of_rooms (s := s) rfl rfl rfl (fun _ => rfl) (fun _ => rfl) (List.append_nil _).symm
      fun row => by simp [Call.onRoom]
  | createParticipant p =>
    obtain ⟨db, hdb, rfl⟩ := done_of_tryWrite h
    exact effect_createParticipant hdb
  | setNickname handle nickname =>
    cases h
    exact .of_participants rfl rfl rfl rfl (fun _ => rfl) (fun _ => rfl)
      fun p => by simp [Call.onParticipant]
  | setCloseVote handle at_ =>
    cases h
    exact .of_participants rfl rfl rfl rfl (fun _ => rfl) (fun _ => rfl)
      fun p => by simp [Call.onParticipant]
  | clearCloseVotes id =>
    cases h
    exact .of_participants rfl rfl rfl rfl (fun _ => rfl) (fun _ => rfl)
      fun p => by simp [Call.onParticipant]
  | clearExtendVote handle =>
    cases h
    exact .of_participants rfl rfl rfl rfl (fun _ => rfl) (fun _ => rfl)
      fun p => by simp [Call.onParticipant]
  | touchLastPoll handle now =>
    cases h
    exact .of_participants rfl rfl rfl rfl (fun _ => rfl) (fun _ => rfl)
      fun p => by simp [Call.onParticipant]
  | tryExtend id voter step now cutoff quorum =>
    obtain ⟨db, hdb, rfl⟩ := done_of_tryWrite h
    exact effect_tryExtend hdb
  | pruneStaleParticipants id cutoff => cases h; exact effect_pruneStaleParticipants
  | createMessageTyped id sender recipient body createdAt msgType severity question =>
    obtain ⟨db, hdb, rfl⟩ := done_of_tryWrite h
    exact effect_createMessageTyped hdb
  | createMessageCapped id sender recipient body createdAt fromHuman cap =>
    obtain ⟨db, hdb, rfl⟩ := done_of_tryWrite h
    exact effect_createMessageCapped hdb
  | advanceCursor seq handle cursor =>
    cases h
    exact .of_participants rfl rfl rfl rfl (fun _ => rfl) (fun _ => rfl) fun _ => rfl
  | subscribe id =>
    cases h
    exact .of_db_eq rfl rfl rfl rfl rfl rfl rfl (fun _ => rfl) (fun _ => rfl) fun _ => rfl
  | notify id =>
    cases h
    exact .of_db_eq rfl rfl rfl rfl rfl rfl rfl (fun _ => rfl) (fun _ => rfl) fun _ => rfl
  | recv rx deadline =>
    obtain ⟨hdb, hutc, hinstant⟩ := done_of_recv h
    exact .of_db_eq hdb hutc hinstant rfl rfl rfl rfl (fun _ => rfl) (fun _ => rfl) fun _ => rfl
  | getRoom id =>
    exact hread _ _ rfl rfl rfl rfl (fun _ => rfl) (fun _ => rfl) (fun _ => rfl)
      (done_of_tryRead h).2
  | listRoomsForSweep =>
    exact hread _ _ rfl rfl rfl rfl (fun _ => rfl) (fun _ => rfl) (fun _ => rfl)
      (done_of_tryRead h).2
  | listRooms state all =>
    exact hread _ _ rfl rfl rfl rfl (fun _ => rfl) (fun _ => rfl) (fun _ => rfl)
      (done_of_tryRead h).2
  | nowUtc | instantNow | randSessCandidates | getParticipantByInstance _ _
  | getParticipantByHandle _ _ | listParticipants _ | nextUnread _ _ _ | latestMessageFromOther _ _
  | roomLatestMessage _ | currentSeq _ | consecutiveMsgCount _ _ | recentMessagesUpTo _ _ _
  | readCursor _ =>
    cases h
    exact hread _ _ rfl rfl rfl rfl (fun _ => rfl) (fun _ => rfl) (fun _ => rfl) rfl

end ChatBotChat
