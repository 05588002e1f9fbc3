/-
What holds of the database in every run.

* `WellFormed` — keys are unique, messages and events are in key order;
  kept by every call (`WellFormed.exec`);
* `Later` — nothing is lost but participants: messages and events only grow at
  the end, rooms persist, and their caps never fall (`later_of_exec`);
* `Reachable.history`, `History.seen` — a reachable daemon's trace is a history
  of its store from the empty database, and a request's log is a part of it.
-/
import ChatBotChat.Daemon
import ChatBotChat.Effects

namespace ChatBotChat

open Interleave

variable {s s' : Store} {sess : List UInt16} {c : Call} {r : c.Reply}

/-! ### Keys -/

theorem le_maxKey : ∀ {keys : List ℕ} {k : ℕ}, k ∈ keys → k ≤ maxKey keys := by
  intro keys
  induction keys with
  | nil => simp
  | cons key keys ih =>
    intro k hk
    rcases List.mem_cons.mp hk with rfl | hk
    · exact le_max_left _ _
    · exact (ih hk).trans (le_max_right _ _)

theorem maxKey_lt {n : ℕ} (hn : 0 < n) : ∀ {keys : List ℕ}, maxKey keys < n ↔ ∀ k ∈ keys, k < n := by
  intro keys
  induction keys with
  | nil => simpa [maxKey] using hn
  | cons key keys ih =>
    rw [List.forall_mem_cons, ← ih]
    exact max_lt_iff

/-- A key above the largest keeps the keys increasing. -/
theorem pairwise_append_maxKey {keys : List ℕ} (h : keys.Pairwise (· < ·)) :
    (keys ++ [maxKey keys + 1]).Pairwise (· < ·) := by
  rw [List.pairwise_append]
  refine ⟨h, List.pairwise_singleton _ _, fun a ha b hb => ?_⟩
  obtain rfl := List.mem_singleton.mp hb
  exact Nat.lt_succ_of_le (le_maxKey ha)

theorem Db.lt_nextSeq {db : Db} {m : Message} (h : m ∈ db.messages) : m.seq < db.nextSeq :=
  Nat.lt_succ_of_le (le_maxKey (List.mem_map_of_mem h))

theorem Db.hasRoom_iff {db : Db} {id : String} : db.hasRoom id = true ↔ ∃ row ∈ db.rooms, row.id = id := by
  simp [Db.hasRoom]

/-! ### What a call keeps of a row -/

namespace Call

/-- The state a call leaves a room in. -/
def nextState : (c : Call) → c.Reply → String → RoomState → RoomState
  | .updateRoomState id' from_ to_ _ _, true, id, state =>
    if id = id' && state = from_ then to_ else state
  | _, _, _, state => state

/-- What a call adds to a room's cap. -/
def bump : (c : Call) → c.Reply → String → ℕ
  | .tryExtend id' _ step _ _ _, .extended _, id => if id = id' then step.toNat else 0
  | _, _, _ => 0

/-- A call changes a room's state and its cap, and nothing else that matters. -/
theorem onRoom_spec (row : RoomRow) :
    (c.onRoom r row).id = row.id ∧ (c.onRoom r row).state = c.nextState r row.id row.state ∧
      (c.onRoom r row).config = { row.config with
        hardCap := row.config.hardCap + c.bump r row.id } ∧
      (c.onRoom r row).subject = row.subject ∧ (c.onRoom r row).startedAt = row.startedAt := by
  cases c
  case updateRoomState =>
    cases r
    · simp [onRoom, nextState, bump]
    · simp only [onRoom, nextState, bump]
      split <;> simp
  case touchLastActivity =>
    simp only [onRoom, nextState, bump]
    split <;> simp
  case tryExtend =>
    cases r
    · simp only [onRoom, nextState, bump]
      split <;> simp
    · simp [onRoom, nextState, bump]
  all_goals simp [onRoom, nextState, bump]

@[simp] theorem onRoom_id (row : RoomRow) : (c.onRoom r row).id = row.id := (onRoom_spec row).1

@[simp] theorem onRoom_state (row : RoomRow) :
    (c.onRoom r row).state = c.nextState r row.id row.state := (onRoom_spec row).2.1

@[simp] theorem onRoom_config (row : RoomRow) : (c.onRoom r row).config =
    { row.config with hardCap := row.config.hardCap + c.bump r row.id } := (onRoom_spec row).2.2.1

@[simp] theorem onRoom_subject (row : RoomRow) : (c.onRoom r row).subject = row.subject :=
  (onRoom_spec row).2.2.2.1

@[simp] theorem onRoom_startedAt (row : RoomRow) : (c.onRoom r row).startedAt = row.startedAt :=
  (onRoom_spec row).2.2.2.2

/-- A call keeps what identifies a participant. -/
theorem onParticipant_spec (p : Participant) :
    (c.onParticipant r p).handle = p.handle ∧ (c.onParticipant r p).roomId = p.roomId ∧
      (c.onParticipant r p).inst = p.inst ∧ (c.onParticipant r p).joinedAt = p.joinedAt := by
  cases c
  case tryExtend =>
    cases r <;> simp only [onParticipant] <;> split_ifs <;> simp
  all_goals
    simp only [onParticipant]
    try split
  all_goals simp

@[simp] theorem onParticipant_handle (p : Participant) :
    (c.onParticipant r p).handle = p.handle := (onParticipant_spec p).1

@[simp] theorem onParticipant_roomId (p : Participant) :
    (c.onParticipant r p).roomId = p.roomId := (onParticipant_spec p).2.1

@[simp] theorem onParticipant_inst (p : Participant) :
    (c.onParticipant r p).inst = p.inst := (onParticipant_spec p).2.2.1

end Call

/-! ### What an insert found -/

theorem Db.mem_of_insertMessage {db db' : Db} {m m' : Message}
    (h : db.insertMessage m = some (m', db')) : m' = m ∧ db.hasRoom m.roomId = true := by
  unfold Db.insertMessage at h
  split at h
  · rename_i hroom
    cases h
    exact ⟨rfl, hroom⟩
  · cases h

/-- The row a call inserts, if it does. -/
def Call.row (db : Db) : Call → Option Message
  | .createMessageTyped id sender recipient body createdAt msgType severity question =>
    some ⟨db.nextSeq, id, sender, recipient, body, createdAt, msgType, false, severity, question⟩
  | .createMessageCapped id sender recipient body createdAt fromHuman _ =>
    some ⟨db.nextSeq, id, sender, recipient, body, createdAt, .msg, fromHuman, none, none⟩
  | _ => none

/-- A message lands as its call says, in a room that exists. -/
theorem landed_row (h : Store.exec sess c s = .done r s') {m : Message}
    (hm : c.landed r = some m) : c.row s.db = some m ∧ s.db.hasRoom m.roomId = true := by
  cases c
  case createMessageTyped =>
    obtain ⟨db, hdb, rfl⟩ := done_of_tryWrite h
    obtain rfl := Option.some_inj.mp hm
    obtain ⟨rfl, hroom⟩ := Db.mem_of_insertMessage hdb
    exact ⟨rfl, hroom⟩
  case createMessageCapped =>
    obtain ⟨db, hdb, rfl⟩ := done_of_tryWrite h
    obtain rfl : r = some m := hm
    simp only [Db.createMessageCapped] at hdb
    split at hdb
    · obtain ⟨⟨m', db'⟩, hins, heq⟩ := Option.map_eq_some_iff.mp hdb
      cases heq
      obtain ⟨rfl, hroom⟩ := Db.mem_of_insertMessage hins
      exact ⟨rfl, hroom⟩
    · cases hdb
  all_goals cases hm

/-- A message lands under the next key, in a room that exists. -/
theorem landed_spec (h : Store.exec sess c s = .done r s') {m : Message}
    (hm : c.landed r = some m) : m.seq = s.db.nextSeq ∧ s.db.hasRoom m.roomId = true := by
  obtain ⟨hrow, hroom⟩ := landed_row h hm
  refine ⟨?_, hroom⟩
  cases c
  case createMessageTyped =>
    obtain rfl := Option.some_inj.mp hrow
    rfl
  case createMessageCapped =>
    obtain rfl := Option.some_inj.mp hrow
    rfl
  all_goals cases hrow

/-- A room is opened under an id that was free. -/
theorem opened_spec (h : Store.exec sess c s = .done r s') {row : RoomRow}
    (hrow : c.opened r = some row) : s.db.hasRoom row.id = false := by
  cases c
  case createRoom room =>
    have hr : (s.db.createRoom room).1 = r := by cases h; rfl
    unfold Db.createRoom at hr
    split at hr
    · subst hr
      cases hrow
    · rename_i hfree
      subst hr
      obtain rfl := Option.some_inj.mp hrow
      exact Bool.eq_false_iff.mpr hfree
  all_goals cases hrow

theorem opened_createRoom {row : RoomRow} (hrow : c.opened r = some row) :
    c.landed r = none ∧ ∃ room, c = .createRoom room ∧ row = room.toRow := by
  cases c
  case createRoom room =>
    cases r
    · obtain rfl := Option.some_inj.mp hrow
      exact ⟨rfl, room, rfl, rfl⟩
    · cases hrow
  all_goals cases hrow

/-- A participant is minted under a handle and an instance that were free, in a
room that exists. -/
theorem joined_spec (h : Store.exec sess c s = .done r s') {p : Participant}
    (hp : c.joined r = some p) : s.db.hasRoom p.roomId = true ∧
      ∀ q ∈ s.db.participants, q.handle ≠ p.handle ∧ ¬ (q.roomId = p.roomId ∧ q.inst = p.inst) := by
  cases c
  case createParticipant p' =>
    obtain ⟨db, hdb, rfl⟩ := done_of_tryWrite h
    unfold Db.createParticipant at hdb
    split at hdb
    · cases hdb
      cases hp
    · rename_i hfree
      split at hdb
      · rename_i hroom
        cases hdb
        obtain rfl := Option.some_inj.mp hp
        refine ⟨hroom, fun q hq => ?_⟩
        simp only [List.any_eq_true, not_exists, not_and] at hfree
        have := hfree q hq
        simpa [not_or] using this
      · cases hdb
  all_goals cases hp

/-- A transition is logged where a room of that id was in the state it left. -/
theorem logged_spec (h : Store.exec sess c s = .done r s') {ev : Event}
    (hev : c.logged s.db r = some ev) : ev.id = maxKey (s.db.events.map Event.id) + 1 ∧
      ∃ id from_ to_ now detail, c = .updateRoomState id from_ to_ now detail ∧ r ≍ true ∧
        ev.roomId = id ∧ ev.fromState = some from_ ∧ ev.toState = some to_ ∧
        ev.kind = (if to_ = .archived then .archive else .transition) ∧
        ∃ row ∈ s.db.rooms, row.id = id ∧ row.state = from_ := by
  cases c
  case updateRoomState id from_ to_ now detail =>
    have hr : (s.db.updateRoomState id from_ to_ now detail).1 = r := by cases h; rfl
    unfold Db.updateRoomState at hr
    split at hr
    · rename_i hany
      subst hr
      cases hev
      obtain ⟨row, hrow, hmatch⟩ := List.any_eq_true.mp hany
      rw [Bool.and_eq_true, decide_eq_true_eq, decide_eq_true_eq] at hmatch
      exact ⟨rfl, id, from_, to_, now, detail, rfl, HEq.rfl, rfl, rfl, rfl, rfl, row, hrow, hmatch⟩
    · subst hr
      cases hev
  all_goals cases hev

/-! ### What a read saw -/

theorem decodeU32_spec {n : ℤ} {u : UInt32} (h : decodeU32 n = some u) : (u.toNat : ℤ) = n := by
  unfold decodeU32 at h
  split at h
  · rename_i hn
    obtain rfl := Option.some_inj.mp h
    have hlt : n.toNat < UInt32.size := by
      change n.toNat < 4294967296
      omega
    rw [UInt32.toNat_ofNat_of_lt' hlt]
    omega
  · cases h

/-- A decoded room shows its row. -/
theorem rowToRoom_spec {row : RoomRow} {room : Room} (h : rowToRoom row = some room) :
    room.id = row.id ∧ room.state = row.state ∧ (room.config.hardCap.toNat : ℤ) = row.config.hardCap ∧
      (room.config.softCap.toNat : ℤ) = row.config.softCap ∧
      room.config.closeQuorum = row.config.closeQuorum.getD .all := by
  simp only [rowToRoom, ConfigJson.decode, Option.bind_eq_bind, Option.pure_def,
    Option.bind_eq_some_iff, Option.some_inj] at h
  obtain ⟨config, ⟨hardCap, hhard, softCap, hsoft, rfl⟩, rfl⟩ := h
  exact ⟨rfl, rfl, decodeU32_spec hhard, decodeU32_spec hsoft, rfl⟩

theorem Db.getRoom_spec {db : Db} {id : String} {room : Room} (h : db.getRoom id = some (some room)) :
    ∃ row, db.roomRow id = some row ∧ rowToRoom row = some room := by
  unfold Db.getRoom at h
  split at h
  · cases h
  · rename_i row hrow
    obtain ⟨room', hroom', heq⟩ := Option.map_eq_some_iff.mp h
    cases heq
    exact ⟨row, hrow, hroom'⟩

/-- The calls that leave the database as it is. -/
def Call.keepsDb : Call → Bool
  | .nowUtc | .instantNow | .randSessCandidates | .getRoom _ | .listRoomsForSweep | .listRooms _ _
  | .getParticipantByInstance _ _ | .getParticipantByHandle _ _ | .listParticipants _
  | .nextUnread _ _ _ | .latestMessageFromOther _ _ | .roomLatestMessage _ | .currentSeq _
  | .consecutiveMsgCount _ _ | .recentMessagesUpTo _ _ _ | .readCursor _ | .subscribe _
  | .notify _ | .recv _ _ => true
  | _ => false

theorem db_of_keepsDb (hc : c.keepsDb = true) (h : Store.exec sess c s = .done r s') :
    s'.db = s.db := by
  cases c
  case getRoom id => rw [(done_of_tryRead h).2]
  case listRoomsForSweep => rw [(done_of_tryRead h).2]
  case listRooms state all => rw [(done_of_tryRead h).2]
  case recv rx deadline => exact (done_of_recv h).1
  all_goals first | (cases h; rfl) | cases hc

/-! ### Well-formed databases -/

/-- Keys are unique, and rows with a rowid are in its order. -/
structure Db.WellFormed (db : Db) : Prop where
  rooms : (db.rooms.map RoomRow.id).Nodup
  handles : (db.participants.map Participant.handle).Nodup
  instances : (db.participants.map fun p => (p.roomId, p.inst)).Nodup
  homes : ∀ p ∈ db.participants, db.hasRoom p.roomId = true
  seqs : (db.messages.map Message.seq).Pairwise (· < ·)
  posted : ∀ m ∈ db.messages, 0 < m.seq ∧ db.hasRoom m.roomId = true
  eventIds : (db.events.map Event.id).Pairwise (· < ·)

theorem Db.wellFormed_empty : Db.empty.WellFormed := by
  constructor <;> simp [Db.empty]

theorem Db.WellFormed.roomRow_eq {db : Db} (hwf : db.WellFormed) {row : RoomRow}
    (hrow : row ∈ db.rooms) : db.roomRow row.id = some row := by
  obtain ⟨newer, older, hsplit⟩ := List.append_of_mem hrow
  have hnodup := hwf.rooms
  rw [hsplit, List.map_append, List.map_cons, List.nodup_append] at hnodup
  have hskip : ∀ row' ∈ newer, ¬ (row'.id = row.id) := fun row' hrow' =>
    hnodup.2.2 _ (List.mem_map_of_mem hrow') _ List.mem_cons_self
  rw [Db.roomRow, hsplit, List.find?_append, List.find?_eq_none.mpr (by simpa using hskip)]
  simp

theorem Db.mem_of_roomRow {db : Db} {id : String} {row : RoomRow} (h : db.roomRow id = some row) :
    row ∈ db.rooms ∧ row.id = id :=
  ⟨List.mem_of_find?_eq_some h, by simpa using List.find?_some h⟩

theorem mem_listParticipants {db : Db} {id : String} {p : Participant} :
    p ∈ db.listParticipants id ↔ p ∈ db.participants ∧ p.roomId = id := by
  rw [Db.listParticipants, orderBy, List.mem_insertionSort, List.mem_filter, decide_eq_true_eq]

/-- Rows of one id are one row. -/
theorem Db.WellFormed.room_unique {db : Db} (hwf : db.WellFormed) {row row' : RoomRow}
    (hrow : row ∈ db.rooms) (hrow' : row' ∈ db.rooms) (hid : row.id = row'.id) : row = row' :=
  Option.some_inj.mp ((hwf.roomRow_eq hrow).symm.trans (hid ▸ hwf.roomRow_eq hrow'))

/-- Rows of one handle are one row. -/
theorem Db.WellFormed.participant_unique {db : Db} (hwf : db.WellFormed) {p q : Participant}
    (hp : p ∈ db.participants) (hq : q ∈ db.participants) (hpq : p.handle = q.handle) : p = q :=
  List.inj_on_of_nodup_map hwf.handles hp hq hpq

/-- A row that alone meets a test is the one the test finds. -/
theorem find?_eq_of_unique {α : Type} {l : List α} {f : α → Bool} {x : α} (hx : x ∈ l) (hf : f x = true)
    (hunique : ∀ y ∈ l, f y = true → y = x) : l.find? f = some x := by
  cases hfind : l.find? f with
  | none => exact absurd hf (List.find?_eq_none.mp hfind x hx)
  | some y => rw [hunique y (List.mem_of_find?_eq_some hfind) (List.find?_some hfind)]

/-- Who is found under an instance has it. -/
theorem Db.getParticipantByInstance_spec {db : Db} {id inst : String} {p : Participant}
    (h : db.getParticipantByInstance id inst = some p) :
    p ∈ db.participants ∧ p.roomId = id ∧ p.inst = inst := by
  have hmatch := List.find?_some h
  rw [Bool.and_eq_true, decide_eq_true_eq, decide_eq_true_eq] at hmatch
  exact ⟨List.mem_of_find?_eq_some h, hmatch⟩

/-- Who is found under a handle has it. -/
theorem Db.getParticipantByHandle_spec {db : Db} {id handle : String} {p : Participant}
    (h : db.getParticipantByHandle id handle = some p) :
    p ∈ db.participants ∧ p.roomId = id ∧ p.handle = handle := by
  have hmatch := List.find?_some h
  rw [Bool.and_eq_true, decide_eq_true_eq, decide_eq_true_eq] at hmatch
  exact ⟨List.mem_of_find?_eq_some h, hmatch⟩

theorem Db.getParticipantByInstance_eq_none {db : Db} {id inst : String} :
    db.getParticipantByInstance id inst = none ↔
      ∀ p ∈ db.participants, ¬ (p.roomId = id ∧ p.inst = inst) := by
  simp [Db.getParticipantByInstance, List.find?_eq_none]

theorem Db.getParticipantByHandle_eq_none {db : Db} {id handle : String} :
    db.getParticipantByHandle id handle = none ↔
      ∀ p ∈ db.participants, ¬ (p.roomId = id ∧ p.handle = handle) := by
  simp [Db.getParticipantByHandle, List.find?_eq_none]

/-- A participant is found under its instance. -/
theorem Db.WellFormed.getParticipantByInstance_eq {db : Db} (hwf : db.WellFormed) {p : Participant}
    (hp : p ∈ db.participants) : db.getParticipantByInstance p.roomId p.inst = some p := by
  refine find?_eq_of_unique hp (by simp) fun q hq hmatch => ?_
  rw [Bool.and_eq_true, decide_eq_true_eq, decide_eq_true_eq] at hmatch
  refine List.inj_on_of_nodup_map hwf.instances hq hp ?_
  rw [hmatch.1, hmatch.2]

/-- A participant is found under its handle. -/
theorem Db.WellFormed.getParticipantByHandle_eq {db : Db} (hwf : db.WellFormed) {p : Participant}
    (hp : p ∈ db.participants) : db.getParticipantByHandle p.roomId p.handle = some p := by
  refine find?_eq_of_unique hp (by simp) fun q hq hmatch => ?_
  rw [Bool.and_eq_true, decide_eq_true_eq, decide_eq_true_eq] at hmatch
  exact hwf.participant_unique hq hp hmatch.2

/-- A room that is there is found. -/
theorem Db.getRoom_ne_none {db : Db} {id : String} {room : Option Room} (hroom : db.hasRoom id = true)
    (h : db.getRoom id = some room) : room ≠ none := by
  rintro rfl
  obtain ⟨row, hrow, hid⟩ := Db.hasRoom_iff.mp hroom
  unfold Db.getRoom at h
  split at h
  · rename_i hnone
    exact List.find?_eq_none.mp hnone row hrow (decide_eq_true hid)
  · obtain ⟨room, -, hne⟩ := Option.map_eq_some_iff.mp h
    cases hne

/-- Rooms are never lost. -/
theorem Effect.hasRoom (h : Effect s c r s') {id : String} (hid : s.db.hasRoom id = true) :
    s'.db.hasRoom id = true := by
  obtain ⟨row, hrow, rfl⟩ := Db.hasRoom_iff.mp hid
  refine Db.hasRoom_iff.mpr ⟨c.onRoom r row, ?_, Call.onRoom_id row⟩
  rw [h.rooms]
  exact List.mem_append_left _ (List.mem_map_of_mem hrow)

/-- The participants after a call: kept rows, and at most one new one. -/
theorem Effect.mem_participants (h : Effect s c r s') {p : Participant} :
    p ∈ s'.db.participants ↔
      (∃ q ∈ s.db.participants, c.prunes q = false ∧ c.onParticipant r q = p) ∨
        c.joined r = some p := by
  rw [h.participants, List.mem_append, List.mem_map, Option.mem_toList]
  simp only [List.mem_filter, Bool.not_eq_true', and_assoc]

/-- The rooms after a call: the old rows, and at most one new one. -/
theorem Effect.mem_rooms (h : Effect s c r s') {row : RoomRow} :
    row ∈ s'.db.rooms ↔
      (∃ row₀ ∈ s.db.rooms, c.onRoom r row₀ = row) ∨ c.opened r = some row := by
  rw [h.rooms, List.mem_append, List.mem_map, Option.mem_toList]

/-- **Every call keeps the database well-formed.** -/
theorem Db.WellFormed.exec (hwf : s.db.WellFormed) (h : Store.exec sess c s = .done r s') :
    s'.db.WellFormed := by
  have heff := effect_of_exec h
  constructor
  case rooms =>
    rw [heff.rooms, List.map_append, List.map_map]
    have hids : RoomRow.id ∘ c.onRoom r = RoomRow.id := funext Call.onRoom_id
    rw [hids]
    cases hrow : c.opened r with
    | none => simpa using hwf.rooms
    | some row =>
      have hfree := opened_spec h hrow
      refine hwf.rooms.append (List.nodup_singleton _) ?_
      intro id hid hid'
      obtain rfl := List.mem_singleton.mp hid'
      obtain ⟨row', hrow', heq⟩ := List.mem_map.mp hid
      rw [Db.hasRoom_iff.mpr ⟨row', hrow', heq⟩] at hfree
      cases hfree
  case handles =>
    rw [heff.participants, List.map_append, List.map_map]
    have hhandles : Participant.handle ∘ c.onParticipant r = Participant.handle :=
      funext Call.onParticipant_handle
    rw [hhandles]
    have hkept := hwf.handles.sublist (List.Sublist.map _ (List.filter_sublist (p := fun p => !c.prunes p)))
    cases hp : c.joined r with
    | none => simpa using hkept
    | some p =>
      have hfree := (joined_spec h hp).2
      refine hkept.append (List.nodup_singleton _) ?_
      intro handle hmem hmem'
      obtain rfl := List.mem_singleton.mp hmem'
      obtain ⟨q, hq, heq⟩ := List.mem_map.mp hmem
      exact (hfree q (List.mem_of_mem_filter hq)).1 heq
  case instances =>
    rw [heff.participants, List.map_append, List.map_map]
    have hinst : (fun p : Participant => (p.roomId, p.inst)) ∘ c.onParticipant r =
        fun p => (p.roomId, p.inst) := by
      funext p
      simp
    rw [hinst]
    have hkept := hwf.instances.sublist (List.Sublist.map _ (List.filter_sublist (p := fun p => !c.prunes p)))
    cases hp : c.joined r with
    | none => simpa using hkept
    | some p =>
      have hfree := (joined_spec h hp).2
      refine hkept.append (List.nodup_singleton _) ?_
      intro key hmem hmem'
      obtain rfl := List.mem_singleton.mp hmem'
      obtain ⟨q, hq, heq⟩ := List.mem_map.mp hmem
      exact (hfree q (List.mem_of_mem_filter hq)).2 (Prod.ext_iff.mp heq)
  case homes =>
    intro p hp
    rcases heff.mem_participants.mp hp with ⟨q, hq, _, rfl⟩ | hjoined
    · rw [Call.onParticipant_roomId]
      exact heff.hasRoom (hwf.homes q hq)
    · exact heff.hasRoom (joined_spec h hjoined).1
  case seqs =>
    rw [heff.messages, List.map_append]
    cases hm : c.landed r with
    | none => simpa using hwf.seqs
    | some m =>
      have hseq := (landed_spec h hm).1
      simp only [Option.toList_some, List.map_cons, List.map_nil, hseq]
      exact pairwise_append_maxKey hwf.seqs
  case posted =>
    intro m hm
    rw [heff.messages, List.mem_append, Option.mem_toList] at hm
    rcases hm with hm | hm
    · exact ⟨(hwf.posted m hm).1, heff.hasRoom (hwf.posted m hm).2⟩
    · obtain ⟨hseq, hroom⟩ := landed_spec h hm
      exact ⟨hseq ▸ Nat.succ_pos _, heff.hasRoom hroom⟩
  case eventIds =>
    rw [heff.events, List.map_append]
    cases hev : c.logged s.db r with
    | none => simpa using hwf.eventIds
    | some ev =>
      have hid := (logged_spec h hev).1
      simp only [Option.toList_some, List.map_cons, List.map_nil, hid]
      exact pairwise_append_maxKey hwf.eventIds

/-! ### What is never lost -/

/-- `s'` is a later state than `s`. -/
structure Later (s s' : Store) : Prop where
  messages : s.db.messages <+: s'.db.messages
  events : s.db.events <+: s'.db.events
  rooms : ∀ row ∈ s.db.rooms, ∃ row' ∈ s'.db.rooms, row'.id = row.id ∧
    row.config.hardCap ≤ row'.config.hardCap ∧ row'.config.softCap = row.config.softCap ∧
      row'.config.closeQuorum = row.config.closeQuorum
  utc : s.utc ≤ s'.utc
  instant : s.instant ≤ s'.instant

theorem Later.refl (s : Store) : Later s s :=
  ⟨List.prefix_refl _, List.prefix_refl _, fun row hrow => ⟨row, hrow, rfl, le_rfl, rfl, rfl⟩,
    le_rfl, le_rfl⟩

theorem Later.trans {s'' : Store} (h₁ : Later s s') (h₂ : Later s' s'') : Later s s'' where
  messages := h₁.messages.trans h₂.messages
  events := h₁.events.trans h₂.events
  rooms := by
    intro row hrow
    obtain ⟨row', hrow', hid, hcap, hsoft, hquorum⟩ := h₁.rooms row hrow
    obtain ⟨row'', hrow'', hid', hcap', hsoft', hquorum'⟩ := h₂.rooms row' hrow'
    exact ⟨row'', hrow'', hid'.trans hid, hcap.trans hcap', hsoft'.trans hsoft,
      hquorum'.trans hquorum⟩
  utc := h₁.utc.trans h₂.utc
  instant := h₁.instant.trans h₂.instant

theorem later_of_exec (h : Store.exec sess c s = .done r s') : Later s s' where
  messages := (effect_of_exec h).messages ▸ List.prefix_append _ _
  events := (effect_of_exec h).events ▸ List.prefix_append _ _
  rooms := by
    intro row hrow
    refine ⟨c.onRoom r row, (effect_of_exec h).mem_rooms.mpr (.inl ⟨row, hrow, rfl⟩), ?_⟩
    simp
  utc := (effect_of_exec h).utc.ge
  instant := (effect_of_exec h).instant.ge

theorem tick_spec {t : OffsetDateTime × ℕ} (h : Store.tick t s = some s') :
    s'.db = s.db ∧ s'.hub = s.hub ∧ s.utc ≤ s'.utc ∧ s.instant ≤ s'.instant := by
  unfold Store.tick at h
  split at h
  · rename_i hle
    obtain rfl := Option.some_inj.mp h
    exact ⟨rfl, rfl, hle⟩
  · cases h

theorem later_of_tick {t : OffsetDateTime × ℕ} (h : Store.tick t s = some s') : Later s s' := by
  obtain ⟨hdb, _, hutc, hinstant⟩ := tick_spec h
  refine ⟨hdb ▸ List.prefix_refl _, hdb ▸ List.prefix_refl _, ?_, hutc, hinstant⟩
  rw [hdb]
  exact (Later.refl s).rooms

/-! ### Histories of the daemon -/

/-- `tr` leads from `s` to `s'`. -/
abbrev History (app : AppState) (s : Store) (tr : List Step) (s' : Store) : Prop :=
  System.History (daemon app) s tr s'

variable {app : AppState} {tr : List Step}

theorem History.later (h : History app s tr s') : Later s s' :=
  System.History.closure Later Later.refl Later.trans (fun _ _ _ _ _ => later_of_exec)
    (fun _ _ _ => later_of_tick) h

theorem History.wellFormed (h : History app s tr s') (hwf : s.db.WellFormed) : s'.db.WellFormed :=
  System.History.invariant (fun s => s.db.WellFormed) (fun _ _ _ _ _ h hwf => hwf.exec h)
    (fun _ _ _ h hwf => (tick_spec h).1 ▸ hwf) h hwf

/-- **Induction along a history**: a fact about what has been recorded and the
store holds everywhere if time keeps it and every recorded call does. -/
theorem History.induction (hwf : s.db.WellFormed) {P : List Step → Store → Prop}
    (hstart : P [] s)
    (htick : ∀ {tr' s₁ s₂}, tr' <:+ tr → s₂.db = s₁.db → s₂.hub = s₁.hub → s₁.utc ≤ s₂.utc →
      s₁.instant ≤ s₂.instant → P tr' s₁ → P tr' s₂)
    (hcall : ∀ {e tr' sess}, e :: tr' <:+ tr →
      Store.exec sess e.call e.before = .done e.reply e.after → e.before.db.WellFormed →
      History app s tr' e.before → P tr' e.before → P (e :: tr') e.after)
    {tr' : List Step} (h : History app s tr' s') (hsuf : tr' <:+ tr) : P tr' s' := by
  induction h with
  | start => exact hstart
  | tick hist ht ih =>
    obtain ⟨hdb, hhub, hutc, hinstant⟩ := tick_spec ht
    exact htick hsuf hdb hhub hutc hinstant (ih hsuf)
  | call hist hx ih =>
    exact hcall (e := ⟨_, _, _, _, _⟩) hsuf hx (History.wellFormed hist hwf) hist
      (ih ((List.suffix_cons _ _).trans hsuf))

/-- A reply in a request's log was given by a call of the history. -/
theorem History.seen (h : History app s tr s') {i : ℕ} {c : Call} {r : c.Reply}
    (hx : ⟨c, r⟩ ∈ pastOf i tr) : ∃ before after sess newer older,
      tr = newer ++ ⟨i, c, r, before, after⟩ :: older ∧ Store.exec sess c before = .done r after ∧
        History app s older before ∧ History app after newer s' := by
  obtain ⟨newer', older', hsplit⟩ := List.append_of_mem hx
  obtain ⟨newer, ⟨_, _, _, before, after⟩, older, rfl, rfl, heq, -, -⟩ := pastOf_split hsplit
  cases heq
  obtain ⟨hbefore, ⟨sess, hexec⟩, hafter⟩ := System.History.split h
  exact ⟨before, after, sess, newer, older, rfl, hexec, hbefore, hafter⟩

/-- A room that was read is still there: its cap has not fallen, and what was
read of its other settings is current. -/
theorem History.seenRoom (h : History app s tr s') {i : ℕ} {id : String} {room : Room}
    (hx : ⟨.getRoom id, some room⟩ ∈ pastOf i tr) : ∃ row ∈ s'.db.rooms, row.id = id ∧
      (room.config.hardCap.toNat : ℤ) ≤ row.config.hardCap ∧
      (room.config.softCap.toNat : ℤ) = row.config.softCap ∧
      room.config.closeQuorum = row.config.closeQuorum.getD .all := by
  obtain ⟨before, after, sess, newer, older, -, hexec, -, hafter⟩ := h.seen hx
  obtain ⟨hget, rfl⟩ := done_of_tryRead hexec
  obtain ⟨row, hrow, hdecode⟩ := Db.getRoom_spec hget
  obtain ⟨hmem, rfl⟩ := Db.mem_of_roomRow hrow
  obtain ⟨-, -, hhard, hsoft, hquorum⟩ := rowToRoom_spec hdecode
  obtain ⟨row', hrow', hid, hcap, hsoft', hquorum'⟩ := hafter.later.rooms row hmem
  exact ⟨row', hrow', hid, hhard.trans_le hcap, hsoft.trans hsoft'.symm, hquorum' ▸ hquorum⟩

/-- A store at boot. -/
def Booting (s : Store) : Prop := s.db = .empty ∧ s.hub = ⟨[]⟩

/-- A reachable daemon's trace is a history from boot. -/
theorem Reachable.history {c : Daemon} (h : Reachable app c) :
    ∃ s₀, Booting s₀ ∧ History app s₀ c.trace c.shared := by
  obtain ⟨utc, instant, hrun⟩ := h
  obtain ⟨new, htr, hist⟩ := hrun.history
  rw [show (boot utc instant).trace = [] from rfl, List.append_nil] at htr
  exact ⟨_, ⟨rfl, rfl⟩, htr ▸ hist⟩

theorem Reachable.wellFormed {c : Daemon} (h : Reachable app c) : c.shared.db.WellFormed := by
  obtain ⟨s₀, hboot, hist⟩ := h.history
  exact hist.wellFormed (hboot.1 ▸ Db.wellFormed_empty)

end ChatBotChat
