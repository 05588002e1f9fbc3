/-
Rooms do not see each other.

All rooms share the tables, and a participant is addressed by its handle alone.  A room's
view of the database is what the tables hold of it; every read of a room is a function
of its view (`exec_of_view`).

* `rooms_isolated` — whatever requests of other rooms do, and however they are
  interleaved, the view of a room stays what it is, unless its participants bear handles
  of rows that have been pruned.
-/
import ChatBotChat.Ended
import ChatBotChat.SoftCap

namespace ChatBotChat

open Interleave

variable {app : AppState} {c c' : Daemon} {e : Step} {tr new older : List Step} {req : Request}
  {past : Log} {k : Call} {r : k.Reply} {id handle : String} {s s' : Store} {sess : List UInt16}
  {t : Thread Call Call.Reply Request Outcome}

/-! ### Views -/

/-- What the tables hold of a room, in the order of their rows. -/
structure RoomView where
  rooms : List RoomRow
  participants : List Participant
  messages : List Message
  events : List Event
deriving DecidableEq

def Db.view (db : Db) (id : String) : RoomView :=
  ⟨db.rooms.filter (·.id = id), db.participants.filter (·.roomId = id), db.allMessages id,
    db.listEvents id⟩

/-- The reads of a room. -/
def Call.reads (id : String) : Call → Bool
  | .getRoom id' | .listParticipants id' | .getParticipantByInstance id' _
  | .getParticipantByHandle id' _ | .nextUnread id' _ _ | .latestMessageFromOther id' _
  | .roomLatestMessage id' | .currentSeq id' | .consecutiveMsgCount id' _
  | .recentMessagesUpTo id' _ _ => id' = id
  | _ => false

/-- A search among the rows of a room. -/
theorem find?_of_filter {α : Type} (l : List α) (p q : α → Bool) :
    l.find? (fun x => p x && q x) = (l.filter p).find? q := by
  rw [List.find?_filter]
  simp

/-- A selection of the rows of a room. -/
theorem filter_of_filter {α : Type} (l : List α) (p q : α → Bool) :
    l.filter (fun x => p x && q x) = (l.filter p).filter q := by
  rw [List.filter_filter]
  exact List.filter_congr fun x _ => Bool.and_comm _ _

/-- **What is read of a room** depends on its view alone. -/
theorem exec_of_view (hk : k.reads id = true) (hview : s'.db.view id = s.db.view id)
    (h : Store.exec sess k s = .done r s) : Store.exec sess k s' = .done r s' := by
  obtain ⟨hrooms, hparticipants, hmessages, -⟩ := RoomView.mk.inj hview
  have hread : ∀ {β : Type} {x y b : β}, y = x → s.read x = .done b s → s'.read y = .done b s' := by
    rintro β x y b rfl hdone
    obtain ⟨rfl, -⟩ := done_of_read hdone
    rfl
  cases k
  case getRoom id' =>
    obtain rfl : id' = id := of_decide_eq_true hk
    obtain ⟨hget, -⟩ := done_of_tryRead h
    have hrow : s'.db.roomRow id' = s.db.roomRow id' := by
      rw [Db.roomRow, Db.roomRow, ← List.head?_filter, ← List.head?_filter, hrooms]
    change s'.tryRead (s'.db.getRoom id') = _
    rw [Db.getRoom, hrow, ← Db.getRoom, hget]
    rfl
  case listParticipants id' =>
    obtain rfl : id' = id := of_decide_eq_true hk
    exact hread (congrArg (orderBy Participant.joinedAt) hparticipants) h
  case getParticipantByInstance id' inst =>
    obtain rfl : id' = id := of_decide_eq_true hk
    refine hread ?_ h
    rw [Db.getParticipantByInstance, Db.getParticipantByInstance, find?_of_filter,
      find?_of_filter _ _ (fun p : Participant => p.inst = inst), hparticipants]
  case getParticipantByHandle id' handle =>
    obtain rfl : id' = id := of_decide_eq_true hk
    refine hread ?_ h
    rw [Db.getParticipantByHandle, Db.getParticipantByHandle, find?_of_filter,
      find?_of_filter _ _ (fun p : Participant => p.handle = handle), hparticipants]
  case nextUnread id' handle cursor =>
    obtain rfl : id' = id := of_decide_eq_true hk
    refine hread ?_ h
    have hsplit : ∀ db : Db, db.nextUnread id' handle cursor = (db.allMessages id').find? fun m =>
        cursor < m.seq && (m.sender ≠ handle && (m.recipient = none || m.recipient = some handle)) := by
      intro db
      rw [Db.nextUnread, Db.allMessages, ← find?_of_filter]
      congr 1
      funext m
      simp only [Db.addressedTo, Bool.and_left_comm, Bool.and_assoc]
    rw [hsplit, hsplit]
    exact congrArg (List.find? _) hmessages
  case latestMessageFromOther id' handle =>
    obtain rfl : id' = id := of_decide_eq_true hk
    refine hread ?_ h
    rw [Db.latestMessageFromOther, Db.latestMessageFromOther, filter_of_filter,
      filter_of_filter _ _ (fun m : Message => m.sender ≠ handle)]
    exact congrArg (fun rows : List Message => (rows.filter _).getLast?) hmessages
  case roomLatestMessage id' =>
    obtain rfl : id' = id := of_decide_eq_true hk
    exact hread (congrArg List.getLast? hmessages) h
  case currentSeq id' =>
    obtain rfl : id' = id := of_decide_eq_true hk
    exact hread (congrArg (fun rows : List Message => maxKey (rows.map Message.seq)) hmessages) h
  case consecutiveMsgCount id' seq =>
    obtain rfl : id' = id := of_decide_eq_true hk
    refine hread ?_ h
    have hrows : s'.db.messages.filter (fun m => m.roomId = id' && m.seq ≤ seq) =
        s.db.messages.filter fun m => m.roomId = id' && m.seq ≤ seq := by
      rw [filter_of_filter, filter_of_filter]
      exact congrArg (List.filter _) hmessages
    rw [consecutiveMsgCount_filter, consecutiveMsgCount_filter, hrows]
  case recentMessagesUpTo id' seq limit =>
    obtain rfl : id' = id := of_decide_eq_true hk
    refine hread ?_ h
    rw [Db.recentMessagesUpTo, Db.recentMessagesUpTo, filter_of_filter, filter_of_filter]
    exact congrArg (fun rows : List Message => (rows.filter _).rtake limit) hmessages
  all_goals cases hk

/-! ### Calls that go elsewhere -/

/-- The room that a call writes to. -/
def Call.aim : Call → Option String
  | .updateRoomState id _ _ _ _ | .touchLastActivity id _ | .clearCloseVotes id
  | .tryExtend id _ _ _ _ _ | .pruneStaleParticipants id _ | .createMessageTyped id _ _ _ _ _ _ _
  | .createMessageCapped id _ _ _ _ _ _ => some id
  | .createParticipant p => some p.roomId
  | _ => none

/-- The participant that a call writes to, by its handle. -/
def Call.whom : Call → Option String
  | .setNickname handle _ | .setCloseVote handle _ | .clearExtendVote handle
  | .touchLastPoll handle _ | .tryExtend _ handle _ _ _ _ | .advanceCursor _ handle _ => some handle
  | _ => none

/-- The call does something in somebody's name, other than a claim. -/
def Call.signed : Call → Bool
  | .advanceCursor _ _ _ => false
  | .createMessageTyped _ _ _ _ _ _ _ _ | .createMessageCapped _ _ _ _ _ _ _ => true
  | k => k.whom.isSome

/-- Rows that are changed outside of a selection. -/
theorem filter_map_of_fixed {α : Type} {l : List α} {f : α → α} {q : α → Bool}
    (hfixed : ∀ x ∈ l, q x = true → f x = x) (hkept : ∀ x ∈ l, q (f x) = q x) :
    (l.map f).filter q = l.filter q := by
  induction l with
  | nil => rfl
  | cons x l ih =>
    rw [List.forall_mem_cons] at hfixed hkept
    rw [List.map_cons, List.filter_cons, List.filter_cons, hkept.1, ih hfixed.2 hkept.2]
    split
    · rename_i hq
      rw [hfixed.1 hq]
    · rfl

theorem onRoom_of_aim (hk : k.aim ≠ some id) {row : RoomRow} (hid : row.id = id) :
    k.onRoom r row = row := by
  subst hid
  cases k
  case updateRoomState id' from_ to_ now detail =>
    have hne : ¬ row.id = id' := fun heq => hk (congrArg some heq.symm)
    cases r
    · rfl
    · simp [Call.onRoom, hne]
  case touchLastActivity id' now =>
    have hne : ¬ row.id = id' := fun heq => hk (congrArg some heq.symm)
    simp [Call.onRoom, hne]
  case tryExtend id' voter step now cutoff quorum =>
    have hne : ¬ row.id = id' := fun heq => hk (congrArg some heq.symm)
    cases r
    · simp [Call.onRoom, hne]
    · rfl
  all_goals rfl

/-- A call for somebody else leaves a participant alone, unless it clears the votes of
the room. -/
theorem onParticipant_of_whom {p : Participant} (hwhom : k.whom ≠ some p.handle) :
    k.onParticipant r p = p ∨ k.aim = some p.roomId ∧
      (k.onParticipant r p = { p with wantsCloseAt := none } ∨
        k.onParticipant r p = { p with wantsExtendAt := none }) := by
  cases k
  case clearCloseVotes id' =>
    by_cases hroom : p.roomId = id'
    · exact .inr ⟨congrArg some hroom.symm, .inl (by simp [Call.onParticipant, hroom])⟩
    · exact .inl (by simp [Call.onParticipant, hroom])
  case tryExtend id' voter step now cutoff quorum =>
    have hvoter : ¬ p.handle = voter := fun heq => hwhom (congrArg some heq.symm)
    cases r with
    | extended cap =>
      by_cases hroom : p.roomId = id'
      · exact .inr ⟨congrArg some hroom.symm, .inr (by simp [Call.onParticipant, hvoter, hroom])⟩
      · exact .inl (by simp [Call.onParticipant, hvoter, hroom])
    | proposed votes needed => exact .inl (by simp [Call.onParticipant, hvoter])
  case advanceCursor seq handle cursor =>
    have hne : ¬ p.handle = handle := fun heq => hwhom (congrArg some heq.symm)
    exact .inl (by simp [Call.onParticipant, Db.atCursor, hne])
  case setNickname handle _ =>
    have hne : ¬ p.handle = handle := fun heq => hwhom (congrArg some heq.symm)
    exact .inl (by simp [Call.onParticipant, hne])
  case setCloseVote handle _ =>
    have hne : ¬ p.handle = handle := fun heq => hwhom (congrArg some heq.symm)
    exact .inl (by simp [Call.onParticipant, hne])
  case clearExtendVote handle =>
    have hne : ¬ p.handle = handle := fun heq => hwhom (congrArg some heq.symm)
    exact .inl (by simp [Call.onParticipant, hne])
  case touchLastPoll handle _ =>
    have hne : ¬ p.handle = handle := fun heq => hwhom (congrArg some heq.symm)
    exact .inl (by simp [Call.onParticipant, hne])
  all_goals exact .inl rfl

theorem onParticipant_of_aim (hk : k.aim ≠ some id) {p : Participant} (hid : p.roomId = id)
    (hwhom : k.whom ≠ some p.handle) : k.onParticipant r p = p := by
  subst hid
  exact (onParticipant_of_whom hwhom).resolve_right fun h => hk h.1

theorem prunes_of_aim (hk : k.aim ≠ some id) {p : Participant} (hid : p.roomId = id) :
    k.prunes p = false := by
  subst hid
  cases k
  case pruneStaleParticipants id' cutoff =>
    have hne : ¬ p.roomId = id' := fun heq => hk (congrArg some heq.symm)
    simp [Call.prunes, Db.prunable, hne]
  all_goals rfl

/-- **A call that goes elsewhere** leaves the view of a room. -/
theorem view_of_aim (h : Store.exec sess k s = .done r s')
    (hroom : s.db.hasRoom id = true) (hk : k.aim ≠ some id)
    (hwhom : ∀ p ∈ s.db.participants, p.roomId = id → k.whom ≠ some p.handle) :
    s'.db.view id = s.db.view id := by
  have heff := effect_of_exec h
  have hrooms : s'.db.rooms.filter (·.id = id) = s.db.rooms.filter (·.id = id) := by
    have hopened : (k.opened r).toList.filter (·.id = id) = [] := by
      rw [List.filter_eq_nil_iff]
      intro row hrow hid
      rw [Option.mem_toList] at hrow
      have hfresh := opened_spec h hrow
      rw [of_decide_eq_true hid, hroom] at hfresh
      cases hfresh
    rw [heff.rooms, List.filter_append, hopened, List.append_nil]
    exact filter_map_of_fixed (fun row _ hid => onRoom_of_aim hk (of_decide_eq_true hid))
      fun row _ => by rw [Call.onRoom_id]
  have hparticipants : s'.db.participants.filter (·.roomId = id) =
      s.db.participants.filter (·.roomId = id) := by
    have hjoined : (k.joined r).toList.filter (·.roomId = id) = [] := by
      rw [List.filter_eq_nil_iff]
      intro p hp hid
      rw [Option.mem_toList] at hp
      cases k
      case createParticipant p' =>
        cases r
        · obtain rfl := Option.some_inj.mp hp
          exact hk (congrArg some (of_decide_eq_true hid))
        · cases hp
      all_goals cases hp
    rw [heff.participants, List.filter_append, hjoined, List.append_nil, filter_map_of_fixed]
    · rw [List.filter_filter]
      refine List.filter_congr fun p _ => ?_
      rw [Bool.and_eq_left_iff_imp]
      intro hid
      rw [prunes_of_aim hk (of_decide_eq_true hid), Bool.not_false]
    · intro p hp hid
      have hid' := of_decide_eq_true hid
      exact onParticipant_of_aim hk hid' (hwhom p (List.mem_of_mem_filter hp) hid')
    · intro p _
      rw [Call.onParticipant_roomId]
  have hmessages : s'.db.allMessages id = s.db.allMessages id := by
    have hlanded : (k.landed r).toList.filter (·.roomId = id) = [] := by
      rw [List.filter_eq_nil_iff]
      intro m hm hid
      rw [Option.mem_toList] at hm
      have hrow := (landed_row h hm).1
      have hid' := of_decide_eq_true hid
      cases k
      case createMessageTyped =>
        obtain rfl := Option.some_inj.mp hrow
        exact hk (congrArg some hid')
      case createMessageCapped =>
        obtain rfl := Option.some_inj.mp hrow
        exact hk (congrArg some hid')
      all_goals cases hm
    rw [Db.allMessages, heff.messages, List.filter_append, hlanded, List.append_nil]
    rfl
  have hevents : s'.db.listEvents id = s.db.listEvents id := by
    have hlogged : (k.logged s.db r).toList.filter (·.roomId = id) = [] := by
      rw [List.filter_eq_nil_iff]
      intro ev hev hid
      rw [Option.mem_toList] at hev
      cases k
      case updateRoomState id' from_ to_ now detail =>
        cases r
        · cases hev
        · obtain rfl := Option.some_inj.mp hev
          exact hk (congrArg some (of_decide_eq_true hid))
      all_goals cases hev
    rw [Db.listEvents, heff.events, List.filter_append, hlogged, List.append_nil]
    rfl
  rw [Db.view, Db.view, hrooms, hparticipants, hmessages, hevents]

/-! ### Requests of other rooms -/

/-- The daemon serves it: a claim is only made as a part of a wait. -/
def Request.served : Request → Bool
  | .claimNextUnread _ _ => false
  | _ => true

/-- A request of the daemon's that is not about the room, and no sweep. -/
structure Foreign (id : String) (req : Request) : Prop where
  room : req.room ≠ some id
  noSweep : req ≠ .sweep
  served : req.served = true

instance (id : String) (req : Request) : Decidable (Foreign id req) :=
  decidable_of_iff (req.room ≠ some id ∧ req ≠ .sweep ∧ req.served = true)
    ⟨fun h => ⟨h.1, h.2.1, h.2.2⟩, fun h => ⟨h.room, h.noSweep, h.served⟩⟩

/-- A foreign request writes to other rooms. -/
theorem aim_of_foreign (hd : Discipline req past k) (hg : GuardedCall req past k)
    (hreq : Foreign id req) : k.aim ≠ some id := by
  cases k
  case updateRoomState id' from_ to_ now detail =>
    rintro heq
    obtain rfl := Option.some_inj.mp heq
    exact hd.1.elim hreq.room hreq.noSweep
  case touchLastActivity id' now => exact fun heq => hreq.room (hg.1.trans heq)
  case clearCloseVotes id' =>
    obtain ⟨r, rfl⟩ := hd
    exact hreq.room
  case tryExtend id' voter step now cutoff quorum => exact fun heq => hreq.room (hg.1.trans heq)
  case pruneStaleParticipants id' cutoff =>
    obtain ⟨rfl, -⟩ := hd
    exact hreq.room
  case createMessageTyped => exact fun heq => hreq.room (hg.1.trans heq)
  case createMessageCapped => exact fun heq => hreq.room (hg.1.trans heq)
  case createParticipant p =>
    obtain ⟨⟨r, rfl⟩, -⟩ := hd
    exact hreq.room
  all_goals nofun

theorem sweepRooms_unsigned (now : OffsetDateTime) : ∀ rooms : List Room,
    (sweepRooms now rooms).Calls (·.signed = false) := by
  intro rooms
  induction rooms with
  | nil => exact trivial
  | cons room rooms ih =>
    refine .bind (.step rfl fun participants => ?_) fun outcome => .bind ih fun _ => trivial
    dsimp only
    split
    · exact trivial
    · split
      · exact trivial
      · exact .step rfl fun changed => trivial

/-- Requests without a caller do nothing in anybody's name. -/
theorem serve_unsigned (hreq : req.caller = none) : (serve app req).Calls (·.signed = false) := by
  cases req with
  | openRoom r =>
    refine .bind (.step rfl fun now => ?_) fun _ => trivial
    cases openConfig r with
    | error e => exact trivial
    | ok config =>
      refine .iterate fun tried => .step rfl fun outcome => ?_
      cases outcome with
      | inserted => exact trivial
      | uniqueViolation =>
        dsimp only
        split <;> exact trivial
  | listRooms state all => exact .bind (.step rfl fun _ => trivial) fun _ => trivial
  | pruneRoom id =>
    refine .bind (.step rfl fun room => ?_) fun _ => trivial
    cases room with
    | none => exact trivial
    | some room => exact .step rfl fun _ => .step rfl fun _ => .step rfl fun _ => trivial
  | sweep =>
    exact .bind (.step rfl fun now => .step rfl fun rows => sweepRooms_unsigned now rows)
      fun _ => trivial
  | claimNextUnread id handle =>
    refine .bind (.iterate fun _ => .step rfl fun cursor => ?_) fun _ => trivial
    cases cursor with
    | none => exact trivial
    | some cursor =>
      refine .step rfl fun m => ?_
      cases m with
      | none => exact trivial
      | some m =>
        refine .step rfl fun claimed => ?_
        cases claimed <;> exact trivial
  | joinRoom id r => cases hreq
  | sendMessage id r => cases hreq
  | signalRoom id r => cases hreq
  | waitRoom id r => cases hreq
  | closeRoom id r => cases hreq
  | extendRoom id r => cases hreq
  | pauseRoom id r => cases hreq
  | wakeRoom id r => cases hreq

/-- Whatever is done in somebody's name has a caller. -/
theorem Reachable.signed (h : Reachable app c) :
    System.Upheld (fun req _ k => k.signed = true → req.caller ≠ none) (fun _ _ _ => True) c := by
  obtain ⟨utc, instant, hrun⟩ := h
  have hbody : ∀ req, ((daemon app).body req).Upholds
      (fun _ k => k.signed = true → req.caller ≠ none) [] fun _ _ => True := by
    intro req
    by_cases hreq : req.caller = none
    · refine ((serve_unsigned hreq).upholds fun past' k _ hk hcontra => ?_).mono fun _ _ _ => trivial
      rw [hk] at hcontra
      cases hcontra
    · exact Prog.upholds_of_forall (fun _ _ _ => hreq) fun _ _ => trivial
  exact hrun.upheld hbody

/-- A caller comes about a room, under a name. -/
theorem comesAs_of_caller (hcaller : req.caller ≠ none) : ∃ id inst, req.ComesAs id inst := by
  cases req <;> first | exact absurd rfl hcaller | exact ⟨_, _, rfl, rfl⟩

/-- The log shows that `handle` is a participant of the room. -/
def Known (id handle : String) (past : Log) : Prop :=
  ResolvedIn past id handle ∨ ∃ inst p, Met id inst p past ∧ p.handle = handle

/-- **A foreign request writes to participants that it knows** from its own room. -/
theorem known_of_whom (hd : Discipline req past k) (hacting : ActingDiscipline req past k)
    (hsigned : k.signed = true → req.caller ≠ none) (hreq : Foreign id req)
    (hk : k.whom = some handle) : ∃ id', req.room = some id' ∧ Known id' handle past := by
  cases k
  case setNickname handle' nickname =>
    obtain rfl := Option.some_inj.mp hk
    obtain ⟨id', inst, hcomes⟩ := comesAs_of_caller (hsigned rfl)
    rcases hacting id' inst hcomes with hall | ⟨p, hmet, hacts⟩ | ⟨⟨p, hcontra⟩, -⟩
    · -- nobody goes by every handle
      exact absurd ((hall "").symm.trans (hall "a")) (by decide)
    · exact ⟨id', hcomes.1, .inr ⟨inst, p, hmet, hacts.symm⟩⟩
    · cases hcontra
  case setCloseVote handle' at_ =>
    obtain rfl := Option.some_inj.mp hk
    cases at_ with
    | none =>
      obtain ⟨id', r, _, _, _, _, _, _, _, rfl, hres, -⟩ := hd
      exact ⟨id', rfl, .inl hres⟩
    | some now =>
      obtain ⟨id', r, _, rfl, hres, -⟩ := hd
      exact ⟨id', rfl, .inl hres⟩
  case clearExtendVote handle' =>
    obtain rfl := Option.some_inj.mp hk
    obtain ⟨id', r, rfl, hres⟩ := hd
    exact ⟨id', rfl, .inl hres⟩
  case touchLastPoll handle' now =>
    obtain rfl := Option.some_inj.mp hk
    obtain ⟨id', _, hroom, hres, -⟩ := hd
    exact ⟨id', hroom, .inl hres⟩
  case tryExtend id' voter step now cutoff quorum =>
    obtain rfl := Option.some_inj.mp hk
    obtain ⟨⟨r, rfl⟩, hres, -⟩ := hd
    exact ⟨id', rfl, .inl hres⟩
  case advanceCursor seq handle' cursor =>
    obtain rfl := Option.some_inj.mp hk
    obtain ⟨id', m, older, rfl, -, hfor, -⟩ := hd
    cases req with
    | waitRoom id'' r =>
      obtain ⟨rfl, hres⟩ := hfor
      exact ⟨id'', rfl, .inl hres.cons.cons⟩
    | claimNextUnread id'' handle'' => cases hreq.served
    | _ => exact hfor.elim
  all_goals cases hk

/-- Whoever is known from a room, and has not been pruned since, is there. -/
theorem History.known (hist : History app s tr s') (hwf : s.db.WellFormed) {i : ℕ}
    (hknown : Known id handle (pastOf i tr)) (hkept : NotPruned tr handle) :
    ∃ q ∈ s'.db.participants, q.handle = handle ∧ q.roomId = id := by
  rcases hknown with hres | ⟨inst, p, hmet, rfl⟩
  · exact hist.resolved_row hwf hres hkept
  · obtain ⟨s₁, newer, older, hnewer, -, hbefore, hafter, hp, rfl, -⟩ := hist.met hmet
    obtain ⟨q, hq, hsame⟩ := hafter.row_kept (hbefore.wellFormed hwf) hp fun e he => hkept e (hnewer he)
    exact ⟨q, hq, hsame.handle, hsame.roomId⟩

/-! ### Runs -/

/-- **A call of a foreign request** leaves the view of a room whose participants bear no
handle of a pruned row. -/
theorem Recorded.view_of_foreign (hreach : Reachable app c) (h : Recorded app c e older)
    (ht : c.threads[e.tid]? = some t) (hreq : Foreign id t.req)
    (hroom : e.before.db.hasRoom id = true)
    (hfresh : ∀ p ∈ e.before.db.participants, p.roomId = id → NotPruned older p.handle) :
    e.after.db.view id = e.before.db.view id := by
  obtain ⟨sess, hexec⟩ := h.exec
  obtain ⟨t₁, ht₁, hd⟩ := h.disciplined
  obtain ⟨t₂, ht₂, hg⟩ := hreach.guarded.event h.suffix
  obtain ⟨t₃, ht₃, hacting⟩ := hreach.acting.event h.suffix
  obtain ⟨t₄, ht₄, hsigned⟩ := hreach.signed.event h.suffix
  obtain rfl := Option.some_inj.mp (ht.symm.trans ht₁)
  obtain rfl := Option.some_inj.mp (ht.symm.trans ht₂)
  obtain rfl := Option.some_inj.mp (ht.symm.trans ht₃)
  obtain rfl := Option.some_inj.mp (ht.symm.trans ht₄)
  refine view_of_aim hexec hroom (aim_of_foreign hd hg hreq) fun p hp hid hwhom => ?_
  obtain ⟨id', hid', hknown⟩ := known_of_whom hd hacting hsigned hreq hwhom
  obtain ⟨s₀, hboot, hist⟩ := h.history
  obtain ⟨q, hq, hhandle, hqroom⟩ :=
    hist.known (hboot.1 ▸ Db.wellFormed_empty) hknown (hfresh p hp hid)
  -- a handle has one row
  obtain rfl := h.wellFormed_before.participant_unique hq hp hhandle
  exact hreq.room (hid'.trans (congrArg some (hqroom.symm.trans hid)))

theorem view_participants {db db' : Db} (h : db'.view id = db.view id) {p : Participant}
    (hp : p ∈ db'.participants) (hid : p.roomId = id) : p ∈ db.participants := by
  have hmem : p ∈ db'.participants.filter (·.roomId = id) :=
    List.mem_filter.mpr ⟨hp, decide_eq_true hid⟩
  rw [show db'.participants.filter (·.roomId = id) = db.participants.filter (·.roomId = id) from
    congrArg RoomView.participants h] at hmem
  exact List.mem_of_mem_filter hmem

/-- **Rooms are isolated**: however many requests of other rooms are served, and however
they are interleaved, the tables hold the same of a room afterwards, and everything that
may be read of it reads the same; unless a participant of the room bears the handle of a
row that has been pruned. -/
theorem rooms_isolated (h : Reachable app c) (hrun : (daemon app).Run c c')
    (hnew : c'.trace = new ++ c.trace) (hroom : c.shared.db.hasRoom id = true)
    (hforeign : ∀ e ∈ new, ∀ t, c'.threads[e.tid]? = some t → Foreign id t.req)
    (hfresh : ∀ p ∈ c.shared.db.participants, p.roomId = id → NotPruned c'.trace p.handle) :
    c'.shared.db.view id = c.shared.db.view id ∧
      ∀ (k : Call) (r : k.Reply) (sess : List UInt16), k.reads id = true →
        Store.exec sess k c.shared = .done r c.shared → Store.exec sess k c'.shared = .done r c'.shared := by
  have hview : c'.shared.db.view id = c.shared.db.view id := by
    refine h.induction_from (P := fun _ s => s.db.view id = c.shared.db.view id) hrun hnew rfl ?_ ?_
    · intro tr s₁ s₂ hdb _ _ _ hs
      rw [hdb, hs]
    · intro e tr hsuf hrec hs
      obtain ⟨t, ht, -⟩ := hrec.disciplined
      rw [← hs]
      refine hrec.view_of_foreign (h.run hrun) ht (hforeign e (hsuf.mem List.mem_cons_self) t ht) ?_ ?_
      · obtain ⟨row, hrow, hid⟩ := Db.hasRoom_iff.mp hroom
        obtain ⟨row', hrow', hid', -⟩ :=
          (History.later (history_before hrun hnew hsuf)).rooms row hrow
        exact Db.hasRoom_iff.mpr ⟨row', hrow', hid'.trans hid⟩
      · intro p hp hid e' he'
        exact hfresh p (view_participants hs hp hid) hid e'
          (hrec.suffix.subset (List.mem_cons_of_mem _ he'))
  exact ⟨hview, fun k r sess hk hexec => exec_of_view hk hview hexec⟩

/-- What has been recorded since. -/
theorem take_newer {tr' : List Step} (hnew : tr' = new ++ tr) :
    tr'.take (tr'.length - tr.length) = new := by
  rw [hnew, List.length_append, Nat.add_sub_cancel, List.take_left]

/-- Two people in a room, and another room. -/
def nextDoor : List Request := gather none [alice, bob] ++ [.openRoom ⟨"other", none, none, none⟩]

/-- One of them goes to the other room and talks there. -/
def nextDoorTalk : List Request := [.joinRoom "cbc-other-19700101-0000" ⟨alice, none⟩,
  .sendMessage "cbc-other-19700101-0000" ⟨alice, none, "hello", false⟩]

set_option maxRecDepth 10000 in
theorem rooms_isolated_nextDoor :
    (demo (nextDoor ++ nextDoorTalk)).shared.db.messages.length = 1 ∧
      (demo (nextDoor ++ nextDoorTalk)).shared.db.view demoRoom =
        (demo nextDoor).shared.db.view demoRoom := by
  have hrun := run_demo_append nextDoor nextDoorTalk
  obtain ⟨new, hnew, -⟩ := hrun.history
  have hforeign : ∀ e ∈ (demo (nextDoor ++ nextDoorTalk)).trace, 4 ≤ e.tid →
      ((demo (nextDoor ++ nextDoorTalk)).threads[e.tid]?.all fun t => Foreign demoRoom t.req) = true := by
    decide +kernel
  have hnewer : ∀ e ∈ (demo (nextDoor ++ nextDoorTalk)).trace.take
      ((demo (nextDoor ++ nextDoorTalk)).trace.length - (demo nextDoor).trace.length), 4 ≤ e.tid := by
    decide +kernel
  rw [take_newer hnew] at hnewer
  refine ⟨by decide +kernel, (rooms_isolated (reachable_demo nextDoor) hrun hnew (by decide +kernel) ?_
    (by decide +kernel)).1⟩
  intro e he t ht
  have hmem : e ∈ (demo (nextDoor ++ nextDoorTalk)).trace := hnew ▸ List.mem_append_left _ he
  have hall := hforeign e hmem (hnewer e he)
  rw [ht] at hall
  exact of_decide_eq_true hall

end ChatBotChat
