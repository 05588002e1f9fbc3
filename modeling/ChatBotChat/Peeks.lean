/-
The two handlers that only look: `get_room` and `transcript`.

They make several reads, and the daemon goes on between any two of them.  A peek is a
program that asks a daemon with its registry (`Look`); whatever the daemon serves in the
meantime is a move of it.

* `room_status_truthful` — a status shows the room and its participants as they were at
  moments of the request, and who of them has a wait parked;
* `transcript_complete` — a transcript shows the whole log of the room, with all that was
  acknowledged before it was asked for, and its counters never fall behind what it lists.
-/
import ChatBotChat.Interleave.Asking
import ChatBotChat.Parks
import ChatBotChat.Ledger
import ChatBotChat.Caps
import ChatBotChat.SoftCap

namespace ChatBotChat

open Interleave Relation Lifecycle

/-! ### Wire types -/

/-- Wire view of a participant. -/
structure ParticipantView where
  handle : String
  repo : String
  model : String
  cwd : String
  joinedAt : String
  secondsSincePoll : ℤ
  stale : Bool
  pollLive : Bool
  nickname : Option String
deriving DecidableEq

structure RoomStatus where
  id : String
  subject : String
  state : String
  startedAt : String
  lastActivityAt : String
  participants : List ParticipantView
deriving DecidableEq

structure RoomTranscript where
  id : String
  subject : String
  state : String
  startedAt : String
  lastActivityAt : String
  hardCap : UInt32
  softCap : UInt32
  hardCapCount : ℕ
  softCapConsecutive : ℕ
  participants : List ParticipantView
  messages : List MessageView
deriving DecidableEq

/-! ### Looks -/

/-- The reads of a peek. -/
inductive Look where
  | nowUtc
  | getRoom (id : String)
  | listParticipants (roomId : String)
  | allMessages (roomId : String)
  | countCappedMessages (roomId : String)
  | currentSeq (roomId : String)
  | consecutiveMsgCount (roomId : String) (upToSeq : ℕ)
  | isLive (handle : String)
deriving DecidableEq

abbrev Look.Reply : Look → Type
  | .nowUtc => OffsetDateTime
  | .getRoom _ => Option Room
  | .listParticipants _ => List Participant
  | .allMessages _ => List Message
  | .countCappedMessages _ => ℕ
  | .currentSeq _ => ℕ
  | .consecutiveMsgCount _ _ => ℕ
  | .isLive _ => Bool

/-- What a read tells; a corrupt room row ends the peek with a 500. -/
def Look.tells (grace : ℕ) : (l : Look) → Serving → Option (l.Reply × Serving)
  | .nowUtc, w => some (w.daemon.shared.utc, w)
  | .getRoom id, w => (w.daemon.shared.db.getRoom id).map fun room => (room, w)
  | .listParticipants roomId, w => some (w.daemon.shared.db.listParticipants roomId, w)
  | .allMessages roomId, w => some (w.daemon.shared.db.allMessages roomId, w)
  | .countCappedMessages roomId, w => some (w.daemon.shared.db.countCappedMessages roomId, w)
  | .currentSeq roomId, w => some (w.daemon.shared.db.currentSeq roomId, w)
  | .consecutiveMsgCount roomId upToSeq, w =>
    some (w.daemon.shared.db.consecutiveMsgCount roomId upToSeq, w)
  | .isLive handle, w =>
    some ((Presence.isLive (w.registry grace) grace handle w.daemon.shared.instant).1,
      w.asked handle)

/-- A piece of a handler that only looks. -/
abbrev Peek (α : Type) : Type 1 := Prog Look Look.Reply α

abbrev look (l : Look) : Peek l.Reply := Prog.perform l

/-! ### The handlers -/

def participantView (p : Participant) (now : OffsetDateTime) : Peek ParticipantView := do
  let elapsed := now - p.lastPollAt
  let secondsSincePoll := max (Rfc3339.Duration.wholeSeconds elapsed) 0
  let stale := decide (elapsed > GHOST_AFTER)
  let pollLive ← look (.isLive p.handle)
  return ⟨p.handle, p.repo, p.model, p.cwd, Rfc3339.format p.joinedAt, secondsSincePoll, stale,
    pollLive, p.nickname⟩

def participantViews (now : OffsetDateTime) : List Participant → Peek (List ParticipantView)
  | [] => return []
  | p :: ps => do
    let view ← participantView p now
    let views ← participantViews now ps
    return view :: views

def roomToStatus (room : Room) (participants : List Participant) (now : OffsetDateTime) :
    Peek RoomStatus := do
  let views ← participantViews now participants
  return ⟨room.id, room.subject, room.state.asStr, Rfc3339.format room.startedAt,
    Rfc3339.format room.lastActivityAt, views⟩

/-- `GET /rooms/:id`. -/
def getRoom (id : String) : Peek (Except ApiError RoomStatus) := do
  let now ← look .nowUtc
  let some room ← look (.getRoom id) | return .error .notFound
  let participants ← look (.listParticipants id)
  let status ← roomToStatus room participants now
  return .ok status

def roomToTranscript (room : Room) (participants : List Participant) (messages : List Message)
    (hardCapCount softCapConsecutive : ℕ) (now : OffsetDateTime) : Peek RoomTranscript := do
  let views ← participantViews now participants
  return ⟨room.id, room.subject, room.state.asStr, Rfc3339.format room.startedAt,
    Rfc3339.format room.lastActivityAt, room.config.hardCap, room.config.softCap, hardCapCount,
    softCapConsecutive, views, messages.map messageView⟩

/-- `GET /rooms/:id/transcript`. -/
def transcript (id : String) : Peek (Except ApiError RoomTranscript) := do
  let now ← look .nowUtc
  let some room ← look (.getRoom id) | return .error .notFound
  let participants ← look (.listParticipants id)
  let messages ← look (.allMessages id)
  let hardCapCount ← look (.countCappedMessages id)
  -- the soft-cap run is evaluated at the room's latest message
  let highWater ← look (.currentSeq id)
  let softCapConsecutive ← look (.consecutiveMsgCount id highWater)
  let transcript ← roomToTranscript room participants messages hardCapCount softCapConsecutive now
  return .ok transcript

/-- The peek is made while the daemon goes from `w₀` to `w`, and is answered with `a`. -/
abbrev Peeks (app : AppState) (grace : ℕ) {α : Type} (p : Peek α) (w₀ : Serving) (a : α)
    (w : Serving) : Prop := Learns (Onward app) (Look.tells grace) p w₀ a w

variable {app : AppState} {grace : ℕ} {w₀ w₁ w₂ w : Serving} {id : String} {now : OffsetDateTime}

theorem leads_of_tells {l : Look} {r : l.Reply} (h : l.tells grace w₁ = some (r, w₂)) :
    Leads app w₁ w₂ := by
  cases l
  case isLive handle =>
    obtain rfl := (Prod.mk.inj (Option.some_inj.mp h)).2
    exact .single (.isLive handle)
  case getRoom id =>
    obtain ⟨room, -, heq⟩ := Option.map_eq_some_iff.mp h
    rw [(Prod.mk.inj heq).2]
  all_goals
    obtain rfl := (Prod.mk.inj (Option.some_inj.mp h)).2
    exact .refl

/-! ### Participants -/

/-- What a peek whose clock read `now` shows of a participant, on the way from `w₀` to `w`. -/
structure Shown (app : AppState) (grace : ℕ) (now : OffsetDateTime) (w₀ w : Serving)
    (p : Participant) (v : ParticipantView) : Prop where
  handle : v.handle = p.handle
  nickname : v.nickname = p.nickname
  age : v.secondsSincePoll = max (Rfc3339.Duration.wholeSeconds (now - p.lastPollAt)) 0
  stale : v.stale = !livePoller now p
  live : ∃ w₁, Leads app w₀ w₁ ∧ Leads app w₁ w ∧
    (v.pollLive = true ↔ parked p.handle w₁.daemon ≠ [] ∨ EndedWithin app grace p.handle w₁)

theorem learns_participantView (h : Served app w₀) {p : Participant} {v : ParticipantView}
    (hpeek : Peeks app grace (participantView p now) w₀ v w) :
    Leads app w₀ w ∧ Shown app grace now w₀ w p v := by
  obtain ⟨w₁, live, w₂, hbefore, htells, hrest⟩ := learns_step_iff.mp hpeek
  obtain ⟨rfl, hafter⟩ := learns_pure_iff.mp hrest
  have hlook : Leads app w₁ w := .trans (leads_of_tells htells) hafter
  obtain ⟨rfl, -⟩ := Prod.mk.inj (Option.some_inj.mp htells)
  refine ⟨hbefore.trans hlook, rfl, rfl, rfl, ?_, w₁, hbefore, hlook, ?_⟩
  · rw [livePoller, ← decide_not, decide_eq_decide, not_le]
  · exact (h.leads hbefore).isLive_iff grace p.handle

theorem Shown.wider {p : Participant} {v : ParticipantView} (h : Shown app grace now w₁ w₂ p v)
    (hbefore : Leads app w₀ w₁) (hafter : Leads app w₂ w) : Shown app grace now w₀ w p v := by
  obtain ⟨hhandle, hnickname, hage, hstale, w₃, hfirst, hrest, hlive⟩ := h
  exact ⟨hhandle, hnickname, hage, hstale, w₃, hbefore.trans hfirst, hrest.trans hafter, hlive⟩

theorem learns_participantViews {ps : List Participant} : ∀ {w₀ w : Serving}
    {views : List ParticipantView}, Served app w₀ →
      Peeks app grace (participantViews now ps) w₀ views w →
        Leads app w₀ w ∧ List.Forall₂ (Shown app grace now w₀ w) ps views := by
  induction ps with
  | nil =>
    intro w₀ w views _ hpeek
    obtain ⟨rfl, hleads⟩ := learns_pure_iff.mp hpeek
    exact ⟨hleads, .nil⟩
  | cons p ps ih =>
    intro w₀ w views h hpeek
    obtain ⟨v, w₁, hfirst, hrest⟩ := learns_bind_iff.mp hpeek
    obtain ⟨hone, hshown⟩ := learns_participantView h hfirst
    obtain ⟨views', w₂, hviews, hend⟩ := learns_bind_iff.mp hrest
    obtain ⟨hmore, hall⟩ := ih (h.leads hone) hviews
    obtain ⟨rfl, hafter⟩ := learns_pure_iff.mp hend
    refine ⟨(hone.trans hmore).trans hafter, .cons (hshown.wider .refl (hmore.trans hafter)) ?_⟩
    exact hall.imp fun _ _ hview => hview.wider hone hafter

/-! ### The room -/

/-- The status says of the room what its row says. -/
structure RoomStatus.Of (status : RoomStatus) (row : RoomRow) : Prop where
  id : status.id = row.id
  subject : status.subject = row.subject
  state : status.state = row.state.asStr
  startedAt : status.startedAt = Rfc3339.format row.startedAt
  lastActivityAt : status.lastActivityAt = Rfc3339.format row.lastActivityAt

theorem rowToRoom_head {row : RoomRow} {room : Room} (h : rowToRoom row = some room) :
    room.id = row.id ∧ room.subject = row.subject ∧ room.state = row.state ∧
      room.startedAt = row.startedAt ∧ room.lastActivityAt = row.lastActivityAt := by
  rw [rowToRoom, Option.bind_eq_bind, Option.bind_eq_some_iff] at h
  obtain ⟨config, -, heq⟩ := h
  obtain rfl := Option.some_inj.mp heq
  exact ⟨rfl, rfl, rfl, rfl, rfl⟩

/-- A room that is looked for and not found was not there before. -/
theorem hasRoom_of_notFound (hleads : Leads app w₀ w₁)
    (htells : (Look.getRoom id).tells grace w₁ = some (none, w₂)) :
    w₀.daemon.shared.db.hasRoom id = false := by
  obtain ⟨room, hget, heq⟩ := Option.map_eq_some_iff.mp htells
  obtain ⟨rfl, -⟩ := Prod.mk.inj heq
  rw [Bool.eq_false_iff]
  intro hroom
  obtain ⟨row, hrow, hid⟩ := Db.hasRoom_iff.mp hroom
  obtain ⟨row', hrow', hid', -⟩ := hleads.later.rooms row hrow
  exact Db.getRoom_ne_none (Db.hasRoom_iff.mpr ⟨row', hrow', hid'.trans hid⟩) hget rfl

/-- A room that is found is read from its row. -/
theorem row_of_found {room : Room} (htells : (Look.getRoom id).tells grace w₁ = some (some room, w₂)) :
    ∃ row ∈ w₁.daemon.shared.db.rooms, row.id = id ∧ rowToRoom row = some room := by
  obtain ⟨room', hget, heq⟩ := Option.map_eq_some_iff.mp htells
  obtain ⟨rfl, -⟩ := Prod.mk.inj heq
  obtain ⟨row, hrow, hdecode⟩ := Db.getRoom_spec hget
  obtain ⟨hmem, hid⟩ := Db.mem_of_roomRow hrow
  exact ⟨row, hmem, hid, hdecode⟩

/-- Whom the clock of a peek calls dark, every later clock does. -/
theorem Shown.dark {p : Participant} {v : ParticipantView} (h : Shown app grace now w₁ w p v)
    (hnow : now ≤ w₁.daemon.shared.utc) (hstale : v.stale = true) :
    livePoller w₁.daemon.shared.utc p = false := by
  rw [h.stale, Bool.not_eq_true', livePoller, decide_eq_false_iff_not] at hstale
  rw [livePoller, decide_eq_false_iff_not]
  exact fun hle => hstale ((sub_le_sub_right hnow _).trans hle)

/-- **A room status tells the truth**: whatever is served meanwhile, the participants
that it shows are those of the room at one moment of the request, and the room is as it
was at an earlier one; it calls nobody stale who is live at that moment; and it shows a
poll as live exactly if a wait of that participant is in flight, or one has ended within
the grace window, at a moment of the request.  A 404 says that the room was not there
when the request came. -/
theorem room_status_truthful (h : Served app w₀) {outcome : Except ApiError RoomStatus}
    (hpeek : Peeks app grace (getRoom id) w₀ outcome w) :
    (outcome = .error .notFound ∧ w₀.daemon.shared.db.hasRoom id = false) ∨
      ∃ status w₁ w₂ now, outcome = .ok status ∧ Leads app w₀ w₁ ∧ Leads app w₁ w₂ ∧
        Leads app w₂ w ∧ w₀.daemon.shared.utc ≤ now ∧ now ≤ w₁.daemon.shared.utc ∧
        (∃ row ∈ w₁.daemon.shared.db.rooms, row.id = id ∧ status.Of row) ∧
        List.Forall₂ (fun p v => Shown app grace now w₂ w p v ∧
            (v.stale = true → livePoller w₂.daemon.shared.utc p = false))
          (w₂.daemon.shared.db.listParticipants id) status.participants := by
  obtain ⟨w₁, now, w₁', (hclock : Leads app w₀ w₁), hutc, hpeek⟩ := learns_step_iff.mp hpeek
  obtain ⟨rfl, rfl⟩ := Prod.mk.inj (Option.some_inj.mp hutc)
  obtain ⟨w₂, room, w₂', (hread : Leads app w₁ w₂), hroom, hpeek⟩ := learns_step_iff.mp hpeek
  cases room with
  | none =>
    obtain ⟨rfl, -⟩ := learns_pure_iff.mp hpeek
    exact .inl ⟨rfl, hasRoom_of_notFound (hclock.trans hread) hroom⟩
  | some room =>
    refine .inr ?_
    have hfound : Leads app _ _ := leads_of_tells hroom
    obtain ⟨w₃, participants, w₃', hlist, hparticipants, hpeek⟩ := learns_step_iff.mp hpeek
    obtain ⟨rfl, rfl⟩ := Prod.mk.inj (Option.some_inj.mp hparticipants)
    obtain ⟨status, w₄, hstatus, hend⟩ := learns_bind_iff.mp hpeek
    obtain ⟨rfl, hafter⟩ := learns_pure_iff.mp hend
    obtain ⟨views, w₅, hviews, hret⟩ := learns_bind_iff.mp hstatus
    obtain ⟨rfl, hlast⟩ := learns_pure_iff.mp hret
    have hlisted : Leads app w₂ w₃ := hfound.trans hlist
    have hserved := h.leads ((hclock.trans hread).trans hlisted)
    obtain ⟨hleads, hshown⟩ := learns_participantViews hserved hviews
    obtain ⟨row, hrow, hid, hdecode⟩ := row_of_found hroom
    have hhead := rowToRoom_head hdecode
    have hnow : w₁.daemon.shared.utc ≤ w₃.daemon.shared.utc :=
      hread.later.utc.trans hlisted.later.utc
    refine ⟨_, w₂, w₃, w₁.daemon.shared.utc, rfl, hclock.trans hread, hlisted,
      (hleads.trans hlast).trans hafter, hclock.later.utc, hread.later.utc,
      ⟨row, hrow, hid, ?_⟩, ?_⟩
    · constructor
      · exact hhead.1
      · exact hhead.2.1
      · exact congrArg RoomState.asStr hhead.2.2.1
      · exact congrArg Rfc3339.format hhead.2.2.2.1
      · exact congrArg Rfc3339.format hhead.2.2.2.2
    · refine hshown.imp fun p v hview => ?_
      have hwide := hview.wider .refl (hlast.trans hafter)
      exact ⟨hwide, hwide.dark hnow⟩

/-- A room of two, one of whom waits. -/
def onePoll : List Request := gather none [alice, bob] ++ [.waitRoom demoRoom ⟨bob, none⟩]

set_option maxRecDepth 10000 in
theorem room_status_truthful_onePoll : ∃ status w w₂ now,
    Peeks .default DEFAULT_GRACE (getRoom demoRoom) (attended onePoll) (.ok status) w ∧
      status.participants.map (fun v => (v.handle, v.pollLive)) =
        [("api-opus-0001", false), ("web-opus-0002", true)] ∧
      List.Forall₂ (Shown .default DEFAULT_GRACE now w₂ w)
        (w₂.daemon.shared.db.listParticipants demoRoom) status.participants := by
  have hstill : (((getRoom demoRoom).still (Look.tells DEFAULT_GRACE) (attended onePoll)).map
      fun x => x.1.map fun status => status.participants.map fun v => (v.handle, v.pollLive)) =
        some (.ok [("api-opus-0001", false), ("web-opus-0002", true)]) := by decide +kernel
  obtain ⟨⟨outcome, w⟩, hstill, hviews⟩ := Option.map_eq_some_iff.mp hstill
  have hpeek : Peeks .default DEFAULT_GRACE (getRoom demoRoom) (attended onePoll) outcome w :=
    learns_of_still hstill
  rcases room_status_truthful (served_attended onePoll) hpeek with
    ⟨rfl, -⟩ | ⟨status, w₁, w₂, now, rfl, -, -, -, -, -, -, hshown⟩
  · cases hviews
  · exact ⟨status, w, w₂, now, hpeek, Except.ok.inj hviews, hshown.imp fun _ _ h => h.1⟩

/-! ### The log -/

/-- The log of a room only grows. -/
theorem Leads.allMessages (h : Leads app w₁ w₂) (id : String) :
    w₁.daemon.shared.db.allMessages id <+: w₂.daemon.shared.db.allMessages id :=
  h.later.messages.filter _

theorem countCappedMessages_eq (db : Db) (id : String) :
    db.countCappedMessages id = (db.allMessages id).countP (·.msgType = .msg) := by
  rw [Db.countCappedMessages, Db.allMessages, List.countP_filter]
  congr 1
  funext m
  rw [Db.countsTowardCap, Bool.and_comm]

/-- The views of the messages that count toward the cap. -/
theorem countP_messageView (messages : List Message) :
    (messages.map messageView).countP (·.msgType = "msg") =
      messages.countP (·.msgType = .msg) := by
  have hasStr : ∀ type : MessageType, decide (type.asStr = "msg") = decide (type = .msg) := by
    intro type
    cases type <;> rfl
  rw [List.countP_map]
  exact congrArg (messages.countP ·) (funext fun m => hasStr m.msgType)

/-- **The soft-cap counter at a high water that was read earlier** is the run that the log
of the room ended in then. -/
theorem consecutiveMsgCount_currentSeq {s s' : Store} (hlater : Later s s')
    (hwf : s'.db.WellFormed) (id : String) :
    s'.db.consecutiveMsgCount id (s.db.currentSeq id) = (s.db.allMessages id).foldl runStep 0 := by
  obtain ⟨newer, hnewer⟩ := hlater.messages
  have hsorted := hwf.seqs
  rw [← hnewer, List.map_append, List.pairwise_append] at hsorted
  -- what has landed since lies behind the high water
  have hbehind : newer.filter (fun m => m.roomId = id && m.seq ≤ s.db.currentSeq id) = [] := by
    rw [List.filter_eq_nil_iff]
    intro m hm hcontra
    rw [Bool.and_eq_true, decide_eq_true_eq, decide_eq_true_eq] at hcontra
    have hpos : 0 < m.seq := (hwf.posted m (hnewer ▸ List.mem_append_right _ hm)).1
    have hlt : s.db.currentSeq id < m.seq := by
      rw [Db.currentSeq, maxKey_lt hpos]
      rintro k hk
      obtain ⟨x, hx, rfl⟩ := List.mem_map.mp hk
      exact hsorted.2.2 _ (List.mem_map_of_mem (List.mem_of_mem_filter hx)) _ (List.mem_map_of_mem hm)
    omega
  have hfilter : s'.db.messages.filter (fun m => m.roomId = id && m.seq ≤ s.db.currentSeq id) =
      s.db.allMessages id := by
    rw [← hnewer, List.filter_append, hbehind, List.append_nil, Db.allMessages]
    refine List.filter_congr fun m hm => ?_
    rw [Bool.and_eq_left_iff_imp]
    intro hid
    have hmem : m ∈ s.db.messages.filter (·.roomId = id) := List.mem_filter.mpr ⟨hm, hid⟩
    exact decide_eq_true (le_maxKey (List.mem_map_of_mem hmem))
  rw [consecutiveMsgCount_filter, hfilter, foldl_runStep]
  · exact hsorted.1.sublist (List.filter_sublist.map _)
  · exact fun m hm => (hwf.posted m (hlater.messages.subset (List.mem_of_mem_filter hm))).1

/-- The transcript says of the room what its row says. -/
structure RoomTranscript.Of (t : RoomTranscript) (row : RoomRow) : Prop where
  id : t.id = row.id
  subject : t.subject = row.subject
  state : t.state = row.state.asStr
  startedAt : t.startedAt = Rfc3339.format row.startedAt
  lastActivityAt : t.lastActivityAt = Rfc3339.format row.lastActivityAt
  hardCap : (t.hardCap.toNat : ℤ) = row.config.hardCap
  softCap : (t.softCap.toNat : ℤ) = row.config.softCap

/-- What a transcript that is made while the daemon goes from `w₀` to `w` says of the log:
its messages, its count and its counter are those of three moments on the way. -/
structure RoomTranscript.Logs (t : RoomTranscript) (app : AppState) (id : String)
    (w₀ w : Serving) : Prop where
  moments : ∃ w₁ w₂ w₃, (Leads app w₀ w₁ ∧ Leads app w₁ w₂ ∧ Leads app w₂ w₃ ∧ Leads app w₃ w) ∧
    t.messages = (w₁.daemon.shared.db.allMessages id).map messageView ∧
    t.hardCapCount = w₂.daemon.shared.db.countCappedMessages id ∧
    t.softCapConsecutive = (w₃.daemon.shared.db.allMessages id).foldl runStep 0
  since : (w₀.daemon.shared.db.allMessages id).map messageView <+: t.messages
  upto : t.messages <+: (w.daemon.shared.db.allMessages id).map messageView
  listed : t.messages.countP (·.msgType = "msg") ≤ t.hardCapCount
  counted : t.hardCapCount ≤ w.daemon.shared.db.countCappedMessages id
  consecutive : ∃ log, t.messages <+: log.map messageView ∧ log <+: w.daemon.shared.db.allMessages id ∧
    t.softCapConsecutive = log.foldl runStep 0

/-- **What a transcript says of the log**, from the moments at which it was read. -/
theorem RoomTranscript.Logs.of_moments {t : RoomTranscript} {w₃ : Serving}
    (hsince : Leads app w₀ w₁) (hcount : Leads app w₁ w₂) (hwater : Leads app w₂ w₃)
    (hrest : Leads app w₃ w)
    (hmessages : t.messages = (w₁.daemon.shared.db.allMessages id).map messageView)
    (hcounted : t.hardCapCount = w₂.daemon.shared.db.countCappedMessages id)
    (hrun : t.softCapConsecutive = (w₃.daemon.shared.db.allMessages id).foldl runStep 0) :
    t.Logs app id w₀ w where
  moments := ⟨w₁, w₂, w₃, ⟨hsince, hcount, hwater, hrest⟩, hmessages, hcounted, hrun⟩
  since := by
    rw [hmessages]
    exact (hsince.allMessages id).map _
  upto := by
    rw [hmessages]
    exact (Leads.allMessages (hcount.trans (hwater.trans hrest)) id).map _
  listed := by
    rw [hmessages, hcounted, countP_messageView, countCappedMessages_eq]
    exact (hcount.allMessages id).sublist.countP_le
  counted := by
    rw [hcounted, countCappedMessages_eq, countCappedMessages_eq]
    exact (Leads.allMessages (hwater.trans hrest) id).sublist.countP_le
  consecutive := by
    refine ⟨w₃.daemon.shared.db.allMessages id, ?_, hrest.allMessages id, hrun⟩
    rw [hmessages]
    exact (Leads.allMessages (hcount.trans hwater) id).map _

/-- A send or a signal in the room that was answered has its message in the log. -/
theorem Reachable.mem_allMessages {c : Daemon} (h : Reachable app c) {i seq : ℕ}
    (hseq : answeredSeq c i = some seq) {t : Thread Call Call.Reply Request Outcome}
    (ht : c.threads[i]? = some t) (hroom : t.req.room = some id) :
    ∃ m ∈ c.shared.db.allMessages id, m.seq = seq ∧ m.CarriesOut t.req := by
  obtain ⟨t', ht', newer, e, older, htr, -, m, hlanded, hmseq, hcarries⟩ := h.acknowledged hseq
  obtain rfl := Option.some_inj.mp (ht.symm.trans ht')
  have hmem : m ∈ c.shared.db.messages := by
    rw [h.ledger.now.landed]
    exact mem_landings.mpr ⟨e, by simp [htr], hlanded⟩
  have hid : m.roomId = id := by
    cases hreq : t.req <;> rw [hreq] at hcarries hroom <;>
      first | exact hcarries.1.trans (Option.some_inj.mp hroom) | exact hcarries.elim
  exact ⟨m, List.mem_filter.mpr ⟨hmem, decide_eq_true hid⟩, hmseq, hcarries⟩

/-- **A transcript is complete**: it lists, from the first message on, the log of the
room as it was at one moment of the request, with every message that a send or a signal
had been answered for before; its count of the messages that spend the cap is not behind
what it lists, and within the cap that the room has in the end; and its soft-cap counter is
the run that the log ended in at a later moment of the request. -/
theorem transcript_complete (h : Served app w₀) {outcome : Except ApiError RoomTranscript}
    (hpeek : Peeks app grace (transcript id) w₀ outcome w) :
    (outcome = .error .notFound ∧ w₀.daemon.shared.db.hasRoom id = false) ∨
      ∃ t, outcome = .ok t ∧ t.Logs app id w₀ w ∧
        (∀ row ∈ w.daemon.shared.db.rooms, row.id = id → (t.hardCapCount : ℤ) ≤ row.config.hardCap) ∧
        (∀ (i seq : ℕ) (thread : Thread Call Call.Reply Request Outcome),
          answeredSeq w₀.daemon i = some seq → w₀.daemon.threads[i]? = some thread →
            thread.req.room = some id →
              ∃ m, m.seq = seq ∧ m.CarriesOut thread.req ∧ messageView m ∈ t.messages) ∧
        ∃ w₁ w₂ now, Leads app w₀ w₁ ∧ Leads app w₁ w₂ ∧ Leads app w₂ w ∧
          (∃ row ∈ w₁.daemon.shared.db.rooms, row.id = id ∧ t.Of row) ∧
          List.Forall₂ (Shown app grace now w₂ w) (w₂.daemon.shared.db.listParticipants id)
            t.participants := by
  obtain ⟨w₁, now, w₁', (hclock : Leads app w₀ w₁), hutc, hpeek⟩ := learns_step_iff.mp hpeek
  obtain ⟨rfl, rfl⟩ := Prod.mk.inj (Option.some_inj.mp hutc)
  obtain ⟨w₂, room, w₂', (hread : Leads app w₁ w₂), hroom, hpeek⟩ := learns_step_iff.mp hpeek
  cases room with
  | none =>
    obtain ⟨rfl, -⟩ := learns_pure_iff.mp hpeek
    exact .inl ⟨rfl, hasRoom_of_notFound (hclock.trans hread) hroom⟩
  | some room =>
    refine .inr ?_
    have hfound : Leads app _ _ := leads_of_tells hroom
    obtain ⟨w₃, participants, w₃', hlist, htells, hpeek⟩ := learns_step_iff.mp hpeek
    obtain ⟨rfl, rfl⟩ := Prod.mk.inj (Option.some_inj.mp htells)
    obtain ⟨w₄, messages, w₄', (hlog : Leads app w₃ w₄), htells, hpeek⟩ := learns_step_iff.mp hpeek
    obtain ⟨rfl, rfl⟩ := Prod.mk.inj (Option.some_inj.mp htells)
    obtain ⟨w₅, count, w₅', (hcount : Leads app w₄ w₅), htells, hpeek⟩ := learns_step_iff.mp hpeek
    obtain ⟨rfl, rfl⟩ := Prod.mk.inj (Option.some_inj.mp htells)
    obtain ⟨w₆, water, w₆', (hwater : Leads app w₅ w₆), htells, hpeek⟩ := learns_step_iff.mp hpeek
    obtain ⟨rfl, rfl⟩ := Prod.mk.inj (Option.some_inj.mp htells)
    obtain ⟨w₇, consecutive, w₇', (hrun : Leads app w₆ w₇), htells, hpeek⟩ := learns_step_iff.mp hpeek
    obtain ⟨rfl, rfl⟩ := Prod.mk.inj (Option.some_inj.mp htells)
    obtain ⟨t, w₈, htranscript, hend⟩ := learns_bind_iff.mp hpeek
    obtain ⟨rfl, hafter⟩ := learns_pure_iff.mp hend
    obtain ⟨views, w₉, hviews, hret⟩ := learns_bind_iff.mp htranscript
    obtain ⟨ht, hlast⟩ := learns_pure_iff.mp hret
    have hlisted : Leads app w₀ w₃ := (hclock.trans hread).trans (hfound.trans hlist)
    have hcounted : Leads app w₃ w₇ := ((hlog.trans hcount).trans hwater).trans hrun
    have hserved : Served app w₇ := h.leads (hlisted.trans hcounted)
    obtain ⟨hleads, hshown⟩ := learns_participantViews hserved hviews
    have hrest : Leads app w₇ w := (hleads.trans hlast).trans hafter
    have hlogs : t.Logs app id w₀ w := by
      refine .of_moments (hlisted.trans hlog) hcount hwater (hrun.trans hrest) ?_ ?_ ?_
      · rw [ht]
      · rw [ht]
      · rw [ht]
        exact consecutiveMsgCount_currentSeq hrun.later hserved.reachable.wellFormed id
    subst ht
    refine ⟨_, rfl, hlogs, ?_, ?_, w₂, w₃, w₁.daemon.shared.utc, hclock.trans hread,
      hfound.trans hlist, hcounted.trans hrest, ?_, ?_⟩
    · rintro row hrow rfl
      have hwithin := (hserved.leads hrest).reachable.withinCaps row hrow
      exact le_trans (by exact_mod_cast hlogs.counted) hwithin
    · intro i seq thread hseq hthread hreq
      obtain ⟨m, hm, hmseq, hcarries⟩ := h.reachable.mem_allMessages hseq hthread hreq
      exact ⟨m, hmseq, hcarries, hlogs.since.subset (List.mem_map_of_mem hm)⟩
    · obtain ⟨row, hrow, hid, hdecode⟩ := row_of_found hroom
      have hhead := rowToRoom_head hdecode
      obtain ⟨-, -, hhard, hsoft, -⟩ := rowToRoom_spec hdecode
      exact ⟨row, hrow, hid, hhead.1, hhead.2.1, congrArg RoomState.asStr hhead.2.2.1,
        congrArg Rfc3339.format hhead.2.2.2.1, congrArg Rfc3339.format hhead.2.2.2.2, hhard, hsoft⟩
    · exact hshown.imp fun p v hview => hview.wider hcounted (hlast.trans hafter)

set_option maxRecDepth 10000 in
theorem transcript_complete_talk : ∃ t w,
    Peeks .default DEFAULT_GRACE (transcript demoRoom) (attended talk) (.ok t) w ∧
      t.Logs .default demoRoom (attended talk) w ∧ t.hardCapCount = 1 ∧
      t.messages.map MessageView.body = ["hello", ""] := by
  have hstill : (((transcript demoRoom).still (Look.tells DEFAULT_GRACE) (attended talk)).map
      fun x => x.1.map fun t => (t.hardCapCount, t.messages.map MessageView.body)) =
        some (.ok (1, ["hello", ""])) := by decide +kernel
  obtain ⟨⟨outcome, w⟩, hstill, hviews⟩ := Option.map_eq_some_iff.mp hstill
  have hpeek : Peeks .default DEFAULT_GRACE (transcript demoRoom) (attended talk) outcome w :=
    learns_of_still hstill
  rcases transcript_complete (served_attended talk) hpeek with ⟨rfl, -⟩ | ⟨t, rfl, hlogs, -⟩
  · cases hviews
  · obtain ⟨hcount, hbodies⟩ := Prod.mk.inj (Except.ok.inj hviews)
    exact ⟨t, w, hpeek, hlogs, hcount, hbodies⟩

end ChatBotChat
