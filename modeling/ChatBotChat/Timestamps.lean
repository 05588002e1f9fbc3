/-
The timestamps of the database.

Every timestamp is written from a clock that the request has read, some calls before
the write (`GuardedCall`), and clocks do not go back.

* `timestamps_causal` — no column of any row is ahead of the clock, and nothing in a
  room is dated before the room.
-/
import ChatBotChat.Guards
import ChatBotChat.Opening

namespace ChatBotChat

open Interleave

variable {app : AppState} {c : Daemon} {e : Step} {tr older : List Step} {req : Request}
  {id : String} {now : OffsetDateTime} {s : Store} {row : RoomRow} {i : ℕ}

/-! ### Clocks that were read -/

/-- Nothing in the room is dated before the room: `now` is not. -/
def NotBefore (id : String) (now : OffsetDateTime) (s : Store) : Prop :=
  ∀ row ∈ s.db.rooms, row.id = id → row.startedAt ≤ now

/-- No room is dated ahead of the clock. -/
def RoomsStarted (_ : List Step) (s : Store) : Prop := ∀ row ∈ s.db.rooms, row.startedAt ≤ s.utc

/-- A room opens with the date that its request has read. -/
theorem Reachable.opened_dated (h : Reachable app c) (hrec : Recorded app c e tr)
    (hopened : e.call.opened e.reply = some row) : row.startedAt ≤ e.before.utc ∧
      row.lastActivityAt = row.startedAt ∧ row.stateChangedAt = row.startedAt := by
  obtain ⟨-, room, hcall, rfl⟩ := opened_createRoom hopened
  obtain ⟨t, -, hguard⟩ := h.guarded.event hrec.suffix
  rw [hcall] at hguard
  exact ⟨hrec.utc_read_le hguard.1, hguard.2.1, hguard.2.2⟩

theorem Reachable.roomsStarted (h : Reachable app c) : Throughout c RoomsStarted := by
  refine h.induction ?_ ?_ ?_
  · rintro s₀ ⟨hdb, -⟩
    simp [RoomsStarted, hdb, Db.empty]
  · intro tr s₁ s₂ hdb _ hutc _ hrooms row hrow
    exact (hrooms row (hdb ▸ hrow)).trans hutc
  · intro e tr hrec hrooms row hrow
    rw [hrec.effect.utc]
    rcases hrec.effect.mem_rooms.mp hrow with ⟨row₀, hrow₀, rfl⟩ | hopened
    · rw [Call.onRoom_startedAt]
      exact hrooms row₀ hrow₀
    · exact (h.opened_dated hrec hopened).1

/-- A room that was read is there. -/
theorem Recorded.row_of_getRoom {room : Room} (hrec : Recorded app c e older)
    (heq : (⟨e.call, e.reply⟩ : Sigma Call.Reply) = ⟨.getRoom id, some room⟩) :
    ∃ row ∈ e.after.db.rooms, row.id = id := by
  obtain ⟨sess, hexec⟩ := hrec.exec
  obtain ⟨tid, call, reply, before, after⟩ := e
  cases heq
  obtain ⟨hget, hafter⟩ := done_of_tryRead hexec
  obtain ⟨row, hrow, -⟩ := Db.getRoom_spec hget
  exact ⟨row, hafter ▸ Db.mem_of_roomRow hrow⟩

/-- A clock that was read is the clock there was. -/
theorem Recorded.utc_of_nowUtc (hrec : Recorded app c e older)
    (heq : (⟨e.call, e.reply⟩ : Sigma Call.Reply) = ⟨.nowUtc, now⟩) : now = e.before.utc := by
  obtain ⟨sess, hexec⟩ := hrec.exec
  obtain ⟨tid, call, reply, before, after⟩ := e
  cases heq
  exact (done_of_read hexec).1.symm

/-- A clock that was read after the room was found is not behind the room. -/
theorem Recorded.notBefore_of_readSince (hrec : Recorded app c e older) (h : Reachable app c)
    (hread : ReadSince id now (pastOf i older)) : NotBefore id now e.before := by
  obtain ⟨newer, past, hpast, room, hfound⟩ := hread
  obtain ⟨tr₂, n, tr₁, rfl, hn, heq, -, rfl⟩ := pastOf_split hpast
  obtain ⟨g, hg, -, hgeq⟩ := mem_pastOf.mp hfound
  obtain ⟨mid, old, rfl⟩ := List.append_of_mem hg
  have hsuf : n :: (mid ++ g :: old) <:+ c.trace :=
    (List.suffix_append tr₂ _).trans ((List.suffix_cons _ _).trans hrec.suffix)
  have hgsuf : g :: old <:+ c.trace :=
    (List.suffix_append mid _).trans ((List.suffix_cons _ _).trans hsuf)
  obtain ⟨row₀, hrow₀, rfl⟩ := (h.recorded hgsuf).row_of_getRoom hgeq
  have hstarted : row₀.startedAt ≤ now := by
    rw [(h.recorded hsuf).utc_of_nowUtc heq]
    exact (h.roomsStarted.after hgsuf row₀ hrow₀).trans (History.later (h.history_between hsuf)).utc
  -- the room that was found is the room that is there now
  intro row hrow hid
  have hbetween : e :: ((tr₂ ++ n :: mid) ++ g :: old) <:+ c.trace := by simpa using hrec.suffix
  have hist : History app g.after (tr₂ ++ n :: mid) e.before := h.history_between hbetween
  obtain ⟨row', hrow', hsame⟩ := hist.sameRoom row₀ hrow₀
  obtain rfl := hrec.wellFormed_before.room_unique hrow hrow' (hid.trans hsame.id.symm)
  rw [hsame.startedAt]
  exact hstarted

/-! ### What a call writes -/

/-- The timestamp that a call writes. -/
def Call.stamped : Call → Option OffsetDateTime
  | .updateRoomState _ _ _ now _ | .touchLastActivity _ now | .touchLastPoll _ now
  | .tryExtend _ _ _ now _ _ | .createMessageTyped _ _ _ _ now _ _ _
  | .createMessageCapped _ _ _ _ now _ _ => some now
  | .setCloseVote _ at_ => at_
  | _ => none

theorem GuardedCall.clock {past : Log} {k : Call} (h : GuardedCall req past k)
    (hk : k.stamped = some now) : ReadClock now past := by
  cases k
  case updateRoomState => cases hk; exact h
  case touchLastActivity => cases hk; exact h.2.2.clock
  case touchLastPoll => cases hk; exact h
  case tryExtend => cases hk; exact h.2.2
  case createMessageTyped => cases hk; exact h.2.2.1.clock
  case createMessageCapped => cases hk; exact h.2.2.1.clock
  case setCloseVote handle at_ =>
    obtain rfl : at_ = some now := hk
    exact h.2
  all_goals cases hk

theorem onRoom_dates {k : Call} {x : k.Reply} :
    ((k.onRoom x row).lastActivityAt = row.lastActivityAt ∨
      k = .touchLastActivity row.id (k.onRoom x row).lastActivityAt) ∧
    ((k.onRoom x row).stateChangedAt = row.stateChangedAt ∨
      k.stamped = some (k.onRoom x row).stateChangedAt) := by
  cases k
  case updateRoomState id from_ to_ now detail =>
    cases x
    · exact ⟨.inl rfl, .inl rfl⟩
    · simp only [Call.onRoom]
      split
      · exact ⟨.inl rfl, .inr rfl⟩
      · exact ⟨.inl rfl, .inl rfl⟩
  case touchLastActivity id now =>
    simp only [Call.onRoom]
    split
    · rename_i hid
      exact ⟨.inr (by rw [hid]), .inl rfl⟩
    · exact ⟨.inl rfl, .inl rfl⟩
  case tryExtend =>
    cases x
    · simp only [Call.onRoom]
      split <;> exact ⟨.inl rfl, .inl rfl⟩
    · exact ⟨.inl rfl, .inl rfl⟩
  all_goals exact ⟨.inl rfl, .inl rfl⟩

theorem onParticipant_dates {k : Call} {x : k.Reply} {p : Participant} :
    ((k.onParticipant x p).lastPollAt = p.lastPollAt ∨
      k.stamped = some (k.onParticipant x p).lastPollAt) ∧
    (∀ at_ ∈ (k.onParticipant x p).wantsCloseAt, at_ ∈ p.wantsCloseAt ∨ k.stamped = some at_) ∧
    ∀ at_ ∈ (k.onParticipant x p).wantsExtendAt, at_ ∈ p.wantsExtendAt ∨ k.stamped = some at_ := by
  cases k
  case tryExtend id voter step now cutoff quorum =>
    cases x <;> simp only [Call.onParticipant] <;> split_ifs <;> simp +contextual [Call.stamped]
  all_goals
    simp only [Call.onParticipant]
    try split
  all_goals simp +contextual [Call.stamped]

/-! ### The columns -/

/-- A vote is dated at or before `now`. -/
def VotedBy (now : OffsetDateTime) (vote : Option OffsetDateTime) : Prop := ∀ at_ ∈ vote, at_ ≤ now

/-- No column is ahead of the clock, and nothing in a room is dated before it. -/
structure Dated (s : Store) : Prop where
  rooms : ∀ row ∈ s.db.rooms, row.startedAt ≤ row.lastActivityAt ∧ row.lastActivityAt ≤ s.utc ∧
    row.stateChangedAt ≤ s.utc
  participants : ∀ p ∈ s.db.participants, NotBefore p.roomId p.joinedAt s ∧ p.joinedAt ≤ s.utc ∧
    p.lastPollAt ≤ s.utc ∧ VotedBy s.utc p.wantsCloseAt ∧ VotedBy s.utc p.wantsExtendAt
  messages : ∀ m ∈ s.db.messages, NotBefore m.roomId m.createdAt s ∧ m.createdAt ≤ s.utc
  events : ∀ ev ∈ s.db.events, ev.at_ ≤ s.utc

theorem NotBefore.call (hrec : Recorded app c e tr) (hroom : e.before.db.hasRoom id = true)
    (h : NotBefore id now e.before) : NotBefore id now e.after := by
  intro row hrow hid
  rcases hrec.effect.mem_rooms.mp hrow with ⟨row₀, hrow₀, rfl⟩ | hopened
  · rw [Call.onRoom_startedAt]
    exact h row₀ hrow₀ (by rwa [Call.onRoom_id] at hid)
  · obtain ⟨sess, hexec⟩ := hrec.exec
    have hfree := opened_spec hexec hopened
    rw [hid, hroom] at hfree
    cases hfree

/-- A message is dated with a clock that its request has read since it found the room. -/
theorem GuardedCall.dated {past : Log} {k : Call} {db : Db} {m : Message}
    (h : GuardedCall req past k) (hrow : k.row db = some m) : ReadSince m.roomId m.createdAt past := by
  cases k
  case createMessageTyped => cases hrow; exact h.2.2.1
  case createMessageCapped => cases hrow; exact h.2.2.1
  all_goals cases hrow

/-- So is a participant that joins. -/
theorem GuardedCall.joined {past : Log} {k : Call} {x : k.Reply} {p : Participant}
    (h : GuardedCall req past k) (hp : k.joined x = some p) :
    ReadSince p.roomId p.joinedAt past ∧ p.lastPollAt = p.joinedAt := by
  cases k
  case createParticipant p' =>
    cases x
    · obtain rfl := Option.some_inj.mp hp
      exact h
    · cases hp
  all_goals cases hp

/-- Who joins has not voted. -/
theorem Discipline.joined_votes {past : Log} {k : Call} {x : k.Reply} {p : Participant}
    (h : Discipline req past k) (hp : k.joined x = some p) :
    p.wantsCloseAt = none ∧ p.wantsExtendAt = none := by
  cases k
  case createParticipant p' =>
    cases x
    · obtain rfl := Option.some_inj.mp hp
      exact ⟨h.2.1, h.2.2.1⟩
    · cases hp
  all_goals cases hp

/-- An event is dated as the transition that it records. -/
theorem stamped_of_logged {k : Call} {x : k.Reply} {db : Db} {ev : Event}
    (hev : k.logged db x = some ev) : k.stamped = some ev.at_ := by
  cases k
  case updateRoomState =>
    cases x
    · cases hev
    · cases hev
      rfl
  all_goals cases hev

theorem VotedBy.mono {now' : OffsetDateTime} {vote : Option OffsetDateTime} (h : VotedBy now vote)
    (hle : now ≤ now') : VotedBy now' vote := fun at_ hat => (h at_ hat).trans hle

theorem Dated.call (h : Reachable app c) (hrec : Recorded app c e tr) (hd : Dated e.before) :
    Dated e.after := by
  obtain ⟨sess, hexec⟩ := hrec.exec
  obtain ⟨t, -, hguard⟩ := h.guarded.event hrec.suffix
  have hstamp : ∀ at_, e.call.stamped = some at_ → at_ ≤ e.before.utc :=
    fun at_ hat => hrec.utc_read_le (hguard.clock hat)
  have hwf := hrec.wellFormed_before
  constructor
  case rooms =>
    intro row hrow
    rw [hrec.effect.utc]
    rcases hrec.effect.mem_rooms.mp hrow with ⟨row₀, hrow₀, rfl⟩ | hopened
    · obtain ⟨hstart, hactive, hchanged⟩ := hd.rooms row₀ hrow₀
      obtain ⟨hactive', hchanged'⟩ := @onRoom_dates row₀ e.call e.reply
      rw [Call.onRoom_startedAt]
      have hactivity : row₀.startedAt ≤ (e.call.onRoom e.reply row₀).lastActivityAt ∧
          (e.call.onRoom e.reply row₀).lastActivityAt ≤ e.before.utc := by
        rcases hactive' with hsame | htouch
        · exact hsame ▸ ⟨hstart, hactive⟩
        · rw [htouch] at hguard
          exact ⟨hrec.notBefore_of_readSince h hguard.2.2 row₀ hrow₀ rfl,
            hrec.utc_read_le hguard.2.2.clock⟩
      refine ⟨hactivity.1, hactivity.2, ?_⟩
      rcases hchanged' with hsame | hmoved
      · exact hsame ▸ hchanged
      · exact hstamp _ hmoved
    · obtain ⟨hstart, hactive, hchanged⟩ := h.opened_dated hrec hopened
      exact ⟨hactive.ge, hactive.trans_le hstart, hchanged.trans_le hstart⟩
  case participants =>
    intro p hp
    rw [hrec.effect.utc]
    rcases hrec.effect.mem_participants.mp hp with ⟨q, hq, -, rfl⟩ | hjoined
    · obtain ⟨hroom, hjoin, hpoll, hclose, hextend⟩ := hd.participants q hq
      obtain ⟨hpoll', hclose', hextend'⟩ :=
        onParticipant_dates (k := e.call) (x := e.reply) (p := q)
      rw [Call.onParticipant_roomId, (Call.onParticipant_spec q).2.2.2]
      refine ⟨hroom.call hrec (hwf.homes q hq), hjoin, ?_, fun at_ hat => ?_, fun at_ hat => ?_⟩
      · rcases hpoll' with hsame | hpolled
        · exact hsame ▸ hpoll
        · exact hstamp _ hpolled
      · exact (hclose' at_ hat).elim (hclose at_) (hstamp at_)
      · exact (hextend' at_ hat).elim (hextend at_) (hstamp at_)
    · obtain ⟨hread, hpoll⟩ := hguard.joined hjoined
      obtain ⟨t', -, hdisc⟩ := hrec.disciplined
      obtain ⟨hclose, hextend⟩ := hdisc.joined_votes hjoined
      have hjoin := hrec.utc_read_le hread.clock
      exact ⟨(hrec.notBefore_of_readSince h hread).call hrec (joined_spec hexec hjoined).1, hjoin,
        hpoll.trans_le hjoin, by simp [VotedBy, hclose], by simp [VotedBy, hextend]⟩
  case messages =>
    intro m hm
    rw [hrec.effect.messages, List.mem_append, Option.mem_toList] at hm
    rw [hrec.effect.utc]
    rcases hm with hm | hlanded
    · exact ⟨(hd.messages m hm).1.call hrec (hwf.posted m hm).2, (hd.messages m hm).2⟩
    · obtain ⟨hrow, hroom⟩ := landed_row hexec hlanded
      have hread := hguard.dated hrow
      exact ⟨(hrec.notBefore_of_readSince h hread).call hrec hroom, hrec.utc_read_le hread.clock⟩
  case events =>
    intro ev hev
    rw [hrec.effect.events, List.mem_append, Option.mem_toList] at hev
    rw [hrec.effect.utc]
    rcases hev with hev | hlogged
    · exact hd.events ev hev
    · exact hstamp _ (stamped_of_logged hlogged)

theorem Reachable.dated (h : Reachable app c) : Throughout c fun _ s => Dated s := by
  refine h.induction ?_ ?_ fun hrec hd => hd.call h hrec
  · rintro s₀ ⟨hdb, -⟩
    constructor <;> simp [hdb, Db.empty]
  · intro tr s₁ s₂ hdb _ hutc _ hd
    have hsame : ∀ {id now}, NotBefore id now s₁ → NotBefore id now s₂ :=
      fun hnot row hrow => hnot row (hdb ▸ hrow)
    constructor <;> rw [hdb]
    · exact fun row hrow => ⟨(hd.rooms row hrow).1, (hd.rooms row hrow).2.1.trans hutc,
        (hd.rooms row hrow).2.2.trans hutc⟩
    · intro p hp
      obtain ⟨hroom, hjoin, hpoll, hclose, hextend⟩ := hd.participants p hp
      exact ⟨hsame hroom, hjoin.trans hutc, hpoll.trans hutc, hclose.mono hutc, hextend.mono hutc⟩
    · exact fun m hm => ⟨hsame (hd.messages m hm).1, (hd.messages m hm).2.trans hutc⟩
    · exact fun ev hev => (hd.events ev hev).trans hutc

/-- **Timestamps keep to the order of cause and effect**: in every reachable daemon no
timestamp of any row is ahead of the clock, however long ago its request had read it
and whatever has run since; a room's activity, its messages and the joining of its
participants are not dated before the room; and the same held at every earlier point
of the run. -/
theorem timestamps_causal (h : Reachable app c) : Dated c.shared ∧
    ∀ e ∈ c.trace, Dated e.before ∧ Dated e.after := by
  refine ⟨h.dated.now, fun e he => ?_⟩
  obtain ⟨newer, older, htr⟩ := List.append_of_mem he
  exact ⟨h.dated.before ⟨newer, htr.symm⟩, h.dated.after ⟨newer, htr.symm⟩⟩

theorem timestamps_causal_demo : Dated (demo (gather none [alice, bob] ++
    [.sendMessage demoRoom ⟨alice, none, "hello", false⟩])).shared :=
  (timestamps_causal (reachable_demo _)).1

end ChatBotChat
