/-
Rooms that have ended.

A room that is closed or archived does not open again, and a request that comes to
it later finds it so and turns away.  What can still reach it are the requests that
had read it while it was open (`overdue`).

* `ended_room_frozen` — only overdue requests write to a room that has ended, each
  of them lands one message at most, and where there are none, nothing of the room
  changes any more but its archiving.
-/
import ChatBotChat.Ledger

namespace ChatBotChat

open Interleave Lifecycle

variable {app : AppState} {c c' : Daemon} {e : Step} {tr new older : List Step} {req : Request}
  {past : Log} {k : Call} {id : String} {s : Store} {t : Thread Call Call.Reply Request Outcome}

/-! ### What enters a room -/

/-- The call writes to the room: a message, a bump of the cap or a vote for one,
its activity, or a vote to close it. -/
def Call.enters (id : String) (req : Request) : Call → Bool
  | .touchLastActivity id' _ | .tryExtend id' _ _ _ _ _ | .createMessageTyped id' _ _ _ _ _ _ _
  | .createMessageCapped id' _ _ _ _ _ _ => id' = id
  | .setCloseVote _ (some _) => req.room = some id
  | _ => false

/-- The requests about the room that have arrived and still have calls to make. -/
def overdue (id : String) (c : Daemon) : List ℕ :=
  (inFlight c).filter fun i => c.threads[i]?.any fun t => t.req.room = some id

theorem mem_overdue {i : ℕ} : i ∈ overdue id c ↔
    i ∈ inFlight c ∧ ∃ t, c.threads[i]? = some t ∧ t.req.room = some id := by
  simp [overdue, List.mem_filter, Option.any_eq_true]

/-- Whoever writes to a room is about it, and has read it open. -/
theorem GuardedCall.of_enters (h : GuardedCall req past k) (hk : k.enters id req = true) :
    req.room = some id ∧ ReadOpen id past := by
  cases k
  case setCloseVote handle at_ =>
    cases at_ with
    | none => cases hk
    | some now =>
      obtain ⟨⟨id', hroom, hopen⟩, -⟩ := h
      have hid : req.room = some id := of_decide_eq_true hk
      obtain rfl := Option.some_inj.mp (hroom.symm.trans hid)
      exact ⟨hroom, hopen⟩
  case touchLastActivity id' now =>
    obtain rfl : id' = id := of_decide_eq_true hk
    exact ⟨h.1, h.2.1⟩
  case tryExtend id' voter step now cutoff quorum =>
    obtain rfl : id' = id := of_decide_eq_true hk
    exact ⟨h.1, h.2.1⟩
  case createMessageTyped id' _ _ _ _ _ _ _ =>
    obtain rfl : id' = id := of_decide_eq_true hk
    exact ⟨h.1, h.2.1⟩
  case createMessageCapped id' _ _ _ _ _ _ =>
    obtain rfl : id' = id := of_decide_eq_true hk
    exact ⟨h.1, h.2.1⟩
  all_goals cases hk

/-- A message lands by a call that enters its room. -/
theorem enters_of_landed {r : k.Reply} {sess : List UInt16} {s s' : Store} {m : Message}
    (hexec : Store.exec sess k s = .done r s') (hm : k.landed r = some m) :
    k.enters m.roomId req = true := by
  have hrow := (landed_row hexec hm).1
  cases k
  case createMessageTyped =>
    obtain rfl := Option.some_inj.mp hrow
    exact decide_eq_true rfl
  case createMessageCapped =>
    obtain rfl := Option.some_inj.mp hrow
    exact decide_eq_true rfl
  all_goals cases hm

/-! ### Who enters a room that has ended -/

/-- A room that has ended has ended at every later point of the run. -/
theorem Reachable.ended_upto (h : Reachable app c) (hrun : (daemon app).Run c c')
    (hnew : c'.trace = new ++ c.trace) (hended : c.shared.ended id = true)
    (hist : History app c.shared tr s) (hsuf : tr <:+ new) : s.ended id = true := by
  refine h.induction_upto (P := fun _ s => s.ended id = true) hrun hnew hended ?_ ?_ hist hsuf
  · intro tr s₁ s₂ hdb _ _ _ hs
    rwa [Store.ended, Store.stateOf, hdb]
  · exact fun _ hrec hs => hrec.ended_after hs

/-- What ends the calls recorded since ends all calls that were recorded. -/
theorem suffix_since (hnew : c'.trace = new ++ c.trace) (hsuf : e :: tr <:+ new) :
    e :: (tr ++ c.trace) <:+ c'.trace := by
  obtain ⟨newer, htr⟩ := hsuf
  exact ⟨newer, by rw [hnew, ← htr, List.append_assoc, List.cons_append]⟩

/-- Where a run is cut, the part before the cut is a run of its own store. -/
theorem history_before (hrun : (daemon app).Run c c') (hnew : c'.trace = new ++ c.trace)
    (hsuf : e :: tr <:+ new) : History app c.shared tr e.before := by
  have hist : History app c.shared new c'.shared := hrun.history_of_eq hnew
  obtain ⟨newer, rfl⟩ := hsuf
  exact (System.History.split hist).1

/-- **Only overdue requests** write to a room that has ended. -/
theorem Reachable.overdue_of_enters (h : Reachable app c) (hrun : (daemon app).Run c c')
    (hnew : c'.trace = new ++ c.trace) (hended : c.shared.ended id = true) (hsuf : e :: tr <:+ new)
    (ht : c'.threads[e.tid]? = some t) (hk : e.call.enters id t.req = true) :
    e.tid ∈ overdue id c := by
  obtain ⟨t', ht', hguard⟩ := (h.run hrun).guarded.event (suffix_since hnew hsuf)
  obtain rfl := Option.some_inj.mp (ht.symm.trans ht')
  obtain ⟨hroom, room, hread, hopen⟩ := hguard.of_enters hk
  rw [pastOf_append] at hread
  rcases List.mem_append.mp hread with hread | hread
  · -- it cannot have read the room open since
    obtain ⟨g, hg, -, heq⟩ := mem_pastOf.mp hread
    obtain ⟨newer, older, rfl⟩ := List.append_of_mem hg
    have hold : g :: older <:+ new :=
      (List.suffix_append newer (g :: older)).trans ((List.suffix_cons _ _).trans hsuf)
    have hend := h.ended_upto hrun hnew hended (history_before hrun hnew hold)
      ((List.suffix_cons _ _).trans hold)
    obtain ⟨sess, hexec⟩ := ((h.run hrun).recorded (suffix_since hnew hold)).exec
    obtain ⟨tid, call, reply, before, after⟩ := g
    cases heq
    rw [Store.ended, (stateOf_of_getRoom hexec).1, Option.any_some, hopen] at hend
    cases hend
  · -- it had arrived, and it has made a call since
    obtain ⟨g, hg, hgid, -⟩ := mem_pastOf.mp hread
    have hlt : e.tid < c.threads.length := hgid ▸ h.guarded.tid_lt hg
    obtain ⟨t₀, ht₀, hreq⟩ := hrun.thread_persists (List.getElem?_eq_getElem hlt)
    obtain rfl := Option.some_inj.mp (ht.symm.trans ht₀)
    refine mem_overdue.mpr ⟨?_, _, List.getElem?_eq_getElem hlt, hreq ▸ hroom⟩
    rcases hrun.inFlight_or_newcomer hnew (hsuf.mem List.mem_cons_self) with hflight | hcontra
    · exact hflight
    · omega

/-! ### What becomes of a room that has ended -/

theorem length_landings_filter (P : Message → Bool) : ∀ tr : List Step,
    ((landings tr).filter P).length = tr.countP fun e => (e.call.landed e.reply).any P := by
  intro tr
  induction tr with
  | nil => rfl
  | cons e tr ih =>
    rw [landings_cons, List.filter_append, List.length_append, ih, List.countP_cons]
    cases e.call.landed e.reply with
    | none => simp
    | some m => by_cases hm : P m = true <;> simp [hm]

/-- What lands in a room that has ended is from overdue requests. -/
theorem Reachable.overdue_of_landed (h : Reachable app c) (hrun : (daemon app).Run c c')
    (hnew : c'.trace = new ++ c.trace) (hended : c.shared.ended id = true) {m : Message}
    (he : e ∈ new) (hm : e.call.landed e.reply = some m) (hroom : m.roomId = id) :
    e.tid ∈ overdue id c := by
  obtain ⟨newer, older, htr⟩ := List.append_of_mem he
  have hsuf : e :: older <:+ new := ⟨newer, htr.symm⟩
  obtain ⟨t, ht, -⟩ := (h.run hrun).guarded.event (suffix_since hnew hsuf)
  obtain ⟨sess, hexec⟩ := ((h.run hrun).recorded (suffix_since hnew hsuf)).exec
  have henters : e.call.enters m.roomId t.req = true := enters_of_landed hexec hm
  exact h.overdue_of_enters hrun hnew hended hsuf ht (hroom ▸ henters)

/-- No more messages land in a room that has ended than there are overdue requests. -/
theorem Reachable.landings_le (h : Reachable app c) (hrun : (daemon app).Run c c')
    (hnew : c'.trace = new ++ c.trace) (hended : c.shared.ended id = true) :
    ((landings new).filter (·.roomId = id)).length ≤ (overdue id c).length := by
  rw [length_landings_filter, List.countP_eq_length_filter]
  let landers := new.filter fun e => (e.call.landed e.reply).any (·.roomId = id)
  have hnodup : (landers.map Interleave.Event.tid).Nodup := by
    have hall := (h.run hrun).nodup_landers
    rw [hnew, List.filter_append, List.map_append] at hall
    refine (List.nodup_append.mp hall).1.sublist (List.Sublist.map _ ?_)
    refine List.monotone_filter_right _ fun e hlanded => ?_
    cases hm : e.call.landed e.reply with
    | none => simp [hm] at hlanded
    | some m => rfl
  have hsub : landers.map Interleave.Event.tid ⊆ overdue id c := by
    intro i hi
    obtain ⟨e, he, rfl⟩ := List.mem_map.mp hi
    obtain ⟨he, hlanded⟩ := List.mem_filter.mp he
    obtain ⟨m, hm, hroom⟩ := (Option.any_eq_true _ _).mp hlanded
    exact h.overdue_of_landed hrun hnew hended he hm (of_decide_eq_true hroom)
  calc landers.length = (landers.map Interleave.Event.tid).length := (List.length_map _).symm
    _ ≤ (overdue id c).length := (List.subperm_of_subset hnodup hsub).length_le

/-- A call that does not enter a room and leaves its state leaves the room. -/
theorem onRoom_eq_self (hd : Discipline req past k) {r : k.Reply} {row : RoomRow}
    (hk : k.enters row.id req = false) (hsame : k.nextState r row.id row.state = row.state) :
    k.onRoom r row = row := by
  cases k
  case updateRoomState id' from_ to_ now detail =>
    cases r with
    | false => rfl
    | true =>
      have hne : ¬ (row.id = id' && row.state = from_) = true := by
        intro hmatch
        rw [Call.nextState, if_pos hmatch] at hsame
        rw [Bool.and_eq_true, decide_eq_true_eq, decide_eq_true_eq] at hmatch
        exact hd.2.2.1 (hmatch.2.symm.trans hsame.symm)
      rw [Call.onRoom, if_neg hne]
  case touchLastActivity id' now =>
    have hne : row.id ≠ id' := fun heq => by simp [Call.enters, heq] at hk
    rw [Call.onRoom, if_neg hne]
  case tryExtend id' voter step now cutoff quorum =>
    have hne : row.id ≠ id' := fun heq => by simp [Call.enters, heq] at hk
    cases r with
    | extended cap => rw [Call.onRoom, if_neg hne]
    | proposed votes needed => rfl
  all_goals rfl

/-- A call that moves a room stamps it, and leaves the rest of it. -/
theorem onRoom_of_moved {r : k.Reply} {row : RoomRow}
    (hmoved : row.state ≠ k.nextState r row.id row.state) : ∃ now, k.onRoom r row =
      { row with state := k.nextState r row.id row.state, stateChangedAt := now } := by
  cases k
  case updateRoomState id' from_ to_ now detail =>
    cases r with
    | false => exact absurd rfl hmoved
    | true =>
      by_cases hmatch : (row.id = id' && row.state = from_) = true
      · exact ⟨now, by rw [Call.onRoom, if_pos hmatch, Call.nextState, if_pos hmatch]⟩
      · exact absurd (by rw [Call.nextState, if_neg hmatch]) hmoved
  all_goals exact absurd rfl hmoved

/-- The one transition that is left to a room that has ended is into the archive. -/
theorem edge_of_terminal {a b : RoomState} (ha : a.terminal = true) (hedge : Edge a b) :
    b = .archived := by
  cases a <;> try cases ha
  · exact edge_closed hedge
  · exact absurd hedge not_edge_archived

/-- The room is as it was, or it has been archived since. -/
inductive Frozen (row : RoomRow) (events : List Event) (s : Store) : Prop
  | still : row ∈ s.db.rooms → s.db.listEvents row.id = events → Frozen row events s
  | archived {now : OffsetDateTime} {ev : Event} :
      { row with state := .archived, stateChangedAt := now } ∈ s.db.rooms → ev.kind = .archive →
      s.db.listEvents row.id = events ++ [ev] → Frozen row events s

/-- The row of the room, whichever it is. -/
theorem Frozen.row {row : RoomRow} {events : List Event} (h : Frozen row events s) :
    ∃ row' ∈ s.db.rooms, row'.id = row.id := by
  cases h with
  | still hrow _ => exact ⟨row, hrow, rfl⟩
  | archived hrow _ _ => exact ⟨_, hrow, rfl⟩

theorem Frozen.call {row : RoomRow} {events : List Event} (hrec : Recorded app c' e tr)
    (ht : c'.threads[e.tid]? = some t) (hk : e.call.enters row.id t.req = false)
    (hterm : row.state.terminal = true) (h : Frozen row events e.before) :
    Frozen row events e.after := by
  obtain ⟨sess, hexec⟩ := hrec.exec
  obtain ⟨t', ht', hd⟩ := hrec.disciplined
  obtain rfl := Option.some_inj.mp (ht.symm.trans ht')
  have hkept : ∀ row' ∈ e.before.db.rooms, row'.id = row.id →
      (e.call.nextState e.reply row'.id row'.state = row'.state ∧
        ∀ ev, e.call.logged e.before.db e.reply = some ev → ev.roomId ≠ row'.id) →
      row' ∈ e.after.db.rooms ∧ e.after.db.listEvents row.id = e.before.db.listEvents row.id := by
    rintro row' hrow' hid ⟨hsame, hnone⟩
    refine ⟨hrec.effect.mem_rooms.mpr (.inl ⟨row', hrow', onRoom_eq_self hd (hid ▸ hk) hsame⟩), ?_⟩
    rw [hrec.effect.listEvents]
    cases hlog : e.call.logged e.before.db e.reply with
    | none => simp
    | some ev => simp [hid ▸ hnone ev hlog]
  cases h with
  | still hrow hevents =>
    rcases audited_call hrec.wellFormed_before hexec hd hrow with hsame | ⟨ev, hev, hid, haudit⟩
    · obtain ⟨hrow', hevents'⟩ := hkept row hrow rfl hsame
      exact .still hrow' (hevents'.trans hevents)
    · have hnext := edge_of_terminal hterm haudit.2.2.1
      obtain ⟨now, hmoved⟩ := onRoom_of_moved haudit.2.2.2.1
      have hrow' := hrec.effect.mem_rooms.mpr (.inl ⟨row, hrow, rfl⟩)
      rw [hmoved, hnext] at hrow'
      refine .archived hrow' (haudit.2.2.2.2.mpr hnext) ?_
      rw [hrec.effect.listEvents, hev, hevents]
      simp [hid]
  | archived hrow hkind hevents =>
    rcases audited_call hrec.wellFormed_before hexec hd hrow with hsame | ⟨ev, -, -, haudit⟩
    · obtain ⟨hrow', hevents'⟩ := hkept _ hrow rfl hsame
      exact .archived hrow' hkind (hevents'.trans hevents)
    · exact absurd haudit.2.2.1 not_edge_archived

theorem Reachable.allMessages_since (h : Reachable app c) (hrun : (daemon app).Run c c')
    (hnew : c'.trace = new ++ c.trace) (id : String) : c'.shared.db.allMessages id =
      c.shared.db.allMessages id ++ (landings new).filter (·.roomId = id) := by
  rw [Db.allMessages, (h.run hrun).ledger.now.landed, hnew, landings_append, List.filter_append,
    ← h.ledger.now.landed]
  rfl

/-- **A room that has ended takes nothing new**: from a configuration on in which a
room is closed or archived, whatever arrives and however it is interleaved, only
requests write messages, cap, activity or votes to it that were under way with it
already; what lands in it is appended to its messages, and each of those requests
lands one message at most; and once none of them is left, its messages stay what they
are, and so does the room, but for being archived once. -/
theorem ended_room_frozen (h : Reachable app c) (hrun : (daemon app).Run c c')
    (hended : c.shared.ended id = true) : ∃ new, c'.trace = new ++ c.trace ∧
      c'.shared.db.allMessages id =
        c.shared.db.allMessages id ++ (landings new).filter (·.roomId = id) ∧
      ((landings new).filter (·.roomId = id)).length ≤ (overdue id c).length ∧
      (∀ i, (landingsOf i c'.trace).length ≤ 1 ∧
        ∀ m ∈ landingsOf i new, m.roomId = id → i ∈ overdue id c) ∧
      (∀ e ∈ new, ∀ t, c'.threads[e.tid]? = some t → e.call.enters id t.req = true →
        e.tid ∈ overdue id c) ∧
      (overdue id c = [] → c'.shared.db.allMessages id = c.shared.db.allMessages id ∧
        ∀ row ∈ c.shared.db.rooms, row.id = id →
          Frozen row (c.shared.db.listEvents id) c'.shared) := by
  obtain ⟨new, hnew, -⟩ := hrun.history
  have hmessages := h.allMessages_since hrun hnew id
  have hposted := h.landings_le hrun hnew hended
  have henters : ∀ {e : Step} {tr : List Step}, e :: tr <:+ new → ∀ t,
      c'.threads[e.tid]? = some t → e.call.enters id t.req = true → e.tid ∈ overdue id c :=
    fun hsuf t => h.overdue_of_enters hrun hnew hended hsuf
  refine ⟨new, hnew, hmessages, hposted, fun i => ⟨(h.run hrun).landingsOf_length i, ?_⟩,
    fun e he => ?_, fun hnone => ⟨?_, ?_⟩⟩
  · intro m hm hroom
    obtain ⟨e, he, hlanded⟩ := mem_landings.mp hm
    obtain ⟨he, htid⟩ := List.mem_filter.mp he
    exact of_decide_eq_true htid ▸ h.overdue_of_landed hrun hnew hended he hlanded hroom
  · obtain ⟨newer, older, htr⟩ := List.append_of_mem he
    exact henters ⟨newer, htr.symm⟩
  · rw [hnone, List.length_nil, Nat.le_zero, List.length_eq_zero_iff] at hposted
    rw [hmessages, hposted, List.append_nil]
  · rintro row hrow rfl
    have hterm : row.state.terminal = true := by
      rwa [Store.ended, stateOf_of_mem h.wellFormed hrow, Option.any_some] at hended
    refine h.induction_from (P := fun _ s => Frozen row (c.shared.db.listEvents row.id) s) hrun hnew
      (.still hrow rfl) ?_ ?_
    · intro tr s₁ s₂ hdb _ _ _ hs
      cases hs with
      | still hrow hevents => exact .still (hdb ▸ hrow) (hdb ▸ hevents)
      | archived hrow hkind hevents => exact .archived (hdb ▸ hrow) hkind (hdb ▸ hevents)
    · intro e tr hsuf hrec hs
      obtain ⟨t, ht, -⟩ := hrec.disciplined
      refine hs.call hrec ht (Bool.eq_false_iff.mpr fun hk => ?_) hterm
      have hlate := henters hsuf t ht hk
      rw [hnone] at hlate
      cases hlate

/-- A room in which something was said before it was closed. -/
def closedTalk : List Request := gather none [alice, bob] ++
  [.sendMessage demoRoom ⟨alice, none, "hello", false⟩,
    .closeRoom demoRoom ⟨bob, none, true⟩]

set_option maxRecDepth 10000 in
theorem ended_room_frozen_closedTalk : overdue demoRoom (demo closedTalk) = [] ∧
    (demo (closedTalk ++ [.sendMessage demoRoom ⟨alice, none, "still there?", false⟩])).shared.db.allMessages
      demoRoom = (demo closedTalk).shared.db.allMessages demoRoom := by
  have hended : (demo closedTalk).shared.ended demoRoom = true := by decide +kernel
  have hnone : overdue demoRoom (demo closedTalk) = [] := by decide +kernel
  obtain ⟨-, -, -, -, -, -, hfrozen⟩ :=
    ended_room_frozen (reachable_demo closedTalk) (run_demo_append closedTalk _) hended
  exact ⟨hnone, (hfrozen hnone).1⟩

end ChatBotChat
