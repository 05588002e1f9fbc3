/-
The audit trail of a room.

* `audit_trail` — in every reachable configuration the events of a room form a
  path of legal transitions from `active` to the room's state, one event per
  state change, and a closed or archived room is never resurrected.
-/
import ChatBotChat.Reach

namespace ChatBotChat

open Interleave Lifecycle

/-! ### Paths -/

/-- The event records the transition from `a` to `b`, and it is a legal one. -/
def Audits (ev : Event) (a b : RoomState) : Prop :=
  ev.fromState = some a ∧ ev.toState = some b ∧ Edge a b ∧ a ≠ b ∧
    (ev.kind = .archive ↔ b = .archived)

/-- The events record legal transitions that lead from `a` to `b`. -/
def AuditPath : RoomState → List Event → RoomState → Prop
  | a, [], b => a = b
  | a, ev :: evs, b => ∃ next, Audits ev a next ∧ AuditPath next evs b

theorem AuditPath.append {b b' : RoomState} {ev : Event} (hev : Audits ev b b') :
    ∀ {evs : List Event} {a : RoomState}, AuditPath a evs b → AuditPath a (evs ++ [ev]) b' := by
  intro evs
  induction evs with
  | nil =>
    rintro _ rfl
    exact ⟨b', hev, rfl⟩
  | cons ev' evs ih =>
    rintro _ ⟨next, hnext, hpath⟩
    exact ⟨next, hnext, ih hpath⟩

/-! ### State changes -/

/-- The state of a room, if it exists. -/
def Store.stateOf (s : Store) (id : String) : Option RoomState := (s.db.roomRow id).map RoomRow.state

/-- The change of a room's state that a call made, if it made one. -/
def stateChange (id : String) (e : Step) : Option (RoomState × RoomState) :=
  match e.before.stateOf id, e.after.stateOf id with
  | some a, some b => if a = b then none else some (a, b)
  | _, _ => none

/-- The changes of a room's state along a trace, oldest first. -/
def stateChanges (id : String) (tr : List Step) : List (RoomState × RoomState) :=
  tr.reverse.filterMap (stateChange id)

theorem stateChanges_cons (id : String) (e : Step) (tr : List Step) :
    stateChanges id (e :: tr) = stateChanges id tr ++ (stateChange id e).toList := by
  cases h : stateChange id e <;> simp [stateChanges, h]

variable {s s' : Store} {sess : List UInt16} {c : Call} {r : c.Reply} {req : Request} {past : Log}

/-- One call either leaves a room's state alone and logs nothing for it, or logs
exactly the legal transition it makes. -/
theorem audited_call (hwf : s.db.WellFormed) (h : Store.exec sess c s = .done r s')
    (hd : Discipline req past c) {row : RoomRow} (hrow : row ∈ s.db.rooms) :
    (c.nextState r row.id row.state = row.state ∧
      ∀ ev, c.logged s.db r = some ev → ev.roomId ≠ row.id) ∨
    ∃ ev, c.logged s.db r = some ev ∧ ev.roomId = row.id ∧
      Audits ev row.state (c.nextState r row.id row.state) := by
  cases hev : c.logged s.db r with
  | none =>
    refine .inl ⟨?_, nofun⟩
    cases c
    case updateRoomState =>
      cases r
      · rfl
      · cases hev
    all_goals rfl
  | some ev =>
    obtain ⟨-, id, from_, to_, now, detail, rfl, hr, hid, hfrom, hto, hkind, row', hrow', hid', hst⟩ :=
      logged_spec h hev
    obtain rfl := eq_of_heq hr
    obtain ⟨-, hedge, hne, -⟩ := hd
    by_cases heq : row.id = id
    · obtain rfl : row = row' := hwf.room_unique hrow hrow' (heq.trans hid'.symm)
      refine .inr ⟨ev, rfl, hid.trans heq.symm, ?_⟩
      have hnext : (Call.updateRoomState id from_ to_ now detail).nextState true row.id row.state =
          to_ := by simp [Call.nextState, heq, hst]
      rw [hnext, hst]
      refine ⟨hfrom, hto, hedge, hne, ?_⟩
      rw [hkind]
      by_cases harch : to_ = .archived <;> simp [harch]
    · refine .inl ⟨by simp [Call.nextState, heq], ?_⟩
      rintro _ ⟨⟩
      exact fun hcontra => heq (hcontra.symm.trans hid)

/-- A room opens in the active state. -/
theorem opened_active (hd : Discipline req past c) {row : RoomRow} (h : c.opened r = some row) :
    row.state = .active := by
  obtain ⟨-, room, rfl, rfl⟩ := opened_createRoom h
  exact hd.2.1

theorem stateOf_of_mem (hwf : s.db.WellFormed) {row : RoomRow} (hrow : row ∈ s.db.rooms) :
    s.stateOf row.id = some row.state := by
  rw [Store.stateOf, hwf.roomRow_eq hrow]
  rfl

theorem stateOf_eq_none {id : String} (h : s.db.hasRoom id = false) : s.stateOf id = none := by
  rw [Store.stateOf, Db.roomRow, List.find?_eq_none.mpr]
  · rfl
  · simpa [Db.hasRoom] using h

theorem stateChange_of_fresh {id : String} {e : Step} (h : e.before.db.hasRoom id = false) :
    stateChange id e = none := by
  rw [stateChange, stateOf_eq_none h]

/-- A room that was read is in the state that was read. -/
theorem stateOf_of_getRoom {id : String} {room : Room}
    (h : Store.exec sess (.getRoom id) s = .done (some room) s') :
    s.stateOf id = some room.state ∧ s' = s := by
  obtain ⟨hget, rfl⟩ := done_of_tryRead h
  obtain ⟨row, hrow, hdecode⟩ := Db.getRoom_spec hget
  rw [Store.stateOf, hrow, (rowToRoom_spec hdecode).2.1]
  exact ⟨rfl, rfl⟩

/-- A transition is made exactly where the room is in the state that it is from. -/
theorem changed_iff {id : String} {from_ to_ : RoomState} {now : OffsetDateTime}
    {detail : Option String} {changed : Bool} (hwf : s.db.WellFormed)
    (h : Store.exec sess (.updateRoomState id from_ to_ now detail) s = .done changed s') :
    changed = true ↔ s.stateOf id = some from_ := by
  cases h
  have hany : (s.db.updateRoomState id from_ to_ now detail).1 =
      s.db.rooms.any fun row => row.id = id && row.state = from_ := by
    unfold Db.updateRoomState
    split <;> rename_i hmatch
    · exact hmatch.symm
    · exact (Bool.not_eq_true _ ▸ hmatch).symm
  rw [hany, List.any_eq_true]
  constructor
  · rintro ⟨row, hrow, hmatch⟩
    rw [Bool.and_eq_true, decide_eq_true_eq, decide_eq_true_eq] at hmatch
    rw [← hmatch.1, stateOf_of_mem hwf hrow, hmatch.2]
  · intro hstate
    obtain ⟨row, hrow, rfl⟩ := Option.map_eq_some_iff.mp hstate
    obtain ⟨hmem, rfl⟩ := Db.mem_of_roomRow hrow
    exact ⟨row, hmem, by simp⟩

/-- What a call makes of the state of a room. -/
theorem Recorded.stateOf_after {c : Daemon} {e : Step} {older : List Step} {app : AppState}
    (h : Recorded app c e older) {id : String} {state : RoomState}
    (hstate : e.before.stateOf id = some state) :
    e.after.stateOf id = some (e.call.nextState e.reply id state) := by
  obtain ⟨row, hrow, rfl⟩ := Option.map_eq_some_iff.mp hstate
  obtain ⟨hmem, rfl⟩ := Db.mem_of_roomRow hrow
  have hafter := stateOf_of_mem h.wellFormed_after (h.effect.mem_rooms.mpr (.inl ⟨row, hmem, rfl⟩))
  rwa [Call.onRoom_id, Call.onRoom_state] at hafter

/-- The state changes of a list of audit rows. -/
def recordedChanges (evs : List Event) : List (Option RoomState × Option RoomState) :=
  evs.map fun ev => (ev.fromState, ev.toState)

/-- The events of a room tell the state changes the trace shows, and lead from
`active` to `state`. -/
def Trailed (tr : List Step) (s : Store) (id : String) (state : RoomState) : Prop :=
  AuditPath .active (s.db.listEvents id) state ∧
    recordedChanges (s.db.listEvents id) =
      (stateChanges id tr).map fun change => (some change.1, some change.2)

/-- The invariant: every room is trailed, and no room has no events. -/
def AllTrailed (tr : List Step) (s : Store) : Prop :=
  (∀ row ∈ s.db.rooms, Trailed tr s row.id row.state) ∧
    ∀ id, s.db.hasRoom id = false → s.db.listEvents id = [] ∧ stateChanges id tr = []

theorem Effect.listEvents (h : Effect s c r s') (id : String) : s'.db.listEvents id =
    s.db.listEvents id ++ (c.logged s.db r).toList.filter (·.roomId = id) := by
  rw [Db.listEvents, h.events, List.filter_append]
  rfl

/-- One call keeps a room trailed. -/
theorem Trailed.call {e : Step} {tr : List Step} (hwf : e.before.db.WellFormed)
    (h : Store.exec sess e.call e.before = .done e.reply e.after) (hd : Discipline req past e.call)
    {row : RoomRow} (hrow : row ∈ e.before.db.rooms) (ht : Trailed tr e.before row.id row.state) :
    Trailed (e :: tr) e.after row.id (e.call.nextState e.reply row.id row.state) := by
  have heff := effect_of_exec h
  have hrow' : e.call.onRoom e.reply row ∈ e.after.db.rooms :=
    heff.mem_rooms.mpr (.inl ⟨row, hrow, rfl⟩)
  have hbefore := stateOf_of_mem hwf hrow
  have hafter := stateOf_of_mem (hwf.exec h) hrow'
  rw [Call.onRoom_id, Call.onRoom_state] at hafter
  rcases audited_call hwf h hd hrow with ⟨hsame, hother⟩ | ⟨ev, hev, hid, haudit⟩
  · have hnone : stateChange row.id e = none := by
      rw [stateChange, hbefore, hafter, hsame]
      simp
    have hevents : e.after.db.listEvents row.id = e.before.db.listEvents row.id := by
      rw [heff.listEvents]
      cases hlog : e.call.logged e.before.db e.reply with
      | none => simp
      | some ev => simp [hother ev hlog]
    rw [hsame, Trailed, hevents, stateChanges_cons, hnone, Option.toList_none, List.append_nil]
    exact ht
  · have hsome : stateChange row.id e = some (row.state, e.call.nextState e.reply row.id row.state) := by
      rw [stateChange, hbefore, hafter]
      simp [haudit.2.2.2.1]
    have hevents : e.after.db.listEvents row.id = e.before.db.listEvents row.id ++ [ev] := by
      rw [heff.listEvents, hev]
      simp [hid]
    rw [Trailed, hevents, stateChanges_cons, hsome]
    refine ⟨ht.1.append haudit, ?_⟩
    rw [recordedChanges, List.map_append, ← recordedChanges, ht.2]
    simp [haudit.1, haudit.2.1]

/-- One call keeps the invariant. -/
theorem AllTrailed.call {e : Step} {tr : List Step} (hwf : e.before.db.WellFormed)
    (h : Store.exec sess e.call e.before = .done e.reply e.after) (hd : Discipline req past e.call)
    (ht : AllTrailed tr e.before) : AllTrailed (e :: tr) e.after := by
  have heff := effect_of_exec h
  have hfresh : ∀ id, e.before.db.hasRoom id = false →
      e.after.db.listEvents id = [] ∧ stateChanges id (e :: tr) = [] := by
    intro id hid
    rw [stateChanges_cons, stateChange_of_fresh hid, (ht.2 id hid).2, heff.listEvents,
      (ht.2 id hid).1]
    refine ⟨?_, rfl⟩
    cases hev : e.call.logged e.before.db e.reply with
    | none => rfl
    | some ev =>
      obtain ⟨-, id', _, _, _, _, -, -, hroom, -, -, -, row, hrow, hid', -⟩ := logged_spec h hev
      have hne : ev.roomId ≠ id := by
        rintro rfl
        rw [Db.hasRoom_iff.mpr ⟨row, hrow, hid'.trans hroom.symm⟩] at hid
        cases hid
      simp [hne]
  constructor
  · intro row' hrow'
    rcases heff.mem_rooms.mp hrow' with ⟨row, hrow, rfl⟩ | hopened
    · rw [Call.onRoom_id, Call.onRoom_state]
      exact (ht.1 row hrow).call hwf h hd hrow
    · obtain ⟨hevents, hchanges⟩ := hfresh row'.id (opened_spec h hopened)
      rw [Trailed, hevents, hchanges, opened_active hd hopened]
      exact ⟨rfl, rfl⟩
  · intro id hid
    refine hfresh id (Bool.eq_false_iff.mpr fun hcontra => ?_)
    rw [heff.hasRoom hcontra] at hid
    cases hid

/-! ### The trail of a run -/

variable {app : AppState}

theorem Reachable.allTrailed {c : Daemon} (h : Reachable app c) : AllTrailed c.trace c.shared := by
  refine (h.induction ?_ ?_ ?_).now
  · rintro s₀ ⟨hdb, -⟩
    rw [AllTrailed, hdb]
    exact ⟨by simp [Db.empty], fun id _ => ⟨rfl, rfl⟩⟩
  · intro tr s₁ s₂ hdb _ _ _ ht
    simpa [AllTrailed, Trailed, hdb] using ht
  · intro e tr hrec ht
    obtain ⟨sess, hexec⟩ := hrec.exec
    obtain ⟨t, -, hd⟩ := hrec.disciplined
    exact ht.call hrec.wellFormed_before hexec hd

/-- A state change along a run leaves an archived room archived and a closed room
closed or archived. -/
theorem halted_persists {c c' : Daemon} (h : Reachable app c) (hrun : (daemon app).Run c c')
    {row : RoomRow} (hrow : row ∈ c.shared.db.rooms) :
    ∃ row' ∈ c'.shared.db.rooms, row'.id = row.id ∧
      (row.state = .closed → row'.state = .closed ∨ row'.state = .archived) ∧
      (row.state = .archived → row'.state = .archived) := by
  obtain ⟨new, hnew, -⟩ := hrun.history
  have hist : History app c.shared new c'.shared := hrun.history_of_eq hnew
  refine History.induction h.wellFormed
    (P := fun _ s => ∃ row' ∈ s.db.rooms, row'.id = row.id ∧
      (row.state = .closed → row'.state = .closed ∨ row'.state = .archived) ∧
      (row.state = .archived → row'.state = .archived)) ?_ ?_ ?_ hist List.suffix_rfl
  · exact ⟨row, hrow, rfl, .inl, id⟩
  · intro tr s₁ s₂ _ hdb _ _ _ hpersist
    rwa [hdb]
  · rintro e tr sess hsuf hexec hwf _ ⟨row', hrow', hid, hclosed, harchived⟩
    refine ⟨e.call.onRoom e.reply row', (effect_of_exec hexec).mem_rooms.mpr (.inl ⟨_, hrow', rfl⟩),
      by simpa using hid, ?_⟩
    have hsuf' : e :: (tr ++ c.trace) <:+ c'.trace := by
      obtain ⟨newer, hnewer⟩ := hsuf
      exact ⟨newer, by rw [hnew, ← hnewer, List.append_assoc, List.cons_append]⟩
    obtain ⟨t, -, hd⟩ := (h.run hrun).orderly.event hsuf'
    rw [Call.onRoom_state]
    rcases audited_call hwf hexec hd hrow' with ⟨hsame, -⟩ | ⟨ev, -, -, -, -, hedge, -⟩
    · rw [hsame]
      exact ⟨hclosed, harchived⟩
    · generalize e.call.nextState e.reply row'.id row'.state = next at hedge
      constructor
      · intro hrowst
        rcases hclosed hrowst with hst | hst <;> rw [hst] at hedge
        · exact .inr (edge_closed hedge)
        · exact absurd hedge not_edge_archived
      · intro hrowst
        rw [harchived hrowst] at hedge
        exact absurd hedge not_edge_archived

/-- **The audit trail under any interleaving**: the events of a room, in the
order of their ids, form a path of legal transitions from `active` to its state,
one event for each state change of the run; and whatever the run does next, a
closed room only becomes archived and an archived room stays so. -/
theorem audit_trail {c : Daemon} (h : Reachable app c) {row : RoomRow}
    (hrow : row ∈ c.shared.db.rooms) :
    ((c.shared.db.listEvents row.id).map Event.id).Pairwise (· < ·) ∧
      AuditPath .active (c.shared.db.listEvents row.id) row.state ∧
      recordedChanges (c.shared.db.listEvents row.id) =
        (stateChanges row.id c.trace).map (fun change => (some change.1, some change.2)) ∧
      ∀ c', (daemon app).Run c c' → ∃ row' ∈ c'.shared.db.rooms, row'.id = row.id ∧
        (row.state = .closed → row'.state = .closed ∨ row'.state = .archived) ∧
        (row.state = .archived → row'.state = .archived) := by
  refine ⟨?_, (h.allTrailed.1 row hrow).1, (h.allTrailed.1 row hrow).2, fun c' hrun =>
    halted_persists h hrun hrow⟩
  exact h.wellFormed.eventIds.sublist (List.Sublist.map _ List.filter_sublist)

set_option maxRecDepth 10000 in
theorem audit_trail_paused : AuditPath .active
    ((demo (gather none [alice] ++ [.pauseRoom demoRoom ⟨alice, none, false⟩])).shared.db.listEvents
      demoRoom) .paused := by
  have hrow : (⟨demoRoom, "demo", 0, 0, .paused, 0, ⟨20, 4, some .all⟩, none⟩ : RoomRow) ∈
      (demo (gather none [alice] ++ [.pauseRoom demoRoom ⟨alice, none, false⟩])).shared.db.rooms := by
    decide +kernel
  have htrail := audit_trail (reachable_demo _) hrow
  exact htrail.2.1

end ChatBotChat
