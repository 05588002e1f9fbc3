/-
Passes of the sweep by themselves.

`sweepRow` is what a pass makes of one room.  `sweepOnce_spec` says that a pass
that returns does that to every room at once, and `timetable` follows one room
along any number of such passes: the instant it entered its state is the
`stateChangedAt` of its row (`enteredAt`), each pass that finds it due takes it
one state further (`forward`), and no pass does anything else.
-/
import ChatBotChat.Database
import ChatBotChat.Interleave.Alone
import Mathlib.Tactic.Linarith

namespace ChatBotChat

open Interleave Lifecycle

/-! ### One room, one pass -/

/-- The state in which time alone takes a room out of `state`. -/
def forward : RoomState → Option RoomState
  | .active => some .idle
  | .idle => some .stale
  | .stale | .closed => some .archived
  | .paused | .archived => none

/-- How many states time alone can still take a room through. -/
def stepsLeft : RoomState → ℕ
  | .active => 3
  | .idle => 2
  | .stale | .closed => 1
  | .paused | .archived => 0

/-- What a pass at `now` makes of a room whose participants polled at `polls`. -/
def sweepRow (now : OffsetDateTime) (polls : List OffsetDateTime) (row : RoomRow) : RoomRow :=
  match (computeTimeEvent row.state row.lastActivityAt row.stateChangedAt polls now).bind
    (transition row.state) with
  | none => row
  | some to_ => { row with state := to_, stateChangedAt := now }

theorem stepsLeft_forward {a b : RoomState} (h : forward a = some b) :
    stepsLeft a = stepsLeft b + 1 := by
  cases a <;> cases h <;> rfl

theorem stepsLeft_of_final {a : RoomState} (h : forward a = none) : stepsLeft a = 0 := by
  cases a <;> first | rfl | cases h

theorem eq_archived {a : RoomState} (h : stepsLeft a = 0) (hpaused : a ≠ .paused) :
    a = .archived := by
  cases a <;> first | rfl | exact absurd rfl hpaused | cases h

variable {now : OffsetDateTime} {polls : List OffsetDateTime} {row : RoomRow}

/-- A pass leaves a room as it is, or takes it one state further when it is due. -/
theorem sweepRow_cases (now : OffsetDateTime) (polls : List OffsetDateTime) (row : RoomRow) :
    sweepRow now polls row = row ∨ ∃ b, forward row.state = some b ∧
      sweepRow now polls row = { row with state := b, stateChangedAt := now } ∧
      (b = .stale → STALE_AFTER ≤ now - row.lastActivityAt ∧
        ∀ poll ∈ polls, GHOST_AFTER < now - poll) ∧
      (b = .archived → ARCHIVE_AFTER ≤ now - row.stateChangedAt) := by
  unfold sweepRow
  cases hevent : computeTimeEvent row.state row.lastActivityAt row.stateChangedAt polls now with
  | none => exact .inl rfl
  | some event =>
    right
    cases hstate : row.state <;> rw [hstate] at hevent <;> simp only [computeTimeEvent] at hevent
    case active =>
      refine ⟨.idle, rfl, ?_, fun h => (by cases h), fun h => (by cases h)⟩
      split_ifs at hevent <;> obtain rfl := Option.some_inj.mp hevent <;> rfl
    case idle =>
      split_ifs at hevent with hdue
      obtain rfl := Option.some_inj.mp hevent
      refine ⟨.stale, rfl, rfl, fun _ => ⟨hdue.1, fun poll hpoll => ?_⟩, fun h => (by cases h)⟩
      exact of_decide_eq_true (List.all_eq_true.mp hdue.2 poll hpoll)
    case stale =>
      split_ifs at hevent with hdue
      obtain rfl := Option.some_inj.mp hevent
      exact ⟨.archived, rfl, rfl, fun h => (by cases h), fun _ => hdue⟩
    case closed =>
      split_ifs at hevent with hdue
      obtain rfl := Option.some_inj.mp hevent
      exact ⟨.archived, rfl, rfl, fun h => (by cases h), fun _ => hdue⟩
    case paused => cases hevent
    case archived => cases hevent

/-- A room that is due is taken further, whichever state it is in. -/
theorem sweepRow_due (hactivity : STALE_AFTER ≤ now - row.lastActivityAt)
    (hpolls : ∀ poll ∈ polls, GHOST_AFTER < now - poll)
    (hchanged : row.state = .stale ∨ row.state = .closed →
      ARCHIVE_AFTER ≤ now - row.stateChangedAt) {b : RoomState}
    (hforward : forward row.state = some b) : (sweepRow now polls row).state = b := by
  have hidle : now - row.lastActivityAt ≥ IDLE_AFTER := le_trans (by decide) hactivity
  have hghosts : noLivePoller polls now = true :=
    List.all_eq_true.mpr fun poll hpoll => decide_eq_true (hpolls poll hpoll)
  unfold sweepRow
  cases hstate : row.state <;> rw [hstate] at hforward hchanged <;> cases hforward
  case active => simp [computeTimeEvent, hidle, transition]
  case idle => simp [computeTimeEvent, hactivity, hghosts, transition]
  case stale =>
    have hdue : now - row.stateChangedAt ≥ ARCHIVE_AFTER := hchanged (.inl rfl)
    simp [computeTimeEvent, hdue, transition]
  case closed =>
    have hdue : now - row.stateChangedAt ≥ ARCHIVE_AFTER := hchanged (.inr rfl)
    simp [computeTimeEvent, hdue, transition]

theorem sweepRow_id (now : OffsetDateTime) (polls : List OffsetDateTime) (row : RoomRow) :
    (sweepRow now polls row).id = row.id := by
  rcases sweepRow_cases now polls row with h | ⟨b, -, h, -, -⟩ <;> rw [h]

/-- A pass does nothing to a room that time alone takes nowhere. -/
theorem sweepRow_of_final (h : forward row.state = none) : sweepRow now polls row = row := by
  rcases sweepRow_cases now polls row with hsame | ⟨b, hb, -⟩
  · exact hsame
  · rw [h] at hb
    cases hb

/-! ### One pass over the database -/

/-- When the participants of a room polled last. -/
def Db.lastPolls (db : Db) (id : String) : List OffsetDateTime :=
  (db.listParticipants id).map Participant.lastPollAt

/-- `db'` is `db` with the rooms that `sel` picks taken as far as a pass takes them. -/
structure Passed (now : OffsetDateTime) (sel : String → Prop) [DecidablePred sel] (db db' : Db) :
    Prop where
  wellFormed : db'.WellFormed
  participants : db'.participants = db.participants
  rooms : db'.rooms = db.rooms.map fun row =>
    if sel row.id then sweepRow now (db.lastPolls row.id) row else row

/-- The room shows the row it was read from. -/
structure Shows (row : RoomRow) (room : Room) : Prop where
  id : room.id = row.id
  state : room.state = row.state
  lastActivityAt : room.lastActivityAt = row.lastActivityAt
  stateChangedAt : room.stateChangedAt = row.stateChangedAt

theorem shows_of_rowToRoom {room : Room} (h : rowToRoom row = some room) : Shows row room := by
  simp only [rowToRoom, Option.bind_eq_bind, Option.pure_def, Option.bind_eq_some_iff,
    Option.some.injEq] at h
  obtain ⟨config, -, rfl⟩ := h
  exact ⟨rfl, rfl, rfl, rfl⟩

variable {db db' : Db}

theorem Db.lastPolls_of_participants (h : db'.participants = db.participants) (id : String) :
    db'.lastPolls id = db.lastPolls id := by
  rw [Db.lastPolls, Db.lastPolls, Db.listParticipants, Db.listParticipants, h]

/-- **The sweep of one room** takes that room as far as a pass takes it. -/
theorem sweepRoom_spec {room : Room} {outcome : Option SweepOutcome} (hwf : db.WellFormed)
    (hrow : row ∈ db.rooms) (hshows : Shows row room)
    (h : Alone Store.exec Store.db (sweepRoom now room) db outcome db') :
    Passed now (· = room.id) db db' := by
  -- the only row with that id is the one the room was read from
  have honly : ∀ row' ∈ db.rooms, row'.id = room.id → row' = row := fun row' hrow' hid =>
    hwf.room_unique hrow' hrow (hid.trans hshows.id)
  obtain ⟨_, participants, s, s', hexec, rfl, hrest⟩ := h.call_inv
  obtain ⟨rfl, rfl⟩ := done_of_read hexec
  dsimp only [Prog.bind] at hrest
  rw [show (s'.db.listParticipants room.id).map Participant.lastPollAt = s'.db.lastPolls room.id
    from rfl] at hrest
  have hkept : sweepRow now (s'.db.lastPolls room.id) row = row → db' = s'.db →
      Passed now (· = room.id) s'.db db' := by
    rintro hsame rfl
    refine ⟨hwf, rfl, (List.map_id' _).symm.trans (List.map_congr_left fun row' hrow' => ?_)⟩
    by_cases hid : row'.id = room.id
    · rw [if_pos hid, honly row' hrow' hid, ← hshows.id]
      exact hsame.symm
    · rw [if_neg hid]
  have hevent : (computeTimeEvent room.state room.lastActivityAt room.stateChangedAt
      (s'.db.lastPolls room.id) now).bind (transition room.state) =
      (computeTimeEvent row.state row.lastActivityAt row.stateChangedAt
        (s'.db.lastPolls room.id) now).bind (transition row.state) := by
    rw [hshows.state, hshows.lastActivityAt, hshows.stateChangedAt]
  split at hrest
  · rename_i hnone
    rw [hnone] at hevent
    obtain ⟨-, rfl⟩ := alone_ret_iff.mp hrest
    refine hkept ?_ rfl
    unfold sweepRow
    rw [← hevent]
    rfl
  · rename_i event hsome
    rw [hsome, Option.bind_some] at hevent
    split at hrest
    · rename_i hillegal
      rw [hillegal] at hevent
      obtain ⟨-, rfl⟩ := alone_ret_iff.mp hrest
      refine hkept ?_ rfl
      unfold sweepRow
      rw [← hevent]
    · rename_i to_ hto
      rw [hto] at hevent
      obtain ⟨_, changed, s, s'', hexec', hsame, hend⟩ := hrest.call_inv
      obtain ⟨-, rfl⟩ := alone_ret_iff.mp hend
      have heff := effect_of_exec hexec'
      have hchanged : changed = true := by
        cases hexec'
        have hany : s.db.rooms.any (fun row' => row'.id = room.id && row'.state = room.state) =
            true := by
          rw [List.any_eq_true]
          exact ⟨row, hsame ▸ hrow, by simp [hshows.id, hshows.state]⟩
        rw [Db.updateRoomState, if_pos hany]
      subst hchanged
      refine ⟨(hsame ▸ hwf : s.db.WellFormed).exec hexec', ?_, ?_⟩
      · rw [heff.participants, ← hsame, ← participants_frame rfl (fun _ => rfl) fun _ => rfl]
      · rw [heff.rooms, ← hsame]
        refine (List.append_nil _).trans (List.map_congr_left fun row' hrow' => ?_)
        by_cases hid : row'.id = room.id
        · obtain rfl := honly row' hrow' hid
          rw [if_pos hid]
          unfold sweepRow
          rw [hid, ← hevent]
          simp [Call.onRoom, hid, hshows.state]
        · rw [if_neg hid]
          simp [Call.onRoom, hid]

/-- Passes over two sets of rooms that share none, one after the other. -/
theorem Passed.trans {sel sel' : String → Prop} [DecidablePred sel] [DecidablePred sel'] {db'' : Db}
    (hdisjoint : ∀ id, sel id → ¬ sel' id) (h : Passed now sel db db')
    (h' : Passed now sel' db' db'') : Passed now (fun id => sel id ∨ sel' id) db db'' where
  wellFormed := h'.wellFormed
  participants := h'.participants.trans h.participants
  rooms := by
    rw [h'.rooms, h.rooms, List.map_map]
    refine List.map_congr_left fun row _ => ?_
    rw [Function.comp_apply, Db.lastPolls_of_participants h.participants]
    by_cases hsel : sel row.id
    · rw [if_pos hsel, sweepRow_id, if_neg (hdisjoint _ hsel), if_pos (.inl hsel)]
    · rw [if_neg hsel]
      by_cases hsel' : sel' row.id
      · rw [if_pos hsel', if_pos (.inr hsel')]
      · rw [if_neg hsel', if_neg (not_or.mpr ⟨hsel, hsel'⟩)]

/-- The sweep of a list of rooms takes each of them as far as a pass takes it. -/
theorem sweepRooms_spec (now : OffsetDateTime) : ∀ {rooms : List Room} {db : Db}
    {outcomes : List SweepOutcome}, db.WellFormed → (rooms.map Room.id).Nodup →
      (∀ room ∈ rooms, ∃ row ∈ db.rooms, Shows row room) →
      Alone Store.exec Store.db (sweepRooms now rooms) db outcomes db' →
        Passed now (· ∈ rooms.map Room.id) db db' := by
  intro rooms
  induction rooms with
  | nil =>
    intro db outcomes hwf _ _ h
    obtain ⟨-, rfl⟩ := alone_ret_iff.mp h
    exact ⟨hwf, rfl, by simp⟩
  | cons room rooms ih =>
    intro db outcomes hwf hnodup hshown h
    rw [List.map_cons, List.nodup_cons] at hnodup
    obtain ⟨outcome, db₁, hone, hrest⟩ := h.bind_inv (sweepRoom now room) _ rfl
    obtain ⟨outcomes', db₂, hrooms, hend⟩ := hrest.bind_inv (sweepRooms now rooms) _ rfl
    obtain ⟨-, rfl⟩ := alone_ret_iff.mp hend
    obtain ⟨row, hrow, hshows⟩ := hshown room List.mem_cons_self
    have hfirst : Passed now (· = room.id) db db₁ := sweepRoom_spec hwf hrow hshows hone
    -- the pass over the first room leaves the rows of the others as they were read
    have hstill : ∀ room' ∈ rooms, ∃ row' ∈ db₁.rooms, Shows row' room' := by
      intro room' hroom'
      obtain ⟨row', hrow', hshows'⟩ := hshown room' (List.mem_cons_of_mem _ hroom')
      refine ⟨row', ?_, hshows'⟩
      have hother : ¬ row'.id = room.id := by
        intro hid
        have hmem : room'.id ∈ rooms.map Room.id := List.mem_map_of_mem hroom'
        rw [hshows'.id, hid] at hmem
        exact hnodup.1 hmem
      rw [hfirst.rooms]
      exact List.mem_map.mpr ⟨row', hrow', if_neg hother⟩
    have hothers := ih hfirst.wellFormed hnodup.2 hstill hrooms
    have hboth := hfirst.trans (fun id hid => hid ▸ hnodup.1) hothers
    refine ⟨hboth.wellFormed, hboth.participants, hboth.rooms.trans ?_⟩
    refine List.map_congr_left fun row' _ => ?_
    rw [List.map_cons]
    exact if_congr List.mem_cons.symm rfl rfl

/-- Rooms that were read from rows show them, one by one. -/
theorem shown_of_mapM : ∀ {rows : List RoomRow} {rooms : List Room},
    rows.mapM rowToRoom = some rooms → rooms.map Room.id = rows.map RoomRow.id ∧
      ∀ room ∈ rooms, ∃ row ∈ rows, Shows row room := by
  intro rows
  induction rows with
  | nil =>
    intro rooms h
    obtain rfl := Option.some_inj.mp h
    simp
  | cons row rows ih =>
    intro rooms h
    rw [List.mapM_cons] at h
    obtain ⟨room, hroom, h⟩ := Option.bind_eq_some_iff.mp h
    obtain ⟨rooms', hrooms', h⟩ := Option.bind_eq_some_iff.mp h
    obtain rfl := Option.some_inj.mp h
    obtain ⟨hids, hshown⟩ := ih hrooms'
    have hshows := shows_of_rowToRoom hroom
    refine ⟨by rw [List.map_cons, List.map_cons, hids, hshows.id], fun room' hroom' => ?_⟩
    rcases List.mem_cons.mp hroom' with rfl | hroom'
    · exact ⟨row, List.mem_cons_self, hshows⟩
    · obtain ⟨row', hrow', hshows'⟩ := hshown room' hroom'
      exact ⟨row', List.mem_cons_of_mem _ hrow', hshows'⟩

/-- **A pass by itself** takes every room as far as a pass takes it, and touches
no participant. -/
theorem sweepOnce_spec {outcomes : List SweepOutcome} (hwf : db.WellFormed)
    (h : Alone Store.exec Store.db (sweepOnce now) db outcomes db') :
    db'.WellFormed ∧ db'.participants = db.participants ∧
      db'.rooms = db.rooms.map fun row => sweepRow now (db.lastPolls row.id) row := by
  obtain ⟨_, rooms, s, s', hexec, rfl, hrest⟩ := h.call_inv
  obtain ⟨hlist, rfl⟩ := done_of_tryRead hexec
  obtain ⟨hids, hread⟩ := shown_of_mapM hlist
  have hshown : ∀ room ∈ rooms, ∃ row ∈ s'.db.rooms, Shows row room := by
    intro room hroom
    obtain ⟨row, hrow, hshows⟩ := hread room hroom
    exact ⟨row, List.mem_of_mem_filter hrow, hshows⟩
  have hnodup : (rooms.map Room.id).Nodup := by
    rw [hids]
    exact hwf.rooms.sublist (List.filter_sublist.map _)
  have hpassed := sweepRooms_spec now hwf hnodup hshown hrest
  refine ⟨hpassed.wellFormed, hpassed.participants, hpassed.rooms.trans ?_⟩
  refine List.map_congr_left fun row hrow => ?_
  by_cases hmem : row.id ∈ rooms.map Room.id
  · rw [if_pos hmem]
  · rw [if_neg hmem]
    -- only archived rooms are not listed, and those stay as they are
    have harchived : row.state = .archived := by
      by_contra hstate
      refine hmem ?_
      rw [hids]
      exact List.mem_map_of_mem (List.mem_filter.mpr ⟨hrow, by simpa using hstate⟩)
    rw [sweepRow_of_final]
    rw [harchived]
    rfl

/-! ### One room, any number of passes -/

/-- The instant at which the room entered the state it has before pass `k`. -/
def enteredAt (t : ℕ → OffsetDateTime) (row : ℕ → RoomRow) : ℕ → OffsetDateTime
  | 0 => (row 0).stateChangedAt
  | k + 1 => if (row (k + 1)).state = (row k).state then enteredAt t row k else t k

/-- An instant from which on a room is due in whichever state it is, if it has
not changed its state since. -/
def dueFrom (polls : List OffsetDateTime) (row : RoomRow) : OffsetDateTime :=
  max (max (row.lastActivityAt + STALE_AFTER) (row.stateChangedAt + ARCHIVE_AFTER))
    (polls.foldr (fun poll due => max (poll + GHOST_AFTER + 1) due) row.lastActivityAt)

/-- A number of passes from `start` on, spaced by `ARCHIVE_AFTER`, that bring the
room to the archive. -/
def enoughTicks (polls : List OffsetDateTime) (row : RoomRow) (start : OffsetDateTime) : ℕ :=
  ((dueFrom polls row - start) / ARCHIVE_AFTER + 1).toNat + 3

/-- What the sweep by itself makes of a room in `n` passes. -/
structure Timetable (polls : List OffsetDateTime) (t : ℕ → OffsetDateTime) (n : ℕ)
    (row : ℕ → RoomRow) : Prop where
  step : ∀ k < n, row (k + 1) = row k ∨ ∃ b, forward (row k).state = some b ∧
    row (k + 1) = { row k with state := b, stateChangedAt := t k }
  paused : (row 0).state = .paused → ∀ k ≤ n, row k = row 0
  legal : ∀ k < n, ∀ event, computeTimeEvent (row k).state (row k).lastActivityAt
    (row k).stateChangedAt polls (t k) = some event →
      ∃ b, transition (row k).state event = some b
  stale : ∀ k < n, (row k).state ≠ .stale → (row (k + 1)).state = .stale →
    STALE_AFTER ≤ t k - (row k).lastActivityAt ∧ ∀ poll ∈ polls, GHOST_AFTER < t k - poll
  archived : ∀ k < n, (row k).state ≠ .archived → (row (k + 1)).state = .archived →
    ARCHIVE_AFTER ≤ t k - enteredAt t row k
  effective : (List.range n).countP (fun k => row (k + 1) ≠ row k) ≤ 3
  final : ∀ j k, j ≤ k → k ≤ n → (row j).state = .archived → row k = row j
  completes : (∀ k, k + 1 < n → t k + ARCHIVE_AFTER ≤ t (k + 1)) →
    enoughTicks polls (row 0) (t 0) ≤ n → (row 0).state ≠ .paused → (row n).state = .archived

/-- A sequence whose measure falls by one with every change changes at most as
often as its measure says. -/
theorem countP_changes_add_le {α : Type} [DecidableEq α] {f : ℕ → α} {μ : α → ℕ} : ∀ {n : ℕ},
    (∀ k < n, f (k + 1) = f k ∨ μ (f k) = μ (f (k + 1)) + 1) →
      (List.range n).countP (fun k => f (k + 1) ≠ f k) + μ (f n) ≤ μ (f 0) := by
  intro n
  induction n with
  | zero => simp
  | succ n ih =>
    intro h
    have hold := ih fun k hk => h k (by omega)
    rw [List.range_succ, List.countP_append, List.countP_singleton]
    rcases h n (by omega) with hsame | hless
    · rw [if_neg (by simpa using hsame), hsame]
      omega
    · have hone : (if decide (f (n + 1) ≠ f n) = true then 1 else 0) ≤ 1 := by
        split <;> omega
      omega

section Passes

variable {t : ℕ → OffsetDateTime} {n k : ℕ} {row : ℕ → RoomRow}

theorem lastActivityAt_eq (hrow : ∀ k < n, row (k + 1) = sweepRow (t k) polls (row k)) :
    ∀ k ≤ n, (row k).lastActivityAt = (row 0).lastActivityAt := by
  intro k
  induction k with
  | zero => exact fun _ => rfl
  | succ k ih =>
    intro hk
    rw [← ih (by omega), hrow k (by omega)]
    rcases sweepRow_cases (t k) polls (row k) with h | ⟨b, -, h, -, -⟩ <;> rw [h]

/-- **`stateChangedAt` is the instant at which the room entered its state.** -/
theorem stateChangedAt_eq (hrow : ∀ k < n, row (k + 1) = sweepRow (t k) polls (row k)) :
    ∀ k ≤ n, (row k).stateChangedAt = enteredAt t row k := by
  intro k
  induction k with
  | zero => exact fun _ => rfl
  | succ k ih =>
    intro hk
    have hstep := hrow k (by omega)
    rw [enteredAt, ← ih (by omega)]
    rcases sweepRow_cases (t k) polls (row k) with h | ⟨b, hb, h, -, -⟩
    · rw [hstep, h, if_pos rfl]
    · rw [hstep, h]
      have hleft : b ≠ (row k).state := by
        rintro rfl
        have hless := stepsLeft_forward hb
        omega
      rw [if_neg hleft]

/-- The state was entered before the passes, or in one of them. -/
theorem enteredAt_cases (t : ℕ → OffsetDateTime) (row : ℕ → RoomRow) (k : ℕ) :
    enteredAt t row k = (row 0).stateChangedAt ∨ ∃ j < k, enteredAt t row k = t j := by
  induction k with
  | zero => exact .inl rfl
  | succ k ih =>
    rw [enteredAt]
    split
    · rcases ih with h | ⟨j, hj, h⟩
      · exact .inl h
      · exact .inr ⟨j, by omega, h⟩
    · exact .inr ⟨k, by omega, rfl⟩

theorem state_ne_paused (hrow : ∀ k < n, row (k + 1) = sweepRow (t k) polls (row k))
    (hstart : (row 0).state ≠ .paused) : ∀ k ≤ n, (row k).state ≠ .paused := by
  intro k
  induction k with
  | zero => exact fun _ => hstart
  | succ k ih =>
    intro hk
    rw [hrow k (by omega)]
    rcases sweepRow_cases (t k) polls (row k) with h | ⟨b, hb, h, -, -⟩
    · rw [h]
      exact ih (by omega)
    · rw [h]
      intro hpaused
      obtain rfl : b = .paused := hpaused
      cases hstate : (row k).state <;> rw [hstate] at hb <;> cases hb

/-- A room that time alone takes nowhere stays as it is. -/
theorem row_of_final (hrow : ∀ k < n, row (k + 1) = sweepRow (t k) polls (row k)) {j : ℕ}
    (hj : forward (row j).state = none) : ∀ k, j ≤ k → k ≤ n → row k = row j := by
  intro k hjk
  induction k, hjk using Nat.le_induction with
  | base => exact fun _ => rfl
  | succ k _ ih =>
    intro hk
    have hsame := ih (by omega)
    rw [hrow k (by omega), hsame, sweepRow_of_final hj]

/-- Passes spaced by `d` are as far apart as their number says. -/
theorem le_of_spaced {d : Duration} (hspaced : ∀ k, k + 1 < n → t k + d ≤ t (k + 1)) :
    ∀ i j, j + i < n → t j + i * d ≤ t (j + i) := by
  intro i j
  induction i with
  | zero => simp
  | succ i ih =>
    intro hlt
    have hnext := hspaced (j + i) hlt
    have hold := ih (by omega)
    rw [← Nat.add_assoc]
    push_cast
    linarith

theorem le_of_nondecreasing (hmono : ∀ k, k + 1 < n → t k ≤ t (k + 1)) {i j : ℕ} (hij : i ≤ j)
    (hj : j < n) : t i ≤ t j := by
  have hle := le_of_spaced (d := 0) (by simpa using hmono) (j - i) i (by omega)
  rwa [mul_zero, add_zero, Nat.add_sub_cancel' hij] at hle

theorem le_dueFrom (polls : List OffsetDateTime) (row : RoomRow) :
    row.lastActivityAt + STALE_AFTER ≤ dueFrom polls row ∧
      row.stateChangedAt + ARCHIVE_AFTER ≤ dueFrom polls row ∧
      ∀ poll ∈ polls, poll + GHOST_AFTER + 1 ≤ dueFrom polls row := by
  refine ⟨(le_max_left _ _).trans (le_max_left _ _), (le_max_right _ _).trans (le_max_left _ _),
    fun poll hpoll => le_trans ?_ (le_max_right _ _)⟩
  induction polls with
  | nil => cases hpoll
  | cons poll' polls ih =>
    rcases List.mem_cons.mp hpoll with rfl | hpoll
    · exact le_max_left _ _
    · exact (ih hpoll).trans (le_max_right _ _)

/-- Once the passes have come to `dueFrom`, each of them takes the room further. -/
theorem stepsLeft_of_due (hrow : ∀ k < n, row (k + 1) = sweepRow (t k) polls (row k))
    (hmono : ∀ k, k + 1 < n → t k ≤ t (k + 1))
    (hspaced : ∀ k, k + 1 < n → t k + ARCHIVE_AFTER ≤ t (k + 1)) {first : ℕ}
    (hdue : first < n → dueFrom polls (row 0) ≤ t first) : ∀ i, first + i ≤ n →
      stepsLeft (row (first + i)).state ≤ 3 - i := by
  intro i
  induction i with
  | zero =>
    intro _
    cases (row first).state <;> simp [stepsLeft]
  | succ i ih =>
    intro hi
    have hold := ih (by omega)
    have hlt : first + i < n := by omega
    have hnow : dueFrom polls (row 0) ≤ t (first + i) :=
      (hdue (by omega)).trans (le_of_nondecreasing hmono (by omega) hlt)
    obtain ⟨hactivity, hchanged, hpolls⟩ := le_dueFrom polls (row 0)
    rw [← Nat.add_assoc, hrow _ hlt]
    cases hforward : forward (row (first + i)).state with
    | none =>
      rw [sweepRow_of_final hforward]
      have hnone := stepsLeft_of_final hforward
      omega
    | some b =>
      have hstate : (sweepRow (t (first + i)) polls (row (first + i))).state = b := by
        refine sweepRow_due ?_ ?_ ?_ hforward
        · rw [lastActivityAt_eq hrow _ hlt.le]
          linarith
        · intro poll hpoll
          have hpast := hpolls poll hpoll
          linarith
        · intro _
          rw [stateChangedAt_eq hrow _ hlt.le]
          rcases enteredAt_cases t row (first + i) with h | ⟨j, hj, h⟩
          · rw [h]
            linarith
          · -- it was entered in a pass, and passes are far enough apart
            have hnext := hspaced j (by omega)
            have hlater := le_of_nondecreasing hmono (show j + 1 ≤ first + i by omega) hlt
            rw [h]
            linarith
      have hless := stepsLeft_forward hforward
      rw [hstate]
      omega

/-- The passes come to `dueFrom` before the last three of `enoughTicks`. -/
theorem dueFrom_le (polls : List OffsetDateTime) (row₀ : RoomRow)
    (hspaced : ∀ k, k + 1 < n → t k + ARCHIVE_AFTER ≤ t (k + 1))
    (hfirst : enoughTicks polls row₀ (t 0) - 3 < n) :
    dueFrom polls row₀ ≤ t (enoughTicks polls row₀ (t 0) - 3) := by
  have hpos : (0 : ℤ) < ARCHIVE_AFTER := by decide
  have hlt := Int.lt_ediv_add_one_mul_self (dueFrom polls row₀ - t 0) hpos
  have hticks : enoughTicks polls row₀ (t 0) - 3 =
      ((dueFrom polls row₀ - t 0) / ARCHIVE_AFTER + 1).toNat := by
    rw [enoughTicks, Nat.add_sub_cancel]
  have hspan := le_of_spaced hspaced (enoughTicks polls row₀ (t 0) - 3) 0 (by omega)
  rw [Nat.zero_add] at hspan
  have hcount : ((dueFrom polls row₀ - t 0) / ARCHIVE_AFTER + 1) ≤
      ((enoughTicks polls row₀ (t 0) - 3 : ℕ) : ℤ) := by
    rw [hticks]
    exact Int.self_le_toNat _
  have hmul := mul_le_mul_of_nonneg_right hcount hpos.le
  linarith

/-- **The timetable of a room** that every pass takes as far as a pass takes it. -/
theorem timetable (hrow : ∀ k < n, row (k + 1) = sweepRow (t k) polls (row k))
    (hmono : ∀ k, k + 1 < n → t k ≤ t (k + 1)) : Timetable polls t n row where
  step k hk := by
    rw [hrow k hk]
    rcases sweepRow_cases (t k) polls (row k) with h | ⟨b, hb, h, -, -⟩
    · exact .inl h
    · exact .inr ⟨b, hb, h⟩
  paused hpaused k hk := row_of_final hrow (by rw [hpaused]; rfl) k (Nat.zero_le k) hk
  legal k hk event hevent := by
    obtain ⟨b, hb, -⟩ := transition_computeTimeEvent hevent
    exact ⟨b, hb⟩
  stale k hk hold hnew := by
    rw [hrow k hk] at hnew
    rcases sweepRow_cases (t k) polls (row k) with h | ⟨b, -, h, hstale, -⟩
    · rw [h] at hnew
      exact absurd hnew hold
    · rw [h] at hnew
      exact hstale hnew
  archived k hk hold hnew := by
    rw [hrow k hk] at hnew
    rw [← stateChangedAt_eq hrow k hk.le]
    rcases sweepRow_cases (t k) polls (row k) with h | ⟨b, -, h, -, harchived⟩
    · rw [h] at hnew
      exact absurd hnew hold
    · rw [h] at hnew
      exact harchived hnew
  effective := by
    have hstep : ∀ k < n, row (k + 1) = row k ∨
        stepsLeft (row k).state = stepsLeft (row (k + 1)).state + 1 := by
      intro k hk
      rw [hrow k hk]
      rcases sweepRow_cases (t k) polls (row k) with h | ⟨b, hb, h, -, -⟩
      · exact .inl h
      · right
        rw [h]
        exact stepsLeft_forward hb
    have hcount := countP_changes_add_le (μ := fun row : RoomRow => stepsLeft row.state) hstep
    have hthree : stepsLeft (row 0).state ≤ 3 := by
      cases (row 0).state <;> simp [stepsLeft]
    omega
  final j k hjk hk harchived := row_of_final hrow (by rw [harchived]; rfl) k hjk hk
  completes hspaced henough hstart := by
    have hticks : enoughTicks polls (row 0) (t 0) - 3 + 3 = enoughTicks polls (row 0) (t 0) :=
      Nat.sub_add_cancel (by rw [enoughTicks]; omega)
    have hnone := stepsLeft_of_due hrow hmono hspaced
      (dueFrom_le polls (row 0) hspaced) 3 (by omega)
    rw [hticks] at hnone
    have hend : (row (enoughTicks polls (row 0) (t 0))).state = .archived :=
      eq_archived (Nat.le_zero.mp hnone) (state_ne_paused hrow hstart _ henough)
    rw [row_of_final hrow (by rw [hend]; rfl) n henough le_rfl, hend]

end Passes

end ChatBotChat
