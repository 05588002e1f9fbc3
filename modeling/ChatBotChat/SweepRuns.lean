/-
A database that only the sweep touches.

A tick of the sweep is a pass that returns, or one that a failed call ends: the
list of the rooms to sweep fails as a whole when one row of it does not decode.
So it depends on the database which ticks there are.

* `tick_returns`, `tick_fails` — while every listed row decodes each tick is a
  pass that returns, and otherwise none is, and nothing changes;
* `sweep_only_iff` — the rooms of a database follow the timetable of the sweep,
  in every run of ticks, exactly when every listed row decodes or no room has
  anywhere to go.
-/
import ChatBotChat.CapRange
import ChatBotChat.Sweeping

namespace ChatBotChat

open Interleave Lifecycle

variable {now : OffsetDateTime} {db db' d : Db} {t : ℕ → OffsetDateTime} {n : ℕ}

/-! ### One tick -/

/-- A tick at `now`, by itself: the pass returns, or one of its calls fails. -/
def Tick (now : OffsetDateTime) (db db' : Db) : Prop :=
  (∃ outcomes, Alone Store.exec Store.db (sweepOnce now) db outcomes db') ∨
    Fails Store.exec Store.db (sweepOnce now) db db'

/-- Every row that a pass lists decodes. -/
def Sweepable (db : Db) : Prop := ∀ row ∈ db.rooms, row.state ≠ .archived → CapsFit row

/-- Time alone takes no room anywhere. -/
def AtRest (db : Db) : Prop := ∀ row ∈ db.rooms, row.state = .paused ∨ row.state = .archived

theorem listRoomsForSweep_isSome : db.listRoomsForSweep.isSome = true ↔ Sweepable db := by
  rw [Db.listRoomsForSweep, mapM_isSome]
  simp only [List.mem_filter, decide_eq_true_eq, and_imp, rowToRoom_isSome]
  rfl

theorem sweepRoom_sure (now : OffsetDateTime) (room : Room) :
    (sweepRoom now room).Only (Sure Store.exec) 2 := by
  refine Prog.Only.bind (n := 1) (fun participants => ?_) (.perform fun _ s => ⟨_, s, rfl⟩)
  dsimp only
  split
  · exact trivial
  · split
    · exact trivial
    · exact ⟨fun _ s => ⟨_, _, rfl⟩, fun changed => trivial⟩

/-- Past the list of the rooms, no call of a pass can fail. -/
theorem sweepRooms_sure (now : OffsetDateTime) (rooms : List Room) :
    (sweepRooms now rooms).Only (Sure Store.exec) (2 * rooms.length) := by
  induction rooms with
  | nil => exact trivial
  | cons room rooms ih =>
    rw [List.length_cons, Nat.mul_succ, Nat.add_comm]
    refine (sweepRoom_sure now room).bind fun outcome => ?_
    exact ih.bind (n := 0) fun outcomes => .pure _

/-- A tick of a database whose listed rows decode is a pass that returns. -/
theorem tick_returns (hd : Sweepable db) (h : Tick now db db') :
    ∃ outcomes, Alone Store.exec Store.db (sweepOnce now) db outcomes db' := by
  rcases h with hpass | hfails
  · exact hpass
  · rcases hfails.call_inv with ⟨sess, s, hfailed, rfl, -⟩ | ⟨sess, rooms, s, s', -, -, hrest⟩
    · obtain ⟨rooms, hrooms⟩ := Option.isSome_iff_exists.mp (listRoomsForSweep_isSome.mpr hd)
      rw [Store.exec, hrooms] at hfailed
      cases hfailed
    · exact absurd hrest (sweepRooms_sure now rooms).not_fails

/-- A tick of a database with a listed row that does not decode changes nothing. -/
theorem tick_fails (hd : ¬ Sweepable db) (h : Tick now db db') : db' = db := by
  have hnone : db.listRoomsForSweep = none := by
    rw [← Option.not_isSome_iff_eq_none, listRoomsForSweep_isSome]
    exact hd
  rcases h with ⟨outcomes, hpass⟩ | hfails
  · obtain ⟨sess, rooms, s, s', hexec, rfl, -⟩ := hpass.call_inv
    obtain ⟨hlist, -⟩ := done_of_tryRead hexec
    rw [hnone] at hlist
    cases hlist
  · rcases hfails.call_inv with ⟨sess, s, -, rfl, rfl⟩ | ⟨sess, rooms, s, s', hexec, rfl, -⟩
    · rfl
    · obtain ⟨hlist, -⟩ := done_of_tryRead hexec
      rw [hnone] at hlist
      cases hlist

/-- There is a tick at every instant. -/
theorem exists_tick (now : OffsetDateTime) (db : Db) : ∃ db', Tick now db db' := by
  let s : Store := ⟨db, ⟨[]⟩, 0, 0⟩
  cases hlist : db.listRoomsForSweep with
  | none =>
    have hfailed : Store.exec [] .listRoomsForSweep s = .failed := by
      rw [Store.exec, hlist]
      rfl
    exact ⟨db, .inr (.here hfailed)⟩
  | some rooms =>
    have hdone : Store.exec [] .listRoomsForSweep s = .done rooms s := by
      rw [Store.exec, hlist]
      rfl
    have hends : ∃ outcomes, ∃ s' : Store,
        Alone Store.exec Store.db (sweepRooms now rooms) db outcomes s'.db :=
      (sweepRooms_sure now rooms).ends [] s
    obtain ⟨outcomes, s', hrest⟩ := hends
    exact ⟨s'.db, .inl ⟨outcomes, .call hdone hrest⟩⟩

/-! ### Any number of ticks -/

/-- Ticks at `t 0`, `t 1`, … and nothing else; tick `k` takes `db k` to `db (k + 1)`. -/
structure SweepRun (db : ℕ → Db) (t : ℕ → OffsetDateTime) (n : ℕ) : Prop where
  nondecreasing : ∀ k, k + 1 < n → t k ≤ t (k + 1)
  tick : ∀ k < n, Tick (t k) (db k) (db (k + 1))

/-- There is a run for every nondecreasing sequence of instants. -/
theorem exists_sweepRun (d : Db) (hmono : ∀ k, k + 1 < n → t k ≤ t (k + 1)) :
    ∃ db, db 0 = d ∧ SweepRun db t n := by
  choose next hnext using exists_tick
  exact ⟨fun k => Nat.rec d (fun k db => next (t k) db) k, rfl, hmono, fun k _ => hnext _ _⟩

/-- The room of a row that is swept. -/
theorem Db.WellFormed.roomRow_map {f : RoomRow → RoomRow} {id : String} {row : RoomRow}
    (hwf : db'.WellFormed) (hrooms : db'.rooms = db.rooms.map f) (hid : ∀ row, (f row).id = row.id)
    (hrow : db.roomRow id = some row) : db'.roomRow id = some (f row) := by
  obtain ⟨hmem, rfl⟩ := Db.mem_of_roomRow hrow
  rw [← hid row]
  refine hwf.roomRow_eq ?_
  rw [hrooms]
  exact List.mem_map_of_mem hmem

/-- A pass leaves a database whose listed rows decode. -/
theorem Sweepable.map {polls : RoomRow → List OffsetDateTime} (hd : Sweepable db)
    (hrooms : db'.rooms = db.rooms.map fun row => sweepRow now (polls row) row) :
    Sweepable db' := by
  intro row' hrow' hstate
  rw [hrooms] at hrow'
  obtain ⟨row, hrow, rfl⟩ := List.mem_map.mp hrow'
  rcases sweepRow_cases now (polls row) row with h | ⟨b, hb, h, -, -⟩
  · rw [h] at hstate ⊢
    exact hd row hrow hstate
  · rw [h]
    refine hd row hrow fun harchived => ?_
    rw [harchived] at hb
    cases hb

/-- The rows of a room along a run of passes. -/
def sweptRow (polls : List OffsetDateTime) (t : ℕ → OffsetDateTime) (row₀ : RoomRow) : ℕ → RoomRow
  | 0 => row₀
  | k + 1 => sweepRow (t k) polls (sweptRow polls t row₀ k)

/-- From a database whose listed rows decode, every tick finds one. -/
theorem SweepRun.sweepable {db : ℕ → Db} (h : SweepRun db t n) (hwf : (db 0).WellFormed)
    (hd : Sweepable (db 0)) : ∀ k ≤ n, (db k).WellFormed ∧ Sweepable (db k) := by
  intro k
  induction k with
  | zero => exact fun _ => ⟨hwf, hd⟩
  | succ k ih =>
    intro hk
    obtain ⟨hwfk, hdk⟩ := ih (by omega)
    obtain ⟨outcomes, hpass⟩ := tick_returns hdk (h.tick k (by omega))
    obtain ⟨hwf', -, hrooms⟩ := sweepOnce_spec hwfk hpass
    exact ⟨hwf', hdk.map hrooms⟩

/-- And it takes every room as far as a pass takes it. -/
theorem SweepRun.roomRow {db : ℕ → Db} (h : SweepRun db t n) (hwf : (db 0).WellFormed)
    (hd : Sweepable (db 0)) {id : String} {row₀ : RoomRow} (hroom : (db 0).roomRow id = some row₀) :
    ∀ k ≤ n, (db k).participants = (db 0).participants ∧
      (db k).roomRow id = some (sweptRow ((db 0).lastPolls id) t row₀ k) := by
  intro k
  induction k with
  | zero => exact fun _ => ⟨rfl, hroom⟩
  | succ k ih =>
    intro hk
    obtain ⟨hpart, hrow⟩ := ih (by omega)
    obtain ⟨hwfk, hdk⟩ := h.sweepable hwf hd k (by omega)
    obtain ⟨outcomes, hpass⟩ := tick_returns hdk (h.tick k (by omega))
    obtain ⟨hwf', hpart', hrooms⟩ := sweepOnce_spec hwfk hpass
    refine ⟨hpart'.trans hpart, ?_⟩
    rw [hwf'.roomRow_map hrooms (fun row => sweepRow_id _ _ row) hrow,
      (Db.mem_of_roomRow hrow).2, Db.lastPolls_of_participants hpart]
    rfl

/-- From a database with a listed row that does not decode, a run changes nothing. -/
theorem SweepRun.frozen {db : ℕ → Db} (h : SweepRun db t n) (hd : ¬ Sweepable (db 0)) :
    ∀ k ≤ n, db k = db 0 := by
  intro k
  induction k with
  | zero => exact fun _ => rfl
  | succ k ih =>
    intro hk
    have hsame := ih (by omega)
    rw [tick_fails (hsame ▸ hd) (h.tick k (by omega)), hsame]

/-! ### The timetable -/

/-- In every run of ticks from `d`, no participant's last poll changes and every
room follows the timetable of the sweep. -/
def SweptInTime (d : Db) : Prop :=
  ∀ (db : ℕ → Db) (t : ℕ → OffsetDateTime) (n : ℕ), SweepRun db t n → db 0 = d →
    ∀ (id : String) (row₀ : RoomRow), d.roomRow id = some row₀ →
      ∃ row : ℕ → RoomRow, row 0 = row₀ ∧
        (∀ k ≤ n, (db k).roomRow id = some (row k) ∧ (db k).lastPolls id = d.lastPolls id) ∧
        Timetable (d.lastPolls id) t n row

theorem Sweepable.sweptInTime (hwf : d.WellFormed) (hd : Sweepable d) : SweptInTime d := by
  rintro db t n hrun rfl id row₀ hroom
  refine ⟨sweptRow ((db 0).lastPolls id) t row₀, rfl, fun k hk => ?_,
    timetable (fun _ _ => rfl) hrun.nondecreasing⟩
  obtain ⟨hpart, hrow⟩ := hrun.roomRow hwf hd hroom k hk
  exact ⟨hrow, Db.lastPolls_of_participants hpart id⟩

/-- Rooms that time takes nowhere need no pass. -/
theorem AtRest.sweptInTime (hwf : d.WellFormed) (hrest : AtRest d) : SweptInTime d := by
  by_cases hd : Sweepable d
  · exact hd.sweptInTime hwf
  rintro db t n hrun rfl id row₀ hroom
  have hfinal : forward row₀.state = none := by
    rcases hrest row₀ (Db.mem_of_roomRow hroom).1 with h | h <;> rw [h] <;> rfl
  refine ⟨fun _ => row₀, rfl, fun k hk => ?_, ?_⟩
  · rw [hrun.frozen hd k hk]
    exact ⟨hroom, rfl⟩
  · exact timetable (fun k _ => (sweepRow_of_final hfinal).symm) hrun.nondecreasing

/-- A room that has somewhere to go stays where it is beside a row that does not
decode. -/
theorem not_sweptInTime (hwf : d.WellFormed) (hd : ¬ Sweepable d) (hrest : ¬ AtRest d) :
    ¬ SweptInTime d := by
  intro h
  simp only [AtRest, not_forall, not_or] at hrest
  obtain ⟨row₀, hmem, hpaused, harchived⟩ := hrest
  let n := enoughTicks (d.lastPolls row₀.id) row₀ 0
  let t : ℕ → OffsetDateTime := fun k => k * ARCHIVE_AFTER
  have hspaced : ∀ k, k + 1 < n → t k + ARCHIVE_AFTER ≤ t (k + 1) := by
    intro k _
    simp only [t]
    push_cast
    linarith
  have hpos : (0 : ℤ) ≤ ARCHIVE_AFTER := by decide
  obtain ⟨db, hdb, hrun⟩ := exists_sweepRun d fun k hk =>
    (le_add_of_nonneg_right hpos).trans (hspaced k hk)
  obtain ⟨row, hstart, hrows, htable⟩ := h db t n hrun hdb row₀.id row₀ (hwf.roomRow_eq hmem)
  have hend := htable.completes hspaced (by simp [n, t, hstart]) (hstart ▸ hpaused)
  have hsame : d.roomRow row₀.id = some (row n) := by
    rw [← (hrows n le_rfl).1, hrun.frozen (hdb ▸ hd) n le_rfl, hdb]
  rw [hwf.roomRow_eq hmem] at hsame
  exact harchived (Option.some_inj.mp hsame ▸ hend)

/-- **Only the sweep**: ticks at any nondecreasing instants make a run; from a
database whose listed rows decode they are passes that return; and the rooms of a
database follow the timetable in every run exactly when its listed rows decode,
or when all of its rooms are paused or archived. -/
theorem sweep_only_iff (hwf : d.WellFormed) :
    (∀ (t : ℕ → OffsetDateTime) (n : ℕ), (∀ k, k + 1 < n → t k ≤ t (k + 1)) →
      ∃ db, db 0 = d ∧ SweepRun db t n) ∧
    (Sweepable d → ∀ (db : ℕ → Db) (t : ℕ → OffsetDateTime) (n : ℕ), SweepRun db t n → db 0 = d →
      ∀ k < n, ∃ outcomes,
        Alone Store.exec Store.db (sweepOnce (t k)) (db k) outcomes (db (k + 1))) ∧
    (SweptInTime d ↔ Sweepable d ∨ AtRest d) := by
  refine ⟨fun t n => exists_sweepRun d, ?_, fun h => ?_, ?_⟩
  · rintro hd db t n hrun rfl k hk
    exact tick_returns (hrun.sweepable hwf hd k hk.le).2 (hrun.tick k hk)
  · by_contra hneither
    rw [not_or] at hneither
    exact not_sweptInTime hwf hneither.1 hneither.2 h
  · rintro (hd | hrest)
    · exact hd.sweptInTime hwf
    · exact hrest.sweptInTime hwf

def quietRoom : RoomRow := ⟨"cbc-demo", "demo", 0, 0, .active, 0, ⟨20, 4, some .all⟩, none⟩

/-- Alice by herself in a room. -/
def quietDb : Db where
  rooms := [quietRoom]
  participants := [⟨"api-opus-0001", "cbc-demo", "api", "opus", "/api", "alice", 0, 0, 0, none, none,
    none⟩]
  messages := []
  events := []

/-- A tick every two weeks. -/
def fortnightly (k : ℕ) : OffsetDateTime := Rfc3339.Duration.days (14 * (k + 1))

theorem sweep_only_iff_quiet : ∃ db, db 0 = quietDb ∧ SweepRun db fortnightly 4 ∧
    ∃ row, (db 4).roomRow "cbc-demo" = some row ∧ row.state = .archived := by
  have hwf : quietDb.WellFormed := by
    constructor <;> decide
  have hd : Sweepable quietDb := by
    intro row hrow _
    obtain rfl := List.mem_singleton.mp hrow
    exact rowToRoom_isSome.mp (by decide)
  have hspaced : ∀ k, k + 1 < 4 → fortnightly k + ARCHIVE_AFTER ≤ fortnightly (k + 1) := by
    intro k hk
    obtain ⟨i, rfl⟩ : ∃ i : Fin 3, k = i := ⟨⟨k, by omega⟩, rfl⟩
    revert i
    decide
  obtain ⟨hruns, -, hiff⟩ := sweep_only_iff hwf
  obtain ⟨db, hdb, hrun⟩ := hruns fortnightly 4 fun k hk =>
    (le_add_of_nonneg_right (by decide)).trans (hspaced k hk)
  obtain ⟨row, hstart, hrows, htable⟩ :=
    hiff.mpr (.inl hd) db fortnightly 4 hrun hdb "cbc-demo" quietRoom (by decide)
  refine ⟨db, hdb, hrun, row 4, (hrows 4 le_rfl).1, htable.completes hspaced ?_ ?_⟩
  · rw [hstart]
    decide
  · rw [hstart]
    decide

/-- A room that is extended past the largest `u32`, and another beside it. -/
def spoilt : List Request :=
  loneExtend (some 4294967295) ++ [.openRoom ⟨"other", none, none, none⟩]

/-- The sweep comes to no room once one row does not decode. -/
theorem sweep_not_always_in_time : ¬ ∀ c, Reachable .default c → SweptInTime c.shared.db := by
  intro h
  refine not_sweptInTime (reachable_demo spoilt).wellFormed ?_ ?_ (h _ (reachable_demo spoilt))
  · rw [← listRoomsForSweep_isSome]
    decide +kernel
  · intro hrest
    have hnone : (demo spoilt).shared.db.rooms.all (fun row =>
        row.state = .paused ∨ row.state = .archived) = true :=
      List.all_eq_true.mpr fun row hrow => decide_eq_true (hrest row hrow)
    revert hnone
    decide +kernel

end ChatBotChat
