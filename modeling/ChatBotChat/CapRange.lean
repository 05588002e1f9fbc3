/-
The cap between its representations: a `u32` of the configuration, an integer of
the database's arithmetic, and a `u32` again when a row is decoded.

* `caps_decodable_iff` — every row stays decodable, and every reported cap is
  the stored one, exactly in the runs in which no vote bumps a cap past the
  largest `u32`.
-/
import ChatBotChat.Extension

namespace ChatBotChat

open Interleave

variable {s s' : Store} {sess : List UInt16} {req : Request} {past : Log} {app : AppState}
  {id : String}

/-! ### Caps and their representation -/

/-- The largest `u32`. -/
def U32_MAX : ℤ := 4294967295

/-- Both caps of a row fit a `u32`. -/
def CapsFit (row : RoomRow) : Prop :=
  (0 ≤ row.config.hardCap ∧ row.config.hardCap ≤ U32_MAX) ∧
    0 ≤ row.config.softCap ∧ row.config.softCap ≤ U32_MAX

theorem decodeU32_isSome {n : ℤ} : (decodeU32 n).isSome = true ↔ 0 ≤ n ∧ n ≤ U32_MAX := by
  unfold decodeU32 U32_MAX
  split
  · rename_i hn
    simp only [Option.isSome_some, true_iff]
    omega
  · rename_i hn
    simp only [Option.isSome_none, Bool.false_eq_true, false_iff]
    omega

/-- A row decodes exactly when its caps fit. -/
theorem rowToRoom_isSome {row : RoomRow} : (rowToRoom row).isSome = true ↔ CapsFit row := by
  rw [CapsFit, ← decodeU32_isSome, ← decodeU32_isSome, rowToRoom, ConfigJson.decode]
  cases decodeU32 row.config.hardCap <;> cases decodeU32 row.config.softCap <;> simp

/-- No read of the rooms can meet a corrupt row. -/
structure Decodable (s : Store) : Prop where
  rows : ∀ row ∈ s.db.rooms, (rowToRoom row).isSome = true
  getRoom : ∀ id, (s.db.getRoom id).isSome = true
  sweep : s.db.listRoomsForSweep.isSome = true
  listRooms : ∀ state all, (s.db.listRooms state all).isSome = true

theorem mapM_isSome {α β : Type} {f : α → Option β} : ∀ {rows : List α},
    (rows.mapM f).isSome = true ↔ ∀ row ∈ rows, (f row).isSome = true := by
  intro rows
  induction rows with
  | nil => simp
  | cons row rows ih =>
    rw [List.forall_mem_cons, ← ih, List.mapM_cons]
    cases f row <;> cases rows.mapM f <;> simp

/-- Rows that fit are rows that decode, in every query. -/
theorem decodable_of_capsFit (h : ∀ row ∈ s.db.rooms, CapsFit row) : Decodable s := by
  have hrows : ∀ row ∈ s.db.rooms, (rowToRoom row).isSome = true :=
    fun row hrow => rowToRoom_isSome.mpr (h row hrow)
  refine ⟨hrows, fun id => ?_, ?_, fun state all => ?_⟩
  · unfold Db.getRoom
    split
    · rfl
    · rename_i row hrow
      rw [Option.isSome_map]
      exact hrows row (Db.mem_of_roomRow hrow).1
  · exact mapM_isSome.mpr fun row hrow => hrows row (List.mem_of_mem_filter hrow)
  · refine mapM_isSome.mpr fun row hrow => ?_
    have hmem : row ∈ s.db.rooms := by
      rw [orderByDesc, List.mem_insertionSort] at hrow
      split at hrow
      · exact List.mem_of_mem_filter hrow
      · exact hrow
      · exact List.mem_of_mem_filter hrow
    obtain ⟨room, hroom⟩ := Option.isSome_iff_exists.mp (hrows row hmem)
    simp [hroom]

/-- A vote that carries finds at least 20 below the largest `u32`. -/
def RoomToExtend (e : Step) : Prop :=
  ∀ id voter step now cutoff quorum, e.call = .tryExtend id voter step now cutoff quorum →
    (e.before.db.castExtendVote voter now).extendQuorumMet id cutoff quorum = true →
      ∀ row ∈ e.before.db.rooms, row.id = id → row.config.hardCap ≤ U32_MAX - 20

/-- A reported cap is the stored one, 20 above the one before. -/
def ReportsStored (id : String) (cap : UInt32) (before after : Store) : Prop :=
  ∃ row ∈ before.db.rooms, row.id = id ∧ ∃ row' ∈ after.db.rooms, row'.id = id ∧
    row'.config.hardCap = row.config.hardCap + 20 ∧ (cap.toNat : ℤ) = row'.config.hardCap

/-- At every instant every row decodes, and every answer that reports a cap
reports the stored one. -/
structure CapsDecodable (c : Daemon) : Prop where
  now : Decodable c.shared
  always : ∀ e ∈ c.trace, Decodable e.before ∧ Decodable e.after
  stored : ∀ i id voter step now cutoff quorum cap before after,
    ⟨i, .tryExtend id voter step now cutoff quorum, .extended cap, before, after⟩ ∈ c.trace →
      ReportsStored id cap before after
  reported : ∀ i id r response, c.threads[i]?.map Thread.req = some (.extendRoom id r) →
    c.threads[i]?.bind Thread.returned = some (.ok (.extended response)) →
    response.status = "extended" → ∃ voter step now cutoff quorum cap before after,
      ⟨i, .tryExtend id voter step now cutoff quorum, .extended cap, before, after⟩ ∈ c.trace ∧
        response.hardCap = some cap ∧ ReportsStored id cap before after

/-- A room opens with caps that fit. -/
theorem capsFit_toRow (room : Room) : CapsFit room.toRow := by
  have hhard := room.config.hardCap.toNat_lt
  have hsoft := room.config.softCap.toNat_lt
  simp only [CapsFit, Room.toRow, RoomConfig.toJson, U32_MAX]
  omega

/-- One call keeps the caps in range, if a vote that carries finds room. -/
theorem capsFit_call {e : Step}
    (h : Store.exec sess e.call e.before = .done e.reply e.after) (hd : Discipline req past e.call)
    (hroom : RoomToExtend e) (hfit : ∀ row ∈ e.before.db.rooms, CapsFit row) :
    ∀ row ∈ e.after.db.rooms, CapsFit row := by
  intro row' hrow'
  rcases (effect_of_exec h).mem_rooms.mp hrow' with ⟨row, hrow, rfl⟩ | hopened
  · have hold := hfit row hrow
    rw [CapsFit, Call.onRoom_config, bump_eq hd]
    refine ⟨?_, hold.2⟩
    by_cases hbump : e.call.bumps row.id e.reply = true
    · obtain ⟨tid, call, reply, before, after⟩ := e
      cases call
      case tryExtend id voter step now cutoff quorum =>
        cases reply
        · obtain ⟨hmet, -⟩ := tryExtend_spec h
          have hid : row.id = id := by simpa [Call.bumps] using hbump
          have hle := hroom id voter step now cutoff quorum rfl hmet row hrow hid
          rw [if_pos hbump]
          have := hold.1.1
          push_cast
          omega
        · cases hbump
      all_goals cases hbump
    · rw [if_neg hbump]
      simpa using hold.1
  · obtain ⟨-, room, -, rfl⟩ := opened_createRoom hopened
    exact capsFit_toRow room

/-- A bump that finds room reports what it stores. -/
theorem reportsStored_of_fit {voter : String} {step : UInt32} {now cutoff : OffsetDateTime}
    {quorum : CloseQuorum} {cap : UInt32}
    (h : Store.exec sess (.tryExtend id voter step now cutoff quorum) s = .done (.extended cap) s')
    (hd : Discipline req past (.tryExtend id voter step now cutoff quorum))
    (hfit : ∀ row ∈ s'.db.rooms, CapsFit row) : ReportsStored id cap s s' := by
  obtain ⟨-, row, hrow, rfl⟩ := tryExtend_spec h
  obtain ⟨hmem, rfl⟩ := Db.mem_of_roomRow hrow
  have hmem' := (effect_of_exec h).mem_rooms.mpr (.inl ⟨row, hmem, rfl⟩)
  have hcap := Call.onRoom_config (c := .tryExtend row.id voter step now cutoff quorum)
    (r := .extended (UInt32.ofNat (row.config.hardCap + step.toNat).toNat)) row
  refine ⟨row, hmem, rfl, _, hmem', Call.onRoom_id row, ?_, ?_⟩
  · rw [hcap, bump_eq hd]
    simp [Call.bumps]
  · obtain ⟨⟨hlow, hhigh⟩, -⟩ := hfit _ hmem'
    rw [hcap] at hlow hhigh ⊢
    simp only [Call.bump, ↓reduceIte, U32_MAX] at hlow hhigh ⊢
    have hlt : (row.config.hardCap + step.toNat).toNat < UInt32.size := by
      change _ < 4294967296
      omega
    rw [UInt32.toNat_ofNat_of_lt' hlt]
    omega

/-- A vote that carries, on a room that exists, is answered `extended`. -/
theorem extended_of_met {voter : String} {step : UInt32} {now cutoff : OffsetDateTime}
    {quorum : CloseQuorum} {outcome : ExtendOutcome}
    (h : Store.exec sess (.tryExtend id voter step now cutoff quorum) s = .done outcome s')
    (hmet : (s.db.castExtendVote voter now).extendQuorumMet id cutoff quorum = true) :
    ∃ cap, outcome = .extended cap := by
  cases outcome with
  | extended cap => exact ⟨cap, rfl⟩
  | proposed votes needed => exact absurd (hmet.symm.trans (tryExtend_spec h)) (by decide)

/-- In a run whose votes find room, every cap fits at every instant. -/
theorem Reachable.capsFit {c : Daemon} (h : Reachable app c)
    (hroom : ∀ e ∈ c.trace, RoomToExtend e) :
    Throughout c fun _ s => ∀ row ∈ s.db.rooms, CapsFit row := by
  refine h.induction ?_ ?_ ?_
  · rintro s₀ ⟨hdb, -⟩
    simp [hdb, Db.empty]
  · intro tr s₁ s₂ hdb _ _ _ hfit
    rwa [hdb]
  · intro e tr hrec hfit
    obtain ⟨sess, hexec⟩ := hrec.exec
    obtain ⟨t, -, hd⟩ := hrec.disciplined
    exact capsFit_call hexec hd (hroom e (hrec.suffix.mem List.mem_cons_self)) hfit

/-- A vote that carries with less than 20 below the largest `u32` leaves a row
that does not decode. -/
theorem roomToExtend_of_decodable {e : Step} {older : List Step} {c : Daemon}
    (hrec : Recorded app c e older) (hdec : Decodable e.after) : RoomToExtend e := by
  obtain ⟨tid, call, reply, before, after⟩ := e
  rintro id voter step now cutoff quorum rfl hmet row hrow rfl
  obtain ⟨sess, hexec⟩ := hrec.exec
  obtain ⟨t, -, hd⟩ := hrec.disciplined
  obtain ⟨cap, rfl⟩ := extended_of_met hexec hmet
  have hrow' := (effect_of_exec hexec).mem_rooms.mpr (.inl ⟨row, hrow, rfl⟩)
  have hfit := (rowToRoom_isSome.mp (hdec.rows _ hrow')).1.2
  rw [Call.onRoom_config, bump_eq hd] at hfit
  simp only [Call.bumps, decide_true, ↓reduceIte] at hfit
  push_cast at hfit
  omega

/-- **Caps stay decodable exactly while they have room**: in a run of the daemon
every row decodes at every instant, and every answer that reports a cap reports
the stored one, if and only if every vote that carried found the cap at least 20
below the largest `u32`. -/
theorem caps_decodable_iff {c : Daemon} (h : Reachable app c) :
    CapsDecodable c ↔ ∀ e ∈ c.trace, RoomToExtend e := by
  constructor
  · intro hdec e he
    obtain ⟨older, hrec⟩ := h.recorded_of_mem he
    exact roomToExtend_of_decodable hrec (hdec.always e he).2
  · intro hroom
    have hfit := h.capsFit hroom
    have hstored : ∀ i id voter step now cutoff quorum cap before after,
        ⟨i, .tryExtend id voter step now cutoff quorum, .extended cap, before, after⟩ ∈ c.trace →
          ReportsStored id cap before after := by
      intro i id voter step now cutoff quorum cap before after he
      obtain ⟨older, hrec⟩ := h.recorded_of_mem he
      obtain ⟨sess, hexec⟩ := hrec.exec
      obtain ⟨t, -, hd⟩ := hrec.disciplined
      exact reportsStored_of_fit hexec hd (hfit.after hrec.suffix)
    refine ⟨decodable_of_capsFit hfit.now, fun e he => ?_, hstored, ?_⟩
    · obtain ⟨older, hrec⟩ := h.recorded_of_mem he
      exact ⟨decodable_of_capsFit (hfit.before hrec.suffix),
        decodable_of_capsFit (hfit.after hrec.suffix)⟩
    · intro i id r response hreq hreturned hstatus
      obtain ⟨t, ht, ha⟩ := Option.bind_eq_some_iff.mp hreturned
      rw [ht] at hreq
      have hconcl := h.orderly.returned ht ha
      rw [show t.req = .extendRoom id r from Option.some_inj.mp hreq] at hconcl
      obtain ⟨voter, step, now, cutoff, quorum, outcome, hmem, hreports⟩ := hconcl.2 response rfl
      obtain ⟨⟨tid, call, reply, before, after⟩, he, rfl, heq⟩ := mem_pastOf.mp hmem
      cases heq
      cases reply with
      | extended cap =>
        exact ⟨voter, step, now, cutoff, quorum, cap, before, after, he, hreports.2,
          hstored _ _ _ _ _ _ _ _ _ _ he⟩
      | proposed votes needed =>
        exact absurd (hstatus.symm.trans hreports.1) (by decide)

theorem caps_decodable_iff_lone : CapsDecodable (demo (loneExtend none)) := by
  have hlow : ∀ e ∈ (demo (loneExtend none)).trace, ∀ row ∈ e.before.db.rooms,
      row.config.hardCap ≤ U32_MAX - 20 := by decide +kernel
  exact (caps_decodable_iff (reachable_demo _)).mpr
    fun e he _ _ _ _ _ _ _ _ row hrow _ => hlow e he row hrow

/-- A cap near the largest `u32` is bumped past it, and the row no longer decodes. -/
theorem caps_not_always_decodable : ¬ ∀ c, Reachable .default c → CapsDecodable c := by
  intro h
  have hget := (h _ (reachable_demo (loneExtend (some 4294967295)))).now.getRoom demoRoom
  revert hget
  decide +kernel

end ChatBotChat
