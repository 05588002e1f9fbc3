/-
Extending the cap by consensus.

* `extend_bumps_once_per_agreement` — a room's stored cap is its opening cap
  plus 20 for each vote answered `extended`, and at each such vote every live
  participant had a vote of its own standing since the previous one.
-/
import ChatBotChat.Reach
import Mathlib.Tactic.Ring

namespace ChatBotChat

open Interleave

variable {s s' : Store} {sess : List UInt16} {c : Call} {r : c.Reply} {req : Request}
  {past : Log} {app : AppState} {id handle : String}

/-! ### Votes and bumps -/

/-- The call cast an extend vote for `handle`. -/
def Call.votesExtend (handle : String) : Call → Bool
  | .tryExtend _ voter _ _ _ _ => handle = voter
  | _ => false

/-- The call withdrew the extend vote of `handle`. -/
def Call.withdrawsExtend (handle : String) : Call → Bool
  | .clearExtendVote h => handle = h
  | _ => false

/-- The call bumped the cap of the room. -/
def Call.bumps (id : String) : (c : Call) → c.Reply → Bool
  | .tryExtend id' _ _ _ _ _, .extended _ => id = id'
  | _, _ => false

/-- How often the cap of a room was bumped. -/
def bumpCount (id : String) (tr : List Step) : ℕ := tr.countP fun e => e.call.bumps id e.reply

/-- A vote of `handle` stands: cast since the last bump of the room, and not
withdrawn since. -/
def VoteStands (id handle : String) (tr : List Step) : Prop :=
  ∃ newer v older, tr = newer ++ v :: older ∧ v.call.votesExtend handle = true ∧
    v.call.bumps id v.reply = false ∧
    ∀ e ∈ newer, e.call.bumps id e.reply = false ∧ e.call.withdrawsExtend handle = false

theorem VoteStands.cons {tr : List Step} {e : Step} (h : VoteStands id handle tr)
    (hbump : e.call.bumps id e.reply = false) (hkeep : e.call.withdrawsExtend handle = false) :
    VoteStands id handle (e :: tr) := by
  obtain ⟨newer, v, older, rfl, hvote, hv, hnewer⟩ := h
  refine ⟨e :: newer, v, older, rfl, hvote, hv, fun e' he' => ?_⟩
  rcases List.mem_cons.mp he' with rfl | he'
  · exact ⟨hbump, hkeep⟩
  · exact hnewer e' he'

theorem VoteStands.cast {tr : List Step} {e : Step} (hvote : e.call.votesExtend handle = true)
    (hbump : e.call.bumps id e.reply = false) : VoteStands id handle (e :: tr) :=
  ⟨[], e, tr, rfl, hvote, hbump, by simp⟩

/-- A vote in the table after a call was there before, or is the call's own; and
the call neither withdrew it nor bumped the room of its row. -/
theorem wantsExtend_after {p : Participant} (h : (c.onParticipant r p).wantsExtendAt.isSome = true) :
    c.bumps p.roomId r = false ∧
      (c.votesExtend p.handle = true ∨
        p.wantsExtendAt.isSome = true ∧ c.withdrawsExtend p.handle = false) := by
  cases c
  case tryExtend id voter step now cutoff quorum =>
    by_cases hvoter : p.handle = voter
    · cases r with
      | extended cap =>
        by_cases hroom : p.roomId = id
        · simp [Call.onParticipant, hvoter, hroom] at h
        · exact ⟨by simp [Call.bumps, hroom], .inl (by simp [Call.votesExtend, hvoter])⟩
      | proposed votes needed => exact ⟨rfl, .inl (by simp [Call.votesExtend, hvoter])⟩
    · cases r with
      | extended cap =>
        by_cases hroom : p.roomId = id
        · simp [Call.onParticipant, hvoter, hroom] at h
        · simp only [Call.onParticipant, hvoter, hroom, ↓reduceIte] at h
          exact ⟨by simp [Call.bumps, hroom], .inr ⟨h, rfl⟩⟩
      | proposed votes needed =>
        simp only [Call.onParticipant, hvoter, ↓reduceIte] at h
        exact ⟨rfl, .inr ⟨h, rfl⟩⟩
  case clearExtendVote h' =>
    simp only [Call.onParticipant] at h
    split at h
    · cases h
    · rename_i hne
      exact ⟨rfl, .inr ⟨h, by simp [Call.withdrawsExtend, hne]⟩⟩
  all_goals
    refine ⟨rfl, .inr ⟨?_, rfl⟩⟩
    simp only [Call.onParticipant] at h
    try split at h
  all_goals exact h

/-! ### What one vote did -/

/-- A vote bumps exactly where its quorum is met, counting itself. -/
theorem tryExtend_spec {voter : String} {step : UInt32} {now cutoff : OffsetDateTime}
    {quorum : CloseQuorum} {outcome : ExtendOutcome}
    (h : Store.exec sess (.tryExtend id voter step now cutoff quorum) s = .done outcome s') :
    match outcome with
    | .extended cap => (s.db.castExtendVote voter now).extendQuorumMet id cutoff quorum = true ∧
        ∃ row, s.db.roomRow id = some row ∧
          cap = UInt32.ofNat (row.config.hardCap + step.toNat).toNat
    | .proposed _ _ =>
        (s.db.castExtendVote voter now).extendQuorumMet id cutoff quorum = false := by
  obtain ⟨db, hdb, -⟩ := done_of_tryWrite h
  simp only [Db.tryExtend] at hdb
  split at hdb
  · rename_i hmet
    split at hdb
    · cases hdb
    · rename_i row hrow
      cases hdb
      exact ⟨hmet, row, hrow, rfl⟩
  · rename_i hmet
    cases hdb
    exact Bool.eq_false_iff.mpr hmet

/-- The row of a participant once `voter` has cast its extend vote. -/
def afterVote (voter : String) (now : OffsetDateTime) (p : Participant) : Participant :=
  if p.handle = voter then { p with wantsExtendAt := some now, lastPollAt := now } else p

/-- Under the quorum of all, a vote carries when somebody is live and everybody
who is has voted. -/
theorem extendQuorumMet_all {db : Db} {voter : String} {now cutoff : OffsetDateTime} :
    (db.castExtendVote voter now).extendQuorumMet id cutoff .all = true ↔
      (∃ p ∈ db.participants, Db.livePoll id cutoff (afterVote voter now p) = true) ∧
      ∀ p ∈ db.participants, Db.livePoll id cutoff (afterVote voter now p) = true →
        p.handle = voter ∨ p.wantsExtendAt.isSome = true := by
  have hrows : (db.castExtendVote voter now).participants =
      db.participants.map (afterVote voter now) := by
    simp [Db.castExtendVote, Db.updateParticipants, afterVote]
  have hvoted : ∀ p, (afterVote voter now p).wantsExtendAt.isSome = true ↔
      p.handle = voter ∨ p.wantsExtendAt.isSome = true := by
    intro p
    unfold afterVote
    split <;> simp_all
  rw [Db.extendQuorumMet, decide_eq_true_iff, CloseQuorum.needed_all_le_votes, hrows]
  simp only [List.mem_map, exists_exists_and_eq_and, forall_exists_index, and_imp,
    forall_apply_eq_imp_iff₂, hvoted]

/-! ### Invariants -/

/-- Every room keeps the default quorum. -/
def AllQuorum (s : Store) : Prop := ∀ row ∈ s.db.rooms, row.config.closeQuorum = some .all

/-- Every vote in the table is backed by a vote that stands. -/
def VotesBacked (tr : List Step) (s : Store) : Prop :=
  ∀ p ∈ s.db.participants, p.wantsExtendAt.isSome = true → VoteStands p.roomId p.handle tr

/-- The trace opened a room under this row. -/
def OpenedAs (tr : List Step) (row : RoomRow) : Prop :=
  ∃ e ∈ tr, e.call.opened e.reply = some row

/-- Every cap is the opening cap and 20 for each bump. -/
def CapsCounted (tr : List Step) (s : Store) : Prop :=
  (∀ row ∈ s.db.rooms, ∃ row₀, OpenedAs tr row₀ ∧ row₀.id = row.id ∧
    row.config.hardCap = row₀.config.hardCap + 20 * bumpCount row.id tr) ∧
  ∀ id, s.db.hasRoom id = false → bumpCount id tr = 0

theorem AllQuorum.call (h : Store.exec sess c s = .done r s') (hd : Discipline req past c)
    (hall : AllQuorum s) : AllQuorum s' := by
  intro row hrow
  rcases (effect_of_exec h).mem_rooms.mp hrow with ⟨row₀, hrow₀, rfl⟩ | hopened
  · rw [Call.onRoom_config]
    exact hall row₀ hrow₀
  · obtain ⟨-, room, rfl, rfl⟩ := opened_createRoom hopened
    exact congrArg some hd.2.2.1

theorem VotesBacked.call {e : Step} {tr : List Step}
    (h : Store.exec sess e.call e.before = .done e.reply e.after) (hd : Discipline req past e.call)
    (hbacked : VotesBacked tr e.before) : VotesBacked (e :: tr) e.after := by
  intro p' hp' hvote
  rcases (effect_of_exec h).mem_participants.mp hp' with ⟨p, hp, -, rfl⟩ | hjoined
  · rw [Call.onParticipant_roomId, Call.onParticipant_handle]
    obtain ⟨hbump, hcast | ⟨hhad, hkeep⟩⟩ := wantsExtend_after hvote
    · exact .cast hcast hbump
    · exact (hbacked p hp hhad).cons hbump hkeep
  · obtain ⟨tid, call, reply, before, after⟩ := e
    cases call
    case createParticipant p =>
      cases reply
      · obtain rfl := Option.some_inj.mp hjoined
        rw [hd.2.2.1] at hvote
        cases hvote
      · cases hjoined
    all_goals cases hjoined

theorem bumpCount_cons (e : Step) (tr : List Step) : bumpCount id (e :: tr) =
    bumpCount id tr + if e.call.bumps id e.reply = true then 1 else 0 := by
  rw [bumpCount, List.countP_cons, bumpCount]

/-- A call adds 20 to a cap, or nothing. -/
theorem bump_eq (hd : Discipline req past c) :
    c.bump r id = if c.bumps id r = true then 20 else 0 := by
  cases c
  case tryExtend id' voter step now cutoff quorum =>
    cases r
    · obtain ⟨-, -, rfl, -⟩ := hd
      simp only [Call.bump, Call.bumps, decide_eq_true_eq]
      rfl
    · rfl
  all_goals rfl

/-- A bump is of a room that exists. -/
theorem hasRoom_of_bumps (h : Store.exec sess c s = .done r s') (hbump : c.bumps id r = true) :
    s.db.hasRoom id = true := by
  cases c
  case tryExtend id' voter step now cutoff quorum =>
    cases r
    · obtain ⟨-, row, hrow, -⟩ := tryExtend_spec h
      obtain ⟨hmem, hid⟩ := Db.mem_of_roomRow hrow
      obtain rfl : id = id' := by simpa [Call.bumps] using hbump
      exact Db.hasRoom_iff.mpr ⟨row, hmem, hid⟩
    · cases hbump
  all_goals cases hbump

theorem OpenedAs.cons {e : Step} {tr : List Step} {row : RoomRow} (h : OpenedAs tr row) :
    OpenedAs (e :: tr) row := by
  obtain ⟨e', he', hopened⟩ := h
  exact ⟨e', List.mem_cons_of_mem _ he', hopened⟩

theorem CapsCounted.call {e : Step} {tr : List Step}
    (h : Store.exec sess e.call e.before = .done e.reply e.after) (hd : Discipline req past e.call)
    (hcounted : CapsCounted tr e.before) : CapsCounted (e :: tr) e.after := by
  have heff := effect_of_exec h
  have hfresh : ∀ id, e.before.db.hasRoom id = false → bumpCount id (e :: tr) = 0 := by
    intro id hid
    rw [bumpCount_cons, hcounted.2 id hid, if_neg]
    intro hbump
    rw [hasRoom_of_bumps h hbump] at hid
    cases hid
  constructor
  · intro row' hrow'
    rcases heff.mem_rooms.mp hrow' with ⟨row, hrow, rfl⟩ | hopened
    · obtain ⟨row₀, hopen, hid, hcap⟩ := hcounted.1 row hrow
      refine ⟨row₀, hopen.cons, by simpa using hid, ?_⟩
      rw [Call.onRoom_config, Call.onRoom_id, bumpCount_cons, bump_eq hd, hcap]
      split <;> push_cast <;> ring
    · refine ⟨row', ⟨e, List.mem_cons_self, hopened⟩, rfl, ?_⟩
      rw [hfresh row'.id (opened_spec h hopened)]
      simp
  · intro id hid
    refine hfresh id (Bool.eq_false_iff.mpr fun hcontra => ?_)
    rw [heff.hasRoom hcontra] at hid
    cases hid

/-- What extending keeps in every run. -/
structure ExtendInvariant (tr : List Step) (s : Store) : Prop where
  quorum : AllQuorum s
  backed : VotesBacked tr s
  counted : CapsCounted tr s

theorem Reachable.extendInvariant {c : Daemon} (h : Reachable app c) :
    Throughout c ExtendInvariant := by
  refine h.induction ?_ ?_ ?_
  · rintro s₀ ⟨hdb, -⟩
    constructor
    · simp [AllQuorum, hdb, Db.empty]
    · simp [VotesBacked, hdb, Db.empty]
    · exact ⟨by simp [hdb, Db.empty], fun _ _ => rfl⟩
  · rintro tr s₁ s₂ hdb _ _ _ ⟨hquorum, hbacked, hcounted⟩
    refine ⟨?_, ?_, ?_⟩
    · rwa [AllQuorum, hdb]
    · rwa [VotesBacked, hdb]
    · rwa [CapsCounted, hdb]
  · rintro e tr hrec ⟨hquorum, hbacked, hcounted⟩
    obtain ⟨sess, hexec⟩ := hrec.exec
    obtain ⟨t, -, hd⟩ := hrec.disciplined
    exact ⟨hquorum.call hexec hd, hbacked.call hexec hd, hcounted.call hexec hd⟩

/-! ### One bump per agreement -/

/-- **Extend never bumps twice for one agreement**: a room's cap is its opening
cap plus 20 for each vote answered `extended`; and at each such vote somebody is
live, and every live participant of the room is the voter or has a vote of its
own standing since the previous bump. -/
theorem extend_bumps_once_per_agreement {c : Daemon} (h : Reachable app c) :
    (∀ row ∈ c.shared.db.rooms, ∃ row₀, OpenedAs c.trace row₀ ∧ row₀.id = row.id ∧
      row.config.hardCap = row₀.config.hardCap + 20 * bumpCount row.id c.trace) ∧
    ∀ i id voter step now cutoff quorum cap before after older,
      ⟨i, .tryExtend id voter step now cutoff quorum, .extended cap, before, after⟩ :: older <:+
        c.trace →
      (∃ p ∈ before.db.participants, Db.livePoll id cutoff (afterVote voter now p) = true) ∧
      ∀ p ∈ before.db.participants, Db.livePoll id cutoff (afterVote voter now p) = true →
        p.handle = voter ∨ VoteStands id p.handle older := by
  refine ⟨h.extendInvariant.now.counted.1, ?_⟩
  intro i id voter step now cutoff quorum cap before after older hsuf
  have hinv : ExtendInvariant older before := h.extendInvariant.before hsuf
  have hrec := h.recorded hsuf
  obtain ⟨sess, hexec⟩ := hrec.exec
  obtain ⟨s₀, -, hist⟩ := hrec.history
  obtain ⟨t, -, -, -, -, -, ⟨room, hroom, rfl⟩, -⟩ := hrec.disciplined
  obtain ⟨row, hrow, -, -, -, hquorum⟩ := hist.seenRoom hroom
  rw [hinv.quorum row hrow, Option.getD_some] at hquorum
  obtain ⟨hmet, -⟩ := tryExtend_spec hexec
  rw [hquorum, extendQuorumMet_all] at hmet
  refine ⟨hmet.1, fun p hp hlive => (hmet.2 p hp hlive).imp_right fun hvote => ?_⟩
  have hroomId : p.roomId = id := by
    simp only [Db.livePoll, Bool.and_eq_true, decide_eq_true_eq] at hlive
    rw [← hlive.1, afterVote]
    split <;> rfl
  exact hroomId ▸ hinv.backed p hp hvote

/-- A lone participant extends the cap by itself. -/
def loneExtend (hardCap : Option UInt32) : List Request :=
  gather hardCap [alice] ++ [.extendRoom demoRoom alice]

theorem extend_bumps_once_per_agreement_lone : ∃ row₀,
    OpenedAs (demo (loneExtend none)).trace row₀ ∧ row₀.id = demoRoom ∧
      40 = row₀.config.hardCap + 20 * bumpCount demoRoom (demo (loneExtend none)).trace := by
  have hrow : (⟨demoRoom, "demo", 0, 0, .active, 0, ⟨40, 4, some .all⟩, none⟩ : RoomRow) ∈
      (demo (loneExtend none)).shared.db.rooms := by decide +kernel
  have hcap := (extend_bumps_once_per_agreement (reachable_demo (loneExtend none))).1 _ hrow
  exact hcap

end ChatBotChat
