/-
Runs in which nothing but closes without force moves.

Such a run changes the state of a room once at most, from what it was to closed,
and writes one event then (`CloseRun.trail`); the participants stay, and a vote
that is cast stands for as long as the room is open (`CloseRun.own_vote`).
-/
import ChatBotChat.Closing

namespace ChatBotChat

open Interleave Lifecycle

variable {app : AppState} {c₀ c : Daemon} {new older tr : List Step} {e : Step} {s s' : Store}
  {id inst handle : String} {state : RoomState} {p q : Participant} {i : ℕ} {room : Room}
  {now : OffsetDateTime} {participants : List Participant} {past newer : Log}

/-! ### The calls of closes -/

/-- A call that closes make. -/
def Call.ofClose (k : Call) : Prop := ∃ id past, ClosingCall id past k

theorem Call.ofClose.keepsRoster {k : Call} (h : k.ofClose) : k.keepsRoster = true := by
  obtain ⟨id, past, h⟩ := h
  cases k
  case createParticipant => cases h
  case pruneStaleParticipants => cases h
  all_goals rfl

/-- A call of a close lets no room in. -/
theorem Call.ofClose.opened {k : Call} (h : k.ofClose) (r : k.Reply) : k.opened r = none := by
  obtain ⟨id, past, h⟩ := h
  cases k
  case createRoom => cases h
  all_goals rfl

/-- A call of a close takes a room to closed, if anywhere. -/
theorem Call.ofClose.nextState {k : Call} (h : k.ofClose) (r : k.Reply) (id : String)
    (state : RoomState) : k.nextState r id state = state ∨ k.nextState r id state = .closed := by
  obtain ⟨id', past, h⟩ := h
  cases k
  case updateRoomState =>
    obtain ⟨-, rfl⟩ := h
    cases r <;> simp only [Call.nextState]
    · exact .inl trivial
    · split
      · exact .inr rfl
      · exact .inl rfl
  all_goals exact .inl rfl

/-- A call of a close takes no vote away, but for clearing those of a room. -/
theorem Call.ofClose.dropsClose {k : Call} (h : k.ofClose) (hclear : k ≠ .clearCloseVotes id) :
    k.dropsClose id handle = false := by
  obtain ⟨id', past, h⟩ := h
  cases k
  case setCloseVote handle' at_ =>
    cases at_ with
    | none => cases h
    | some now => rfl
  case clearCloseVotes id' =>
    refine decide_eq_false fun heq => hclear ?_
    rw [heq]
  all_goals rfl

/-- A call of a close that polls is its own poll. -/
theorem Call.ofClose.polls {k : Call} (h : k.ofClose) (hpolls : k.polls handle = true) :
    ∃ now, k = .touchLastPoll handle now := by
  obtain ⟨id, past, h⟩ := h
  cases k
  case touchLastPoll handle' now =>
    obtain rfl : handle = handle' := by simpa [Call.polls] using hpolls
    exact ⟨now, rfl⟩
  case tryExtend => cases h
  all_goals cases hpolls

/-! ### One call -/

/-- The call takes the room to closed. -/
def closesRoom (id : String) (e : Step) : Bool :=
  (stateChange id e).map Prod.snd = some .closed

/-- What a call of a close makes of a room: nothing, or it closes it with one event. -/
def Trails (id : String) (closed : Bool) (s s' : Store) : Prop :=
  if closed then
    s'.stateOf id = some .closed ∧ ∃ ev : Event, ev.toState = some .closed ∧
      s'.db.listEvents id = s.db.listEvents id ++ [ev]
  else s'.stateOf id = s.stateOf id ∧ s'.db.listEvents id = s.db.listEvents id

theorem Recorded.trails (h : Recorded app c e tr) (hcall : e.call.ofClose) (id : String) :
    Trails id (closesRoom id e) e.before e.after ∧
      (closesRoom id e = true → e.before.stateOf id ≠ some .closed) := by
  obtain ⟨sess, hexec⟩ := h.exec
  obtain ⟨t, -, hd⟩ := h.disciplined
  have hwf := h.wellFormed_before
  cases hstate : e.before.stateOf id with
  | none =>
    -- no room, and none is let in
    have hno : e.before.db.hasRoom id = false := by
      refine Bool.eq_false_iff.mpr fun hroom => ?_
      obtain ⟨row, hrow, rfl⟩ := Db.hasRoom_iff.mp hroom
      rw [stateOf_of_mem hwf hrow] at hstate
      cases hstate
    have hno' : e.after.db.hasRoom id = false := by
      refine Bool.eq_false_iff.mpr fun hroom => ?_
      obtain ⟨row, hrow, rfl⟩ := Db.hasRoom_iff.mp hroom
      rcases h.effect.mem_rooms.mp hrow with ⟨row', hrow', rfl⟩ | hopened
      · rw [Call.onRoom_id, Db.hasRoom_iff.mpr ⟨row', hrow', rfl⟩] at hno
        cases hno
      · rw [hcall.opened] at hopened
        cases hopened
    have hnot : closesRoom id e = false := by
      rw [closesRoom, stateChange_of_fresh hno]
      rfl
    rw [hnot]
    refine ⟨⟨(stateOf_eq_none hno').trans hstate.symm, ?_⟩, fun htrue => absurd htrue Bool.false_ne_true⟩
    rw [h.effect.listEvents]
    cases hev : e.call.logged e.before.db e.reply with
    | none => simp
    | some ev =>
      obtain ⟨-, id', _, _, _, _, -, -, hroom, -, -, -, row, hrow, hid', -⟩ := logged_spec hexec hev
      have hne : ev.roomId ≠ id := by
        rintro rfl
        rw [Db.hasRoom_iff.mpr ⟨row, hrow, hid'.trans hroom.symm⟩] at hno
        cases hno
      simp [hne]
  | some state =>
    have hafter := h.stateOf_after hstate
    obtain ⟨row, hrow, rfl⟩ := Option.map_eq_some_iff.mp hstate
    obtain ⟨hmem, rfl⟩ := Db.mem_of_roomRow hrow
    rcases audited_call hwf hexec hd hmem with ⟨hsame, hother⟩ | ⟨ev, hev, hid, haudit⟩
    · have hnot : closesRoom row.id e = false := by
        simp [closesRoom, stateChange, hstate, hafter, hsame]
      rw [hnot]
      refine ⟨⟨by rw [hafter, hsame, hstate], ?_⟩, fun htrue => absurd htrue Bool.false_ne_true⟩
      rw [h.effect.listEvents]
      cases hlog : e.call.logged e.before.db e.reply with
      | none => simp
      | some ev => simp [hother ev hlog]
    · obtain ⟨-, hto, -, hne, -⟩ := haudit
      have hnext : e.call.nextState e.reply row.id row.state = .closed :=
        (hcall.nextState _ _ _).resolve_left hne.symm
      rw [hnext] at hafter hto hne
      have hclosed : closesRoom row.id e = true := by
        simp [closesRoom, stateChange, hstate, hafter, hne]
      rw [hclosed]
      refine ⟨⟨hafter, ev, hto, ?_⟩, fun _ => by simpa using hne⟩
      rw [h.effect.listEvents, hev]
      simp [hid]

/-! ### The run -/

/-- What the moves of a run of closes are. -/
structure CloseRun (app : AppState) (c₀ c : Daemon) (new : List Step) : Prop where
  start : Reachable app c₀
  run : (daemon app).Run c₀ c
  newcomers : System.Newcomers (·.consensusClose = true) c₀ c new

namespace CloseRun

theorem reach (h : CloseRun app c₀ c new) : Reachable app c := h.start.run h.run

theorem hist (h : CloseRun app c₀ c new) : History app c₀.shared new c.shared :=
  h.run.history_of_eq h.newcomers.trace

/-- The run up to one of its calls is a history. -/
theorem before (h : CloseRun app c₀ c new) (hsuf : e :: older <:+ new) :
    History app c₀.shared older e.before := by
  obtain ⟨newer, rfl⟩ := hsuf
  exact (System.History.split h.hist).1

theorem call (h : CloseRun app c₀ c new) (hsuf : e :: older <:+ new) :
    ∃ t id r, c.threads[e.tid]? = some t ∧ t.req = .closeRoom id r ∧ r.force = false ∧
      ClosingCall id (pastOf e.tid older) e.call := by
  obtain ⟨t, ht, hclose, hd⟩ := h.newcomers.event h.start.orderly h.reach.closing hsuf
  unfold Request.consensusClose at hclose
  split at hclose
  · rename_i id r hreq
    rw [Bool.not_eq_true'] at hclose
    exact ⟨t, id, r, ht, hreq, hclose, hd id r hreq⟩
  · cases hclose

theorem ofClose (h : CloseRun app c₀ c new) (he : e ∈ new) : e.call.ofClose := by
  obtain ⟨newer, older, hsplit⟩ := List.append_of_mem he
  obtain ⟨-, id, -, -, -, -, hcall⟩ := h.call ⟨newer, hsplit.symm⟩
  exact ⟨id, _, hcall⟩

theorem keepsRoster (h : CloseRun app c₀ c new) (hsub : tr ⊆ new) :
    ∀ e ∈ tr, e.call.keepsRoster = true := fun _ he => (h.ofClose (hsub he)).keepsRoster

/-- **What a run of closes makes of a room**, up to any of its calls: nothing, or it
has closed it, with one event. -/
theorem trail (h : CloseRun app c₀ c new) (hist : History app c₀.shared tr s) (hsuf : tr <:+ new)
    (id : String) : Trails id (tr.any (closesRoom id)) c₀.shared s := by
  refine h.start.induction_upto h.run h.newcomers.trace
    (P := fun tr s => Trails id (tr.any (closesRoom id)) c₀.shared s) ⟨rfl, rfl⟩ ?_ ?_ hist hsuf
  · intro tr s₁ s₂ hdb _ _ _ htrail
    unfold Trails Store.stateOf at *
    rwa [hdb]
  · intro e tr hsuf hrec htrail
    obtain ⟨hone, hfresh⟩ := hrec.trails (h.ofClose (hsuf.mem List.mem_cons_self)) id
    rw [List.any_cons]
    cases hcloses : closesRoom id e with
    | true =>
      rw [hcloses] at hone
      cases hbefore : tr.any (closesRoom id) with
      | true =>
        -- a closed room is not closed again
        rw [hbefore] at htrail
        exact absurd htrail.1 (hfresh hcloses)
      | false =>
        rw [hbefore] at htrail
        obtain ⟨hclosed, ev, hto, hevents⟩ := hone
        exact ⟨hclosed, ev, hto, by rw [hevents, htrail.2]⟩
    | false =>
      rw [hcloses] at hone
      obtain ⟨hsame, hevents⟩ := hone
      rw [Bool.false_or]
      unfold Trails at *
      rwa [hsame, hevents]

/-- Until it is closed, a room is as it was. -/
theorem stateOf_open (h : CloseRun app c₀ c new) (hist : History app c₀.shared tr s)
    (hsuf : tr <:+ new) (hopen : tr.any (closesRoom id) = false) :
    s.stateOf id = c₀.shared.stateOf id := by
  have htrail := h.trail hist hsuf id
  rw [hopen] at htrail
  exact htrail.1

/-- As long as a room is open, its votes are not cleared. -/
theorem not_clear (h : CloseRun app c₀ c new) (hsuf : tr <:+ new)
    (hstate : c₀.shared.stateOf id = some state) (hterm : state.terminal = false)
    (hopen : tr.any (closesRoom id) = false) : ∀ e ∈ tr, e.call ≠ .clearCloseVotes id := by
  intro e he hclear
  obtain ⟨newer, older, rfl⟩ := List.append_of_mem he
  have hsuf' : e :: older <:+ new := (List.suffix_append newer _).trans hsuf
  have hended := (h.reach.recorded (h.newcomers.suffix hsuf')).ended_of_clear h.reach hclear
  rw [List.any_append, List.any_cons, Bool.or_eq_false_iff, Bool.or_eq_false_iff] at hopen
  rw [Store.ended, h.stateOf_open (h.before hsuf') ((List.suffix_cons e _).trans hsuf') hopen.2.2,
    hstate, Option.any_some, hterm] at hended
  cases hended

/-- **A vote that is cast stands**, as long as no votes of its room are cleared. -/
theorem vote_stands (h : CloseRun app c₀ c new) {v : Step} {newer : List Step}
    (hsub : newer ⊆ new) (hist : History app v.after newer s) (hwf : v.after.db.WellFormed)
    (hclear : ∀ e ∈ newer, e.call ≠ .clearCloseVotes p.roomId) (hp : p ∈ v.after.db.participants)
    (hvote : p.wantsCloseAt.isSome = true) :
    ∃ q ∈ s.db.participants, q.key = p.key ∧ q.wantsCloseAt.isSome = true := by
  refine hist.row_property hwf (h.keepsRoster hsub) (R := fun q => q.wantsCloseAt.isSome = true) ?_
    hp hvote
  intro e he q hkey hq
  have hroom : q.roomId = p.roomId := Participant.roomId_of_key hkey
  by_cases hcast : e.call.castsClose q.handle = true
  · exact castsClose_spec hcast
  · rw [Bool.not_eq_true] at hcast
    rw [wantsCloseAt_kept hcast]
    · exact hq
    · exact (h.ofClose (hsub he)).dropsClose (hroom ▸ hclear e he)

end CloseRun

/-! ### Voters -/

theorem Polled.notTerminal (h : Polled id inst room p now participants past) :
    room.state.terminal = false := by
  cases h
  assumption

/-- Whom a name has found, and what it stood for when the run began. -/
theorem CloseRun.voter (h : CloseRun app c₀ c new)
    (hpolled : Polled id inst room p now participants past)
    (hlog : pastOf i new = newer ++ past) : ∃ q, c₀.shared.db.resolve id inst = some q ∧
      q ∈ c₀.shared.db.participants ∧ q.key = p.key ∧ p.roomId = id := by
  cases hpolled with
  | @mk found hterm hfound =>
    have hmem : found ⊆ pastOf i new := by
      rw [hlog]
      intro x hx
      simp [hx]
    obtain ⟨q, hres, hkey⟩ := Option.map_eq_some_iff.mp (h.hist.resolve_eq h.start.wellFormed
      (h.keepsRoster (List.Subset.refl _)) hfound hmem)
    obtain ⟨hq, hroom, -⟩ := Db.resolve_spec hres
    exact ⟨q, hres, hq, hkey, (Participant.roomId_of_key hkey).symm.trans hroom⟩

/-- The vote that a close cast in an open room is there when it counts. -/
theorem CloseRun.own_vote (h : CloseRun app c₀ c new) (hsuf : e :: tr <:+ new)
    (hvoted : ⟨.setCloseVote p.handle (some now), ()⟩ ∈ pastOf i tr)
    (hrow : ∃ q ∈ c₀.shared.db.participants, q.key = p.key)
    (hclear : ∀ e ∈ tr, e.call ≠ .clearCloseVotes p.roomId) :
    ∃ q ∈ e.before.db.participants, q.key = p.key ∧ q.wantsCloseAt.isSome = true := by
  have hwf := h.start.wellFormed
  have hsub : tr ⊆ new := ((List.suffix_cons e tr).trans hsuf).subset
  obtain ⟨before, after, sess, late, old, rfl, hexec, hbefore, hafter⟩ :=
    (h.before hsuf).seen hvoted
  obtain ⟨q₀, hq₀, hkey₀⟩ := hrow
  obtain ⟨q, hq, hkey⟩ := hbefore.key_after hwf
    (h.keepsRoster fun _ he => hsub (by simp [he])) hq₀
  rw [hkey₀] at hkey
  -- the vote sets it, and nothing clears it
  have hcasts : (Call.setCloseVote p.handle (some now)).castsClose q.handle = true := by
    rw [Participant.handle_of_key hkey]
    exact decide_eq_true rfl
  have hmem :
      (Call.setCloseVote p.handle (some now)).onParticipant () q ∈ after.db.participants := by
    rw [(effect_of_exec hexec).roster rfl]
    exact List.mem_map_of_mem hq
  have hkey' := Call.key_onParticipant (.setCloseVote p.handle (some now)) () q
  have hroom : q.roomId = p.roomId := Participant.roomId_of_key hkey
  obtain ⟨q', hq', hsame, hvote⟩ := h.vote_stands
    (v := ⟨i, .setCloseVote p.handle (some now), (), before, after⟩)
    (fun _ he => hsub (by simp [he])) hafter ((hbefore.wellFormed hwf).exec hexec)
    (fun e he => by
      rw [Participant.roomId_of_key hkey', hroom]
      exact hclear e (by simp [he]))
    hmem (castsClose_spec hcasts)
  exact ⟨q', hq', hsame.trans (hkey'.trans hkey), hvote⟩

end ChatBotChat
