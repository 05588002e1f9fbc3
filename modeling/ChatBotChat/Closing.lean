/-
What a close does, call by call.

A close without force reads the room and finds its caller, polls and votes, and
counts (`Polled`); then it reports a proposal, or goes on to change the state
(`CloseAnswered`).  A close clears the votes of a room only once its log shows
that the room has ended (`Concluded`), and a room that has ended stays so, so
that a vote in an open room is never cleared (`Recorded.open_of_clear`).
-/
import ChatBotChat.Interleave.Newcomers
import ChatBotChat.Consensus
import ChatBotChat.Roster

namespace ChatBotChat

open Interleave Lifecycle

variable {app : AppState} {past older : Log} {id inst handle : String} {room : Room}
  {p : Participant} {now : OffsetDateTime} {participants : List Participant}

/-! ### The log of a close -/

/-- The log of a close without force up to its count. -/
inductive Polled (id inst : String) (room : Room) (p : Participant) (now : OffsetDateTime)
    (participants : List Participant) : Log → Prop
  | mk {found : Log} : room.state.terminal = false → Identified id inst p found →
      Polled id inst room p now participants (⟨.listParticipants id, participants⟩ ::
        ⟨.setCloseVote p.handle (some now), ()⟩ :: ⟨.touchLastPoll p.handle now, ()⟩ ::
        ⟨.nowUtc, now⟩ :: (found ++ [⟨.getRoom id, some room⟩]))

/-- The response to a proposal with these counts. -/
def proposedResponse (state : RoomState) (counts : ℕ × ℕ) : LifecycleResponse :=
  closeResponse "close_proposed" state (some (UInt32.ofNat counts.1, UInt32.ofNat counts.2))

def closedResponse : LifecycleResponse := closeResponse "closed" .closed none

/-- How a close without force answers. -/
inductive CloseAnswered (id inst : String) : Log → Except ApiError LifecycleResponse → Prop
  | missing : CloseAnswered id inst [⟨.getRoom id, none⟩] (.error .notFound)
  | terminal {room : Room} : room.state.terminal = true →
      CloseAnswered id inst [⟨.getRoom id, some room⟩] (.error (cannotClose room.state))
  | stranger {room : Room} :
      CloseAnswered id inst (ChatBotChat.stranger id inst ++ [⟨.getRoom id, some room⟩])
        (.error NOT_A_PARTICIPANT)
  | proposed {room : Room} {p : Participant} {now : OffsetDateTime}
      {participants : List Participant} {past : Log} :
      Polled id inst room p now participants past →
      (countVotes participants now room.config.closeQuorum).1 <
        (countVotes participants now room.config.closeQuorum).2 →
      CloseAnswered id inst (⟨.notify id, ()⟩ :: past)
        (.ok (proposedResponse room.state (countVotes participants now room.config.closeQuorum)))
  | closed {room : Room} {p : Participant} {now : OffsetDateTime}
      {participants : List Participant} {past : Log} :
      Polled id inst room p now participants past →
      CloseAnswered id inst (⟨.notify id, ()⟩ :: ⟨.clearCloseVotes id, ()⟩ ::
        ⟨.updateRoomState id room.state .closed now none, true⟩ :: past) (.ok closedResponse)
  | overtaken {room cur : Room} {p : Participant} {now : OffsetDateTime}
      {participants : List Participant} {past : Log} :
      Polled id inst room p now participants past → cur.state.terminal = true →
      CloseAnswered id inst (⟨.notify id, ()⟩ :: ⟨.clearCloseVotes id, ()⟩ ::
        ⟨.getRoom id, some cur⟩ :: ⟨.updateRoomState id room.state .closed now none, false⟩ :: past)
        (.ok closedResponse)
  | vanished {room : Room} {p : Participant} {now : OffsetDateTime}
      {participants : List Participant} {past : Log} :
      Polled id inst room p now participants past →
      CloseAnswered id inst (⟨.getRoom id, none⟩ ::
        ⟨.updateRoomState id room.state .closed now none, false⟩ :: past) (.error .notFound)
  | contested {room cur : Room} {p : Participant} {now : OffsetDateTime}
      {participants : List Participant} {past : Log} :
      Polled id inst room p now participants past → cur.state.terminal = false →
      CloseAnswered id inst (⟨.getRoom id, some cur⟩ ::
        ⟨.updateRoomState id room.state .closed now none, false⟩ :: past)
        (.error CHANGED_CONCURRENTLY)

/-- The entry of a log shows that the room has ended. -/
def showsEnd (id : String) : Sigma Call.Reply → Bool
  | ⟨.getRoom id', room⟩ => id = id' && room.any (·.state.terminal)
  | ⟨.updateRoomState id' _ to_ _ _, changed⟩ => id = id' && to_.terminal && changed
  | _ => false

/-- The log shows that the room has ended. -/
def Concluded (id : String) (past : Log) : Prop := ∃ x ∈ past, showsEnd id x = true

/-- The calls a close makes. -/
def ClosingCall (id : String) (past : Log) : Call → Prop
  | .updateRoomState id' _ to_ _ _ => id' = id ∧ to_ = .closed
  | .setCloseVote _ at_ => at_.isSome = true
  | .clearCloseVotes id' => id' = id ∧ Concluded id past
  | .touchLastPoll _ _ => True
  | k => k.keepsDb = true

/-- The discipline of a close, as one of all requests. -/
def CloseDiscipline (req : Request) (past : Log) (k : Call) : Prop :=
  ∀ id r, req = .closeRoom id r → ClosingCall id past k

/-- What a close without force has done when it answers, as a conclusion of all
requests. -/
def CloseConclusion (req : Request) (past : Log) (a : Outcome) : Prop :=
  ∀ id r, req = .closeRoom id r → r.force = false →
    ∃ answer, a = answer.map .closed ∧ CloseAnswered id (effectiveInstance r.toCaller) past answer

theorem transition_close {state : RoomState} (h : state.terminal = false) :
    transition state .close = some .closed := by
  cases state <;> first | rfl | cases h

/-- Clearing the votes and waking the waiters of a room that has ended. -/
theorem clearing_closing {Q : Log → Except ApiError Unit → Prop} (hended : Concluded id past)
    (hQ : Q (⟨.notify id, ()⟩ :: ⟨.clearCloseVotes id, ()⟩ :: past) (.ok ())) :
    (do
      perform (.clearCloseVotes id)
      perform (.notify id)
      return .ok () : Task (Except ApiError Unit)).Upholds (ClosingCall id) past Q :=
  .step ⟨rfl, hended⟩ fun _ => .step rfl fun _ => hQ

theorem closeNow_closing {from_ : RoomState} {Q : Log → Except ApiError Unit → Prop}
    (hfrom : from_.terminal = false)
    (hclosed : Q (⟨.notify id, ()⟩ :: ⟨.clearCloseVotes id, ()⟩ ::
      ⟨.updateRoomState id from_ .closed now none, true⟩ :: past) (.ok ()))
    (hovertaken : ∀ cur : Room, cur.state.terminal = true → Q (⟨.notify id, ()⟩ ::
      ⟨.clearCloseVotes id, ()⟩ :: ⟨.getRoom id, some cur⟩ ::
      ⟨.updateRoomState id from_ .closed now none, false⟩ :: past) (.ok ()))
    (hvanished : Q (⟨.getRoom id, none⟩ ::
      ⟨.updateRoomState id from_ .closed now none, false⟩ :: past) (.error .notFound))
    (hcontested : ∀ cur : Room, cur.state.terminal = false → Q (⟨.getRoom id, some cur⟩ ::
      ⟨.updateRoomState id from_ .closed now none, false⟩ :: past) (.error CHANGED_CONCURRENTLY)) :
    (closeNow id from_ now).Upholds (ClosingCall id) past Q := by
  simp only [closeNow, transition_close hfrom]
  refine .step ⟨rfl, rfl⟩ fun changed => ?_
  cases changed with
  | true =>
    exact clearing_closing ⟨_, List.mem_cons_self, by simp [showsEnd, RoomState.terminal]⟩ hclosed
  | false =>
    refine .step rfl fun cur => ?_
    cases cur with
    | none => exact hvanished
    | some cur =>
      by_cases hterm : cur.state.terminal = true
      · simp only [hterm, ↓reduceIte]
        exact clearing_closing ⟨_, List.mem_cons_self, by simp [showsEnd, hterm]⟩
          (hovertaken cur hterm)
      · rw [Bool.not_eq_true] at hterm
        simp only [hterm]
        exact hcontested cur hterm

/-- **Every close keeps to its calls**, and one without force answers as it did. -/
theorem closeRoom_closing (id : String) (r : LifecycleRequest) :
    (closeRoom id r).Upholds (ClosingCall id) [] fun past a =>
      r.force = false → CloseAnswered id (effectiveInstance r.toCaller) past a := by
  refine .step rfl fun room => ?_
  cases room with
  | none => exact fun _ => .missing
  | some room =>
    by_cases hterm : room.state.terminal = true
    · simp only [hterm, ↓reduceIte]
      exact fun _ => .terminal hterm
    · rw [Bool.not_eq_true] at hterm
      simp only [hterm]
      refine .bind (resolveParticipant_identified (fun _ => ⟨rfl, rfl⟩)
        (fun _ => .stranger) fun found p hfound => ?_)
      refine .step rfl fun now => ?_
      by_cases hforce : r.force = true
      · simp only [hforce, ↓reduceIte]
        exact .bind (closeNow_closing hterm nofun (fun _ _ => nofun) nofun fun _ _ => nofun)
      · simp only [hforce]
        refine .step trivial fun _ => .step rfl fun _ => .step rfl fun participants => ?_
        have hpolled : Polled id (effectiveInstance r.toCaller) room p now participants _ :=
          .mk hterm hfound
        split
        · exact .bind (closeNow_closing hterm (fun _ => .closed hpolled)
            (fun cur hcur _ => .overtaken hpolled hcur) (fun _ => .vanished hpolled)
            fun cur hcur _ => .contested hpolled hcur)
        · rename_i hvotes
          exact .step rfl fun _ _ => .proposed hpolled (Nat.lt_of_not_le hvotes)

theorem serve_closing (app : AppState) (req : Request) :
    (serve app req).Upholds (CloseDiscipline req) [] (CloseConclusion req) := by
  by_cases hclose : ∃ id r, req = .closeRoom id r
  · obtain ⟨id, r, rfl⟩ := hclose
    have hserve : (serve app (.closeRoom id r)).Upholds (ClosingCall id) [] fun past a =>
        r.force = false → ∃ answer, a = answer.map .closed ∧
          CloseAnswered id (effectiveInstance r.toCaller) past answer :=
      upholds_answering.mpr
        ((closeRoom_closing id r).mono fun past a ha hforce => ⟨a, rfl, ha hforce⟩)
    refine hserve.imp ?_ ?_
    · rintro past k hk id' r' heq
      cases heq
      exact hk
    · rintro past a ha id' r' heq
      cases heq
      exact ha
  · refine Prog.upholds_of_forall ?_ ?_
    · exact fun past k id r heq => absurd ⟨id, r, heq⟩ hclose
    · exact fun past a id r heq => absurd ⟨id, r, heq⟩ hclose

/-- **Every close of a reachable daemon** keeps to its calls and answers as it did. -/
theorem Reachable.closing {c : Daemon} (h : Reachable app c) :
    System.Upheld CloseDiscipline CloseConclusion c := by
  obtain ⟨utc, instant, hrun⟩ := h
  have hbody : ∀ r, ((daemon app).body r).Upholds (CloseDiscipline r) [] (CloseConclusion r) :=
    serve_closing app
  exact hrun.upheld hbody

/-! ### Rooms that have ended -/

section Ended

variable {c : Daemon} {e : Step} {tr : List Step}

/-- The room has ended. -/
def Store.ended (s : Store) (id : String) : Bool := (s.stateOf id).any RoomState.terminal

/-- A room that has ended does not open again. -/
theorem Recorded.ended_after (h : Recorded app c e tr) (hended : e.before.ended id = true) :
    e.after.ended id = true := by
  obtain ⟨state, hstate, hterm⟩ := (Option.any_eq_true _ _).mp hended
  rw [Store.ended, h.stateOf_after hstate, Option.any_some]
  obtain ⟨row, hrow, rfl⟩ := Option.map_eq_some_iff.mp hstate
  obtain ⟨hmem, rfl⟩ := Db.mem_of_roomRow hrow
  obtain ⟨t, -, hd⟩ := h.disciplined
  obtain ⟨sess, hexec⟩ := h.exec
  rcases audited_call h.wellFormed_before hexec hd hmem with ⟨hsame, -⟩ | ⟨ev, -, -, -, -, hedge, -⟩
  · rwa [hsame]
  · generalize e.call.nextState e.reply row.id row.state = next at hedge
    cases hrowst : row.state <;> rw [hrowst] at hedge hterm <;> try cases hterm
    · rw [edge_closed hedge]
      rfl
    · exact absurd hedge not_edge_archived

/-- The room that a log shows to have ended has ended. -/
def EndsShown (tr : List Step) (s : Store) : Prop :=
  ∀ e ∈ tr, ∀ id, showsEnd id ⟨e.call, e.reply⟩ = true → s.ended id = true

/-- A call that shows it leaves a room that has ended. -/
theorem Recorded.ended_of_shown (h : Recorded app c e tr)
    (hshown : showsEnd id ⟨e.call, e.reply⟩ = true) : e.after.ended id = true := by
  obtain ⟨sess, hexec⟩ := h.exec
  have hwf := h.wellFormed_before
  have hafter : ∀ state, e.before.stateOf id = some state →
      e.after.stateOf id = some (e.call.nextState e.reply id state) := fun _ => h.stateOf_after
  obtain ⟨tid, call, reply, before, after⟩ := e
  cases call
  case getRoom id' =>
    simp only [showsEnd, Bool.and_eq_true, decide_eq_true_eq] at hshown
    obtain ⟨rfl, hroom⟩ := hshown
    obtain ⟨room, rfl, hterm⟩ := (Option.any_eq_true _ _).mp hroom
    obtain ⟨hstate, hsame⟩ := stateOf_of_getRoom hexec
    have hafter : after = before := hsame
    change after.ended id = true
    rw [hafter, Store.ended, hstate, Option.any_some]
    exact hterm
  case updateRoomState id' from_ to_ now detail =>
    simp only [showsEnd, Bool.and_eq_true, decide_eq_true_eq] at hshown
    obtain ⟨⟨rfl, hterm⟩, hchanged⟩ := hshown
    have hstate := hafter from_ ((changed_iff hwf hexec).mp hchanged)
    obtain rfl : reply = true := hchanged
    rw [Store.ended, hstate, Option.any_some]
    simpa [Call.nextState] using hterm
  all_goals cases hshown

theorem Reachable.endsShown (h : Reachable app c) : Throughout c EndsShown := by
  refine h.induction ?_ ?_ ?_
  · intro s _
    simp [EndsShown]
  · intro tr s₁ s₂ hdb _ _ _ hshown e he id hend
    rw [Store.ended, Store.stateOf, hdb]
    exact hshown e he id hend
  · intro e tr hrec hshown e' he' id hend
    rcases List.mem_cons.mp he' with rfl | he'
    · exact hrec.ended_of_shown hend
    · exact hrec.ended_after (hshown e' he' id hend)

/-- **Votes are cleared only where a room has ended.** -/
theorem Recorded.ended_of_clear (h : Recorded app c e tr) (hreach : Reachable app c)
    (hclear : e.call = .clearCloseVotes id) : e.before.ended id = true := by
  obtain ⟨t, ht, hd⟩ := h.disciplined
  rw [hclear] at hd
  obtain ⟨r, hreq⟩ := hd
  obtain ⟨t', ht', hd'⟩ := hreach.closing.event h.suffix
  obtain rfl := Option.some_inj.mp (ht.symm.trans ht')
  have hcall := hd' id r hreq
  rw [hclear] at hcall
  obtain ⟨-, x, hx, hshows⟩ := hcall
  obtain ⟨e', he', -, rfl⟩ := mem_pastOf.mp hx
  exact hreach.endsShown.before h.suffix e' he' id hshows

end Ended

end ChatBotChat
