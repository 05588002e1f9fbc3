/-
Refusals.

A handler that refuses a request says why: the room is not there, its state does not
allow it, it is full, the caller or the recipient is not in it, the request is malformed,
or others were faster.  `Refused` is what the log of the request shows for each of these
errors.

* `refusals_justified` — every refusal is true of the daemon: of the rows that were there
  when the request came, or of what it met at moments since.
-/
import ChatBotChat.Guards
import ChatBotChat.Opening

namespace ChatBotChat

open Interleave Lifecycle

variable {app : AppState} {c c₀ : Daemon} {new : List Step} {req : Request} {past past' : Log}
  {id inst : String} {e : ApiError} {i : ℕ} {room : Room} {s s' : Store}

/-! ### Errors and their grounds -/

/-- The error of a request that is wrong in itself. -/
def Request.malformed : Request → Option ApiError
  | .openRoom r =>
    match openConfig r with
    | .error e => some e
    | .ok _ => none
  | .signalRoom _ r =>
    match signalFields r with
    | .error e => some e
    | .ok _ => none
  | _ => none

/-- The signal is one that pauses its room. -/
def SignalRequest.pauses (r : SignalRequest) : Bool :=
  match signalFields r with
  | .ok (.blockerRealWork, _, _) => true
  | _ => false

/-- The error of a request whose room is in a state that does not allow it. -/
def Request.barred (state : RoomState) : Request → Option ApiError
  | .sendMessage _ _ =>
    if state.halted then
      some (.conflict ("room is " ++ state.asStr ++ "; it is not accepting messages"))
    else none
  | .signalRoom _ r =>
    if state.halted then
      some (.conflict ("room is " ++ state.asStr ++ "; it is not accepting messages"))
    else if r.pauses = true ∧ transition state .pause = none then
      some (.conflict ("cannot Pause from " ++ state.asStr))
    else none
  | .closeRoom _ _ => if state.terminal then some (cannotClose state) else none
  | .extendRoom _ _ =>
    if state.halted then some (.conflict ("cannot extend from " ++ state.asStr)) else none
  | .pauseRoom _ _ =>
    if transition state .pause = none then some (.conflict ("cannot Pause from " ++ state.asStr))
    else none
  | .wakeRoom _ _ =>
    if transition state .wake = none then some (.conflict ("cannot Wake from " ++ state.asStr))
    else none
  | _ => none

def UNKNOWN_RECIPIENT : ApiError := .badRequest "recipient is not a participant of this room"

/-- The insert met a key that was taken. -/
def Call.collides : (k : Call) → k.Reply → Bool
  | .createRoom _, .uniqueViolation => true
  | .createParticipant _, .uniqueViolation => true
  | _, _ => false

/-- How many inserts of a log met a key that was taken. -/
def collisions (past : Log) : ℕ := past.countP fun x => x.1.collides x.2

theorem collisions_cons {x : Sigma Call.Reply} :
    collisions (x :: past) = collisions past + if x.1.collides x.2 then 1 else 0 := List.countP_cons

/-- What the log of a request shows for the error that it is answered with. -/
inductive Refused (req : Request) (past : Log) : ApiError → Prop
  | noRoom {id : String} : req.room = some id → ⟨.getRoom id, none⟩ ∈ past →
      Refused req past .notFound
  | malformed {e : ApiError} : req.malformed = some e → Refused req past e
  | barred {id : String} {room : Room} {e : ApiError} : req.room = some id →
      ⟨.getRoom id, some room⟩ ∈ past → req.barred room.state = some e → Refused req past e
  | stranger {id inst : String} : req.ComesAs id inst → stranger id inst ⊆ past →
      Refused req past NOT_A_PARTICIPANT
  | unknownRecipient {id to_ : String} {r : SendMessageRequest} {roster : List Participant} :
      req = .sendMessage id r → r.to_ = some to_ → ⟨.listParticipants id, roster⟩ ∈ past →
      (∀ p ∈ roster, p.handle ≠ to_) → Refused req past UNKNOWN_RECIPIENT
  | full {id sender body : String} {recipient : Option String} {now : OffsetDateTime}
      {fromHuman : Bool} {room : Room} : req.room = some id → ⟨.getRoom id, some room⟩ ∈ past →
      ⟨.createMessageCapped id sender recipient body now fromHuman room.config.hardCap.toNat,
        none⟩ ∈ past → Refused req past (hardCapReached room.config.hardCap)
  | overtaken {id : String} {room : Room} {to_ : RoomState} {now : OffsetDateTime}
      {detail : Option String} {older : Log} : req.room = some id →
      ⟨.updateRoomState id room.state to_ now detail, false⟩ :: older <:+ past →
      ⟨.getRoom id, some room⟩ ∈ older → Refused req past CHANGED_CONCURRENTLY
  | exhausted : MAX_ATTEMPTS ≤ collisions past → Refused req past uniqueError

/-- A handler's result is no error, or one that the log shows the grounds of. -/
abbrev Refuses (req : Request) {α : Type} (past : Log) (result : Except ApiError α) : Prop :=
  ∀ e, result = .error e → Refused req past e

theorem refuses_ok {α : Type} {a : α} : Refuses req past (.ok a) := nofun

theorem refuses_error {α : Type} (h : Refused req past e) :
    Refuses req past (.error e : Except ApiError α) := by
  rintro _ ⟨⟩
  exact h

theorem Refuses.map {α β : Type} {f : α → β} {result : Except ApiError α}
    (h : Refuses req past result) : Refuses req past (result.map f) := by
  cases result with
  | error e => exact refuses_error (h e rfl)
  | ok a => exact refuses_ok

theorem refuses_noRoom {α : Type} (hroom : req.room = some id) (hread : ⟨.getRoom id, none⟩ ∈ past) :
    Refuses req past (.error .notFound : Except ApiError α) := refuses_error (.noRoom hroom hread)

theorem refuses_stranger {α : Type} (hcomes : req.ComesAs id inst) (hsub : stranger id inst ⊆ past) :
    Refuses req past (.error NOT_A_PARTICIPANT : Except ApiError α) :=
  refuses_error (.stranger hcomes hsub)

/-! ### Handlers -/

/-- A discipline that asks for nothing. -/
abbrev Free (_ : Log) (_ : Call) : Prop := True

/-- The rule of looking up the caller, where it is enough that logs grow. -/
theorem resolveParticipant_grows {α : Type} {f : Option Participant → Task α} {Q : Log → α → Prop}
    (hnone : (f none).Upholds Free (stranger id inst ++ past) Q)
    (hsome : ∀ p past', past <:+ past' → (f (some p)).Upholds Free past' Q) :
    (resolveParticipant id inst >>= f).Upholds Free past Q :=
  .bind (resolveParticipant_identified (fun _ => ⟨trivial, trivial⟩) hnone
    fun _ p _ => hsome p _ (List.suffix_append _ _))

theorem Attempts.collisions {r : OpenRoomRequest} {now : OffsetDateTime} {config : RoomConfig} {n : ℕ}
    {log : Log} (h : Attempts r now config n log) : collisions log = n := by
  induction h with
  | start => rfl
  | taken _ ih => simp [collisions_cons, Call.collides, ih]

theorem openRoom_refuses (r : OpenRoomRequest) :
    (openRoom r).Upholds Free [] (Refuses (.openRoom r)) := by
  refine (openRoom_opening r).imp (fun _ _ _ => trivial) ?_
  rintro past result hanswered e rfl
  rcases hanswered with hconfig | ⟨rfl, now, config, hattempts⟩
  · exact .malformed (by rw [Request.malformed, hconfig])
  · exact .exhausted hattempts.collisions.ge

theorem joinAttempt_refuses {r : JoinRoomRequest} {startSeq tried : ℕ} {nickname : Option String}
    {ident : JoinIdentity} (htried : tried ≤ collisions past) :
    (joinAttempt id room startSeq nickname ident tried).Upholds Free past fun past' x =>
      match x with
      | .inl tried' => tried' ≤ collisions past'
      | .inr result => Refuses (.joinRoom id r) past' result := by
  refine .step trivial fun roster => .step trivial fun sess => ?_
  cases deriveHandle ident roster (sess.map sessHex) with
  | reused handle =>
    refine Prog.upholds_past (fun _ _ => trivial) fun past' _ _ => .step trivial fun row => ?_
    exact .bind (.step trivial fun recent => refuses_ok)
  | created handle =>
    refine .step trivial fun now => .step trivial fun outcome => ?_
    cases outcome with
    | inserted => exact .bind (.step trivial fun recent => refuses_ok)
    | uniqueViolation =>
      have hmet : collisions (⟨.createParticipant ⟨handle, id, ident.repo, ident.model, ident.cwd,
          ident.inst, now, now, startSeq, nickname, none, none⟩, .uniqueViolation⟩ ::
          ⟨.nowUtc, now⟩ :: ⟨.randSessCandidates, sess⟩ :: ⟨.listParticipants id, roster⟩ :: past) =
            collisions past + 1 := by
        simp [collisions_cons, Call.collides]
      by_cases hmore : tried + 1 < MAX_ATTEMPTS
      · simp only [hmore, ↓reduceIte]
        refine .step trivial fun p => ?_
        cases p with
        | some p => exact .bind (.step trivial fun recent => refuses_ok)
        | none =>
          change tried + 1 ≤ collisions (_ :: _)
          rw [collisions_cons, hmet]
          omega
      · simp only [hmore, ↓reduceIte]
        refine refuses_error (.exhausted ?_)
        rw [hmet]
        omega

theorem joinRoom_refuses (id : String) (r : JoinRoomRequest) :
    (joinRoom id r).Upholds Free [] (Refuses (.joinRoom id r)) := by
  refine .step trivial fun room => ?_
  cases room with
  | none => exact refuses_noRoom rfl List.mem_cons_self
  | some room =>
    refine .step trivial fun startSeq => resolveParticipant_grows ?_ fun p past' _ => ?_
    · exact Prog.upholds_iterate (fun past tried => tried ≤ collisions past) (Nat.zero_le _)
        fun past tried htried => (joinAttempt_refuses htried).mono fun past' x h => by
          cases x <;> exact h
    · refine Prog.upholds_past (fun _ _ => trivial) fun past'' _ _ => ?_
      exact .bind (.step trivial fun recent => refuses_ok)

/-- A room that takes no traffic bars a send. -/
theorem halted_of_unwritable (h : rejectUnlessWritable room = .error e) :
    room.state.halted = true ∧
      e = .conflict ("room is " ++ room.state.asStr ++ "; it is not accepting messages") := by
  unfold rejectUnlessWritable at h
  split at h
  case h_4 hstate | h_5 hstate | h_6 hstate =>
    cases h
    exact ⟨by rw [hstate]; rfl, rfl⟩
  all_goals cases h

theorem not_halted_of_writable {u : Unit} (h : rejectUnlessWritable room = .ok u) :
    room.state.halted = false := by
  unfold rejectUnlessWritable at h
  split at h
  case h_1 hstate | h_2 hstate | h_3 hstate => rw [hstate]; rfl
  all_goals cases h

/-- The rule of looking up the recipient. -/
theorem recipientKnown_grows {to_ : Option String} {Q : Log → Bool → Prop}
    (hyes : ∀ past', past <:+ past' → Q past' true)
    (hno : ∀ handle roster, to_ = some handle → (∀ p ∈ roster, p.handle ≠ handle) →
      Q (⟨.listParticipants id, roster⟩ :: past) false) :
    (recipientKnown id to_).Upholds Free past Q := by
  cases to_ with
  | none => exact hyes _ List.suffix_rfl
  | some handle =>
    refine .step trivial fun roster => ?_
    change Q _ (roster.any fun p => decide (p.handle = handle))
    cases hknown : roster.any fun p => decide (p.handle = handle) with
    | true => exact hyes _ (List.suffix_cons _ _)
    | false => exact hno handle roster rfl fun p hp => by simpa using List.any_eq_false.mp hknown p hp

theorem sendMessage_refuses (id : String) (r : SendMessageRequest) :
    (sendMessage id r).Upholds Free [] (Refuses (.sendMessage id r)) := by
  refine .step trivial fun room => ?_
  cases room with
  | none => exact refuses_noRoom rfl List.mem_cons_self
  | some room =>
    cases hwritable : rejectUnlessWritable room with
    | error e =>
      simp only [hwritable]
      obtain ⟨hhalted, rfl⟩ := halted_of_unwritable hwritable
      exact refuses_error (.barred rfl List.mem_cons_self (by rw [Request.barred, if_pos hhalted]))
    | ok _ =>
      simp only [hwritable]
      refine resolveParticipant_grows ?_ fun sender past hfound => ?_
      · exact refuses_stranger ⟨rfl, rfl⟩ (List.subset_append_left _ _)
      · have hread : ⟨.getRoom id, some room⟩ ∈ past := hfound.subset List.mem_cons_self
        refine .bind (recipientKnown_grows (fun past' hlater => ?_) fun to_ roster hto hnobody => ?_)
        · refine .step trivial fun now => .step trivial fun msg => ?_
          cases msg with
          | none =>
            refine refuses_error (.full rfl ?_ List.mem_cons_self)
            exact List.mem_cons_of_mem _ (List.mem_cons_of_mem _ (hlater.subset hread))
          | some msg =>
            refine .step trivial fun _ => .step trivial fun _ => .step trivial fun _ => ?_
            refine Prog.upholds_past (fun _ _ => trivial) fun _ _ _ => ?_
            exact .step trivial fun _ => refuses_ok
        · exact refuses_error (.unknownRecipient rfl hto List.mem_cons_self hnobody)

/-- A room that loses the race for its state changed after it had been read. -/
theorem refuses_overtaken {α : Type} {to_ : RoomState} {now : OffsetDateTime} {detail : Option String}
    (hroom : req.room = some id) (hread : ⟨.getRoom id, some room⟩ ∈ past)
    (hlater : ⟨.updateRoomState id room.state to_ now detail, false⟩ :: past <:+ past') :
    Refuses req past' (.error CHANGED_CONCURRENTLY : Except ApiError α) :=
  refuses_error (.overtaken hroom hlater hread)

theorem signalRoom_refuses (id : String) (r : SignalRequest) :
    (signalRoom id r).Upholds Free [] (Refuses (.signalRoom id r)) := by
  refine .step trivial fun room => ?_
  cases room with
  | none => exact refuses_noRoom rfl List.mem_cons_self
  | some room =>
    cases hwritable : rejectUnlessWritable room with
    | error e =>
      simp only [hwritable]
      obtain ⟨hhalted, rfl⟩ := halted_of_unwritable hwritable
      exact refuses_error (.barred rfl List.mem_cons_self (by rw [Request.barred, if_pos hhalted]))
    | ok _ =>
      simp only [hwritable]
      refine resolveParticipant_grows ?_ fun sender past hfound => ?_
      · exact refuses_stranger ⟨rfl, rfl⟩ (List.subset_append_left _ _)
      have hread : ⟨.getRoom id, some room⟩ ∈ past := hfound.subset List.mem_cons_self
      cases hfields : signalFields r with
      | error e => exact refuses_error (.malformed (by rw [Request.malformed, hfields]))
      | ok fields =>
        obtain ⟨msgType, severity, body⟩ := fields
        dsimp only
        split
        · rename_i hcannot
          obtain ⟨rfl, hpause⟩ := hcannot
          refine refuses_error (.barred rfl hread ?_)
          have hpauses : r.pauses = true := by rw [SignalRequest.pauses, hfields]
          rw [Request.barred, if_neg (by simp [not_halted_of_writable hwritable]),
            if_pos ⟨hpauses, hpause⟩]
        · refine .step trivial fun now => .bind ?_
          unfold blockerPause
          split
          · refine .step trivial fun changed => ?_
            cases changed with
            | true => exact .step trivial fun msg => .step trivial fun _ => refuses_ok
            | false => exact refuses_overtaken rfl (List.mem_cons_of_mem _ hread) List.suffix_rfl
          · exact .step trivial fun msg => .step trivial fun _ => refuses_ok

/-- A room that has not ended can be closed. -/
theorem close_of_open {state : RoomState} (h : state.terminal = false) :
    ∃ to_, transition state .close = some to_ := by
  cases state <;> first | exact ⟨_, rfl⟩ | cases h

theorem closeNow_refuses {r : LifecycleRequest} {now : OffsetDateTime}
    (hread : ⟨.getRoom id, some room⟩ ∈ past) (hopen : room.state.terminal = false) :
    (closeNow id room.state now).Upholds Free past (Refuses (.closeRoom id r)) := by
  obtain ⟨to_, hto⟩ := close_of_open hopen
  unfold closeNow
  simp only [hto]
  refine .step trivial fun changed => ?_
  cases changed with
  | true => exact .step trivial fun _ => .step trivial fun _ => refuses_ok
  | false =>
    refine .step trivial fun cur => ?_
    cases cur with
    | none => exact refuses_noRoom rfl List.mem_cons_self
    | some cur =>
      by_cases hterm : cur.state.terminal = true
      · simp only [hterm, ↓reduceIte]
        exact .step trivial fun _ => .step trivial fun _ => refuses_ok
      · simp only [hterm]
        exact refuses_overtaken rfl hread (List.suffix_cons _ _)

theorem closeRoom_refuses (id : String) (r : LifecycleRequest) :
    (closeRoom id r).Upholds Free [] (Refuses (.closeRoom id r)) := by
  refine .step trivial fun room => ?_
  cases room with
  | none => exact refuses_noRoom rfl List.mem_cons_self
  | some room =>
    by_cases hterm : room.state.terminal = true
    · simp only [hterm, ↓reduceIte]
      exact refuses_error (.barred rfl List.mem_cons_self (by rw [Request.barred, if_pos hterm]))
    · simp only [hterm]
      refine resolveParticipant_grows ?_ fun closer past hfound => ?_
      · exact refuses_stranger ⟨rfl, rfl⟩ (List.subset_append_left _ _)
      have hread : ⟨.getRoom id, some room⟩ ∈ past := hfound.subset List.mem_cons_self
      have hclose : ∀ {k : Except ApiError Unit → Task (Except ApiError LifecycleResponse)} (past' now),
          past <:+ past' → (∀ e, k (.error e) = pure (.error e)) →
            k (.ok ()) = pure (.ok (closeResponse "closed" .closed none)) →
              (closeNow id room.state now >>= k).Upholds Free past' (Refuses (.closeRoom id r)) := by
        intro k past' now hsuf herror hok
        have hnow : (closeNow id room.state now).Upholds Free past' (Refuses (.closeRoom id r)) :=
          closeNow_refuses (hsuf.subset hread) (Bool.eq_false_iff.mpr hterm)
        refine .bind (hnow.mono ?_)
        rintro past'' (e | _) hrefuses
        · rw [herror]
          exact refuses_error (hrefuses e rfl)
        · rw [hok]
          exact refuses_ok
      refine .step trivial fun now => ?_
      by_cases hforce : r.force = true
      · simp only [hforce, ↓reduceIte]
        refine hclose _ now (List.suffix_cons _ _) ?_ ?_
        · exact fun _ => rfl
        · rfl
      · simp only [hforce]
        refine .step trivial fun _ => .step trivial fun _ => .step trivial fun roster => ?_
        split
        · refine hclose _ now (List.suffix_append [_, _, _, _] past) ?_ ?_
          · exact fun _ => rfl
          · rfl
        · exact .step trivial fun _ => refuses_ok

theorem extendRoom_refuses (id : String) (r : Caller) :
    (extendRoom id r).Upholds Free [] (Refuses (.extendRoom id r)) := by
  refine .step trivial fun room => ?_
  cases room with
  | none => exact refuses_noRoom rfl List.mem_cons_self
  | some room =>
    by_cases hhalted : room.state.halted = true
    · simp only [hhalted, ↓reduceIte]
      exact refuses_error (.barred rfl List.mem_cons_self (by rw [Request.barred, if_pos hhalted]))
    · simp only [hhalted]
      refine resolveParticipant_grows ?_ fun voter past _ => ?_
      · exact refuses_stranger ⟨rfl, rfl⟩ (List.subset_append_left _ _)
      · refine .step trivial fun now => .step trivial fun outcome => ?_
        cases outcome with
        | extended cap => exact .step trivial fun m => .step trivial fun _ => refuses_ok
        | proposed votes needed => exact .step trivial fun _ => refuses_ok

theorem applyTransition_refuses {r : LifecycleRequest} {event : LifecycleEvent}
    {detail : Option String} (hroom : req.room = some id)
    (hcomes : req.ComesAs id (effectiveInstance r.toCaller))
    (hbarred : ∀ state, transition state event = none →
      req.barred state = some (.conflict ("cannot " ++ event.debug ++ " from " ++ state.asStr))) :
    (applyTransition id r event detail).Upholds Free [] (Refuses req) := by
  refine .step trivial fun room => ?_
  cases room with
  | none => exact refuses_noRoom hroom List.mem_cons_self
  | some room =>
    refine resolveParticipant_grows ?_ fun p past hfound => ?_
    · exact refuses_stranger hcomes (List.subset_append_left _ _)
    have hread : ⟨.getRoom id, some room⟩ ∈ past := hfound.subset List.mem_cons_self
    cases hto : transition room.state event with
    | none => exact refuses_error (.barred hroom hread (hbarred _ hto))
    | some to_ =>
      refine .step trivial fun now => .step trivial fun changed => ?_
      cases changed with
      | false => exact refuses_overtaken hroom (List.mem_cons_of_mem _ hread) List.suffix_rfl
      | true => exact .step trivial fun _ => refuses_ok

theorem pruneRoom_refuses (id : String) :
    (pruneRoom id).Upholds Free [] (Refuses (.pruneRoom id)) := by
  refine .step trivial fun room => ?_
  cases room with
  | none => exact refuses_noRoom rfl List.mem_cons_self
  | some room =>
    exact .step trivial fun now => .step trivial fun pruned => .step trivial fun remaining => refuses_ok

theorem timeoutResponse_refuses {r : WaitRequest} {handle : String} {retryAfter : Option UInt32}
    {away : Bool} :
    (timeoutResponse id handle retryAfter away).Upholds Free past (Refuses (.waitRoom id r)) := by
  refine .step trivial fun room => ?_
  cases room with
  | none => exact refuses_noRoom rfl List.mem_cons_self
  | some room =>
    dsimp only
    split
    · exact refuses_ok
    · refine Prog.upholds_past (fun _ _ => trivial) fun _ closing _ => ?_
      cases closing with
      | true => exact refuses_ok
      | false =>
        refine Prog.upholds_past (fun _ _ => trivial) fun _ extending _ => ?_
        cases extending with
        | true => exact refuses_ok
        | false =>
          cases away with
          | true => exact refuses_ok
          | false =>
            refine Prog.upholds_past (fun _ _ => trivial) fun _ stale _ => ?_
            cases stale <;> exact refuses_ok

theorem waitRoom_refuses (id : String) (r : WaitRequest) :
    (waitRoom app id r).Upholds Free [] (Refuses (.waitRoom id r)) := by
  refine .step trivial fun room => ?_
  cases room with
  | none => exact refuses_noRoom rfl List.mem_cons_self
  | some room =>
    refine resolveParticipant_grows ?_ fun caller past _ => ?_
    · exact refuses_stranger ⟨rfl, rfl⟩ (List.subset_append_left _ _)
    refine .step trivial fun now => .step trivial fun _ => ?_
    by_cases hhalted : room.state.halted = true
    · simp only [hhalted, ↓reduceIte]
      refine Prog.upholds_past (fun _ _ => trivial) fun _ outcome _ => ?_
      cases outcome <;> exact refuses_ok
    · simp only [hhalted]
      refine Prog.upholds_past (fun _ _ => trivial) fun _ counterpart _ => ?_
      cases counterpart with
      | false => exact refuses_ok
      | true =>
        refine Prog.upholds_past (fun _ _ => trivial) fun _ cap _ => ?_
        refine Prog.upholds_past (fun _ _ => trivial) fun _ outcome _ => ?_
        refine Prog.upholds_past (fun _ _ => trivial) fun _ away _ => ?_
        refine Prog.upholds_past (fun _ _ => trivial) fun _ retryAfter _ => ?_
        cases outcome with
        | message m => exact .step trivial fun consecutive => refuses_ok
        | pausedByTimeout => exact timeoutResponse_refuses

/-! ### Every request -/

/-- **Whatever a request is refused for**, its log shows. -/
theorem serve_refuses (app : AppState) (req : Request) :
    (serve app req).Upholds Free [] (Refuses req) := by
  have hanswering : ∀ {α : Type} {f : α → Answer} {handler : Task (Except ApiError α)},
      handler.Upholds Free [] (Refuses req) → (answering f handler).Upholds Free [] (Refuses req) :=
    fun h => upholds_answering.mpr (h.mono fun _ _ hrefuses => hrefuses.map)
  cases req with
  | openRoom r => exact hanswering (openRoom_refuses r)
  | listRooms state all => exact hanswering (.step trivial fun rows => refuses_ok)
  | joinRoom id r => exact hanswering (joinRoom_refuses id r)
  | sendMessage id r => exact hanswering (sendMessage_refuses id r)
  | signalRoom id r => exact hanswering (signalRoom_refuses id r)
  | waitRoom id r => exact hanswering (waitRoom_refuses id r)
  | closeRoom id r => exact hanswering (closeRoom_refuses id r)
  | extendRoom id r => exact hanswering (extendRoom_refuses id r)
  | pauseRoom id r =>
    refine hanswering (applyTransition_refuses rfl ⟨rfl, rfl⟩ fun _ hto => ?_)
    rw [Request.barred, if_pos hto]
    rfl
  | wakeRoom id r =>
    refine hanswering (applyTransition_refuses rfl ⟨rfl, rfl⟩ fun _ hto => ?_)
    rw [Request.barred, if_pos hto]
    rfl
  | pruneRoom id => exact hanswering (pruneRoom_refuses id)
  | sweep => exact Prog.upholds_past (fun _ _ => trivial) fun _ _ _ => refuses_ok
  | claimNextUnread id handle => exact Prog.upholds_past (fun _ _ => trivial) fun _ _ _ => refuses_ok

/-! ### What is true of the daemon -/

/-- A row of the database bears a key that the insert needs. -/
def Db.keyTaken (db : Db) : Call → Bool
  | .createRoom room => db.hasRoom room.id
  | .createParticipant p => db.participants.any fun q =>
      q.handle = p.handle || (q.roomId = p.roomId && q.inst = p.inst)
  | _ => false

/-- At one of these calls, the request met a store like this. -/
def Meets (new : List Step) (i : ℕ) (P : Store → Prop) : Prop := ∃ k ∈ new, k.tid = i ∧ P k.before

/-- The room has a row like this. -/
def Store.RoomIs (id : String) (P : RoomRow → Prop) (s : Store) : Prop :=
  ∃ row ∈ s.db.rooms, row.id = id ∧ P row

/-- Whoever of the room was called so has been pruned. -/
def Gone (s : Store) (new : List Step) (id : String) (called : Participant → Prop) : Prop :=
  ∀ p ∈ s.db.participants, p.roomId = id → called p → ¬ NotPruned new p.handle

/-- What justifies the refusal of a request that has come since the store was `s`: what
was true of `s`, and what the request met in its calls since. -/
inductive Justified (s : Store) (new : List Step) (i : ℕ) (req : Request) : ApiError → Prop
  | noRoom {id : String} : req.room = some id → s.db.hasRoom id = false →
      Justified s new i req .notFound
  | malformed {e : ApiError} : req.malformed = some e → Justified s new i req e
  | barred {id : String} {e : ApiError} : req.room = some id →
      Meets new i (Store.RoomIs id fun row => req.barred row.state = some e) →
      Justified s new i req e
  | stranger {id inst : String} : req.ComesAs id inst →
      Gone s new id (fun p => p.inst = inst ∨ p.handle = inst) →
      Justified s new i req NOT_A_PARTICIPANT
  | unknownRecipient {id to_ : String} {r : SendMessageRequest} : req = .sendMessage id r →
      r.to_ = some to_ → Gone s new id (·.handle = to_) → Justified s new i req UNKNOWN_RECIPIENT
  | full {id : String} {cap : UInt32} : req.room = some id →
      Meets new i (Store.RoomIs id (·.config.hardCap = cap.toNat)) →
      Meets new i (fun s => cap.toNat ≤ s.db.countCappedMessages id) →
      Justified s new i req (hardCapReached cap)
  | overtaken {id : String} {state : RoomState} {k : Step} {older : List Step} :
      req.room = some id → k :: older <:+ new → k.tid = i → k.before.stateOf id ≠ some state →
      Meets older i (Store.RoomIs id (·.state = state)) → Justified s new i req CHANGED_CONCURRENTLY
  | exhausted : MAX_ATTEMPTS ≤ (new.countP fun k => k.tid = i && k.before.db.keyTaken k.call) →
      Justified s new i req uniqueError

/-- What a request read of a room, the room was. -/
theorem History.meets_room (hist : History app s new s')
    (hread : ⟨.getRoom id, some room⟩ ∈ pastOf i new) :
    Meets new i (Store.RoomIs id fun row => rowToRoom row = some room) := by
  obtain ⟨before, after, sess, newer, older, rfl, hexec, -, -⟩ := hist.seen hread
  obtain ⟨hget, rfl⟩ := done_of_tryRead hexec
  obtain ⟨row, hrow, hdecode⟩ := Db.getRoom_spec hget
  obtain ⟨hmem, hid⟩ := Db.mem_of_roomRow hrow
  exact ⟨_, List.mem_append_right _ List.mem_cons_self, rfl, row, hmem, hid, hdecode⟩

theorem Meets.mono {P Q : Store → Prop} (h : Meets new i P) (hPQ : ∀ s, P s → Q s) : Meets new i Q := by
  obtain ⟨k, hk, hki, hP⟩ := h
  exact ⟨k, hk, hki, hPQ _ hP⟩

theorem Store.RoomIs.mono {P Q : RoomRow → Prop} (h : s.RoomIs id P) (hPQ : ∀ row, P row → Q row) :
    s.RoomIs id Q := by
  obtain ⟨row, hrow, hid, hP⟩ := h
  exact ⟨row, hrow, hid, hPQ row hP⟩

/-- A room that is not found was not there before. -/
theorem History.noRoom_before (hist : History app s new s') (hread : ⟨.getRoom id, none⟩ ∈ pastOf i new) :
    s.db.hasRoom id = false := by
  obtain ⟨before, after, sess, newer, older, -, hexec, hbefore, -⟩ := hist.seen hread
  obtain ⟨hget, -⟩ := done_of_tryRead hexec
  rw [Bool.eq_false_iff]
  intro hroom
  obtain ⟨row, hrow, hid⟩ := Db.hasRoom_iff.mp hroom
  obtain ⟨row', hrow', hid', -⟩ := hbefore.later.rooms row hrow
  exact Db.getRoom_ne_none (Db.hasRoom_iff.mpr ⟨row', hrow', hid'.trans hid⟩) hget rfl

/-- Whoever is not found under a name has been pruned. -/
theorem History.gone_of_stranger (hist : History app s new s') (hwf : s.db.WellFormed)
    (hsub : stranger id inst ⊆ pastOf i new) :
    Gone s new id fun p => p.inst = inst ∨ p.handle = inst := by
  rintro p hp rfl (rfl | rfl) hkept
  · obtain ⟨before, after, sess, newer, older, rfl, hexec, hbefore, -⟩ :=
      hist.seen (hsub (List.mem_cons_of_mem _ List.mem_cons_self))
    obtain ⟨hnobody, -⟩ := done_of_read hexec
    obtain ⟨q, hq, hsame, hinst⟩ := hbefore.instance_kept hwf hp fun e he => hkept e (by simp [he])
    exact Db.getParticipantByInstance_eq_none.mp hnobody q hq ⟨hsame.roomId, hinst⟩
  · obtain ⟨before, after, sess, newer, older, rfl, hexec, hbefore, -⟩ := hist.seen (hsub List.mem_cons_self)
    obtain ⟨hnobody, -⟩ := done_of_read hexec
    obtain ⟨q, hq, hsame⟩ := hbefore.row_kept hwf hp fun e he => hkept e (by simp [he])
    exact Db.getParticipantByHandle_eq_none.mp hnobody q hq ⟨hsame.roomId, hsame.handle⟩

/-- Whoever is not in a roster has been pruned. -/
theorem History.gone_of_roster (hist : History app s new s') (hwf : s.db.WellFormed)
    {handle : String} {roster : List Participant}
    (hread : ⟨.listParticipants id, roster⟩ ∈ pastOf i new) (hnobody : ∀ p ∈ roster, p.handle ≠ handle) :
    Gone s new id (·.handle = handle) := by
  rintro p hp rfl rfl hkept
  obtain ⟨before, after, sess, newer, older, rfl, hexec, hbefore, -⟩ := hist.seen hread
  obtain ⟨hlist, -⟩ := done_of_read hexec
  obtain ⟨q, hq, hsame⟩ := hbefore.row_kept hwf hp fun e he => hkept e (by simp [he])
  exact hnobody q (hlist ▸ mem_listParticipants.mpr ⟨hq, hsame.roomId⟩) hsame.handle

/-- An insert that met a taken key met a row that bears it. -/
theorem keyTaken_of_collides {k : Call} {r : k.Reply} {sess : List UInt16}
    (hexec : Store.exec sess k s = .done r s') (hk : k.collides r = true) :
    s.db.keyTaken k = true := by
  cases k
  case createRoom room =>
    have hreply : (s.db.createRoom room).1 = r := by
      cases hexec
      rfl
    cases r with
    | inserted => cases hk
    | uniqueViolation =>
      rw [Db.keyTaken]
      by_contra hfree
      rw [Db.createRoom, if_neg hfree] at hreply
      cases hreply
  case createParticipant p =>
    obtain ⟨db, hcreate, -⟩ := done_of_tryWrite hexec
    cases r with
    | inserted => cases hk
    | uniqueViolation =>
      rw [Db.keyTaken]
      by_contra hfree
      rw [Db.createParticipant, if_neg hfree] at hcreate
      split at hcreate <;> cases hcreate
  all_goals cases hk

/-- So often as a log shows it, keys were taken. -/
theorem History.collisions_le (hist : History app s new s') : collisions (pastOf i new) ≤
    new.countP fun k => k.tid = i && k.before.db.keyTaken k.call := by
  induction hist with
  | start => exact Nat.le_refl 0
  | tick _ _ ih => exact ih
  | @call tr s₁ s₂ j sess k r hist hexec ih =>
    by_cases hij : j = i
    · subst hij
      rw [pastOf_cons_self ⟨j, k, r, s₁, s₂⟩ tr, collisions_cons, List.countP_cons]
      by_cases hk : k.collides r = true
      · have htaken := keyTaken_of_collides hexec hk
        simp only [hk, htaken]
        simpa using ih
      · rw [if_neg hk]
        exact ih.trans (Nat.le_add_right _ _)
    · rw [pastOf_cons_of_ne (e := ⟨j, k, r, s₁, s₂⟩) hij, List.countP_cons]
      omega

/-- A capped insert that was turned away met a full room. -/
theorem History.meets_full (hist : History app s new s') {sender body : String}
    {recipient : Option String} {now : OffsetDateTime} {fromHuman : Bool} {cap : UInt32}
    (hread : ⟨.createMessageCapped id sender recipient body now fromHuman cap.toNat, none⟩ ∈
      pastOf i new) : Meets new i fun s => cap.toNat ≤ s.db.countCappedMessages id := by
  obtain ⟨before, after, sess, newer, older, rfl, hexec, -, -⟩ := hist.seen hread
  obtain ⟨db, hcreate, -⟩ := done_of_tryWrite hexec
  refine ⟨_, List.mem_append_right _ List.mem_cons_self, rfl, ?_⟩
  by_contra hroom
  have hbelow : (before.db.messages.countP fun m => m.roomId = id && m.msgType = .msg : ℤ) <
      cap.toNat := by
    exact_mod_cast Nat.lt_of_not_le hroom
  rw [Db.createMessageCapped, if_pos hbelow] at hcreate
  obtain ⟨⟨m, db'⟩, -, heq⟩ := Option.map_eq_some_iff.mp hcreate
  cases heq

/-- A transition that lost its race met the room in another state than it had read. -/
theorem History.meets_overtaken (hist : History app s new s') (hroom : req.room = some id)
    {to_ : RoomState} {now : OffsetDateTime} {detail : Option String} {older : Log}
    (hlater : ⟨.updateRoomState id room.state to_ now detail, false⟩ :: older <:+ pastOf i new)
    (hread : ⟨.getRoom id, some room⟩ ∈ older) : Justified s new i req CHANGED_CONCURRENTLY := by
  obtain ⟨newer, hsplit⟩ := hlater
  obtain ⟨tr₂, k, tr₁, rfl, hki, heq, -, rfl⟩ := pastOf_split hsplit.symm
  obtain ⟨hbefore, ⟨sess, hexec⟩, -⟩ := System.History.split hist
  have hmoved : k.before.stateOf id ≠ some room.state := by
    obtain ⟨j, call, reply, before, after⟩ := k
    cases heq
    intro hstate
    obtain ⟨row, hrow, hsame⟩ := Option.map_eq_some_iff.mp hstate
    obtain ⟨hmem, hid⟩ := Db.mem_of_roomRow hrow
    have hany : (before.db.rooms.any fun row => row.id = id && row.state = room.state) = true :=
      List.any_eq_true.mpr ⟨row, hmem, by simp [hid, hsame]⟩
    have hreply : (before.db.updateRoomState id room.state to_ now detail).1 = false :=
      (Exec.done.inj hexec).1
    rw [Db.updateRoomState, if_pos hany] at hreply
    cases hreply
  refine .overtaken hroom (List.suffix_append tr₂ (k :: tr₁)) hki hmoved ?_
  exact (History.meets_room hbefore hread).mono fun s h =>
    h.mono fun row hdecode => (rowToRoom_spec hdecode).2.1.symm

/-- **What a log shows for a refusal is true of the daemon.** -/
theorem History.justified (hist : History app s new s') (hwf : s.db.WellFormed)
    (h : Refused req (pastOf i new) e) : Justified s new i req e := by
  cases h with
  | noRoom hroom hread => exact .noRoom hroom (hist.noRoom_before hread)
  | malformed hmalformed => exact .malformed hmalformed
  | barred hroom hread hbarred =>
    refine .barred hroom ((hist.meets_room hread).mono fun s h => h.mono fun row hdecode => ?_)
    rwa [← (rowToRoom_spec hdecode).2.1]
  | stranger hcomes hsub => exact .stranger hcomes (hist.gone_of_stranger hwf hsub)
  | unknownRecipient hreq hto hread hnobody =>
    exact .unknownRecipient hreq hto (hist.gone_of_roster hwf hread hnobody)
  | full hroom hread hinsert =>
    refine .full hroom ((hist.meets_room hread).mono fun s h => h.mono fun row hdecode => ?_)
      (hist.meets_full hinsert)
    exact (rowToRoom_spec hdecode).2.2.1.symm
  | overtaken hroom hlater hread => exact hist.meets_overtaken hroom hlater hread
  | exhausted hmany => exact .exhausted (hmany.trans hist.collisions_le)

/-- **Refusals are justified**: whatever is interleaved with it, a request that is refused is
refused for what is true.  A room that it is told is not there was not there when the
request came; a caller or a recipient that is called a stranger to the room has been pruned
since, if it was in the room then; the state, the full room and the lost race that it is
told of are what it met at moments of its own; and it gives up over taken keys only after
as many of them. -/
theorem refusals_justified (h : Reachable app c₀) (hrun : (daemon app).Run c₀ c)
    (hi : c₀.threads.length ≤ i) {t : Thread Call Call.Reply Request Outcome}
    (ht : c.threads[i]? = some t) (hrefused : t.returned = some (.error e)) :
    ∃ new, c.trace = new ++ c₀.trace ∧ Justified c₀.shared new i t.req e := by
  obtain ⟨new, hnew, hist⟩ := hrun.history
  obtain ⟨utc, instant, hrun'⟩ := h.run hrun
  have hbody : ∀ r, ((daemon app).body r).Upholds Free [] (Refuses r) := serve_refuses app
  have hshown : Refuses t.req (pastOf i new) (.error e : Outcome) :=
    (hrun'.upheld (Φ := fun _ => Free) hbody).answered_since h.orderly hnew hi ht hrefused
  exact ⟨new, hnew, History.justified hist h.wellFormed (hshown e rfl)⟩

/-- A room that was closed. -/
def shut : List Request := gather none [alice] ++ [.closeRoom demoRoom ⟨alice, none, true⟩]

/-- A send that comes too late. -/
def lateSend : Request := .sendMessage demoRoom ⟨alice, none, "hello", false⟩

set_option maxRecDepth 10000 in
theorem refusals_justified_shut : ∃ new, (demo (shut ++ [lateSend])).trace = new ++ (demo shut).trace ∧
    Justified (demo shut).shared new 3 lateSend
      (.conflict "room is closed; it is not accepting messages") := by
  have hanswer : ((demo (shut ++ [lateSend])).threads[3]?.map fun t => (t.req, t.returned)) =
      some (lateSend, some (.error (.conflict "room is closed; it is not accepting messages"))) := by
    decide +kernel
  obtain ⟨t, ht, heq⟩ := Option.map_eq_some_iff.mp hanswer
  obtain ⟨hreq, hrefused⟩ := Prod.mk.inj heq
  have hcame : (demo shut).threads.length ≤ 3 := by decide +kernel
  obtain ⟨new, hnew, hjustified⟩ :=
    refusals_justified (reachable_demo shut) (run_demo_append shut [lateSend]) hcame ht hrefused
  rw [hreq] at hjustified
  exact ⟨new, hnew, hjustified⟩

end ChatBotChat
