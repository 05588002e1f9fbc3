/-
Every handler follows its discipline.

One lemma per handler of `http.rs` runs its program symbolically, call by call;
the cases are the replies it branches on.  The wait and the claim, which loop,
are in `Waiting.lean`.
-/
import ChatBotChat.Discipline

namespace ChatBotChat

open Interleave Lifecycle

variable {app : AppState} {req : Request} {past : Log}

theorem upholds_answering {α : Type} {Φ : Log → Call → Prop} {f : α → Answer}
    {handler : Task (Except ApiError α)} {Q : Log → Outcome → Prop} :
    (answering f handler).Upholds Φ past Q ↔
      handler.Upholds Φ past fun past a => Q past (a.map f) := by
  simp only [answering, Prog.upholds_bind, Prog.upholds_pure]

/-! ### Resolving the caller -/

theorem ResolvedIn.mono {past' : Log} {id handle : String} (h : ResolvedIn past id handle)
    (hsub : past ⊆ past') : ResolvedIn past' id handle := by
  obtain ⟨p, inst, hp, hmem⟩ := h
  exact ⟨p, inst, hp, hmem.imp (fun h => hsub h) fun h => hsub h⟩

theorem ResolvedIn.cons {x : Sigma Call.Reply} {id handle : String}
    (h : ResolvedIn past id handle) : ResolvedIn (x :: past) id handle :=
  h.mono (List.subset_cons_self _ _)

theorem ResolvedIn.append {newer : Log} {id handle : String}
    (h : ResolvedIn past id handle) : ResolvedIn (newer ++ past) id handle :=
  h.mono (List.subset_append_right _ _)

theorem discipline_of_glance {c : Call} (hc : c.glance = true) : Discipline req past c := by
  cases c <;> trivial

@[simp] theorem glances_nil : Glances [] := by simp [Glances]

@[simp] theorem glances_cons {x : Sigma Call.Reply} :
    Glances (x :: past) ↔ x.1.glance = true ∧ Glances past := by
  simp [Glances]

@[simp] theorem glances_append {past' : Log} :
    Glances (past ++ past') ↔ Glances past ∧ Glances past' := by
  simp [Glances, or_imp, forall_and]

/-- Resolving the caller only looks it up, and a caller found is resolved. -/
theorem resolveParticipant_upholds {id inst : String} {Q : Log → Option Participant → Prop}
    (hnone : ∀ newer, Glances newer → Q (newer ++ past) none)
    (hsome : ∀ newer p, Glances newer → ResolvedIn (newer ++ past) id p.handle →
      Q (newer ++ past) (some p)) :
    (resolveParticipant id inst).Upholds (Discipline req) past Q := by
  refine .step trivial fun byInstance => ?_
  cases byInstance with
  | some p => exact hsome [_] p (by simp [Call.glance]) ⟨p, inst, rfl, .inl List.mem_cons_self⟩
  | none =>
    refine ⟨trivial, fun byHandle => ?_⟩
    cases byHandle with
    | some p =>
      exact hsome [_, _] p (by simp [Call.glance]) ⟨p, inst, rfl, .inr List.mem_cons_self⟩
    | none => exact hnone [_, _] (by simp [Call.glance])

/-! ### Requests that are not writers -/

theorem openRoom_upholds (r : OpenRoomRequest) :
    (openRoom r).Upholds (Discipline (.openRoom r)) [] fun _ _ => True := by
  refine .step trivial fun now => ?_
  have hconfig : ∀ config, openConfig r = .ok config →
      config.closeQuorum = .all ∧ 1 ≤ config.hardCap ∧ 2 ≤ config.softCap := by
    intro config h
    simp only [openConfig] at h
    split_ifs at h with hbad
    obtain rfl := Except.ok.inj h
    rw [not_or, UInt32.not_lt, UInt32.not_lt] at hbad
    exact ⟨rfl, hbad⟩
  cases hopen : openConfig r with
  | error e => exact trivial
  | ok config =>
    refine Prog.upholds_iterate (fun _ _ => True) trivial fun past tried _ => ?_
    refine .step ⟨⟨r, rfl⟩, rfl, hconfig config hopen⟩ fun outcome => ?_
    cases outcome with
    | inserted => exact trivial
    | uniqueViolation =>
      by_cases hlt : tried + 1 < MAX_ATTEMPTS
      · simp [hlt]
      · simp [hlt]

theorem recentMessageViewsUpTo_upholds {id : String} {maxSeq : ℕ}
    {Q : Log → List MessageView → Prop} (hQ : ∀ past views, Q past views) :
    (recentMessageViewsUpTo id maxSeq).Upholds (Discipline req) past Q :=
  .step trivial fun _ => hQ _ _

theorem renameIfSupplied_upholds {handle : String} {nickname : Option String}
    {Q : Log → Unit → Prop} (hQ : ∀ past, Q past ()) :
    (renameIfSupplied handle nickname).Upholds (Discipline req) past Q := by
  unfold renameIfSupplied
  split
  · exact ⟨trivial, fun _ => hQ _⟩
  · exact hQ _

/-- An attempt to mint a participant seeds its cursor with the `startSeq` read
before the first attempt. -/
theorem joinAttempt_upholds {id : String} {r : JoinRoomRequest} {room : Room} {startSeq : ℕ}
    {nickname : Option String} {ident : JoinIdentity} {tried : ℕ}
    (hseed : ⟨.currentSeq id, startSeq⟩ ∈ past) :
    (joinAttempt id room startSeq nickname ident tried).Upholds (Discipline (.joinRoom id r)) past
      fun past' _ => ⟨.currentSeq id, startSeq⟩ ∈ past' := by
  refine .step trivial fun existing => .step trivial fun sess => ?_
  cases hderive : deriveHandle ident existing (sess.map sessHex) with
  | reused h =>
    refine .bind ?_
    unfold renameIfSupplied
    have hrest : ∀ past : Log, ⟨.currentSeq id, startSeq⟩ ∈ past → (do
        let row ← perform (.getParticipantByInstance id ident.inst)
        let cursor := (row.map Participant.lastReadSeq).getD startSeq
        let recent ← recentMessageViewsUpTo id cursor
        return .inr (joinResponse h true room recent) :
          Task (ℕ ⊕ Except ApiError JoinRoomResponse)).Upholds (Discipline (.joinRoom id r)) past
          fun past' _ => ⟨.currentSeq id, startSeq⟩ ∈ past' := by
      intro past hpast
      refine .step trivial fun row => .bind (.step trivial fun msgs => ?_)
      simpa using hpast
    split
    · exact ⟨trivial, fun _ => hrest _ (by simpa using hseed)⟩
    · exact hrest _ (by simpa using hseed)
  | created handle =>
    refine .step trivial fun now => ?_
    refine .step ⟨⟨r, rfl⟩, rfl, rfl, by simpa using hseed⟩ fun outcome => ?_
    cases outcome with
    | inserted => exact .bind (.step trivial fun msgs => by simpa using hseed)
    | uniqueViolation =>
      by_cases hlt : tried + 1 < MAX_ATTEMPTS
      · simp only [hlt, ↓reduceIte]
        refine .step trivial fun p => ?_
        cases p with
        | some p => exact .bind (.step trivial fun msgs => by simpa using hseed)
        | none => simpa using hseed
      · simpa [hlt] using hseed

theorem joinRoom_upholds (id : String) (r : JoinRoomRequest) :
    (joinRoom id r).Upholds (Discipline (.joinRoom id r)) [] fun _ _ => True := by
  refine .step trivial fun room => ?_
  cases room with
  | none => exact trivial
  | some room =>
    refine .step trivial fun startSeq => .bind (resolveParticipant_upholds ?_ ?_)
    · intro newer _
      refine Prog.upholds_iterate (fun past' _ => ⟨.currentSeq id, startSeq⟩ ∈ past') (by simp) ?_
      intro past' tried hpast'
      refine (joinAttempt_upholds hpast').mono ?_
      rintro past'' (s | a) h
      · exact h
      · exact trivial
    · intro newer p _ _
      exact .bind (renameIfSupplied_upholds fun _ =>
        .bind (recentMessageViewsUpTo_upholds fun _ _ => trivial))

theorem pruneRoom_upholds (id : String) :
    (pruneRoom id).Upholds (Discipline (.pruneRoom id)) [] fun _ _ => True := by
  refine .step trivial fun room => ?_
  cases room with
  | none => exact trivial
  | some room =>
    refine .step trivial fun now => ?_
    refine .step ⟨rfl, now, _, rfl, rfl⟩ fun pruned => ?_
    exact .step trivial fun remaining => trivial

theorem sweepRooms_upholds (now : OffsetDateTime) : ∀ (rooms : List Room) (past : Log),
    (sweepRooms now rooms).Upholds (Discipline .sweep) past fun _ _ => True := by
  intro rooms
  induction rooms with
  | nil => exact fun _ => trivial
  | cons room rooms ih =>
    intro past
    have hrest : ∀ past outcome, (do
        let outcomes ← sweepRooms now rooms
        return Option.toList outcome ++ outcomes : Task (List SweepOutcome)).Upholds
          (Discipline .sweep) past fun _ _ => True :=
      fun past outcome => .bind ((ih past).mono fun _ _ _ => trivial)
    refine .bind (.step trivial fun participants => ?_)
    cases hevent : computeTimeEvent room.state room.lastActivityAt room.stateChangedAt
        (participants.map Participant.lastPollAt) now with
    | none =>
      simp only [hevent]
      exact hrest _ _
    | some event =>
      obtain ⟨to_, hto, hne⟩ := transition_computeTimeEvent hevent
      simp only [hevent, hto]
      refine .step ⟨.inr rfl, ⟨_, hto⟩, transition_ne hne hto, nofun⟩ fun changed => ?_
      exact hrest _ _

theorem sweepTick_upholds :
    sweepTick.Upholds (Discipline .sweep) [] fun _ _ => True :=
  .step trivial fun now => .step trivial fun rooms => sweepRooms_upholds now rooms _

/-! ### Writers -/

/-- The body of a `Conclusion` of a writer: an answer that is no error comes
right after the ping. -/
def Rung (id : String) (past : Log) (a : Outcome) : Prop :=
  (∃ answer, a = .ok answer) → ∃ older, past = ⟨.notify id, ()⟩ :: older

theorem rung_error {id : String} {e : ApiError} : Rung id past (.error e) := by
  rintro ⟨answer, h⟩
  cases h

theorem rung_notify {id : String} {a : Outcome} : Rung id (⟨.notify id, ()⟩ :: past) a :=
  fun _ => ⟨past, rfl⟩

theorem reviveRoom_upholds {id : String} {r : SendMessageRequest} {state : RoomState}
    {now : OffsetDateTime} {Q : Log → Unit → Prop} (hskip : Q past ())
    (hcall : ∀ from_ to_ changed,
      Q (⟨.updateRoomState id from_ to_ now none, changed⟩ :: past) ()) :
    (reviveRoom id state now).Upholds (Discipline (.sendMessage id r)) past Q := by
  unfold reviveRoom
  split
  · rename_i hstate
    split
    · rename_i to_ hto
      refine .step ⟨.inl rfl, ⟨_, hto⟩, ?_, nofun⟩ fun changed => hcall _ _ _
      rintro rfl
      rcases hstate with rfl | rfl <;> cases hto
    · exact hskip
  · exact hskip

theorem recipientKnown_upholds {id : String} {to_ : Option String} {Q : Log → Bool → Prop}
    (hQ : ∀ newer known, Glances newer → Q (newer ++ past) known) :
    (recipientKnown id to_).Upholds (Discipline req) past Q := by
  unfold recipientKnown
  split
  · exact hQ [] true glances_nil
  · exact .step trivial fun participants => hQ [_] _ (by simp [Call.glance])

/-- The log holds no insert of a capped message. -/
def NoInsert (past : Log) : Prop :=
  ∀ x ∈ past, ∀ id sender recipient body createdAt fromHuman cap,
    x.1 ≠ .createMessageCapped id sender recipient body createdAt fromHuman cap

theorem Glances.noInsert (h : Glances past) : NoInsert past := by
  intro x hx id sender recipient body createdAt fromHuman cap heq
  have hglance := h x hx
  rw [heq] at hglance
  cases hglance

theorem NoInsert.sendAnswered (h : NoInsert past) {id : String} {a : Outcome} :
    SendAnswered id past a := by
  intro sender recipient body createdAt fromHuman cap reply hmem
  exact absurd rfl (h _ hmem _ _ _ _ _ _ _)

/-- The answer of a send agrees with the reply of its one insert. -/
theorem sendAnswered_of_insert (newer : Log) {older : Log} {id sender body : String}
    {recipient : Option String} {createdAt : OffsetDateTime} {fromHuman : Bool} {room : Room}
    {reply : Option Message} (hnewer : NoInsert newer) (holder : NoInsert older)
    (hroom : ⟨.getRoom id, some room⟩ ∈ older) :
    SendAnswered id (newer ++ ⟨.createMessageCapped id sender recipient body createdAt fromHuman
      room.config.hardCap.toNat, reply⟩ :: older) (insertAnswer room.config.hardCap reply) := by
  intro sender' recipient' body' createdAt' fromHuman' cap' reply' hmem
  rcases List.mem_append.mp hmem with hmem | hmem
  · exact absurd rfl (hnewer _ hmem _ _ _ _ _ _ _)
  · rcases List.mem_cons.mp hmem with heq | hmem
    · cases heq
      exact ⟨room, by simp [hroom], rfl, rfl⟩
    · exact absurd rfl (holder _ hmem _ _ _ _ _ _ _)

theorem sendMessage_upholds (id : String) (r : SendMessageRequest) :
    (sendMessage id r).Upholds (Discipline (.sendMessage id r)) []
      fun past a => Rung id past (a.map .sent) ∧ SendAnswered id past (a.map .sent) := by
  refine .step trivial fun room => ?_
  have hrefused : ∀ (past : Log) (e : ApiError), Glances past →
      Rung id past (Except.map Answer.sent (.error e)) ∧
        SendAnswered id past (Except.map Answer.sent (.error e)) :=
    fun past e h => ⟨rung_error, h.noInsert.sendAnswered⟩
  cases room with
  | none => exact hrefused _ _ (by simp [Call.glance])
  | some room =>
    cases hwritable : rejectUnlessWritable room with
    | error e =>
      simp only [hwritable]
      exact hrefused _ _ (by simp [Call.glance])
    | ok _ =>
      simp only [hwritable]
      refine .bind (resolveParticipant_upholds ?_ ?_)
      · intro newer hnewer
        exact hrefused _ _ (by simp [Call.glance, hnewer])
      · intro newer p hnewer hres
        refine .bind (recipientKnown_upholds fun newer' known hnewer' => ?_)
        cases known with
        | false => exact hrefused _ _ (by simp [Call.glance, hnewer, hnewer'])
        | true =>
          refine .step trivial fun now => ?_
          refine .step ⟨⟨r, rfl, rfl, rfl⟩, hres.append.cons, room, by simp, rfl⟩ fun msg => ?_
          have hglances : Glances (⟨.nowUtc, now⟩ :: (newer' ++ (newer ++
              [⟨.getRoom id, some room⟩]))) := by
            simp [Call.glance, hnewer, hnewer']
          cases msg with
          | none =>
            refine ⟨rung_error, ?_⟩
            exact sendAnswered_of_insert [] (by simp [NoInsert]) hglances.noInsert
              (by simp)
          | some msg =>
            refine .step ⟨id, r, _, _, _, _, _, msg, _, rfl, hres.append.cons.cons, rfl⟩ fun _ => ?_
            refine .step ⟨id, r, rfl, hres.append.cons.cons.cons⟩ fun _ => .step trivial fun _ => ?_
            refine .bind (reviveRoom_upholds ?_ ?_)
            · refine .step rfl fun _ => ⟨rung_notify, ?_⟩
              exact sendAnswered_of_insert [_, _, _, _] (by simp [NoInsert])
                hglances.noInsert (by simp)
            · intro from_ to_ changed
              refine .step rfl fun _ => ⟨rung_notify, ?_⟩
              exact sendAnswered_of_insert [_, _, _, _, _] (by simp [NoInsert])
                hglances.noInsert (by simp)

/-- A sentinel is never a conversation message. -/
theorem signalFields_type {r : SignalRequest} {msgType : MessageType} {severity : Option Severity}
    {body : String} (h : signalFields r = .ok (msgType, severity, body)) : msgType ≠ .msg := by
  unfold signalFields at h
  split at h
  · split at h
    · cases h
    · split at h
      · cases h
      · split_ifs at h
        cases h
        decide
  · split_ifs at h
    cases h
    decide
  · split_ifs at h
    cases h
    decide
  · cases h

theorem blockerPause_upholds {id : String} {r : SignalRequest} {state : RoomState}
    {msgType : MessageType} {now : OffsetDateTime} {Q : Log → Except ApiError Unit → Prop}
    (herr : ∀ past e, Q past (.error e)) (hskip : Q past (.ok ()))
    (hcall : ∀ to_, Q (⟨.updateRoomState id state to_ now r.reason, true⟩ :: past) (.ok ())) :
    (blockerPause id r state msgType now (transition state .pause)).Upholds
      (Discipline (.signalRoom id r)) past Q := by
  unfold blockerPause
  split
  · rename_i to_ hto
    refine .step ⟨.inl rfl, ⟨_, hto⟩, transition_ne (by decide) hto, nofun⟩ fun changed => ?_
    cases changed with
    | true => exact hcall _
    | false => exact herr _ _
  · exact hskip

theorem signalRoom_upholds (id : String) (r : SignalRequest) :
    (signalRoom id r).Upholds (Discipline (.signalRoom id r)) []
      fun past a => Rung id past (a.map .signalled) := by
  refine .step trivial fun room => ?_
  cases room with
  | none => exact rung_error
  | some room =>
    cases hwritable : rejectUnlessWritable room with
    | error e =>
      simp only [hwritable]
      exact rung_error
    | ok _ =>
      simp only [hwritable]
      refine .bind (resolveParticipant_upholds (fun _ _ => rung_error) fun newer p _ hres => ?_)
      cases hfields : signalFields r with
      | error e => exact rung_error
      | ok fields =>
        obtain ⟨msgType, severity, body⟩ := fields
        have htype := signalFields_type hfields
        dsimp only
        split
        · exact rung_error
        · refine .step trivial fun now => .bind (blockerPause_upholds (fun _ _ => rung_error) ?_ ?_)
          · refine .step ⟨rfl, hres.cons, rfl, htype⟩ fun msg => ?_
            exact .step rfl fun _ => rung_notify
          · intro to_
            refine .step ⟨rfl, hres.cons.cons, rfl, htype⟩ fun msg => ?_
            exact .step rfl fun _ => rung_notify

theorem closeNow_upholds {id : String} {r : LifecycleRequest} {from_ : RoomState}
    {now : OffsetDateTime} {Q : Log → Except ApiError Unit → Prop}
    (hcounted : r.force = false → Counted id from_ now past)
    (herr : ∀ past e, Q past (.error e)) (hok : ∀ past, Q (⟨.notify id, ()⟩ :: past) (.ok ())) :
    (closeNow id from_ now).Upholds (Discipline (.closeRoom id r)) past Q := by
  have hring : ∀ past : Log, (do
      perform (.clearCloseVotes id)
      perform (.notify id)
      return .ok () : Task (Except ApiError Unit)).Upholds (Discipline (.closeRoom id r)) past Q :=
    fun past => .step ⟨r, rfl⟩ fun _ => .step rfl fun _ => hok _
  unfold closeNow
  split
  · exact herr _ _
  · rename_i to_ hto
    have hclose : (Request.closeRoom id r).consensusClose = true → Counted id from_ now past :=
      fun h => hcounted (by simpa [Request.consensusClose] using h)
    refine .step ⟨.inl rfl, ⟨_, hto⟩, transition_ne (by decide) hto, hclose⟩ fun changed => ?_
    cases changed with
    | true => exact hring _
    | false =>
      refine .step trivial fun cur => ?_
      cases cur with
      | none => exact herr _ _
      | some cur =>
        by_cases hterm : cur.state.terminal = true
        · simp only [hterm, ↓reduceIte]
          exact hring _
        · simp only [hterm]
          exact herr _ _

theorem closeRoom_upholds (id : String) (r : LifecycleRequest) :
    (closeRoom id r).Upholds (Discipline (.closeRoom id r)) []
      fun past a => Rung id past (a.map .closed) := by
  refine .step trivial fun room => ?_
  cases room with
  | none => exact rung_error
  | some room =>
    by_cases hterm : room.state.terminal = true
    · simp only [hterm, ↓reduceIte]
      exact rung_error
    · simp only [hterm]
      refine .bind (resolveParticipant_upholds (fun _ _ => rung_error) fun newer p _ hres => ?_)
      refine .step trivial fun now => ?_
      by_cases hforce : r.force = true
      · simp only [hforce, ↓reduceIte]
        exact .bind (closeNow_upholds (fun h => absurd (h.symm.trans hforce) (by decide))
          (fun _ _ => rung_error) fun _ => rung_notify)
      · simp only [hforce]
        refine .step ⟨id, _, rfl, hres.cons, rfl⟩ fun _ => ?_
        refine .step ⟨id, r, _, rfl, hres.cons.cons, rfl⟩ fun _ => .step trivial fun participants => ?_
        split
        · rename_i hvotes
          refine .bind (closeNow_upholds (fun _ => ?_) (fun _ _ => rung_error) fun _ => rung_notify)
          exact .mk (List.mem_append_right _ List.mem_cons_self) rfl hres hvotes
        · exact .step rfl fun _ => rung_notify

/-- The answer of an extend agrees with the reply of its one vote. -/
theorem extendAnswered_of_vote (newer : Log) {older : Log} {id voter : String} {step : UInt32}
    {now cutoff : OffsetDateTime} {quorum : CloseQuorum} {outcome : ExtendOutcome}
    {response : ExtendResponse} (h : Reports response outcome) :
    ExtendAnswered id (newer ++ ⟨.tryExtend id voter step now cutoff quorum, outcome⟩ :: older)
      (.ok (.extended response)) := by
  intro response' heq
  cases heq
  exact ⟨voter, step, now, cutoff, quorum, outcome, by simp, h⟩

theorem extendRoom_upholds (id : String) (r : Caller) :
    (extendRoom id r).Upholds (Discipline (.extendRoom id r)) []
      fun past a => Rung id past (a.map .extended) ∧ ExtendAnswered id past (a.map .extended) := by
  have hrefused : ∀ (past : Log) (e : ApiError),
      Rung id past (Except.map Answer.extended (.error e)) ∧
        ExtendAnswered id past (Except.map Answer.extended (.error e)) :=
    fun past e => ⟨rung_error, nofun⟩
  refine .step trivial fun room => ?_
  cases room with
  | none => exact hrefused _ _
  | some room =>
    by_cases hhalted : room.state.halted = true
    · simp only [hhalted, ↓reduceIte]
      exact hrefused _ _
    · simp only [hhalted]
      refine .bind (resolveParticipant_upholds (fun _ _ => hrefused _ _) fun newer p _ hres => ?_)
      refine .step trivial fun now => ?_
      refine .step ⟨⟨r, rfl⟩, hres.cons, rfl, rfl, ⟨room, by simp, rfl⟩, _, rfl⟩ fun outcome => ?_
      cases outcome with
      | extended cap =>
        refine .step ⟨rfl, hres.cons.cons, rfl, by decide⟩ fun msg => ?_
        refine .step rfl fun _ => ⟨rung_notify, ?_⟩
        exact extendAnswered_of_vote [_, _] ⟨rfl, rfl⟩
      | proposed votes needed =>
        refine .step rfl fun _ => ⟨rung_notify, ?_⟩
        exact extendAnswered_of_vote [_] ⟨rfl, rfl⟩

theorem applyTransition_upholds {id : String} {r : LifecycleRequest} {event : LifecycleEvent}
    {detail : Option String} (hroom : req.room = some id) (hclose : req.consensusClose = false)
    (hne : event ≠ .message) :
    (applyTransition id r event detail).Upholds (Discipline req) []
      fun past a => Rung id past (a.map .transitioned) := by
  refine .step trivial fun room => ?_
  cases room with
  | none => exact rung_error
  | some room =>
    refine .bind (resolveParticipant_upholds (fun _ _ => rung_error) fun newer p _ hres => ?_)
    cases hto : transition room.state event with
    | none => exact rung_error
    | some to_ =>
      refine .step trivial fun now => ?_
      refine .step ⟨.inl hroom, ⟨_, hto⟩, transition_ne hne hto,
        fun h => absurd (hclose.symm.trans h) (by decide)⟩ fun changed => ?_
      cases changed with
      | false => exact rung_error
      | true => exact .step hroom fun _ => rung_notify

end ChatBotChat
