/-
What a request has found out before it writes.

A timestamp that a call writes is one that its request has read from the clock; a
message, a vote and a bump of the cap go to a room that the request has read and
found open; and a request inserts one message at most.  `GuardedCall` says so of
every call of every request, from the log of the request alone, and
`Acknowledges` says of an answered send or signal that its message is there.
-/
import ChatBotChat.Acting
import ChatBotChat.Closing
import ChatBotChat.Torn

namespace ChatBotChat

open Interleave Lifecycle

variable {app : AppState} {req : Request} {past newer : Log} {id inst handle : String}
  {now : OffsetDateTime} {room : Room} {k : Call}

/-! ### What a log shows -/

/-- The room was read, and it had not ended. -/
def ReadOpen (id : String) (past : Log) : Prop :=
  ∃ room : Room, ⟨.getRoom id, some room⟩ ∈ past ∧ room.state.terminal = false

/-- The clock was read, and this is what it showed. -/
def ReadClock (now : OffsetDateTime) (past : Log) : Prop := ⟨.nowUtc, now⟩ ∈ past

/-- The room was found. -/
def FoundRoom (id : String) (past : Log) : Prop := ∃ room : Room, ⟨.getRoom id, some room⟩ ∈ past

/-- The clock was read after the room was found. -/
def ReadSince (id : String) (now : OffsetDateTime) (past : Log) : Prop :=
  ∃ newer older : Log, past = newer ++ ⟨.nowUtc, now⟩ :: older ∧ FoundRoom id older

theorem ReadOpen.mono {past' : Log} (h : ReadOpen id past) (hsub : past ⊆ past') :
    ReadOpen id past' := by
  obtain ⟨room, hmem, hopen⟩ := h
  exact ⟨room, hsub hmem, hopen⟩

theorem ReadClock.mono {past' : Log} (h : ReadClock now past) (hsub : past ⊆ past') :
    ReadClock now past' := hsub h

theorem ReadOpen.cons {x : Sigma Call.Reply} (h : ReadOpen id past) : ReadOpen id (x :: past) :=
  h.mono (List.subset_cons_self _ _)

theorem ReadClock.cons {x : Sigma Call.Reply} (h : ReadClock now past) :
    ReadClock now (x :: past) := h.mono (List.subset_cons_self _ _)

theorem ReadSince.append (h : ReadSince id now past) : ReadSince id now (newer ++ past) := by
  obtain ⟨newer', older, rfl, hfound⟩ := h
  exact ⟨newer ++ newer', older, (List.append_assoc _ _ _).symm, hfound⟩

theorem ReadSince.cons {x : Sigma Call.Reply} (h : ReadSince id now past) :
    ReadSince id now (x :: past) := by
  obtain ⟨newer, older, rfl, hfound⟩ := h
  exact ⟨x :: newer, older, rfl, hfound⟩

theorem ReadSince.clock (h : ReadSince id now past) : ReadClock now past := by
  obtain ⟨newer, older, rfl, -⟩ := h
  exact List.mem_append_right _ List.mem_cons_self

/-- What the handler of `req` has found out before a call that writes. -/
def GuardedCall (req : Request) (past : Log) : Call → Prop
  | .createRoom room => ReadClock room.startedAt past ∧ room.lastActivityAt = room.startedAt ∧
      room.stateChangedAt = room.startedAt
  | .updateRoomState _ _ _ now _ => ReadClock now past
  | .touchLastActivity id now => req.room = some id ∧ ReadOpen id past ∧ ReadSince id now past
  | .createParticipant p => ReadSince p.roomId p.joinedAt past ∧ p.lastPollAt = p.joinedAt
  | .setCloseVote _ (some now) => (∃ id, req.room = some id ∧ ReadOpen id past) ∧ ReadClock now past
  | .touchLastPoll _ now => ReadClock now past
  | .tryExtend id _ _ now _ _ => req.room = some id ∧ ReadOpen id past ∧ ReadClock now past
  | .createMessageTyped id _ _ _ now _ _ _ | .createMessageCapped id _ _ _ now _ _ =>
      req.room = some id ∧ ReadOpen id past ∧ ReadSince id now past ∧ ¬ Posted past
  | _ => True

/-- The calls that nothing has to be found out for. -/
def Call.free : Call → Bool
  | .createRoom _ | .updateRoomState _ _ _ _ _ | .touchLastActivity _ _ | .createParticipant _
  | .setCloseVote _ (some _) | .touchLastPoll _ _ | .tryExtend _ _ _ _ _ _
  | .createMessageTyped _ _ _ _ _ _ _ _ | .createMessageCapped _ _ _ _ _ _ _ => false
  | _ => true

/-- A free call, or a transition stamped with `now`. -/
def Call.StampedBy (now : OffsetDateTime) : Call → Prop
  | .updateRoomState _ _ _ t _ => t = now
  | k => k.free = true

theorem guarded_of_free (hk : k.free = true) : GuardedCall req past k := by
  cases k
  case setCloseVote handle at_ =>
    cases at_
    · exact trivial
    · cases hk
  all_goals first | exact trivial | cases hk

theorem free_of_glance (hk : k.glance = true) : k.free = true := by
  cases k <;> first | rfl | cases hk

theorem guarded_of_stamped (hk : k.StampedBy now) (hnow : ReadClock now past) :
    GuardedCall req past k := by
  cases k
  case updateRoomState id from_ to_ t detail =>
    obtain rfl : t = now := hk
    exact hnow
  all_goals exact guarded_of_free hk

/-! ### Rules -/

/-- A piece that only looks. -/
theorem Looks.guarded {α : Type} {n : ℕ} {p : Task α} (h : Looks n p) {Q : Log → α → Prop}
    (hQ : ∀ newer a, Glances newer → Q (newer ++ past) a) :
    p.Upholds (GuardedCall req) past Q := by
  refine (Prog.Only.upholds h fun newer c hc => guarded_of_free (free_of_glance hc)).mono ?_
  rintro _ a ⟨newer, rfl, _, hnewer⟩
  exact hQ newer a hnewer

/-- A piece all of whose transitions are stamped with a clock that was read. -/
theorem guarded_of_calls {α : Type} {p : Task α} (h : p.Calls (·.StampedBy now))
    (hnow : ReadClock now past) {Q : Log → α → Prop}
    (hQ : ∀ past' a, past <:+ past' → Q past' a) : p.Upholds (GuardedCall req) past Q := by
  refine (h.upholds fun past' c hsuf hc => ?_).mono fun past' a => hQ past' a
  exact guarded_of_stamped hc (hnow.mono hsuf.subset)

/-- A piece of free calls. -/
theorem guarded_of_freeCalls {α : Type} {p : Task α} (h : p.Calls (·.free = true))
    {Q : Log → α → Prop} (hQ : ∀ past' a, past <:+ past' → Q past' a) :
    p.Upholds (GuardedCall req) past Q :=
  (h.upholds fun _ _ _ hc => guarded_of_free hc).mono fun past' a => hQ past' a

theorem Looks.freeCalls {α : Type} {n : ℕ} {q : Task α} (h : Looks n q) :
    q.Calls (·.free = true) := Prog.Only.calls (fun _ => free_of_glance) h

theorem looks_resolveParticipant : Looks 2 (resolveParticipant id inst) := by
  refine (Looks.perform rfl).bind (n := 1) fun byInstance => ?_
  cases byInstance with
  | some p => exact .pure _
  | none => exact Looks.perform rfl

theorem looks_recipientKnown {to_ : Option String} : Looks 1 (recipientKnown id to_) := by
  cases to_ with
  | none => exact .pure _
  | some h => exact (Looks.perform rfl).bind (n := 0) fun _ => .pure _

/-! ### Opening, joining and sweeping -/

theorem openRoom_guarded (r : OpenRoomRequest) :
    (openRoom r).Upholds (GuardedCall req) [] fun _ _ => True := by
  refine .step trivial fun now => ?_
  cases hopen : openConfig r with
  | error e => exact trivial
  | ok config =>
    refine Prog.upholds_iterate (fun past _ => ReadClock now past) (by simp [ReadClock]) ?_
    intro past tried hnow
    refine .step ⟨hnow, rfl, rfl⟩ fun outcome => ?_
    cases outcome with
    | inserted => exact trivial
    | uniqueViolation =>
      by_cases hlt : tried + 1 < MAX_ATTEMPTS
      · simp only [hlt, ↓reduceIte]
        exact hnow.mono (List.subset_cons_self _ _)
      · simp only [hlt, ↓reduceIte]
        exact trivial

theorem renameIfSupplied_freeCalls {nickname : Option String} :
    (renameIfSupplied handle nickname).Calls (·.free = true) := by
  unfold renameIfSupplied
  split
  · exact ⟨rfl, fun _ => trivial⟩
  · exact trivial

theorem recentMessageViewsUpTo_freeCalls {maxSeq : ℕ} :
    (recentMessageViewsUpTo id maxSeq).Calls (·.free = true) := .step rfl fun _ => trivial

theorem joinAttempt_guarded {startSeq : ℕ} {nickname : Option String} {ident : JoinIdentity}
    {tried : ℕ} (hfound : FoundRoom id past) :
    (joinAttempt id room startSeq nickname ident tried).Upholds (GuardedCall req) past
      fun past' _ => FoundRoom id past' := by
  have hlater : ∀ past' : Log, past <:+ past' → FoundRoom id past' := by
    intro past' hsuf
    obtain ⟨room, hmem⟩ := hfound
    exact ⟨room, hsuf.subset hmem⟩
  refine .step trivial fun roster => .step trivial fun sess => ?_
  have hdrawn : past <:+ ⟨.randSessCandidates, sess⟩ :: ⟨.listParticipants id, roster⟩ :: past :=
    (List.suffix_cons _ _).trans (List.suffix_cons _ _)
  cases hderive : deriveHandle ident roster (sess.map sessHex) with
  | reused h =>
    refine guarded_of_freeCalls ?_ fun past' _ hsuf => hlater past' (hdrawn.trans hsuf)
    refine .bind renameIfSupplied_freeCalls fun _ => .step rfl fun row => ?_
    exact .bind recentMessageViewsUpTo_freeCalls fun recent => trivial
  | created handle =>
    refine .step trivial fun now => .step ⟨⟨[], _, rfl, hlater _ hdrawn⟩, rfl⟩ fun outcome => ?_
    have hminted := (hdrawn.trans (List.suffix_cons ⟨.nowUtc, now⟩ _)).trans
      (List.suffix_cons ⟨.createParticipant ⟨handle, id, ident.repo, ident.model, ident.cwd,
        ident.inst, now, now, startSeq, nickname, none, none⟩, outcome⟩ _)
    cases outcome with
    | inserted =>
      refine guarded_of_freeCalls (.bind recentMessageViewsUpTo_freeCalls fun recent => ?_)
        fun past' _ hsuf => hlater past' (hminted.trans hsuf)
      exact trivial
    | uniqueViolation =>
      by_cases hlt : tried + 1 < MAX_ATTEMPTS
      · simp only [hlt, ↓reduceIte]
        refine guarded_of_freeCalls (.step rfl fun row => ?_)
          fun past' _ hsuf => hlater past' (hminted.trans hsuf)
        cases row with
        | some p => exact .bind recentMessageViewsUpTo_freeCalls fun recent => trivial
        | none => exact trivial
      · simp only [hlt, ↓reduceIte]
        exact hlater _ hminted

theorem joinRoom_guarded (id : String) (r : JoinRoomRequest) :
    (joinRoom id r).Upholds (GuardedCall req) [] fun _ _ => True := by
  refine .step trivial fun room => ?_
  cases room with
  | none => exact trivial
  | some room =>
    refine .step trivial fun startSeq =>
      .bind (looks_resolveParticipant.guarded fun newer found _ => ?_)
    cases found with
    | some p =>
      refine guarded_of_freeCalls (.bind renameIfSupplied_freeCalls fun _ => ?_) fun _ _ _ => trivial
      exact .bind recentMessageViewsUpTo_freeCalls fun recent => trivial
    | none =>
      refine Prog.upholds_iterate (fun past _ => FoundRoom id past) ⟨room, by simp⟩ ?_
      intro past tried hfound
      refine (joinAttempt_guarded hfound).mono ?_
      rintro past' (s | a) h
      · exact h
      · trivial

theorem sweepRooms_stamped (now : OffsetDateTime) (rooms : List Room) :
    (sweepRooms now rooms).Calls (·.StampedBy now) := by
  have hroom : ∀ room, (sweepRoom now room).Calls (·.StampedBy now) := by
    intro room
    refine .step rfl fun participants => ?_
    cases hevent : computeTimeEvent room.state room.lastActivityAt room.stateChangedAt
        (participants.map Participant.lastPollAt) now with
    | none =>
      simp only [hevent]
      exact trivial
    | some event =>
      obtain ⟨to_, hto, -⟩ := transition_computeTimeEvent hevent
      simp only [hevent, hto]
      exact .step rfl fun changed => trivial
  induction rooms with
  | nil => exact trivial
  | cons room rooms ih => exact .bind (hroom room) fun _ => .bind ih fun _ => trivial

theorem sweepTick_guarded : sweepTick.Upholds (GuardedCall req) [] fun _ _ => True :=
  .step trivial fun now => .step trivial fun rooms =>
    guarded_of_calls (sweepRooms_stamped now rooms) (by simp [ReadClock]) fun _ _ _ => trivial

/-! ### Writers -/

/-- A room that takes traffic has not ended. -/
theorem open_of_writable {u : Unit} (h : rejectUnlessWritable room = .ok u) :
    room.state.terminal = false := by
  unfold rejectUnlessWritable at h
  split at h
  case h_1 hstate => rw [hstate]; rfl
  case h_2 hstate => rw [hstate]; rfl
  case h_3 hstate => rw [hstate]; rfl
  all_goals cases h

theorem open_of_not_halted (h : room.state.halted = false) : room.state.terminal = false := by
  cases hstate : room.state <;> rw [hstate] at h <;> first | rfl | cases h

theorem reviveRoom_stamped {state : RoomState} :
    (reviveRoom id state now).Calls (·.StampedBy now) := by
  unfold reviveRoom
  split
  · split
    · exact .step rfl fun _ => trivial
    · exact trivial
  · exact trivial

theorem closeNow_stamped {from_ : RoomState} : (closeNow id from_ now).Calls (·.StampedBy now) := by
  have hring : (do
      perform (.clearCloseVotes id)
      perform (.notify id)
      return .ok () : Task (Except ApiError Unit)).Calls (·.StampedBy now) :=
    .step rfl fun _ => .step rfl fun _ => trivial
  unfold closeNow
  split
  · exact trivial
  · refine .step rfl fun changed => ?_
    cases changed with
    | true => exact hring
    | false =>
      refine .step rfl fun cur => ?_
      cases cur with
      | none => exact trivial
      | some cur =>
        by_cases hterm : cur.state.terminal = true
        · simp only [hterm, ↓reduceIte]
          exact hring
        · simp only [hterm]
          exact trivial

/-- The call inserts what the request asks for. -/
def Call.CarriesOut (req : Request) (k : Call) : Prop :=
  match req with
  | .sendMessage id r => ∃ sender now cap,
      k = .createMessageCapped id sender r.to_ r.body now r.fromHuman cap
  | .signalRoom id r => ∃ sender now msgType severity body,
      signalFields r = .ok (msgType, severity, body) ∧
        k = .createMessageTyped id sender none body now msgType severity r.questionText
  | _ => False

/-- The number a send or a signal is answered with. -/
def Outcome.seq : Outcome → Option ℕ
  | .ok (.sent seq) | .ok (.signalled seq) => some seq
  | _ => none

/-- A number in an answer is that of a message that the request has inserted. -/
def Acknowledges (req : Request) (past : Log) (a : Outcome) : Prop :=
  ∀ seq, Outcome.seq a = some seq → ∃ x ∈ past, x.1.CarriesOut req ∧
    ∃ m, x.1.landed x.2 = some m ∧ m.seq = seq

theorem acknowledges_error {e : ApiError} : Acknowledges req past (.error e) := nofun

theorem sendMessage_guarded (id : String) (r : SendMessageRequest) :
    (sendMessage id r).Upholds (GuardedCall (.sendMessage id r)) []
      fun past a => Acknowledges (.sendMessage id r) past (a.map .sent) := by
  refine .step trivial fun room => ?_
  cases room with
  | none => exact acknowledges_error
  | some room =>
    cases hwritable : rejectUnlessWritable room with
    | error e =>
      simp only [hwritable]
      exact acknowledges_error
    | ok _ =>
      simp only [hwritable]
      refine .bind (looks_resolveParticipant.guarded fun found p hfound => ?_)
      cases p with
      | none => exact acknowledges_error
      | some p =>
        refine .bind (looks_recipientKnown.guarded fun known b hknown => ?_)
        cases b with
        | false => exact acknowledges_error
        | true =>
          refine .step trivial fun now => ?_
          have hglances : Glances (⟨.nowUtc, now⟩ :: (known ++ (found ++
              [⟨.getRoom id, some room⟩]))) := by
            simp [Call.glance, hknown, hfound]
          have hopen : ReadOpen id (⟨.nowUtc, now⟩ :: (known ++ (found ++
              [⟨.getRoom id, some room⟩]))) := ⟨room, by simp, open_of_writable hwritable⟩
          have hnow : ReadSince id now (⟨.nowUtc, now⟩ :: (known ++ (found ++
              [⟨.getRoom id, some room⟩]))) := ⟨[], _, rfl, room, by simp⟩
          generalize ⟨.nowUtc, now⟩ :: (known ++ (found ++ [⟨.getRoom id, some room⟩])) = past
            at hglances hopen hnow
          refine .step ⟨rfl, hopen, hnow, hglances.not_posted⟩ fun reply => ?_
          cases reply with
          | none => exact acknowledges_error
          | some m =>
            refine .step trivial fun _ => .step trivial fun _ => ?_
            refine .step ⟨rfl, hopen.cons.cons.cons, hnow.cons.cons.cons⟩ fun _ => .bind ?_
            refine guarded_of_calls reviveRoom_stamped hnow.cons.cons.cons.cons.clock
              fun past' _ hsuf => .step trivial fun _ => ?_
            intro seq hseq
            obtain rfl : m.seq = seq := Option.some_inj.mp hseq
            refine ⟨⟨.createMessageCapped id p.handle r.to_ r.body now r.fromHuman
              room.config.hardCap.toNat, some m⟩, ?_, ⟨_, _, _, rfl⟩, m, rfl, rfl⟩
            exact List.mem_cons_of_mem _ (hsuf.subset (by simp))

/-- Before its insert, a blocker signal makes no call that posts. -/
theorem blockerPause_guarded {r : SignalRequest} {state : RoomState} {msgType : MessageType}
    {pauseTo : Option RoomState} (hnow : ReadClock now past) {Q : Log → Except ApiError Unit → Prop}
    (hQ : ∀ newer a, (∀ x ∈ newer, x.1.landed x.2 = none) → Q (newer ++ past) a) :
    (blockerPause id r state msgType now pauseTo).Upholds (GuardedCall req) past Q := by
  unfold blockerPause
  split
  · refine .step hnow fun changed => ?_
    have hnewer : ∀ x ∈ ([⟨.updateRoomState id state _ now r.reason, changed⟩] : Log),
        x.1.landed x.2 = none := by simp [Call.landed]
    cases changed with
    | true => exact hQ [_] _ hnewer
    | false => exact hQ [_] _ hnewer
  · exact hQ [] _ (by simp)

theorem signalRoom_guarded (id : String) (r : SignalRequest) :
    (signalRoom id r).Upholds (GuardedCall (.signalRoom id r)) []
      fun past a => Acknowledges (.signalRoom id r) past (a.map .signalled) := by
  refine .step trivial fun room => ?_
  cases room with
  | none => exact acknowledges_error
  | some room =>
    cases hwritable : rejectUnlessWritable room with
    | error e =>
      simp only [hwritable]
      exact acknowledges_error
    | ok _ =>
      simp only [hwritable]
      refine .bind (looks_resolveParticipant.guarded fun found p hfound => ?_)
      cases p with
      | none => exact acknowledges_error
      | some p =>
        cases hfields : signalFields r with
        | error e => exact acknowledges_error
        | ok fields =>
          obtain ⟨msgType, severity, body⟩ := fields
          dsimp only
          split
          · exact acknowledges_error
          · refine .step trivial fun now => ?_
            have hglances : Glances (⟨.nowUtc, now⟩ :: (found ++ [⟨.getRoom id, some room⟩])) := by
              simp [Call.glance, hfound]
            have hopen : ReadOpen id (⟨.nowUtc, now⟩ :: (found ++ [⟨.getRoom id, some room⟩])) :=
              ⟨room, by simp, open_of_writable hwritable⟩
            have hnow : ReadSince id now (⟨.nowUtc, now⟩ :: (found ++ [⟨.getRoom id, some room⟩])) :=
              ⟨[], _, rfl, room, by simp⟩
            generalize ⟨.nowUtc, now⟩ :: (found ++ [⟨.getRoom id, some room⟩]) = past
              at hglances hopen hnow
            refine .bind (blockerPause_guarded hnow.clock fun newer paused hnewer => ?_)
            cases paused with
            | error e => exact acknowledges_error
            | ok _ =>
              have hsub : past ⊆ newer ++ past := List.subset_append_right _ _
              have hposted : ¬ Posted (newer ++ past) := by
                rintro ⟨x, hx, hlanded⟩
                rcases List.mem_append.mp hx with hx | hx
                · rw [hnewer x hx] at hlanded
                  cases hlanded
                · exact hglances.not_posted ⟨x, hx, hlanded⟩
              refine .step ⟨rfl, hopen.mono hsub, hnow.append, hposted⟩ fun m => ?_
              refine .step trivial fun _ => ?_
              intro seq hseq
              obtain rfl : m.seq = seq := Option.some_inj.mp hseq
              exact ⟨⟨.createMessageTyped id p.handle none body now msgType severity r.questionText,
                m⟩, by simp, ⟨_, _, _, _, _, hfields, rfl⟩, m, rfl, rfl⟩

theorem closeRoom_guarded (id : String) (r : LifecycleRequest) :
    (closeRoom id r).Upholds (GuardedCall (.closeRoom id r)) [] fun _ _ => True := by
  refine .step trivial fun room => ?_
  cases room with
  | none => exact trivial
  | some room =>
    by_cases hterm : room.state.terminal = true
    · simp only [hterm, ↓reduceIte]
      exact trivial
    · simp only [hterm]
      refine .bind (looks_resolveParticipant.guarded fun found p hfound => ?_)
      cases p with
      | none => exact trivial
      | some p =>
        refine .step trivial fun now => ?_
        have hnow : ReadClock now (⟨.nowUtc, now⟩ :: (found ++ [⟨.getRoom id, some room⟩])) :=
          List.mem_cons_self
        have hopen : ReadOpen id (⟨.nowUtc, now⟩ :: (found ++ [⟨.getRoom id, some room⟩])) :=
          ⟨room, by simp, Bool.eq_false_iff.mpr hterm⟩
        generalize ⟨.nowUtc, now⟩ :: (found ++ [⟨.getRoom id, some room⟩]) = past at hopen hnow
        by_cases hforce : r.force = true
        · simp only [hforce, ↓reduceIte]
          refine .bind (guarded_of_calls closeNow_stamped hnow fun _ closed _ => ?_)
          cases closed <;> exact trivial
        · simp only [hforce]
          refine .step hnow fun _ => .step ⟨⟨id, rfl, hopen.cons⟩, hnow.cons⟩ fun _ => ?_
          refine .step trivial fun participants => ?_
          split
          · refine .bind (guarded_of_calls closeNow_stamped hnow.cons.cons.cons fun _ closed _ => ?_)
            cases closed <;> exact trivial
          · exact .step trivial fun _ => trivial

theorem extendRoom_guarded (id : String) (r : Caller) :
    (extendRoom id r).Upholds (GuardedCall (.extendRoom id r)) [] fun _ _ => True := by
  refine .step trivial fun room => ?_
  cases room with
  | none => exact trivial
  | some room =>
    by_cases hhalted : room.state.halted = true
    · simp only [hhalted, ↓reduceIte]
      exact trivial
    · simp only [hhalted]
      refine .bind (looks_resolveParticipant.guarded fun found p hfound => ?_)
      cases p with
      | none => exact trivial
      | some p =>
        refine .step trivial fun now => ?_
        have hglances : Glances (⟨.nowUtc, now⟩ :: (found ++ [⟨.getRoom id, some room⟩])) := by
          simp [Call.glance, hfound]
        have hnow : ReadSince id now (⟨.nowUtc, now⟩ :: (found ++ [⟨.getRoom id, some room⟩])) :=
          ⟨[], _, rfl, room, by simp⟩
        have hopen : ReadOpen id (⟨.nowUtc, now⟩ :: (found ++ [⟨.getRoom id, some room⟩])) :=
          ⟨room, by simp, open_of_not_halted (Bool.eq_false_iff.mpr hhalted)⟩
        generalize ⟨.nowUtc, now⟩ :: (found ++ [⟨.getRoom id, some room⟩]) = past
          at hglances hopen hnow
        refine .step ⟨rfl, hopen, hnow.clock⟩ fun outcome => ?_
        cases outcome with
        | extended cap =>
          refine .step ⟨rfl, hopen.cons, hnow.cons, ?_⟩ fun m => .step trivial fun _ => trivial
          simpa [Call.landed] using hglances.not_posted
        | proposed votes needed => exact .step trivial fun _ => trivial

theorem applyTransition_guarded {r : LifecycleRequest} {event : LifecycleEvent}
    {detail : Option String} :
    (applyTransition id r event detail).Upholds (GuardedCall req) [] fun _ _ => True := by
  refine .step trivial fun room => ?_
  cases room with
  | none => exact trivial
  | some room =>
    refine .bind (looks_resolveParticipant.guarded fun found p _ => ?_)
    cases p with
    | none => exact trivial
    | some p =>
      cases hto : transition room.state event with
      | none => exact trivial
      | some to_ =>
        refine .step trivial fun now => .step (by simp [GuardedCall, ReadClock]) fun changed => ?_
        cases changed with
        | false => exact trivial
        | true => exact .step trivial fun _ => trivial

/-! ### Waiting -/

theorem claimNextUnread_freeCalls : (claimNextUnread id handle).Calls (·.free = true) := by
  refine .iterate fun _ => .step rfl fun cursor => ?_
  cases cursor with
  | none => exact trivial
  | some cursor =>
    refine .step rfl fun m => ?_
    cases m with
    | none => exact trivial
    | some m =>
      refine .step rfl fun claimed => ?_
      cases claimed <;> exact trivial

theorem waitForMessageUntil_guarded {timeout : ℕ} {yields : Task Bool}
    (hyields : yields.Calls (·.free = true)) {Q : Log → WaitOutcome → Prop}
    (hQ : ∀ past a, Q past a) :
    (waitForMessageUntil id handle timeout yields).Upholds (GuardedCall req) past Q := by
  refine .step trivial fun now => .step (by simp [GuardedCall, ReadClock]) fun _ => ?_
  refine guarded_of_freeCalls (.step rfl fun rx => .step rfl fun start => .iterate fun _ => ?_)
    fun _ _ _ => hQ _ _
  refine .bind claimNextUnread_freeCalls fun m => ?_
  cases m with
  | some m => exact trivial
  | none =>
    refine .step rfl fun instant => ?_
    by_cases hlate : start + timeout ≤ instant
    · simp only [hlate, ↓reduceIte]
      exact trivial
    · simp only [hlate]
      refine .bind hyields fun stop => ?_
      cases stop with
      | true => exact trivial
      | false =>
        refine .step rfl fun outcome => ?_
        cases outcome with
        | ping => exact trivial
        | lagged => exact trivial
        | elapsed => exact trivial
        | closed =>
          refine .bind claimNextUnread_freeCalls fun m => ?_
          cases m <;> exact trivial

theorem waitRoom_guarded (app : AppState) (id : String) (r : WaitRequest) :
    (waitRoom app id r).Upholds (GuardedCall req) [] fun _ _ => True := by
  refine .step trivial fun room => ?_
  cases room with
  | none => exact trivial
  | some room =>
    refine .bind (looks_resolveParticipant.guarded fun found caller _ => ?_)
    cases caller with
    | none => exact trivial
    | some caller =>
      refine .step trivial fun now => .step (by simp [GuardedCall, ReadClock]) fun _ => ?_
      by_cases hhalted : room.state.halted = true
      · simp only [hhalted, ↓reduceIte]
        have hnever : (pure false : Task Bool).Calls (·.free = true) := trivial
        refine .bind (waitForMessageUntil_guarded hnever fun _ outcome => ?_)
        cases outcome <;> exact trivial
      · simp only [hhalted]
        refine .bind (looks_hasCounterpart.guarded fun _ counterpart _ => ?_)
        cases counterpart with
        | false => exact trivial
        | true =>
          refine .bind (looks_parkCap.guarded fun _ cap _ => ?_)
          refine .bind (waitForMessageUntil_guarded looks_waitRelevantChange.freeCalls
            fun _ outcome => ?_)
          refine .bind (looks_activeSentinelBackoff.guarded fun _ away _ => ?_)
          refine .bind (looks_retryHint.guarded fun _ retryAfter _ => ?_)
          cases outcome with
          | message m => exact .step trivial fun consecutive => trivial
          | pausedByTimeout => exact looks_timeoutResponse.guarded fun _ _ _ => trivial

/-! ### Every request -/

theorem serve_guarded (app : AppState) (req : Request) :
    (serve app req).Upholds (GuardedCall req) [] (Acknowledges req) := by
  have hanswering : ∀ {α : Type} {f : α → Answer} {handler : Task (Except ApiError α)},
      (∀ a, Outcome.seq (.ok (f a)) = none) →
        handler.Upholds (GuardedCall req) [] (fun _ _ => True) →
          (answering f handler).Upholds (GuardedCall req) [] (Acknowledges req) := by
    intro α f handler hseq h
    refine upholds_answering.mpr (h.mono ?_)
    rintro past (e | a) - seq h
    · cases h
    · rw [Except.map, hseq] at h
      cases h
  cases req with
  | openRoom r => exact hanswering (fun _ => rfl) (openRoom_guarded r)
  | listRooms state all =>
    exact hanswering (fun _ => rfl) (.step trivial fun rows => trivial)
  | joinRoom id r => exact hanswering (fun _ => rfl) (joinRoom_guarded id r)
  | sendMessage id r => exact upholds_answering.mpr (sendMessage_guarded id r)
  | signalRoom id r => exact upholds_answering.mpr (signalRoom_guarded id r)
  | waitRoom id r => exact hanswering (fun _ => rfl) (waitRoom_guarded app id r)
  | closeRoom id r => exact hanswering (fun _ => rfl) (closeRoom_guarded id r)
  | extendRoom id r => exact hanswering (fun _ => rfl) (extendRoom_guarded id r)
  | pauseRoom id r => exact hanswering (fun _ => rfl) applyTransition_guarded
  | wakeRoom id r => exact hanswering (fun _ => rfl) applyTransition_guarded
  | pruneRoom id =>
    refine hanswering (fun _ => rfl) (.step trivial fun room => ?_)
    cases room with
    | none => exact trivial
    | some room =>
      exact .step trivial fun now => .step trivial fun pruned => .step trivial fun remaining => trivial
  | sweep => exact .bind (sweepTick_guarded.mono fun _ _ _ => nofun)
  | claimNextUnread id handle =>
    exact .bind (guarded_of_freeCalls claimNextUnread_freeCalls fun _ _ _ => nofun)

/-- **Every request of a reachable daemon** has found out what it must before it writes. -/
theorem Reachable.guarded {c : Daemon} (h : Reachable app c) :
    System.Upheld GuardedCall Acknowledges c := by
  obtain ⟨utc, instant, hrun⟩ := h
  have hbody : ∀ r, ((daemon app).body r).Upholds (GuardedCall r) [] (Acknowledges r) :=
    serve_guarded app
  exact hrun.upheld hbody

end ChatBotChat
