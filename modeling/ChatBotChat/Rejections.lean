/-
A rejected request changes nothing.

Requests are taken one at a time here, so that a handler is a program by itself
(`Interleave.Alone`) and only the database is looked at.  `Clean db` is what the
answer of every handler satisfies that starts on `db`: an error other than a 500
comes with `db` unchanged.  One lemma per handler runs it call by call; up to
its first write a handler only reads (`Triple.reading`), and behind it the only
answers left are successes (`settled_ok`), except where a read that could send
the handler back finds what it found before.
-/
import ChatBotChat.Reach
import ChatBotChat.Interleave.Alone

namespace ChatBotChat

open Interleave Lifecycle

variable {α β : Type} {P : Db → Prop} {db : Db}

/-- Every answer of a piece of a handler that starts in `P` is one that `Q` allows. -/
abbrev Serves (P : Db → Prop) (p : Task α) (Q : α → Db → Prop) : Prop :=
  Triple Store.exec Store.db P p Q

/-! ### Reading -/

/-- The reply is one that the call gives on `db`. -/
def Told (db : Db) (c : Call) (r : c.Reply) : Prop :=
  ∃ sess s s', s.db = db ∧ Store.exec sess c s = .done r s'

/-- The rule of a call that only reads. -/
theorem Triple.reading {c : Call} (hc : c.keepsDb = true) {k : c.Reply → Task β}
    {T : β → Db → Prop} (hk : ∀ r, Told db c r → Serves (· = db) (k r) T) :
    Serves (· = db) (perform c >>= k) T := by
  refine Triple.step (M := fun r w => w = db ∧ Told db c r) ?_ fun r => ?_
  · intro sess r s s' hdb hexec
    exact ⟨(db_of_keepsDb hc hexec).trans hdb, sess, s, s', hdb, hexec⟩
  · rintro w b w' ⟨rfl, htold⟩ hend
    exact hk r htold w b w' rfl hend

/-- The rule of a call whose effect does not matter. -/
theorem Triple.forget {c : Call} {k : c.Reply → Task β} {T : β → Db → Prop}
    (hk : ∀ r, Serves (fun _ => True) (k r) T) : Serves P (perform c >>= k) T :=
  Triple.step (M := fun _ _ => True) (fun _ _ _ _ _ _ => trivial) hk

/-- The rule of a piece whose effect does not matter. -/
theorem Triple.forgetting {p : Task α} {f : α → Task β} {T : β → Db → Prop}
    (hf : ∀ a, Serves (fun _ => True) (f a) T) : Serves P (p >>= f) T :=
  Triple.bind (M := fun _ _ => True) (fun _ _ _ _ _ => trivial) hf

/-! ### Answers -/

/-- A success, or a failure that is no rejection. -/
def Settled (a : Except ApiError α) (_ : Db) : Prop := ∀ e, a = .error e → e.status = 500

/-- The answer of a handler that started on `db`: rejected means unchanged. -/
def Clean (db : Db) (a : Except ApiError α) (w : Db) : Prop :=
  ∀ e, a = .error e → e.status ≠ 500 → w = db

theorem Settled.clean {a : Except ApiError α} {w : Db} (h : Settled a w) : Clean db a w :=
  fun e he hstatus => absurd (h e he) hstatus

theorem clean_of_settled {p : Task (Except ApiError α)} (h : Serves P p Settled) :
    Serves P p (Clean db) :=
  Triple.imp (fun _ hw => hw) (fun _ _ ha => ha.clean) h

/-- Any answer is clean as long as nothing has been written. -/
theorem clean_pure (a : Except ApiError α) : Serves (· = db) (pure a) (Clean db) :=
  Triple.pure fun _ hw _ _ _ => hw

theorem settled_ok (a : α) : Serves P (pure (.ok a)) Settled :=
  Triple.pure fun _ _ e he => by cases he

theorem clean_ok (a : α) : Serves P (pure (.ok a)) (Clean db) := clean_of_settled (settled_ok a)

/-- Handing a result on as an answer keeps it clean. -/
theorem answering_clean {f : α → Answer} {handler : Task (Except ApiError α)}
    (h : Serves P handler (Clean db)) : Serves P (answering f handler) (Clean db) := by
  refine Triple.bind h fun a => Triple.pure fun w ha e he hstatus => ?_
  cases a with
  | ok a => cases he
  | error e' =>
    cases he
    exact ha e rfl hstatus

/-! ### The handlers -/

theorem resolveParticipant_reading (id inst : String) :
    Serves (· = db) (resolveParticipant id inst) fun _ w => w = db := by
  refine Triple.reading rfl fun byInstance _ => ?_
  cases byInstance with
  | some p => exact Triple.pure fun _ hw => hw
  | none =>
    intro w byHandle w' hw hend
    obtain ⟨_, r, s, s', hexec, rfl, hrest⟩ := hend.call_inv
    obtain ⟨-, rfl⟩ := alone_ret_iff.mp hrest
    exact (db_of_keepsDb rfl hexec).trans hw

theorem recipientKnown_reading (id : String) (to_ : Option String) :
    Serves (· = db) (recipientKnown id to_) fun _ w => w = db := by
  unfold recipientKnown
  split
  · exact Triple.pure fun _ hw => hw
  · exact Triple.reading rfl fun participants _ => Triple.pure fun _ hw => hw

theorem openRoom_clean (r : OpenRoomRequest) : Serves (· = db) (openRoom r) (Clean db) := by
  refine Triple.reading rfl fun now _ => ?_
  cases hconfig : openConfig r with
  | error e => exact clean_pure _
  | ok config =>
    refine clean_of_settled (Triple.iterate (fun _ _ => True) (fun _ _ => trivial) fun tried => ?_)
    refine Triple.forget fun outcome => ?_
    cases outcome with
    | inserted => exact Triple.pure fun _ _ e he => by cases he
    | uniqueViolation =>
      by_cases hlt : tried + 1 < MAX_ATTEMPTS
      · simp only [hlt, ↓reduceIte]
        exact Triple.pure fun _ _ => trivial
      · simp only [hlt, ↓reduceIte]
        refine Triple.pure fun _ _ e he => ?_
        cases he
        rfl

/-- An attempt to mint a participant rejects nothing. -/
theorem joinAttempt_settled (id : String) (room : Room) (startSeq : ℕ) (nickname : Option String)
    (ident : JoinIdentity) (tried : ℕ) :
    Serves P (joinAttempt id room startSeq nickname ident tried) fun x w =>
      match x with
      | .inl _ => True
      | .inr a => Settled a w := by
  refine Triple.forget fun existing => Triple.forget fun sess => ?_
  cases hderive : deriveHandle ident existing (sess.map sessHex) with
  | reused h =>
    refine Triple.forgetting fun _ => Triple.forget fun row => Triple.forgetting fun recent => ?_
    exact Triple.pure fun _ _ e he => by cases he
  | created handle =>
    refine Triple.forget fun now => Triple.forget fun outcome => ?_
    cases outcome with
    | inserted => exact Triple.forgetting fun recent => Triple.pure fun _ _ e he => by cases he
    | uniqueViolation =>
      by_cases hlt : tried + 1 < MAX_ATTEMPTS
      · simp only [hlt, ↓reduceIte]
        refine Triple.forget fun p => ?_
        cases p with
        | some p => exact Triple.forgetting fun recent => Triple.pure fun _ _ e he => by cases he
        | none => exact Triple.pure fun _ _ => trivial
      · simp only [hlt, ↓reduceIte]
        refine Triple.pure fun _ _ e he => ?_
        cases he
        rfl

theorem joinRoom_clean (id : String) (r : JoinRoomRequest) :
    Serves (· = db) (joinRoom id r) (Clean db) := by
  refine Triple.reading rfl fun room _ => ?_
  cases room with
  | none => exact clean_pure _
  | some room =>
    refine clean_of_settled (Triple.forget fun startSeq => Triple.forgetting fun p => ?_)
    cases p with
    | some p =>
      exact Triple.forgetting fun _ => Triple.forgetting fun recent => settled_ok _
    | none =>
      refine Triple.iterate (fun _ _ => True) (fun _ _ => trivial) fun tried => ?_
      refine Triple.imp (fun _ hw => hw) ?_ (joinAttempt_settled _ _ _ _ _ tried)
      rintro (tried' | a) w h
      · trivial
      · exact h

theorem pruneRoom_clean (id : String) : Serves (· = db) (pruneRoom id) (Clean db) := by
  refine Triple.reading rfl fun room _ => ?_
  cases room with
  | none => exact clean_pure _
  | some room =>
    exact Triple.forget fun now => Triple.forget fun pruned => Triple.forget fun remaining =>
      clean_ok _

theorem sendMessage_clean (id : String) (r : SendMessageRequest) :
    Serves (· = db) (sendMessage id r) (Clean db) := by
  refine Triple.reading rfl fun room _ => ?_
  cases room with
  | none => exact clean_pure _
  | some room =>
    cases hwritable : rejectUnlessWritable room with
    | error e =>
      simp only [hwritable]
      exact clean_pure _
    | ok _ =>
      simp only [hwritable]
      refine Triple.bind (resolveParticipant_reading _ _) fun sender => ?_
      cases sender with
      | none => exact clean_pure _
      | some sender =>
        refine Triple.bind (recipientKnown_reading _ _) fun known => ?_
        cases known with
        | false => exact clean_pure _
        | true =>
          refine Triple.reading rfl fun now _ => ?_
          -- an insert that the cap refuses writes nothing
          refine Triple.step (M := fun msg w => msg = none → w = db) ?_ fun msg => ?_
          · rintro sess msg s s' hdb hexec rfl
            obtain ⟨db', hcapped, rfl⟩ := done_of_tryWrite hexec
            simp only [Db.createMessageCapped, Db.insertMessage] at hcapped
            split_ifs at hcapped
            · cases hcapped
            · cases hcapped
            · cases hcapped
              exact hdb
          · cases msg with
            | none => exact Triple.pure fun _ hw _ _ _ => hw rfl
            | some msg =>
              refine Triple.forget fun _ => Triple.forget fun _ => Triple.forget fun _ => ?_
              exact Triple.forgetting fun _ => Triple.forget fun _ => clean_ok _

/-- A pause that lost the race for the state has written nothing. -/
theorem updateRoomState_false {sess : List UInt16} {id : String} {from_ to_ : RoomState}
    {now : OffsetDateTime} {detail : Option String} {s s' : Store}
    (h : Store.exec sess (.updateRoomState id from_ to_ now detail) s = .done false s') :
    s'.db = s.db ∧ ∀ row ∈ s.db.rooms, row.id = id → row.state ≠ from_ := by
  simp only [Store.exec, Store.write, Db.updateRoomState] at h
  split at h
  · cases h
  · rename_i hnone
    cases h
    refine ⟨rfl, fun row hrow hid hstate => hnone ?_⟩
    exact List.any_eq_true.mpr ⟨row, hrow, by simp [hid, hstate]⟩

theorem blockerPause_clean (id : String) (r : SignalRequest) (state : RoomState)
    (msgType : MessageType) (now : OffsetDateTime) (pauseTo : Option RoomState) :
    Serves (· = db) (blockerPause id r state msgType now pauseTo)
      fun a w => ∀ e, a = .error e → w = db := by
  unfold blockerPause
  split
  · refine Triple.step (M := fun changed w => changed = false → w = db) ?_ fun changed => ?_
    · rintro sess changed s s' hdb hexec rfl
      exact (updateRoomState_false hexec).1.trans hdb
    · cases changed with
      | true => exact Triple.pure fun _ _ e he => by cases he
      | false => exact Triple.pure fun _ hw _ _ => hw rfl
  · exact Triple.pure fun _ hw _ _ => hw

theorem signalRoom_clean (id : String) (r : SignalRequest) :
    Serves (· = db) (signalRoom id r) (Clean db) := by
  refine Triple.reading rfl fun room _ => ?_
  cases room with
  | none => exact clean_pure _
  | some room =>
    cases hwritable : rejectUnlessWritable room with
    | error e =>
      simp only [hwritable]
      exact clean_pure _
    | ok _ =>
      simp only [hwritable]
      refine Triple.bind (resolveParticipant_reading _ _) fun sender => ?_
      cases sender with
      | none => exact clean_pure _
      | some sender =>
        cases hfields : signalFields r with
        | error e => exact clean_pure _
        | ok fields =>
          obtain ⟨msgType, severity, body⟩ := fields
          dsimp only
          split
          · exact clean_pure _
          · refine Triple.reading rfl fun now _ => Triple.bind (blockerPause_clean _ _ _ _ _ _) ?_
            intro paused
            cases paused with
            | error e => exact Triple.pure fun _ hw e' he' _ => hw e rfl
            | ok _ => exact Triple.forget fun msg => Triple.forget fun _ => clean_ok _

theorem applyTransition_clean (id : String) (r : LifecycleRequest) (event : LifecycleEvent)
    (detail : Option String) : Serves (· = db) (applyTransition id r event detail) (Clean db) := by
  refine Triple.reading rfl fun room _ => ?_
  cases room with
  | none => exact clean_pure _
  | some room =>
    refine Triple.bind (resolveParticipant_reading _ _) fun caller => ?_
    cases caller with
    | none => exact clean_pure _
    | some caller =>
      cases hto : transition room.state event with
      | none => exact clean_pure _
      | some to_ =>
        refine Triple.reading rfl fun now _ => ?_
        refine Triple.step (M := fun changed w => changed = false → w = db) ?_ fun changed => ?_
        · rintro sess changed s s' hdb hexec rfl
          exact (updateRoomState_false hexec).1.trans hdb
        · cases changed with
          | true => exact Triple.forget fun _ => clean_ok _
          | false => exact Triple.pure fun _ hw _ _ _ => hw rfl

theorem extendRoom_clean (id : String) (r : Caller) :
    Serves (· = db) (extendRoom id r) (Clean db) := by
  refine Triple.reading rfl fun room _ => ?_
  cases room with
  | none => exact clean_pure _
  | some room =>
    by_cases hhalted : room.state.halted = true
    · simp only [hhalted, ↓reduceIte]
      exact clean_pure _
    · simp only [hhalted]
      refine Triple.bind (resolveParticipant_reading _ _) fun voter => ?_
      cases voter with
      | none => exact clean_pure _
      | some voter =>
        refine Triple.reading rfl fun now _ => Triple.forget fun outcome => ?_
        cases outcome with
        | extended cap => exact Triple.forget fun msg => Triple.forget fun _ => clean_ok _
        | proposed votes needed => exact Triple.forget fun _ => clean_ok _

/-! ### Closing

A close writes its vote before it counts, so that what sends it back afterwards
has to be ruled out: the room it read is there, and in the state it read. -/

/-- There is a room `id` in that state. -/
def InState (id : String) (state : RoomState) (db : Db) : Prop :=
  ∃ row ∈ db.rooms, row.id = id ∧ row.state = state

theorem inState_of_told {id : String} {room : Room} (h : Told db (.getRoom id) (some room)) :
    InState id room.state db := by
  obtain ⟨sess, s, s', rfl, hexec⟩ := h
  obtain ⟨row, hrow, hdecode⟩ := Db.getRoom_spec (done_of_tryRead hexec).1
  obtain ⟨hmem, hid⟩ := Db.mem_of_roomRow hrow
  exact ⟨row, hmem, hid, (rowToRoom_spec hdecode).2.1.symm⟩

/-- The rule of a call that moves no room. -/
theorem Triple.still {c : Call} (hc : ∀ r row, c.onRoom r row = row) {id : String}
    {state : RoomState} {k : c.Reply → Task β} {T : β → Db → Prop}
    (hk : ∀ r, Serves (InState id state) (k r) T) :
    Serves (InState id state) (perform c >>= k) T := by
  refine Triple.step (M := fun _ => InState id state) ?_ hk
  rintro sess r s s' ⟨row, hrow, hid⟩ hexec
  refine ⟨row, ?_, hid⟩
  rw [(effect_of_exec hexec).rooms, funext (hc r)]
  exact List.mem_append_left _ (by simpa using hrow)

theorem ringing_settled (id : String) : Serves P (do
    perform (.clearCloseVotes id)
    perform (.notify id)
    return .ok () : Task (Except ApiError Unit)) Settled :=
  Triple.forget fun _ => Triple.forget fun _ => settled_ok _

/-- A forced close is sent back only where it has written nothing. -/
theorem closeNow_clean (id : String) (from_ : RoomState) (now : OffsetDateTime) :
    Serves (· = db) (closeNow id from_ now) (Clean db) := by
  unfold closeNow
  split
  · exact clean_pure _
  · refine Triple.step (M := fun changed w => changed = false → w = db) ?_ fun changed => ?_
    · rintro sess changed s s' hdb hexec rfl
      exact (updateRoomState_false hexec).1.trans hdb
    · cases changed with
      | true => exact clean_of_settled (ringing_settled id)
      | false =>
        refine Triple.imp (P := (· = db)) (fun _ hw => hw rfl) (fun _ _ ha => ha) ?_
        refine Triple.reading rfl fun cur _ => ?_
        cases cur with
        | none => exact clean_pure _
        | some cur =>
          by_cases hterm : cur.state.terminal = true
          · simp only [hterm, ↓reduceIte]
            exact clean_of_settled (ringing_settled id)
          · simp only [hterm]
            exact clean_pure _

/-- From the state the room is in, a close that has its quorum goes through. -/
theorem closeNow_settled {id : String} {from_ : RoomState} (hterm : from_.terminal = false)
    (now : OffsetDateTime) : Serves (InState id from_) (closeNow id from_ now) Settled := by
  unfold closeNow
  split
  · rename_i hnone
    exfalso
    cases from_ <;> first | exact absurd hterm (by decide) | exact absurd hnone (by decide)
  · refine Triple.step (M := fun changed _ => changed = true) ?_ fun changed => ?_
    · rintro sess changed s s' ⟨row, hrow, hid, hstate⟩ hexec
      cases changed with
      | true => rfl
      | false => exact absurd hstate ((updateRoomState_false hexec).2 row hrow hid)
    · cases changed with
      | true => exact ringing_settled id
      | false => exact fun w a w' hfalse _ => by cases hfalse

theorem closeRoom_clean (id : String) (r : LifecycleRequest) :
    Serves (· = db) (closeRoom id r) (Clean db) := by
  refine Triple.reading rfl fun room htold => ?_
  cases room with
  | none => exact clean_pure _
  | some room =>
    have hstate := inState_of_told htold
    by_cases hterm : room.state.terminal = true
    · simp only [hterm, ↓reduceIte]
      exact clean_pure _
    · simp only [hterm]
      refine Triple.bind (resolveParticipant_reading _ _) fun closer => ?_
      cases closer with
      | none => exact clean_pure _
      | some closer =>
        refine Triple.reading rfl fun now _ => ?_
        by_cases hforce : r.force = true
        · simp only [hforce, ↓reduceIte]
          refine Triple.bind (closeNow_clean _ _ _) fun outcome => ?_
          cases outcome with
          | error e => exact Triple.pure fun _ hw e' he' hne => by cases he'; exact hw e rfl hne
          | ok _ => exact clean_ok _
        · simp only [hforce]
          refine clean_of_settled ?_
          refine Triple.imp (P := InState id room.state) (by rintro w rfl; exact hstate)
            (fun _ _ ha => ha) ?_
          refine Triple.still (fun _ _ => rfl) fun _ => Triple.still (fun _ _ => rfl) fun _ => ?_
          refine Triple.still (fun _ _ => rfl) fun participants => ?_
          split
          · refine Triple.bind (closeNow_settled (Bool.eq_false_iff.mpr hterm) now) fun outcome => ?_
            cases outcome with
            | error e => exact Triple.pure fun _ hw e' he' => by cases he'; exact hw e rfl
            | ok _ => exact settled_ok _
          · exact Triple.forget fun _ => settled_ok _

/-! ### Waiting -/

theorem hasRoom_kept {sess : List UInt16} {id : String} {c : Call} {s s' : Store} {r : c.Reply}
    (hroom : s.db.hasRoom id = true) (h : Store.exec sess c s = .done r s') :
    s'.db.hasRoom id = true := (effect_of_exec h).hasRoom hroom

/-- The rule of a piece before which the room is there. -/
theorem Triple.housed {p : Task α} {f : α → Task β} {id : String} {T : β → Db → Prop}
    (hf : ∀ a, Serves (fun w => w.hasRoom id = true) (f a) T) :
    Serves (fun w => w.hasRoom id = true) (p >>= f) T :=
  Triple.bind (Triple.invariant fun _ _ _ _ _ => hasRoom_kept) hf

/-- In a room that is there, a wait that claimed nothing has a status. -/
theorem timeoutResponse_settled (id handle : String) (retryAfter : Option UInt32) (away : Bool) :
    Serves (fun w => w.hasRoom id = true) (timeoutResponse id handle retryAfter away) Settled := by
  refine Triple.step (M := fun room _ => room.isSome = true) ?_ fun room => ?_
  · intro sess room s s' hroom hexec
    have hget := (done_of_tryRead hexec).1
    cases room with
    | some room => rfl
    | none =>
      obtain ⟨row, hrow, hid⟩ := Db.hasRoom_iff.mp hroom
      unfold Db.getRoom at hget
      split at hget
      · rename_i hnone
        exact absurd hid (by simpa using List.find?_eq_none.mp hnone row hrow)
      · cases hdecode : rowToRoom _ <;> rw [hdecode] at hget <;> cases hget
  · cases room with
    | none => exact fun w a w' hfalse _ => by cases hfalse
    | some room =>
      by_cases hhalted : room.state.halted = true
      · simp only [hhalted, ↓reduceIte]
        exact settled_ok _
      · simp only [hhalted]
        refine Triple.forgetting fun closing => ?_
        cases closing with
        | true => exact settled_ok _
        | false =>
          refine Triple.forgetting fun extending => ?_
          cases extending with
          | true => exact settled_ok _
          | false =>
            cases away with
            | true => exact settled_ok _
            | false =>
              refine Triple.forgetting fun stale => ?_
              cases stale with
              | true => exact settled_ok _
              | false => exact settled_ok _

theorem waitRoom_clean (app : AppState) (id : String) (r : WaitRequest) :
    Serves (· = db) (waitRoom app id r) (Clean db) := by
  refine Triple.reading rfl fun room htold => ?_
  cases room with
  | none => exact clean_pure _
  | some room =>
    have hroom : db.hasRoom id = true := by
      obtain ⟨row, hrow, hid, -⟩ := inState_of_told htold
      exact Db.hasRoom_iff.mpr ⟨row, hrow, hid⟩
    refine Triple.bind (resolveParticipant_reading _ _) fun caller => ?_
    cases caller with
    | none => exact clean_pure _
    | some caller =>
      refine clean_of_settled ?_
      refine Triple.imp (P := fun w => w.hasRoom id = true) (by rintro w rfl; exact hroom)
        (fun _ _ ha => ha) ?_
      refine Triple.housed fun now => Triple.housed fun _ => ?_
      by_cases hhalted : room.state.halted = true
      · simp only [hhalted, ↓reduceIte]
        refine Triple.forgetting fun outcome => ?_
        cases outcome with
        | message m => exact settled_ok _
        | pausedByTimeout => exact settled_ok _
      · simp only [hhalted]
        refine Triple.housed fun counterpart => ?_
        cases counterpart with
        | false => exact settled_ok _
        | true =>
          refine Triple.housed fun cap => Triple.housed fun outcome => Triple.housed fun away => ?_
          refine Triple.housed fun retryAfter => ?_
          cases outcome with
          | message m => exact Triple.forget fun consecutive => settled_ok _
          | pausedByTimeout => exact timeoutResponse_settled _ _ _ _

/-! ### Every handler -/

theorem serve_clean (app : AppState) (req : Request) : Serves (· = db) (serve app req) (Clean db) := by
  cases req with
  | openRoom r => exact answering_clean (openRoom_clean r)
  | listRooms state all =>
    exact answering_clean (Triple.reading rfl fun rows _ => clean_ok _)
  | joinRoom id r => exact answering_clean (joinRoom_clean id r)
  | sendMessage id r => exact answering_clean (sendMessage_clean id r)
  | signalRoom id r => exact answering_clean (signalRoom_clean id r)
  | waitRoom id r => exact answering_clean (waitRoom_clean app id r)
  | closeRoom id r => exact answering_clean (closeRoom_clean id r)
  | extendRoom id r => exact answering_clean (extendRoom_clean id r)
  | pauseRoom id r => exact answering_clean (applyTransition_clean id r _ _)
  | wakeRoom id r => exact answering_clean (applyTransition_clean id r _ _)
  | pruneRoom id => exact answering_clean (pruneRoom_clean id)
  | sweep => exact Triple.forgetting fun outcomes => clean_ok _
  | claimNextUnread id handle => exact Triple.forgetting fun message => clean_ok _

/-- **A rejected request changes nothing.**  Whatever has happened before, a
request that is answered 400, 404 or 409 while no other request makes a move
leaves the database as it found it. -/
theorem rejected_unchanged {app : AppState} {c₀ c : Daemon} {req : Request} {e : ApiError}
    (hrun : (daemon app).RunWith (System.Solo c₀.threads.length) (arrived app req c₀) c)
    (hanswer : c.threads[c₀.threads.length]?.bind Thread.returned = some (.error e))
    (hstatus : e.status = 400 ∨ e.status = 404 ∨ e.status = 409) :
    c.shared.db = c₀.shared.db := by
  have hview : ∀ e s s', (daemon app).tick e s = some s' → s'.db = s.db :=
    fun t s s' htick => (tick_spec htick).1
  have hstart : (arrived app req c₀).threads[c₀.threads.length]? =
      some ⟨req, .running (serve app req)⟩ := List.getElem?_concat_length
  have halone := hrun.alone hview hstart hanswer
  refine serve_clean app req _ _ _ rfl halone e rfl ?_
  rcases hstatus with h | h | h <;> rw [h] <;> decide

theorem solo_steps (app : AppState) (i n : ℕ) (c : Daemon) :
    (daemon app).RunWith (System.Solo i) c (play app (steps i n) c) := by
  refine runWith_play _ c fun a ha c => ?_
  obtain rfl := List.eq_of_mem_replicate ha
  rfl

/-- Bob sends into a room he has not joined. -/
theorem rejected_unchanged_stranger :
    (play .default (steps 2 9) (arrived .default (.sendMessage demoRoom ⟨bob, none, "hi", false⟩)
      (demo (gather none [alice])))).shared.db = (demo (gather none [alice])).shared.db := by
  have hlen : (demo (gather none [alice])).threads.length = 2 := by decide +kernel
  have hrun := solo_steps .default 2 9
    (arrived .default (.sendMessage demoRoom ⟨bob, none, "hi", false⟩) (demo (gather none [alice])))
  rw [← hlen] at hrun ⊢
  refine rejected_unchanged (e := NOT_A_PARTICIPANT) hrun ?_ (.inl rfl)
  rw [hlen]
  decide +kernel

end ChatBotChat
