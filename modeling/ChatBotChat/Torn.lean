/-
Requests of several writes that stop half way.

A send, a blocker signal and an extend each make several writes, one call after
the other.  `AllOrNothing` says of a request's own log that it shows all of them
or none.  `sendMessage_torn`, `signalRoom_torn` and `extendRoom_torn` run the
three handlers: at a call `k` the log shows all or none exactly where
`cleanStop` says so, which only depends on which call it is, and an answer comes
with all or none (`Reachable.torn`).  A request that has stopped makes no more
calls, so that what its log shows where it stopped is what it will ever show.
-/
import ChatBotChat.Extension

namespace ChatBotChat

open Interleave Lifecycle

variable {app : AppState} {req : Request} {past : Log} {k : Call} {id inst : String}

/-! ### All or nothing -/

/-- The requests that make several writes. -/
def Request.multiWrite : Request → Bool
  | .sendMessage _ _ | .extendRoom _ _ => true
  | .signalRoom _ r => MessageType.parse r.signalType = some .blockerRealWork
  | _ => false

/-- The log shows everything a send owes once its message row is there. -/
structure SendDone (id sender : String) (now : OffsetDateTime) (past : Log) : Prop where
  closeVote : ⟨.setCloseVote sender none, ()⟩ ∈ past
  extendVote : ⟨.clearExtendVote sender, ()⟩ ∈ past
  activity : ⟨.touchLastActivity id now, ()⟩ ∈ past
  revived : ∃ room, ⟨.getRoom id, some room⟩ ∈ past ∧
    (room.state = .idle ∨ room.state = .stale → ∃ changed,
      ⟨.updateRoomState id room.state .active now none, changed⟩ ∈ past)
  notified : ⟨.notify id, ()⟩ ∈ past

/-- The log shows a message row inserted. -/
def Posted (past : Log) : Prop := ∃ x ∈ past, (x.1.landed x.2).isSome = true

/-- The call moved a room out of its state. -/
def Call.moves : (c : Call) → c.Reply → Bool
  | .updateRoomState .., true => true
  | _, _ => false

/-- The log shows a room moved out of its state. -/
def Moved (past : Log) : Prop := ∃ x ∈ past, x.1.moves x.2 = true

/-- The log shows the cap of the room bumped. -/
def Bumped (id : String) (past : Log) : Prop := ∃ x ∈ past, x.1.bumps id x.2 = true

/-- The log shows all durable effects of the request, or none. -/
def AllOrNothing (req : Request) (past : Log) : Prop :=
  match req with
  | .sendMessage id _ => ∀ sender recipient body now fromHuman cap m,
      ⟨.createMessageCapped id sender recipient body now fromHuman cap, some m⟩ ∈ past →
        SendDone id sender now past
  | .signalRoom _ _ => Moved past ↔ Posted past
  | .extendRoom id _ => Bumped id past ↔ Posted past
  | _ => True

/-- Stopping at this call, the request has made all of its writes, or none. -/
def cleanStop : Request → Call → Bool
  | .sendMessage _ _, .setCloseVote _ _ | .sendMessage _ _, .clearExtendVote _
  | .sendMessage _ _, .touchLastActivity _ _ | .sendMessage _ _, .updateRoomState _ _ _ _ _
  | .sendMessage _ _, .notify _ => false
  | .signalRoom _ _, .createMessageTyped _ _ _ _ _ _ _ _ => false
  | .extendRoom _ _, .createMessageTyped _ _ _ _ _ _ _ _ => false
  | _, _ => true

/-- What the log of a request of several writes shows at a call. -/
def TornAt (req : Request) (past : Log) (k : Call) : Prop :=
  req.multiWrite = true → (AllOrNothing req past ↔ cleanStop req k = true)

/-- What the log of a request of several writes shows where it is answered. -/
def Whole (req : Request) (past : Log) : Prop := req.multiWrite = true → AllOrNothing req past

@[simp] theorem posted_cons {x : Sigma Call.Reply} :
    Posted (x :: past) ↔ (x.1.landed x.2).isSome = true ∨ Posted past := by
  simp [Posted]

@[simp] theorem moved_cons {x : Sigma Call.Reply} :
    Moved (x :: past) ↔ x.1.moves x.2 = true ∨ Moved past := by
  simp [Moved]

@[simp] theorem bumped_cons {x : Sigma Call.Reply} :
    Bumped id (x :: past) ↔ x.1.bumps id x.2 = true ∨ Bumped id past := by
  simp [Bumped]

/-! ### Logs that show nothing -/

theorem Glances.not_posted (h : Glances past) : ¬ Posted past := by
  rintro ⟨⟨c, r⟩, hx, hlanded⟩
  have hglance := h _ hx
  cases c
  case createMessageTyped => cases hglance
  case createMessageCapped => cases hglance
  all_goals cases hlanded

theorem Glances.not_moved (h : Glances past) : ¬ Moved past := by
  rintro ⟨⟨c, r⟩, hx, hmoves⟩
  have hglance := h _ hx
  cases c
  case updateRoomState => cases hglance
  all_goals cases hmoves

theorem Glances.not_bumped (h : Glances past) : ¬ Bumped id past := by
  rintro ⟨⟨c, r⟩, hx, hbumps⟩
  have hglance := h _ hx
  cases c
  case tryExtend => cases hglance
  all_goals cases hbumps

/-- A request that has only read has done nothing. -/
theorem Glances.allOrNothing (h : Glances past) (req : Request) : AllOrNothing req past := by
  cases req
  case sendMessage id r =>
    intro sender recipient body now fromHuman cap m hmem
    exact absurd ⟨_, hmem, rfl⟩ h.not_posted
  case signalRoom id r => exact iff_of_false h.not_moved h.not_posted
  case extendRoom id r => exact iff_of_false h.not_bumped h.not_posted
  all_goals trivial

theorem tornAt_of_glances (h : Glances past) (hk : cleanStop req k = true) : TornAt req past k :=
  fun _ => iff_of_true (h.allOrNothing req) hk

theorem whole_of_glances (h : Glances past) : Whole req past :=
  fun _ => h.allOrNothing req

theorem cleanStop_of_glance (hk : k.glance = true) : cleanStop req k = true := by
  cases req <;> cases k <;> first | rfl | cases hk

/-- Resolving the caller writes nothing. -/
theorem resolveParticipant_torn {Q : Log → Option Participant → Prop} (hpast : Glances past)
    (hQ : ∀ newer p, Glances newer → Q (newer ++ past) p) :
    (resolveParticipant id inst).Upholds (TornAt req) past Q := by
  refine .step (tornAt_of_glances hpast (cleanStop_of_glance rfl)) fun byInstance => ?_
  cases byInstance with
  | some p => exact hQ [_] _ (by simp [Call.glance])
  | none =>
    refine ⟨tornAt_of_glances (by simp [Call.glance, hpast]) (cleanStop_of_glance rfl), ?_⟩
    intro byHandle
    cases byHandle with
    | some p => exact hQ [_, _] _ (by simp [Call.glance])
    | none => exact hQ [_, _] _ (by simp [Call.glance])

theorem recipientKnown_torn {to_ : Option String} {Q : Log → Bool → Prop} (hpast : Glances past)
    (hQ : ∀ newer known, Glances newer → Q (newer ++ past) known) :
    (recipientKnown id to_).Upholds (TornAt req) past Q := by
  unfold recipientKnown
  split
  · exact hQ [] true glances_nil
  · exact .step (tornAt_of_glances hpast (cleanStop_of_glance rfl))
      fun participants => hQ [_] _ (by simp [Call.glance])

/-! ### The three handlers -/

theorem Glances.not_notified (h : Glances past) : ⟨.notify id, ()⟩ ∉ past := by
  intro hmem
  have hglance := h _ hmem
  cases hglance

/-- Behind its insert and before its ping, a send has done a part only. -/
theorem tornAt_of_inserted {r : SendMessageRequest} {sender body : String}
    {recipient : Option String} {now : OffsetDateTime} {fromHuman : Bool} {cap : ℤ} {m : Message}
    (hmem : ⟨.createMessageCapped id sender recipient body now fromHuman cap, some m⟩ ∈ past)
    (hnotified : ⟨.notify id, ()⟩ ∉ past) (hk : cleanStop (.sendMessage id r) k = false) :
    TornAt (.sendMessage id r) past k := by
  intro _
  rw [hk]
  refine iff_of_false (fun hall => hnotified ?_) (by decide)
  exact (hall sender recipient body now fromHuman cap m hmem).notified

/-- Behind its ping, a send has done everything. -/
theorem whole_of_sent {r : SendMessageRequest} {sender body : String} {recipient : Option String}
    {now : OffsetDateTime} {fromHuman : Bool} {cap : ℤ} {reply : Option Message} (newer : Log)
    {older : Log} (hnewer : NoInsert newer) (holder : Glances older)
    (hdone : SendDone id sender now
      (newer ++ ⟨.createMessageCapped id sender recipient body now fromHuman cap, reply⟩ :: older)) :
    Whole (.sendMessage id r) (newer ++
      ⟨.createMessageCapped id sender recipient body now fromHuman cap, reply⟩ :: older) := by
  intro _ sender' recipient' body' now' fromHuman' cap' m hmem
  rcases List.mem_append.mp hmem with hmem | hmem
  · exact absurd rfl (hnewer _ hmem _ _ _ _ _ _ _)
  · rcases List.mem_cons.mp hmem with heq | hmem
    · cases heq
      exact hdone
    · exact absurd ⟨_, hmem, rfl⟩ holder.not_posted

theorem sendMessage_torn (id : String) (r : SendMessageRequest) :
    (sendMessage id r).Upholds (TornAt (.sendMessage id r)) []
      fun past _ => Whole (.sendMessage id r) past := by
  refine .step (tornAt_of_glances glances_nil rfl) fun room => ?_
  cases room with
  | none => exact whole_of_glances (by simp [Call.glance])
  | some room =>
    cases hwritable : rejectUnlessWritable room with
    | error e =>
      simp only [hwritable]
      exact whole_of_glances (by simp [Call.glance])
    | ok _ =>
      simp only [hwritable]
      refine .bind (resolveParticipant_torn (by simp [Call.glance]) fun newer p hnewer => ?_)
      cases p with
      | none => exact whole_of_glances (by simp [Call.glance, hnewer])
      | some p =>
        refine .bind (recipientKnown_torn (by simp [Call.glance, hnewer]) ?_)
        intro newer' known hnewer'
        have hglances : Glances (newer' ++ (newer ++ [⟨.getRoom id, some room⟩])) := by
          simp [Call.glance, hnewer, hnewer']
        have hroom : ⟨.getRoom id, some room⟩ ∈ newer' ++ (newer ++ [⟨.getRoom id, some room⟩]) := by
          simp
        generalize newer' ++ (newer ++ [⟨.getRoom id, some room⟩]) = read at hglances hroom
        cases known with
        | false => exact whole_of_glances hglances
        | true =>
          refine .step (tornAt_of_glances hglances rfl) fun now => ?_
          have hglances' : Glances (⟨.nowUtc, now⟩ :: read) := by simp [Call.glance, hglances]
          have hsilent : ⟨.notify id, ()⟩ ∉ read := hglances.not_notified
          refine .step (tornAt_of_glances hglances' rfl) fun msg => ?_
          cases msg with
          | none =>
            intro _ sender recipient body now' fromHuman cap m hmem
            rcases List.mem_cons.mp hmem with heq | hmem
            · cases heq
            · exact absurd ⟨_, hmem, rfl⟩ hglances'.not_posted
          | some msg =>
            refine .step (tornAt_of_inserted List.mem_cons_self (by simp [hsilent]) rfl) fun _ => ?_
            refine .step (tornAt_of_inserted (.tail _ List.mem_cons_self) (by simp [hsilent]) rfl)
              fun _ => ?_
            refine .step (tornAt_of_inserted (.tail _ (.tail _ List.mem_cons_self))
              (by simp [hsilent]) rfl) fun _ => .bind ?_
            -- an idle or stale room is moved before the ping
            unfold reviveRoom
            by_cases hquiet : room.state = .idle ∨ room.state = .stale
            · have hto : transition room.state .message = some .active := by
                rcases hquiet with h | h <;> rw [h] <;> rfl
              simp only [hquiet, hto, ↓reduceIte]
              refine .step (tornAt_of_inserted (.tail _ (.tail _ (.tail _ List.mem_cons_self)))
                (by simp [hsilent]) rfl) fun changed => ?_
              refine .step (tornAt_of_inserted (.tail _ (.tail _ (.tail _ (.tail _
                List.mem_cons_self)))) (by simp [hsilent]) rfl) fun _ => ?_
              refine whole_of_sent [_, _, _, _, _] (by simp [NoInsert]) hglances' ?_
              exact ⟨by simp, by simp, by simp,
                ⟨room, by simp [hroom], fun _ => ⟨changed, by simp⟩⟩, by simp⟩
            · simp only [hquiet, ↓reduceIte]
              refine .step (tornAt_of_inserted (.tail _ (.tail _ (.tail _ List.mem_cons_self)))
                (by simp [hsilent]) rfl) fun _ => ?_
              refine whole_of_sent [_, _, _, _] (by simp [NoInsert]) hglances' ?_
              exact ⟨by simp, by simp, by simp,
                ⟨room, by simp [hroom], fun h => absurd h hquiet⟩, by simp⟩

theorem signalFields_blocker {r : SignalRequest} {msgType : MessageType}
    {severity : Option Severity} {body : String}
    (hparse : MessageType.parse r.signalType = some .blockerRealWork)
    (h : signalFields r = .ok (msgType, severity, body)) : msgType = .blockerRealWork := by
  unfold signalFields at h
  rw [hparse] at h
  dsimp only at h
  split_ifs at h
  cases h
  rfl

theorem signalRoom_torn (id : String) (r : SignalRequest) :
    (signalRoom id r).Upholds (TornAt (.signalRoom id r)) []
      fun past _ => Whole (.signalRoom id r) past := by
  by_cases hparse : MessageType.parse r.signalType = some .blockerRealWork
  case neg =>
    have hsingle : ¬ (Request.signalRoom id r).multiWrite = true := by
      simpa [Request.multiWrite] using hparse
    exact Prog.upholds_of_forall (fun _ _ h => absurd h hsingle) fun _ _ h => absurd h hsingle
  refine .step (tornAt_of_glances glances_nil rfl) fun room => ?_
  cases room with
  | none => exact whole_of_glances (by simp [Call.glance])
  | some room =>
    cases hwritable : rejectUnlessWritable room with
    | error e =>
      simp only [hwritable]
      exact whole_of_glances (by simp [Call.glance])
    | ok _ =>
      simp only [hwritable]
      refine .bind (resolveParticipant_torn (by simp [Call.glance]) fun newer p hnewer => ?_)
      have hglances : Glances (newer ++ [⟨.getRoom id, some room⟩]) := by
        simp [Call.glance, hnewer]
      generalize newer ++ [⟨.getRoom id, some room⟩] = read at hglances
      cases p with
      | none => exact whole_of_glances hglances
      | some p =>
        cases hfields : signalFields r with
        | error e => exact whole_of_glances hglances
        | ok fields =>
          obtain ⟨msgType, severity, body⟩ := fields
          obtain rfl := signalFields_blocker hparse hfields
          cases hto : transition room.state .pause with
          | none =>
            simp only [and_self, ↓reduceIte]
            exact whole_of_glances hglances
          | some to_ =>
            have hfrom : ¬ (MessageType.blockerRealWork = .blockerRealWork ∧ some to_ = none) :=
              fun h => by cases h.2
            dsimp only
            rw [if_neg hfrom]
            refine .step (tornAt_of_glances hglances rfl) fun now => ?_
            have hglances' : Glances (⟨.nowUtc, now⟩ :: read) := by simp [Call.glance, hglances]
            refine .bind (.step (tornAt_of_glances hglances' rfl) fun changed => ?_)
            cases changed with
            | false =>
              refine fun _ => iff_of_false ?_ ?_
              · simp [Call.moves, hglances.not_moved]
              · simp [Call.landed, hglances.not_posted]
            | true =>
              -- the room is paused and the sentinel is not there yet
              refine .step (fun _ => iff_of_false (fun h => ?_) Bool.false_ne_true) fun msg => ?_
              · have hposted : Posted _ := h.mp (by simp [Call.moves])
                simp [Call.landed, hglances.not_posted] at hposted
              · refine .step (fun _ => iff_of_true (iff_of_true ?_ ?_) rfl) fun _ => fun _ => ?_
                · simp [Call.moves]
                · simp [Call.landed]
                · exact iff_of_true (by simp [Call.moves]) (by simp [Call.landed])

theorem extendRoom_torn (id : String) (r : Caller) :
    (extendRoom id r).Upholds (TornAt (.extendRoom id r)) []
      fun past _ => Whole (.extendRoom id r) past := by
  refine .step (tornAt_of_glances glances_nil rfl) fun room => ?_
  cases room with
  | none => exact whole_of_glances (by simp [Call.glance])
  | some room =>
    by_cases hhalted : room.state.halted = true
    · simp only [hhalted, ↓reduceIte]
      exact whole_of_glances (by simp [Call.glance])
    · simp only [hhalted]
      refine .bind (resolveParticipant_torn (by simp [Call.glance]) fun newer p hnewer => ?_)
      have hglances : Glances (newer ++ [⟨.getRoom id, some room⟩]) := by
        simp [Call.glance, hnewer]
      generalize newer ++ [⟨.getRoom id, some room⟩] = read at hglances
      cases p with
      | none => exact whole_of_glances hglances
      | some p =>
        refine .step (tornAt_of_glances hglances rfl) fun now => ?_
        have hglances' : Glances (⟨.nowUtc, now⟩ :: read) := by simp [Call.glance, hglances]
        refine .step (tornAt_of_glances hglances' rfl) fun outcome => ?_
        cases outcome with
        | extended cap =>
          refine .step (fun _ => iff_of_false (fun h => ?_) Bool.false_ne_true) fun msg => ?_
          · have hposted : Posted _ := h.mp (by simp [Call.bumps])
            simp [Call.landed, hglances.not_posted] at hposted
          · refine .step (fun _ => iff_of_true (iff_of_true ?_ ?_) rfl) fun _ => fun _ => ?_
            · simp [Call.bumps]
            · simp [Call.landed]
            · exact iff_of_true (by simp [Call.bumps]) (by simp [Call.landed])
        | proposed votes needed =>
          have hnone : AllOrNothing (.extendRoom id r)
              (⟨.tryExtend id p.handle EXTEND_STEP now (now - GHOST_AFTER) room.config.closeQuorum,
                .proposed votes needed⟩ :: ⟨.nowUtc, now⟩ :: read) := by
            refine iff_of_false ?_ ?_
            · simp [Call.bumps, hglances.not_bumped]
            · simp [Call.landed, hglances.not_posted]
          refine .step (fun _ => iff_of_true hnone rfl) fun _ => fun _ => ?_
          exact iff_of_false (by simp [Call.bumps, hglances.not_bumped])
            (by simp [Call.landed, hglances.not_posted])

theorem serve_torn (app : AppState) (req : Request) :
    (serve app req).Upholds (TornAt req) [] fun past _ => Whole req past := by
  cases hmulti : req.multiWrite with
  | false =>
    have hsingle : ¬ req.multiWrite = true := by rw [hmulti]; decide
    exact Prog.upholds_of_forall (fun _ _ h => absurd h hsingle) fun _ _ h => absurd h hsingle
  | true =>
    cases req with
    | sendMessage id r => exact upholds_answering.mpr (sendMessage_torn id r)
    | signalRoom id r => exact upholds_answering.mpr (signalRoom_torn id r)
    | extendRoom id r => exact upholds_answering.mpr (extendRoom_torn id r)
    | openRoom _ | listRooms _ _ | joinRoom _ _ | waitRoom _ _ | closeRoom _ _ | pauseRoom _ _
    | wakeRoom _ _ | pruneRoom _ | sweep | claimNextUnread _ _ => cases hmulti

/-- **At every call and in every answer** of a reachable daemon. -/
theorem Reachable.torn {c : Daemon} (h : Reachable app c) :
    System.Upheld TornAt (fun req past _ => Whole req past) c := by
  obtain ⟨utc, instant, hrun⟩ := h
  have hbody : ∀ r, ((daemon app).body r).Upholds (TornAt r) [] fun past _ => Whole r past :=
    serve_torn app
  exact hrun.upheld hbody

/-! ### Where a request stops -/

/-- At a call that it waits for, a request of several writes has done all or
nothing exactly where that call is a clean stop. -/
theorem Reachable.waiting_allOrNothing {c : Daemon} (h : Reachable app c) {i : ℕ}
    (hat : c.threads[i]?.bind waitingAt = some (req, k)) (hmulti : req.multiWrite = true) :
    AllOrNothing req (pastOf i c.trace) ↔ cleanStop req k = true := by
  obtain ⟨t, ht, hk⟩ := Option.bind_eq_some_iff.mp hat
  obtain ⟨f, rfl⟩ := waitingAt_spec hk
  exact h.torn.waiting ht hmulti

/-- A move that stops a request is no call of that request. -/
theorem pastOf_of_stop {c c' : Daemon} {i : ℕ} {a : Action} (hstep : (daemon app).apply a c = some c')
    (hstop : c'.threads[i]?.map hasStopped = some true) : pastOf i c'.trace = pastOf i c.trace := by
  obtain ⟨t, ht, hstopped⟩ := Option.map_eq_some_iff.mp hstop
  cases (daemon app).move_of_apply hstep with
  | start r => rfl
  | @call j choice r k f x s' hj _ =>
    refine pastOf_cons_of_ne (e := ⟨j, k, x, c.shared, s'⟩) ?_ _
    rintro rfl
    have hrunning : t.status = .running (f x) := by
      change (c.setStatus j (.running (f x))).threads[j]? = some t at ht
      rw [Config.getElem?_setStatus, if_pos rfl, hj] at ht
      obtain rfl := Option.some_inj.mp ht
      rfl
    exact not_running_of_stopped hstopped _ hrunning
  | unroll _ => rfl
  | stop _ _ => rfl
  | tick _ => rfl

/-- **All or nothing, where it stops clean.**  A send, a blocker signal or an
extend that is stopped while it waits for the call `k` has, then and at any later
point of the run, made all of its writes or none exactly if `k` is a clean stop. -/
theorem stopped_all_or_nothing_iff {c c₁ c₂ : Daemon} (h : Reachable app c) {i : ℕ}
    (hat : c.threads[i]?.bind waitingAt = some (req, k)) (hmulti : req.multiWrite = true) {a : Action}
    (hstep : (daemon app).apply a c = some c₁)
    (hstop : c₁.threads[i]?.map hasStopped = some true) (hrun : (daemon app).Run c₁ c₂) :
    AllOrNothing req (pastOf i c₂.trace) ↔ cleanStop req k = true := by
  obtain ⟨t, ht, hstopped⟩ := Option.map_eq_some_iff.mp hstop
  have hlater := (hrun.stopped ht (not_running_of_stopped hstopped)).2
  rw [hlater, pastOf_of_stop hstep hstop]
  exact h.waiting_allOrNothing hat hmulti

/-- Alice is in the room, her send has come this many calls far. -/
def sending (n : ℕ) : Daemon :=
  play .default (.start (.sendMessage demoRoom ⟨alice, none, "hi", false⟩) :: steps 2 n)
    (demo (gather none [alice]))

theorem reachable_sending (n : ℕ) : Reachable .default (sending n) := (reachable_demo _).play _

/-- The insert of a send fails. -/
theorem stopped_all_or_nothing_iff_insertFails :
    AllOrNothing (.sendMessage demoRoom ⟨alice, none, "hi", false⟩)
      (pastOf 2 (play .default [.fail 2] (sending 3)).trace) := by
  have hat : (sending 3).threads[2]?.bind waitingAt =
      some (.sendMessage demoRoom ⟨alice, none, "hi", false⟩,
        .createMessageCapped demoRoom "api-opus-0001" none "hi" 0 false 20) := by decide +kernel
  obtain ⟨c₁, hstep⟩ : ∃ c₁, (daemon .default).apply (.fail 2) (sending 3) = some c₁ :=
    Option.isSome_iff_exists.mp (by decide +kernel)
  have hplay : play .default [.fail 2] (sending 3) = c₁ := by
    rw [play, List.foldl_cons, List.foldl_nil, hstep]
    rfl
  have hstop : c₁.threads[2]?.map hasStopped = some true := by
    rw [← hplay]
    decide +kernel
  rw [hplay]
  exact (stopped_all_or_nothing_iff (reachable_sending 3) hat rfl hstep hstop .refl).mpr rfl

/-- Alice's client goes away behind the insert: the message is there, and her
votes stand, the room is not touched and nobody is woken. -/
theorem not_all_or_nothing : ¬ ∀ (c c₁ : Daemon) (a : Action) (i : ℕ) (req : Request) (k : Call),
    Reachable .default c → c.threads[i]?.bind waitingAt = some (req, k) → req.multiWrite = true →
      (daemon .default).apply a c = some c₁ → c₁.threads[i]?.map hasStopped = some true →
        AllOrNothing req (pastOf i c₁.trace) := by
  intro hall
  have hat : (sending 4).threads[2]?.bind waitingAt =
      some (.sendMessage demoRoom ⟨alice, none, "hi", false⟩, .setCloseVote "api-opus-0001" none) := by
    decide +kernel
  obtain ⟨c₁, hstep⟩ : ∃ c₁, (daemon .default).apply (.drop 2) (sending 4) = some c₁ :=
    Option.isSome_iff_exists.mp (by decide +kernel)
  have hplay : play .default [.drop 2] (sending 4) = c₁ := by
    rw [play, List.foldl_cons, List.foldl_nil, hstep]
    rfl
  have hstop : c₁.threads[2]?.map hasStopped = some true := by
    rw [← hplay]
    decide +kernel
  have hwhole := hall _ _ _ _ _ _ (reachable_sending 4) hat rfl hstep hstop
  rw [pastOf_of_stop hstep hstop, (reachable_sending 4).waiting_allOrNothing hat rfl] at hwhole
  exact absurd hwhole Bool.false_ne_true

end ChatBotChat
