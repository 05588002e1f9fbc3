/-
Whether a message leaves its room active.

A send reads the state of the room, and much later, once its message has landed and
the activity is bumped, makes the room active again if it had read it as idle or
stale.  It drops the answer of that write, and so a sweep pass that had listed the
rooms before the bump may take the room further after the read: then the write finds
another state than the one it is from, or there is none to be made.

* `room_revived_iff` — amid sweeps alone, a send leaves the room active, or to a pass
  that listed it after the bump, exactly when no other pass has moved it since the
  send read it, or such a pass has.
-/
import ChatBotChat.Audit
import ChatBotChat.Sending
import ChatBotChat.Sweeping

namespace ChatBotChat

open Interleave Lifecycle

variable {app : AppState} {c₀ c : Daemon} {e : Step} {new older tr : List Step} {past : Log}
  {id inst : String} {i seq : ℕ} {r : SendMessageRequest} {a b state : RoomState} {s : Store}
  {moved tried : Bool}

/-! ### The order of things -/

/-- The call reads the room. -/
def Call.looksAtRoom (id : String) : Call → Bool
  | .getRoom id' => id' = id
  | _ => false

/-- The call bumps the activity of the room. -/
def Call.bumpsActivity (id : String) : Call → Bool
  | .touchLastActivity id' _ => id' = id
  | _ => false

/-- The call is meant to change the state of a room. -/
def Call.updates : Call → Bool
  | .updateRoomState .. => true
  | _ => false

/-- The call changed the state of the room. -/
def Call.movesRoom (id : String) : (k : Call) → k.Reply → Bool
  | .updateRoomState id' _ _ _ _, changed => changed && decide (id' = id)
  | _, _ => false

/-- What has happened since request `i` read the room. -/
def sinceRead (i : ℕ) (id : String) (tr : List Step) : List Step :=
  tr.takeWhile fun e => !(decide (e.tid = i) && e.call.looksAtRoom id)

/-- What has happened since request `i` bumped the activity of the room. -/
def sinceBump (i : ℕ) (id : String) (tr : List Step) : List Step :=
  tr.takeWhile fun e => !(decide (e.tid = i) && e.call.bumpsActivity id)

/-- Request `j` lists the rooms for a pass. -/
def lists (j : ℕ) (tr : List Step) : Bool :=
  tr.any fun e => decide (e.tid = j) && decide (e.call = .listRoomsForSweep)

/-- A pass that listed the rooms after the bump has moved the room. -/
def movedAfterBump (i : ℕ) (id : String) (tr : List Step) : Bool :=
  tr.any fun e => e.call.movesRoom id e.reply && lists e.tid (sinceBump i id tr)

/-- A pass that had listed the rooms before the bump has moved the room after the send
read it. -/
def movedByOldPass (i : ℕ) (id : String) (tr : List Step) : Bool :=
  (sinceRead i id tr).any fun e => decide (e.tid ≠ i) && e.call.movesRoom id e.reply &&
    !lists e.tid (sinceBump i id tr)

/-- Somebody else than request `i` has moved the room. -/
def movedByOthers (i : ℕ) (id : String) (tr : List Step) : Bool :=
  tr.any fun e => decide (e.tid ≠ i) && e.call.movesRoom id e.reply

/-! ### The calls of a pass -/

/-- A pass only reads, and takes rooms where time takes them. -/
def SweepCall : Call → Prop
  | .updateRoomState _ from_ to_ _ _ => forward from_ = some to_
  | k => k.keepsDb = true

theorem forward_of_event {event : LifecycleEvent} {la sc now : OffsetDateTime}
    {polls : List OffsetDateTime} (hevent : computeTimeEvent a la sc polls now = some event)
    (hto : transition a event = some b) : forward a = some b := by
  cases a <;> simp only [computeTimeEvent] at hevent
  case active =>
    split_ifs at hevent
    · obtain rfl := Option.some_inj.mp hevent
      exact hto
    · obtain rfl := Option.some_inj.mp hevent
      exact hto
  case idle =>
    split_ifs at hevent
    obtain rfl := Option.some_inj.mp hevent
    exact hto
  case stale =>
    split_ifs at hevent
    obtain rfl := Option.some_inj.mp hevent
    exact hto
  case closed =>
    split_ifs at hevent
    obtain rfl := Option.some_inj.mp hevent
    exact hto
  case paused => cases hevent
  case archived => cases hevent

theorem sweepRoom_calls (now : OffsetDateTime) (room : Room) :
    (sweepRoom now room).Calls SweepCall := by
  refine .step rfl fun participants => ?_
  cases hevent : computeTimeEvent room.state room.lastActivityAt room.stateChangedAt
      (participants.map Participant.lastPollAt) now with
  | none =>
    simp only [hevent]
    exact trivial
  | some event =>
    cases hto : transition room.state event with
    | none =>
      simp only [hevent, hto]
      exact trivial
    | some to_ =>
      simp only [hevent, hto]
      exact .step (forward_of_event hevent hto) fun changed => trivial

theorem sweepRooms_calls (now : OffsetDateTime) (rooms : List Room) :
    (sweepRooms now rooms).Calls SweepCall := by
  induction rooms with
  | nil => exact trivial
  | cons room rooms ih =>
    exact .bind (sweepRoom_calls now room) fun outcome => .bind ih fun outcomes => trivial

/-- The discipline of a pass, as one of all requests. -/
def SweepDiscipline (req : Request) (_ : Log) (k : Call) : Prop := req = .sweep → SweepCall k

theorem serve_sweeping (app : AppState) (req : Request) :
    (serve app req).Upholds (SweepDiscipline req) [] fun _ _ => True := by
  by_cases hsweep : req = .sweep
  · subst hsweep
    have hcalls : (serve app .sweep).Calls SweepCall :=
      .bind (.step rfl fun now => .step rfl fun rooms => sweepRooms_calls now rooms) fun _ => trivial
    exact (hcalls.upholds fun _ _ _ hk _ => hk).mono fun _ _ _ => trivial
  · exact Prog.upholds_of_forall (fun _ _ h => absurd h hsweep) fun _ _ => trivial

/-- **Every pass of a reachable daemon** keeps to its calls. -/
theorem Reachable.sweeping (h : Reachable app c) :
    System.Upheld SweepDiscipline (fun _ _ _ => True) c := by
  obtain ⟨utc, instant, hrun⟩ := h
  have hbody : ∀ r, ((daemon app).body r).Upholds (SweepDiscipline r) [] fun _ _ => True :=
    serve_sweeping app
  exact hrun.upheld hbody

/-- What a transition makes of the room. -/
theorem Recorded.updated {j : ℕ} {from_ to_ : RoomState} {now : OffsetDateTime}
    {detail : Option String} {changed : Bool} {s' : Store}
    (h : Recorded app c ⟨j, .updateRoomState id from_ to_ now detail, changed, s, s'⟩ older)
    (hstate : s.stateOf id = some state) :
    (changed = true ↔ state = from_) ∧
      s'.stateOf id = some (if state = from_ then to_ else state) := by
  obtain ⟨sess, hexec⟩ := h.exec
  have hchanged : changed = true ↔ s.stateOf id = some from_ :=
    changed_iff h.wellFormed_before hexec
  rw [hstate, Option.some_inj] at hchanged
  refine ⟨hchanged, ?_⟩
  have hafter : s'.stateOf id = _ := h.stateOf_after hstate
  cases changed with
  | true =>
    have hfrom := hchanged.mp rfl
    rw [if_pos hfrom, hafter, Call.nextState, if_pos (by simp [hfrom])]
  | false =>
    rw [if_neg fun hfrom => Bool.false_ne_true (hchanged.mpr hfrom)]
    exact hafter

/-- A call of a pass leaves the room as it is, or takes it where time takes it. -/
theorem Recorded.swept (h : Recorded app c e older) (hcall : SweepCall e.call)
    (hstate : e.before.stateOf id = some state) :
    (e.call.movesRoom id e.reply = false ∧ e.after.stateOf id = some state) ∨
      (e.call.movesRoom id e.reply = true ∧ ∃ b, forward state = some b ∧
        e.after.stateOf id = some b) := by
  have hafter := h.stateOf_after hstate
  obtain ⟨tid, call, reply, before, after⟩ := e
  cases call
  case updateRoomState id' from_ to_ now detail =>
    change Bool at reply
    by_cases hid : id' = id
    · subst hid
      obtain ⟨hchanged, hnext⟩ := h.updated hstate
      by_cases hfrom : state = from_
      · refine .inr ⟨by simp [Call.movesRoom, hchanged.mpr hfrom], to_, hfrom ▸ hcall, ?_⟩
        rw [hnext, if_pos hfrom]
      · refine .inl ⟨?_, by rw [hnext, if_neg hfrom]⟩
        simp [Call.movesRoom, Bool.eq_false_iff.mpr (mt hchanged.mp hfrom)]
    · refine .inl ⟨by simp [Call.movesRoom, hid], hafter.trans ?_⟩
      cases reply with
      | true => rw [Call.nextState, if_neg (by simp [Ne.symm hid])]
      | false => rfl
  all_goals exact .inl ⟨rfl, hafter⟩

/-! ### The calls of the send -/

/-- The log tries to make the room active once, if it was read in a state that a
message revives, and changes nothing else about rooms. -/
structure Tries (id : String) (state : RoomState) (past : Log) : Prop where
  once : past.countP (·.1.updates) = if state = .idle ∨ state = .stale then 1 else 0
  only : ∀ x ∈ past, x.1.updates = true → ∃ now changed,
    x = ⟨.updateRoomState id state .active now none, changed⟩

/-- A piece of a log that neither reads the room nor changes its state. -/
def Aside (id : String) (past : Log) : Prop :=
  ∀ x ∈ past, x.1.looksAtRoom id = false ∧ x.1.updates = false

theorem Identified.aside {p : Participant} {found : Log} (h : Identified id inst p found) :
    Aside id found := by
  cases h <;> simp [Aside, Call.looksAtRoom, Call.updates]

theorem RecipientMet.aside {recipient : Option String} {known : Log}
    (h : RecipientMet id recipient known) : Aside id known := by
  cases h <;> simp [Aside, Call.looksAtRoom, Call.updates]

/-- What a send did since it read the room. -/
theorem SentBy.since {room : Room} {sender : Participant} {now : OffsetDateTime} {m : Message}
    (h : SentBy id inst r room sender now m past) : ∃ newer,
      past = newer ++ [⟨.getRoom id, some room⟩] ∧ (∀ x ∈ newer, x.1.looksAtRoom id = false) ∧
        Tries id room.state newer ∧ rejectUnlessWritable room = .ok () := by
  obtain @⟨_, revival, haccepted, hrevival⟩ := h
  obtain @⟨found, known, hwritable, hfound, hknown⟩ := haccepted
  obtain ⟨rest, hrest⟩ : ∃ rest : Log, rest = ⟨.touchLastActivity id now, ()⟩ ::
      ⟨.clearExtendVote sender.handle, ()⟩ :: ⟨.setCloseVote sender.handle none, ()⟩ ::
      ⟨.createMessageCapped id sender.handle r.to_ r.body now r.fromHuman
        room.config.hardCap.toNat, some m⟩ :: ⟨.nowUtc, now⟩ :: (known ++ found) := ⟨_, rfl⟩
  have haside : Aside id rest := by
    have hfound' := hfound.aside
    have hknown' := hknown.aside
    rw [hrest]
    intro x hx
    simp only [List.mem_cons, List.mem_append] at hx
    rcases hx with rfl | rfl | rfl | rfl | rfl | hx | hx
    · exact ⟨rfl, rfl⟩
    · exact ⟨rfl, rfl⟩
    · exact ⟨rfl, rfl⟩
    · exact ⟨rfl, rfl⟩
    · exact ⟨rfl, rfl⟩
    · exact hknown' x hx
    · exact hfound' x hx
  have hcount : rest.countP (·.1.updates) = 0 :=
    List.countP_eq_zero.mpr fun x hx => by simp [(haside x hx).2]
  refine ⟨⟨.notify id, ()⟩ :: (revival ++ rest), by simp [hrest], ?_, ?_, hwritable⟩
  · intro x hx
    rcases List.mem_cons.mp hx with rfl | hx
    · rfl
    · rcases List.mem_append.mp hx with hx | hx
      · cases hrevival with
        | needless _ _ => cases hx
        | tried _ =>
          rw [List.mem_singleton.mp hx]
          rfl
      · exact (haside x hx).1
  · constructor
    · rw [List.countP_cons_of_neg (by simp [Call.updates]), List.countP_append, hcount]
      cases hrevival with
      | needless hidle hstale => rw [if_neg (not_or.mpr ⟨hidle, hstale⟩)]; rfl
      | tried hquiet => rw [if_pos hquiet]; rfl
    · intro x hx hupdates
      rcases List.mem_cons.mp hx with rfl | hx
      · cases hupdates
      · rcases List.mem_append.mp hx with hx | hx
        · cases hrevival with
          | needless _ _ => cases hx
          | @tried changed _ => exact ⟨now, changed, List.mem_singleton.mp hx⟩
        · rw [(haside x hx).2] at hupdates
          cases hupdates

/-! ### Where the room stands -/

/-- How the state of the room has come about since it was read: nobody else has moved it,
so that it is as it was read or as the send has left it; or somebody else has, so that it
is past what the send could have left it at. -/
structure StandsAt (was : RoomState) (moved tried : Bool) (state : RoomState) : Prop where
  unmoved : moved = false → state = if tried then .active else was
  past : moved = true → stepsLeft state < 3 ∧ (tried = false → stepsLeft state < stepsLeft was)

theorem stepsLeft_le (state : RoomState) : stepsLeft state ≤ 3 := by
  cases state <;> simp [stepsLeft]

theorem StandsAt.start (was : RoomState) : StandsAt was false false was := ⟨fun _ => rfl, nofun⟩

/-- Somebody else takes the room where time takes it. -/
theorem StandsAt.swept {was : RoomState} (h : StandsAt was moved tried a)
    (hforward : forward a = some b) : StandsAt was true tried b := by
  have hless := stepsLeft_forward hforward
  have hle := stepsLeft_le a
  refine ⟨nofun, fun _ => ⟨by omega, fun htried => ?_⟩⟩
  cases moved with
  | false =>
    have hsame := h.unmoved rfl
    rw [htried] at hsame
    rw [hsame] at hless
    show stepsLeft b < stepsLeft was
    simp only [Bool.false_eq_true, ↓reduceIte] at hless
    omega
  | true =>
    have hpast := (h.past rfl).2 htried
    omega

/-- The send tries to make the room active. -/
theorem StandsAt.revived {was : RoomState} (h : StandsAt was moved false a) :
    StandsAt was moved true (if a = was then .active else a) := by
  constructor
  · intro hmoved
    have hsame : a = was := h.unmoved hmoved
    rw [if_pos hsame]
    rfl
  · intro hmoved
    obtain ⟨hpast, hless⟩ := h.past hmoved
    have hne : a ≠ was := by
      rintro rfl
      exact lt_irrefl _ (hless rfl)
    rw [if_neg hne]
    exact ⟨hpast, nofun⟩

/-! ### A send amid sweeps -/

/-- Request `i` is a send to the room that was answered with a message, all other
requests that have arrived since `c₀` are sweeps, and only these have moved. -/
structure SendAmidSweeps (app : AppState) (i : ℕ) (id : String) (c₀ c : Daemon) : Prop where
  start : Reachable app c₀
  run : (daemon app).RunWith (System.Only (fun _ => True) c₀.threads.length) c₀ c
  arrived : i ∈ arrivals c₀ c
  send : ∃ r, c.threads[i]?.map Thread.req = some (.sendMessage id r)
  answered : ∃ seq, c.threads[i]?.bind Thread.returned = some (.ok (.sent seq))
  sweeps : ∀ j ∈ arrivals c₀ c, j ≠ i → c.threads[j]?.map Thread.req = some .sweep

/-- The room that the send read, and all that has happened since. -/
structure ReadBy (i : ℕ) (id : String) (room : Room) (g : Step) (newer older : List Step)
    (c : Daemon) : Prop where
  split : c.trace = newer ++ g :: older
  read : g.call = .getRoom id ∧ g.after.stateOf id = some room.state
  since : sinceRead i id c.trace = newer
  tries : Tries id room.state (pastOf i newer)
  writable : rejectUnlessWritable room = .ok ()
  sweeps : ∀ e ∈ newer, e.tid ≠ i → SweepCall e.call

namespace SendAmidSweeps

theorem reach (h : SendAmidSweeps app i id c₀ c) : Reachable app c := h.start.run h.run.run

theorem readBy (h : SendAmidSweeps app i id c₀ c) : ∃ room g newer older,
    ReadBy i id room g newer older c := by
  obtain ⟨new, htrace, -⟩ := h.run.history
  have hnew := h.run.newcomers new htrace
  obtain ⟨hlow, -⟩ := mem_arrivals.mp h.arrived
  obtain ⟨r, hreq⟩ := h.send
  obtain ⟨seq, hret⟩ := h.answered
  obtain ⟨t, ht, -, hsent⟩ := hnew.returned h.start.orderly h.reach.sending hlow hret
  rw [ht, Option.map_some, Option.some_inj] at hreq
  obtain ⟨room, sender, now, m, -, hlog⟩ := hsent id r seq hreq rfl
  obtain ⟨log, hpast, hreads, htries, hwritable⟩ := hlog.since
  obtain ⟨newer, g, older, rfl, hg, hentry, rfl, -⟩ := pastOf_split hpast
  have hsplit : c.trace = newer ++ g :: (older ++ c₀.trace) := by
    rw [htrace, List.append_assoc, List.cons_append]
  have hcall : g.call = .getRoom id := congrArg Sigma.fst hentry
  refine ⟨room, g, newer, older ++ c₀.trace, hsplit, ⟨hcall, ?_⟩, ?_, htries, hwritable, ?_⟩
  · obtain ⟨sess, hexec⟩ := (h.reach.recorded ⟨newer, hsplit.symm⟩).exec
    obtain ⟨tid, call, reply, before, after⟩ := g
    cases hentry
    change Store.exec sess (.getRoom id) before = .done (some room) after at hexec
    obtain ⟨hstate, rfl⟩ := stateOf_of_getRoom hexec
    exact hstate
  · -- the send reads the room once
    have hnot : ∀ e ∈ newer, (!(decide (e.tid = i) && e.call.looksAtRoom id)) = true := by
      intro e he
      rw [Bool.not_eq_true', Bool.and_eq_false_iff, decide_eq_false_iff_not]
      by_cases htid : e.tid = i
      · exact .inr (hreads _ (mem_pastOf.mpr ⟨e, he, htid, rfl⟩))
      · exact .inl htid
    rw [sinceRead, hsplit, List.takeWhile_append_of_pos hnot, List.takeWhile_cons_of_neg,
      List.append_nil]
    simp [hg, hcall, Call.looksAtRoom]
  · intro e he hne
    have hmem : e ∈ newer ++ g :: older := List.mem_append_left _ he
    obtain ⟨newest, between, hcut⟩ := List.append_of_mem hmem
    have hsuf : e :: between <:+ newer ++ g :: older := ⟨newest, hcut.symm⟩
    obtain ⟨t', ht', -, hsweep⟩ := hnew.event h.start.orderly h.reach.sweeping hsuf
    have hlt : e.tid < c.threads.length := (List.getElem?_eq_some_iff.mp ht').choose
    have hreq' := h.sweeps e.tid (mem_arrivals.mpr ⟨hnew.tids e hmem, hlt⟩) hne
    rw [ht', Option.map_some, Option.some_inj] at hreq'
    exact hsweep hreq'

end SendAmidSweeps

theorem nextState_of_not_updates {k : Call} (h : k.updates = false) (reply : k.Reply) :
    k.nextState reply id state = state := by
  cases k
  case updateRoomState => cases h
  all_goals rfl

theorem writable_cases {room : Room} (h : rejectUnlessWritable room = .ok ()) :
    room.state = .active ∨ room.state = .idle ∨ room.state = .stale := by
  unfold rejectUnlessWritable at h
  cases hstate : room.state <;> rw [hstate] at h
  case active => exact .inl rfl
  case idle => exact .inr (.inl rfl)
  case stale => exact .inr (.inr rfl)
  all_goals cases h

/-- The send tries once, so that it has not tried before. -/
theorem Tries.first {newer : List Step} (h : Tries id state (pastOf e.tid newer))
    (hsuf : e :: tr <:+ newer) (hupdates : e.call.updates = true) :
    (pastOf e.tid tr).any (·.1.updates) = false := by
  have honce : (pastOf e.tid newer).countP (·.1.updates) ≤ 1 := by
    rw [h.once]
    split <;> omega
  obtain ⟨newest, rfl⟩ := hsuf
  rw [pastOf_append, pastOf_cons_self, List.countP_append, List.countP_cons] at honce
  simp only [hupdates, ↓reduceIte] at honce
  have hnone : (pastOf e.tid tr).countP (·.1.updates) = 0 := by omega
  rw [List.any_eq_false]
  exact List.countP_eq_zero.mp hnone

/-- **Where the room stands** after the send has read it. -/
theorem ReadBy.standing {room : Room} {g : Step} {newer : List Step} (h : Reachable app c)
    (hread : ReadBy i id room g newer older c) : ∃ state, c.shared.stateOf id = some state ∧
      StandsAt room.state (movedByOthers i id newer) ((pastOf i newer).any (·.1.updates)) state := by
  refine h.induction_after hread.split (P := fun tr s => ∃ state, s.stateOf id = some state ∧
    StandsAt room.state (movedByOthers i id tr) ((pastOf i tr).any (·.1.updates)) state) ?_ ?_ ?_
  · exact ⟨room.state, hread.read.2, .start room.state⟩
  · rintro tr s₁ s₂ hdb - - - hstands
    rwa [Store.stateOf, hdb]
  · rintro e tr hsuf hrec ⟨state, hstate, hstands⟩
    have he : e ∈ newer := hsuf.mem List.mem_cons_self
    by_cases htid : e.tid = i
    · have hmoved : movedByOthers i id (e :: tr) = movedByOthers i id tr := by
        simp [movedByOthers, htid]
      have hpast : pastOf i (e :: tr) = ⟨e.call, e.reply⟩ :: pastOf i tr :=
        htid ▸ pastOf_cons_self e tr
      rw [hmoved, hpast, List.any_cons]
      cases hupdates : e.call.updates with
      | false =>
        have hafter := hrec.stateOf_after hstate
        rw [nextState_of_not_updates hupdates] at hafter
        rw [Bool.false_or]
        exact ⟨state, hafter, hstands⟩
      | true =>
        subst htid
        have hentry : ⟨e.call, e.reply⟩ ∈ pastOf e.tid newer := mem_pastOf.mpr ⟨e, he, rfl, rfl⟩
        rw [hread.tries.first hsuf hupdates] at hstands
        obtain ⟨now, changed, heq⟩ := hread.tries.only _ hentry hupdates
        obtain ⟨tid, call, reply, before, after⟩ := e
        cases heq
        obtain ⟨-, hafter⟩ := hrec.updated hstate
        exact ⟨_, hafter, hstands.revived⟩
    · have hpast : pastOf i (e :: tr) = pastOf i tr := pastOf_cons_of_ne htid tr
      rw [hpast]
      rcases hrec.swept (hread.sweeps e he htid) hstate with ⟨hmoves, hsame⟩ | ⟨hmoves, b, hb, hnext⟩
      · refine ⟨state, hsame, ?_⟩
        have hmoved : movedByOthers i id (e :: tr) = movedByOthers i id tr := by
          simp [movedByOthers, hmoves]
        rwa [hmoved]
      · refine ⟨b, hnext, ?_⟩
        have hmoved : movedByOthers i id (e :: tr) = true := by
          simp [movedByOthers, hmoves, htid]
        rw [hmoved]
        exact hstands.swept hb

/-- In the end the room is active exactly when nobody else has moved it since it was
read. -/
theorem SendAmidSweeps.active_iff (h : SendAmidSweeps app i id c₀ c) :
    c.shared.stateOf id = some .active ↔ movedByOthers i id (sinceRead i id c.trace) = false := by
  obtain ⟨room, g, newer, older, hread⟩ := h.readBy
  obtain ⟨state, hstate, hstands⟩ := hread.standing h.reach
  rw [hread.since, hstate, Option.some_inj]
  constructor
  · rintro rfl
    refine Bool.eq_false_iff.mpr fun hmoved => ?_
    have hless := (hstands.past hmoved).1
    exact absurd hless (by decide)
  · intro hmoved
    rw [hstands.unmoved hmoved]
    cases htried : (pastOf i newer).any (·.1.updates) with
    | true => rfl
    | false =>
      -- it did not try, so that the room was read as active
      have hnone : (pastOf i newer).countP (·.1.updates) = 0 :=
        List.countP_eq_zero.mpr (List.any_eq_false.mp htried)
      have honce := hread.tries.once
      have hquiet : ¬ (room.state = .idle ∨ room.state = .stale) := by
        intro hquiet
        rw [hnone, if_pos hquiet] at honce
        cases honce
      show room.state = .active
      rcases writable_cases hread.writable with hactive | hidle | hstale
      · exact hactive
      · exact absurd (.inl hidle) hquiet
      · exact absurd (.inr hstale) hquiet

/-- **A landed message revives the room**, unless a pass that listed it after the bump
has moved it, exactly when no pass that had listed it before the bump has moved it
since the send read it, or such a later pass has. -/
theorem room_revived_iff (h : SendAmidSweeps app i id c₀ c) :
    (c.shared.stateOf id = some .active ∨ movedAfterBump i id c.trace = true) ↔
      (movedByOldPass i id c.trace = false ∨ movedAfterBump i id c.trace = true) := by
  rw [h.active_iff]
  constructor
  · rintro (hmoved | hlate)
    · refine .inl ?_
      rw [movedByOthers, List.any_eq_false] at hmoved
      rw [movedByOldPass, List.any_eq_false]
      intro e he hold
      rw [Bool.and_eq_true] at hold
      exact hmoved e he hold.1
    · exact .inr hlate
  · rintro (hold | hlate)
    · by_cases hlate : movedAfterBump i id c.trace = true
      · exact .inr hlate
      · refine .inl ?_
        rw [Bool.not_eq_true, movedAfterBump, List.any_eq_false] at hlate
        rw [movedByOldPass, List.any_eq_false] at hold
        rw [movedByOthers, List.any_eq_false]
        intro e he hmoves
        have hlists := hold e he
        have hmem : e ∈ c.trace := (List.takeWhile_prefix _).subset he
        rw [hmoves, Bool.true_and, Bool.not_eq_true', Bool.not_eq_false] at hlists
        rw [Bool.and_eq_true] at hmoves
        exact hlate e hmem (by rw [hmoves.2, hlists]; rfl)
    · exact .inr hlate

/-- A day after alice has opened the room, she writes to it; the pass makes its first `n`
moves before. -/
def sweptWhileSending (n : ℕ) : Daemon :=
  play .default ([.tick (Rfc3339.Duration.hours 24, 0), .start .sweep] ++ steps 2 n ++
    [.start (.sendMessage demoRoom ⟨alice, none, "hello", false⟩)] ++ steps 3 40 ++ steps 2 40)
    (demo (gather none [alice]))

theorem sendAmidSweeps_demo {n : ℕ} (hsend : (sweptWhileSending n).threads[3]?.map Thread.req =
      some (.sendMessage demoRoom ⟨alice, none, "hello", false⟩))
    (hanswered : (sweptWhileSending n).threads[3]?.bind Thread.returned = some (.ok (.sent 1)))
    (hsweeps : ∀ j ∈ arrivals (demo (gather none [alice])) (sweptWhileSending n), j ≠ 3 →
      (sweptWhileSending n).threads[j]?.map Thread.req = some .sweep)
    (harrived : 3 ∈ arrivals (demo (gather none [alice])) (sweptWhileSending n)) :
    SendAmidSweeps .default 3 demoRoom (demo (gather none [alice])) (sweptWhileSending n) where
  start := reachable_demo _
  run := by
    have hlength : (demo (gather none [alice])).threads.length = 2 := by decide +kernel
    refine runWith_only fun a ha => ?_
    rw [hlength]
    simp only [steps, List.mem_append, List.mem_cons, List.mem_replicate, List.not_mem_nil,
      or_false] at ha
    rcases ha with (((( rfl | rfl) | ⟨-, rfl⟩) | rfl) | ⟨-, rfl⟩) | ⟨-, rfl⟩ <;>
      simp [System.Only]
  arrived := harrived
  send := ⟨_, hsend⟩
  answered := ⟨1, hanswered⟩
  sweeps := hsweeps

/-- The pass has taken the room to idle, and the message revives it. -/
theorem room_revived_iff_swept_before :
    (sweptWhileSending 40).shared.stateOf demoRoom = some .active := by
  obtain ⟨hsend, hanswered, hsweeps, harrived, hlate, hold⟩ :
      (sweptWhileSending 40).threads[3]?.map Thread.req =
        some (.sendMessage demoRoom ⟨alice, none, "hello", false⟩) ∧
      (sweptWhileSending 40).threads[3]?.bind Thread.returned = some (.ok (.sent 1)) ∧
      (∀ j ∈ arrivals (demo (gather none [alice])) (sweptWhileSending 40), j ≠ 3 →
        (sweptWhileSending 40).threads[j]?.map Thread.req = some .sweep) ∧
      3 ∈ arrivals (demo (gather none [alice])) (sweptWhileSending 40) ∧
      movedAfterBump 3 demoRoom (sweptWhileSending 40).trace = false ∧
      movedByOldPass 3 demoRoom (sweptWhileSending 40).trace = false := by decide +kernel
  have h := sendAmidSweeps_demo hsend hanswered hsweeps harrived
  rcases (room_revived_iff h).mpr (.inl hold) with hactive | hmoved
  · exact hactive
  · rw [hlate] at hmoved
    cases hmoved

/-- The pass has listed the room before the message and moves it afterwards: the room is
idle, with a message that has just landed. -/
theorem not_room_revived : ¬ ∀ (app : AppState) (i : ℕ) (id : String) (c₀ c : Daemon),
    SendAmidSweeps app i id c₀ c → (c₀.shared.stateOf id = some .active ∨
      c₀.shared.stateOf id = some .idle ∨ c₀.shared.stateOf id = some .stale) →
    (∀ j ∈ arrivals c₀ c, (c.threads[j]?.bind Thread.returned).isSome = true) →
    c.shared.stateOf id = some .active ∨ movedAfterBump i id c.trace = true := by
  intro h
  obtain ⟨hsend, hanswered, hsweeps, harrived, hfinished, hstart, hstate, hlate⟩ :
      (sweptWhileSending 2).threads[3]?.map Thread.req =
        some (.sendMessage demoRoom ⟨alice, none, "hello", false⟩) ∧
      (sweptWhileSending 2).threads[3]?.bind Thread.returned = some (.ok (.sent 1)) ∧
      (∀ j ∈ arrivals (demo (gather none [alice])) (sweptWhileSending 2), j ≠ 3 →
        (sweptWhileSending 2).threads[j]?.map Thread.req = some .sweep) ∧
      3 ∈ arrivals (demo (gather none [alice])) (sweptWhileSending 2) ∧
      (∀ j ∈ arrivals (demo (gather none [alice])) (sweptWhileSending 2),
        ((sweptWhileSending 2).threads[j]?.bind Thread.returned).isSome = true) ∧
      (demo (gather none [alice])).shared.stateOf demoRoom = some .active ∧
      (sweptWhileSending 2).shared.stateOf demoRoom = some .idle ∧
      movedAfterBump 3 demoRoom (sweptWhileSending 2).trace = false := by decide +kernel
  rcases h .default 3 demoRoom _ _ (sendAmidSweeps_demo hsend hanswered hsweeps harrived)
    (.inl hstart) hfinished with hactive | hmoved
  · rw [hstate] at hactive
    cases hactive
  · rw [hlate] at hmoved
    cases hmoved

end ChatBotChat
