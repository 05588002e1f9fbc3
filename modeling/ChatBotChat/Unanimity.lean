/-
Everybody closes.

The close that counts last counts after every vote of the run (`last_count`), so
that everybody live has voted by then (`live_voted`), and its caller is live
(`caller_live`): had nobody closed the room before, this one would have.

* `unanimous_close_completes` — if everybody live closes, the room is closed, by
  one event, and nobody is answered with an unexpected conflict.
-/
import ChatBotChat.Proposal

namespace ChatBotChat

open Interleave Lifecycle

variable {app : AppState} {c₀ c : Daemon} {new tr : List Step} {e : Step} {s : Store}
  {id inst handle : String} {state : RoomState} {p q : Participant} {i : ℕ} {room : Room}
  {now : OffsetDateTime} {participants : List Participant} {past newer : Log}

/-! ### When everybody live closes -/

/-- The participant that a request closes the room for, if it is a close without force
by a participant of the room. -/
def closesFor (db : Db) (id : String) : Request → Option String
  | .closeRoom id' r =>
    if id' = id ∧ r.force = false then
      (db.resolve id (effectiveInstance r.toCaller)).map Participant.handle
    else none
  | _ => none

/-- The request is a close without force by some participant of the room. -/
def ClosesAs (db : Db) (id : String) (req : Request) : Prop := (closesFor db id req).isSome = true

instance (db : Db) (id : String) : DecidablePred (ClosesAs db id) :=
  fun req => inferInstanceAs (Decidable ((closesFor db id req).isSome = true))

/-- Request `i` of the run is a close by the participant `handle`. -/
def CloserOf (c₀ c : Daemon) (id handle : String) (i : ℕ) : Prop :=
  c₀.threads.length ≤ i ∧
    (c.threads[i]?.bind fun t => closesFor c₀.shared.db id t.req) = some handle

instance : Decidable (CloserOf c₀ c id handle i) := inferInstanceAs (Decidable (_ ∧ _))

theorem closesFor_spec {db : Db} {req : Request} (h : closesFor db id req = some handle) :
    ∃ r p, req = .closeRoom id r ∧ r.force = false ∧
      db.resolve id (effectiveInstance r.toCaller) = some p ∧ p.handle = handle := by
  unfold closesFor at h
  split at h
  · split_ifs at h with hclose
    obtain ⟨rfl, hforce⟩ := hclose
    obtain ⟨p, hres, hhandle⟩ := Option.map_eq_some_iff.mp h
    exact ⟨_, p, rfl, hforce, hres, hhandle⟩
  · cases h

/-- The room is closed, by one event, and every answer is one that a close of an open
room in `state`, or of a closed room, may get. -/
structure CloseCompleted (id : String) (state : RoomState) (c₀ c : Daemon) : Prop where
  closed : c.shared.stateOf id = some .closed
  event : ∃ ev : Event, ev.toState = some .closed ∧
    c.shared.db.listEvents id = c₀.shared.db.listEvents id ++ [ev]
  answers : ∀ i a, c₀.threads.length ≤ i → c.threads[i]?.bind Thread.returned = some a →
    a = .ok (.closed closedResponse) ∨
      (∃ counts, a = .ok (.closed (proposedResponse state counts))) ∨
      a = .error (cannotClose .closed)

/-- Everybody who is live when the run begins has one close in it, and so has
whoever has any; and all of them have been answered. -/
structure UnanimousClose (id : String) (state : RoomState) (c₀ c : Daemon) : Prop where
  was : c₀.shared.stateOf id = some state
  wasOpen : state.terminal = false
  begun : c₀.threads.length < c.threads.length
  finished : ∀ i, c₀.threads.length ≤ i → i < c.threads.length →
    ∃ a, c.threads[i]?.bind Thread.returned = some a
  everyone : ∀ p ∈ c₀.shared.db.listParticipants id, livePoller c₀.shared.utc p = true →
    ∃ i, CloserOf c₀ c id p.handle i
  once : ∀ handle i j, CloserOf c₀ c id handle i → CloserOf c₀ c id handle j → i = j

namespace CloseRun

/-- At every point of the run an open room is as it was, or the run has closed it. -/
theorem stateOf_cases (h : CloseRun app c₀ c new) (hist : History app c₀.shared tr s)
    (hsuf : tr <:+ new) (hstate : c₀.shared.stateOf id = some state) :
    (tr.any (closesRoom id) = false ∧ s.stateOf id = some state) ∨
      (tr.any (closesRoom id) = true ∧ s.stateOf id = some .closed) := by
  have htrail := h.trail hist hsuf id
  cases hany : tr.any (closesRoom id) with
  | false =>
    rw [hany] at htrail
    exact .inl ⟨rfl, htrail.1.trans hstate⟩
  | true =>
    rw [hany] at htrail
    exact .inr ⟨rfl, htrail.1⟩

/-- What a read of the room finds. -/
theorem read_at (h : CloseRun app c₀ c new) {g : Step} {old : List Step} {found : Option Room}
    (hsuf : g :: old <:+ new) (hstate : c₀.shared.stateOf id = some state)
    (hread : (⟨g.call, g.reply⟩ : Sigma Call.Reply) = ⟨.getRoom id, found⟩) :
    ∃ room, found = some room ∧
      ((old.any (closesRoom id) = false ∧ room.state = state) ∨
        (old.any (closesRoom id) = true ∧ room.state = .closed)) := by
  obtain ⟨sess, hexec⟩ := (h.reach.recorded (h.newcomers.suffix hsuf)).exec
  have hcases := h.stateOf_cases (h.before hsuf) ((List.suffix_cons _ _).trans hsuf) hstate
  obtain ⟨tid, call, reply, before, after⟩ := g
  cases hread
  cases reply with
  | none =>
    have hnone : before.stateOf id = none := by
      have hget := (done_of_tryRead hexec).1
      unfold Db.getRoom at hget
      split at hget
      · rename_i hrow
        have hmap : before.stateOf id = Option.map RoomRow.state none := congrArg _ hrow
        exact hmap
      · obtain ⟨room, -, hcontra⟩ := Option.map_eq_some_iff.mp hget
        cases hcontra
    rcases hcases with ⟨-, hsome⟩ | ⟨-, hsome⟩
    all_goals
      have hcontra : before.stateOf id = some _ := hsome
      rw [hnone] at hcontra
      cases hcontra
  | some room =>
    have hroom : before.stateOf id = some room.state := (stateOf_of_getRoom hexec).1
    exact ⟨room, rfl, hcases.imp
      (fun hsame => ⟨hsame.1, Option.some_inj.mp (hroom.symm.trans hsame.2)⟩)
      fun hclosed => ⟨hclosed.1, Option.some_inj.mp (hroom.symm.trans hclosed.2)⟩⟩

/-- A room that is there is read. -/
theorem not_missing (h : CloseRun app c₀ c new) (hstate : c₀.shared.stateOf id = some state) :
    ⟨.getRoom id, none⟩ ∉ pastOf i new := by
  intro hmem
  obtain ⟨g, hg, -, hread⟩ := mem_pastOf.mp hmem
  obtain ⟨late, old, rfl⟩ := List.append_of_mem hg
  obtain ⟨room, hcontra, -⟩ := h.read_at (List.suffix_append late _) hstate hread
  cases hcontra

/-- A log that shows the end of a room that was open shows that the run has closed it. -/
theorem closed_of_shown (h : CloseRun app c₀ c new) (hstate : c₀.shared.stateOf id = some state)
    (hterm : state.terminal = false) {x : Sigma Call.Reply} (hx : x ∈ pastOf i new)
    (hshown : showsEnd id x = true) : new.any (closesRoom id) = true := by
  refine Bool.not_eq_false _ ▸ fun hopen => ?_
  obtain ⟨e, he, -, rfl⟩ := mem_pastOf.mp hx
  have hended : c.shared.ended id = true := by
    refine h.reach.endsShown.now e ?_ id hshown
    rw [h.newcomers.trace]
    exact List.mem_append_left _ he
  rw [Store.ended, h.stateOf_open h.hist List.suffix_rfl hopen, hstate, Option.any_some,
    hterm] at hended
  cases hended

/-- A transition that failed and then a read of an open room: it did not happen. -/
theorem not_contested (h : CloseRun app c₀ c new) (hstate : c₀.shared.stateOf id = some state)
    {room cur : Room} (hroom : room.state = state)
    (hcur : cur.state.terminal = false) {rest : Log}
    (hlog : pastOf i new = ⟨.getRoom id, some cur⟩ ::
      ⟨.updateRoomState id room.state .closed now none, false⟩ :: rest) : False := by
  obtain ⟨late, g, old, rfl, -, hread, -, hold⟩ := pastOf_cons_split hlog
  obtain ⟨_, hsome, hcases⟩ := h.read_at (List.suffix_append late _) hstate hread
  obtain rfl := Option.some_inj.mp hsome
  -- the room was still as it was, and so it was when the transition failed
  have hopen : old.any (closesRoom id) = false := by
    rcases hcases with ⟨hopen, -⟩ | ⟨-, hclosed⟩
    · exact hopen
    · rw [hclosed] at hcur
      cases hcur
  obtain ⟨mid, u, older, rfl, -, hupdate, -, -⟩ := pastOf_cons_split hold
  have hsuf : u :: older <:+ late ++ g :: (mid ++ u :: older) :=
    ((List.suffix_append mid _).trans (List.suffix_cons _ _)).trans (List.suffix_append late _)
  rw [List.any_append, List.any_cons, Bool.or_eq_false_iff, Bool.or_eq_false_iff] at hopen
  have hrec := h.reach.recorded (h.newcomers.suffix hsuf)
  obtain ⟨sess, hexec⟩ := hrec.exec
  have hsame := h.stateOf_open (h.before hsuf) ((List.suffix_cons _ _).trans hsuf) hopen.2.2
  have hwf := hrec.wellFormed_before
  obtain ⟨tid, call, reply, before, after⟩ := u
  cases hupdate
  have hmoved := (changed_iff hwf hexec).mpr (hsame.trans (hstate.trans (congrArg some hroom.symm)))
  cases hmoved

/-- **How a close of a run is answered**: with a proposal of the room as it was, or
as a close of a room that the run has closed. -/
theorem answered (h : CloseRun app c₀ c new) (hstate : c₀.shared.stateOf id = some state)
    (hterm : state.terminal = false) {j : ℕ} (hj : CloserOf c₀ c id handle j) {a : Outcome}
    (ha : c.threads[j]?.bind Thread.returned = some a) :
    (∃ inst room p now participants past, Polled id inst room p now participants past ∧
      p.handle = handle ∧ room.state = state ∧ pastOf j new = ⟨.notify id, ()⟩ :: past ∧
      (countVotes participants now room.config.closeQuorum).1 <
        (countVotes participants now room.config.closeQuorum).2 ∧
      a = .ok (.closed (proposedResponse room.state
        (countVotes participants now room.config.closeQuorum)))) ∨
    (new.any (closesRoom id) = true ∧
      (a = .ok (.closed closedResponse) ∨ a = .error (cannotClose .closed))) := by
  obtain ⟨hle, hfor⟩ := hj
  obtain ⟨t, ht, hfor⟩ := Option.bind_eq_some_iff.mp hfor
  obtain ⟨r, q, hreq, hforce, hres, hhandle⟩ := closesFor_spec hfor
  obtain ⟨t', ht', -, hconclusion⟩ := h.newcomers.returned h.start.orderly h.reach.closing hle ha
  obtain rfl := Option.some_inj.mp (ht.symm.trans ht')
  obtain ⟨answer, rfl, hanswered⟩ := hconclusion id r hreq hforce
  have hread : ∀ room, ⟨.getRoom id, some room⟩ ∈ pastOf j new →
      room.state = state ∨ new.any (closesRoom id) = true ∧ room.state = .closed := by
    intro room hmem
    obtain ⟨g, hg, -, hread⟩ := mem_pastOf.mp hmem
    obtain ⟨late, old, rfl⟩ := List.append_of_mem hg
    obtain ⟨_, hsome, hcases⟩ := h.read_at (List.suffix_append late _) hstate hread
    obtain rfl := Option.some_inj.mp hsome
    exact hcases.imp (·.2) fun hclosed => ⟨by simp [hclosed.1], hclosed.2⟩
  have hopened : ∀ {room p now participants past newer},
      Polled id (effectiveInstance r.toCaller) room p now participants past →
        pastOf j new = newer ++ past → room.state = state := by
    intro room p now participants past newer hpolled hlog
    refine (hread room ?_).resolve_right fun hclosed => ?_
    · rw [hlog]
      cases hpolled
      simp
    · have hopen := hpolled.notTerminal
      rw [hclosed.2] at hopen
      cases hopen
  obtain ⟨past, hlog⟩ : ∃ past, pastOf j new = past := ⟨_, rfl⟩
  rw [hlog] at hanswered
  cases hanswered with
  | missing => exact absurd (hlog ▸ List.mem_cons_self) (h.not_missing hstate)
  | @terminal room hroom =>
    rcases hread room (hlog ▸ List.mem_cons_self) with hsame | ⟨hclosed, hsame⟩
    · rw [hsame, hterm] at hroom
      cases hroom
    · rw [hsame]
      exact .inr ⟨hclosed, .inr rfl⟩
  | stranger =>
    have hread : stranger id (effectiveInstance r.toCaller) ⊆ pastOf j new :=
      hlog ▸ List.subset_append_left _ _
    have hnone := h.hist.resolve_none h.start.wellFormed (h.keepsRoster (List.Subset.refl _)) hread
    rw [hres] at hnone
    cases hnone
  | @proposed room p now participants past hpolled hlt =>
    have hlog' : pastOf j new = [⟨.notify id, ()⟩] ++ past := hlog
    obtain ⟨q', hres', -, hkey, -⟩ := h.voter hpolled hlog'
    obtain rfl := Option.some_inj.mp (hres.symm.trans hres')
    exact .inl ⟨_, room, p, now, participants, past, hpolled,
      (Participant.handle_of_key hkey).symm.trans hhandle, hopened hpolled hlog', hlog, hlt, rfl⟩
  | @closed room p now participants past hpolled =>
    refine .inr ⟨h.closed_of_shown hstate hterm (i := j) (x :=
      ⟨.updateRoomState id room.state .closed now none, true⟩) (by simp [hlog]) ?_, .inl rfl⟩
    simp [showsEnd, RoomState.terminal]
  | @overtaken room cur p now participants past hpolled hcur =>
    refine .inr ⟨h.closed_of_shown hstate hterm (i := j) (x := ⟨.getRoom id, some cur⟩)
      (by simp [hlog]) ?_, .inl rfl⟩
    simp [showsEnd, hcur]
  | vanished _ => exact absurd (hlog ▸ List.mem_cons_self) (h.not_missing hstate)
  | @contested room cur p now participants past hpolled hcur =>
    exact (h.not_contested hstate
      (hopened hpolled (show pastOf j new = [_, _] ++ past from hlog)) hcur hlog).elim

/-- A close of the run that was answered, with the run not closing the room: it has
made its proposal. -/
structure Proposed (id handle : String) (j : ℕ) (new : List Step) (inst : String) (room : Room)
    (p : Participant) (now : OffsetDateTime) (participants : List Participant) (past : Log) :
    Prop where
  polled : Polled id inst room p now participants past
  handle : p.handle = handle
  log : pastOf j new = ⟨.notify id, ()⟩ :: past
  lacking : (countVotes participants now room.config.closeQuorum).1 <
    (countVotes participants now room.config.closeQuorum).2

theorem proposed (h : CloseRun app c₀ c new) (hu : UnanimousClose id state c₀ c)
    (hopen : new.any (closesRoom id) = false) {j : ℕ} (hj : CloserOf c₀ c id handle j) :
    ∃ inst room p now participants past,
      Proposed id handle j new inst room p now participants past := by
  obtain ⟨t, ht, -⟩ := Option.bind_eq_some_iff.mp hj.2
  obtain ⟨a, ha⟩ := hu.finished j hj.1 (List.getElem?_eq_some_iff.mp ht).choose
  rcases h.answered hu.was hu.wasOpen hj ha with
    ⟨inst, room, p, now, participants, past, hpolled, hhandle, -, hlog, hlt, -⟩ | ⟨hclosed, -⟩
  · exact ⟨inst, room, p, now, participants, past, hpolled, hhandle, hlog, hlt⟩
  · rw [hopen] at hclosed
    cases hclosed

/-- Who moves in such a run closes for somebody. -/
theorem closer (h : CloseRun app c₀ c new)
    (hnew : System.Newcomers (ClosesAs c₀.shared.db id) c₀ c new) (he : e ∈ new) :
    ∃ handle, CloserOf c₀ c id handle e.tid := by
  obtain ⟨late, old, rfl⟩ := List.append_of_mem he
  obtain ⟨t, -, -, ht, -⟩ := h.call (List.suffix_append late (e :: old))
  obtain ⟨handle, hfor⟩ := Option.isSome_iff_exists.mp (hnew.threads e.tid t (hnew.tids e he) ht)
  exact ⟨handle, hnew.tids e he, Option.bind_eq_some_iff.mpr ⟨t, ht, hfor⟩⟩

/-- A close polls for its own participant. -/
theorem closer_of_polls (h : CloseRun app c₀ c new)
    (hnew : System.Newcomers (ClosesAs c₀.shared.db id) c₀ c new)
    (hu : UnanimousClose id state c₀ c) (hopen : new.any (closesRoom id) = false) (he : e ∈ new)
    (hpolls : e.call.polls handle = true) : CloserOf c₀ c id handle e.tid := by
  obtain ⟨handle', hcloser⟩ := h.closer hnew he
  obtain ⟨inst, room, p, now, participants, past, hproposed⟩ := h.proposed hu hopen hcloser
  obtain ⟨now', htouch⟩ := (h.ofClose he).polls hpolls
  have hmem : (⟨e.call, e.reply⟩ : Sigma Call.Reply) ∈ pastOf e.tid new :=
    mem_pastOf.mpr ⟨e, he, rfl, rfl⟩
  obtain ⟨tid, call, reply, before, after⟩ := e
  obtain rfl : call = .touchLastPoll handle now' := htouch
  rw [hproposed.log] at hmem
  obtain rfl : handle = p.handle := by
    cases hproposed.polled with
    | mk _ hfound => cases hfound <;> simp_all
  rwa [hproposed.handle]

/-- The count of request `j` that comes after every vote of the run. -/
structure LastCount (id : String) (j : ℕ) (p : Participant) (now : OffsetDateTime)
    (participants : List Participant) (new : List Step) (k : Step) (tr : List Step) : Prop where
  suffix : k :: tr <:+ new
  count : (⟨k.call, k.reply⟩ : Sigma Call.Reply) = ⟨.listParticipants id, participants⟩
  votes : ∀ i x, x ∈ pastOf i new → x.1.closeVote.isSome = true → x ∈ pastOf i tr
  poll : ∃ since t old, tr = since ++ t :: old ∧ t.call = .touchLastPoll p.handle now ∧
    ∀ e ∈ since, e.tid = j → e.call.polls p.handle = false

/-- **Some close counts after every vote of the run.** -/
theorem last_count (h : CloseRun app c₀ c new)
    (hnew : System.Newcomers (ClosesAs c₀.shared.db id) c₀ c new)
    (hu : UnanimousClose id state c₀ c) (hopen : new.any (closesRoom id) = false) :
    ∃ j handle inst room p now participants past k tr, CloserOf c₀ c id handle j ∧
      Proposed id handle j new inst room p now participants past ∧
        LastCount id j p now participants new k tr := by
  -- somebody votes, and so somebody votes last
  have hsome : (new.find? fun e => e.call.closeVote.isSome).isSome = true := by
    obtain ⟨t, ht⟩ : ∃ t, c.threads[c₀.threads.length]? = some t :=
      ⟨_, List.getElem?_eq_getElem hu.begun⟩
    obtain ⟨handle, hfor⟩ := Option.isSome_iff_exists.mp (hnew.threads _ t (Nat.le_refl _) ht)
    obtain ⟨inst, room, p, now, participants, past, hproposed⟩ :=
      h.proposed hu hopen ⟨Nat.le_refl _, Option.bind_eq_some_iff.mpr ⟨t, ht, hfor⟩⟩
    have hvote : (⟨.setCloseVote p.handle (some now), ()⟩ : Sigma Call.Reply) ∈
        pastOf c₀.threads.length new := by
      rw [hproposed.log]
      cases hproposed.polled
      simp
    obtain ⟨v, hv, -, heq⟩ := mem_pastOf.mp hvote
    rw [List.find?_isSome]
    refine ⟨v, hv, ?_⟩
    rw [(Sigma.mk.inj heq).1]
    rfl
  obtain ⟨v, hfind⟩ := Option.isSome_iff_exists.mp hsome
  obtain ⟨hv, late, old, hsplit, hlate⟩ := List.find?_eq_some_iff_append.mp hfind
  obtain ⟨handle, hj⟩ := h.closer hnew (e := v) (by rw [hsplit]; simp)
  obtain ⟨inst, room, p, now, participants, past, hproposed⟩ := h.proposed hu hopen hj
  have hnovote : ∀ i, ∀ x ∈ pastOf i late, x.1.closeVote.isSome = false := by
    intro i x hx
    obtain ⟨e, he, -, rfl⟩ := mem_pastOf.mp hx
    have hnot := hlate e he
    rwa [Bool.not_eq_true'] at hnot
  -- the last vote is the one vote in the log of its request
  have hcuts : pastOf v.tid late ++ ⟨v.call, v.reply⟩ :: pastOf v.tid old =
      ⟨.notify id, ()⟩ :: past := by
    rw [← hproposed.log, hsplit, pastOf_append, pastOf_cons_self]
  cases hpolled : hproposed.polled with
  | @mk found hterm hfound =>
  rcases compare_cuts (hcuts.trans (show _ = [⟨.notify id, ()⟩,
      ⟨.listParticipants id, participants⟩] ++ (⟨.setCloseVote p.handle (some now), ()⟩ :
        Sigma Call.Reply) :: _ from rfl)) with ⟨z, hz, -⟩ | ⟨hearlier, -, hrest⟩ | ⟨z, hz, -⟩
  · have hmem : (⟨v.call, v.reply⟩ : Sigma Call.Reply) ∈
        [⟨.notify id, ()⟩, ⟨.listParticipants id, participants⟩] := by simp [hz]
    rw [List.mem_cons, List.mem_singleton] at hmem
    rcases hmem with heq | heq <;> rw [(Sigma.mk.inj heq).1] at hv <;> cases hv
  · obtain ⟨late', k, mid, rfl, -, hcount, -, hmid⟩ :=
      pastOf_split (show pastOf v.tid late = [⟨.notify id, ()⟩] ++ _ :: [] from hearlier)
    obtain ⟨since, t, old', rfl, -, htouch, hsince, -⟩ := pastOf_cons_split hrest
    refine ⟨v.tid, handle, inst, room, p, now, participants, _, k, mid ++ v :: (since ++ t :: old'),
      hj, hproposed, ⟨late', ?_⟩, hcount, ?_, ?_⟩
    · rw [hsplit, List.append_assoc, List.cons_append]
    · intro i x hx hvote
      rw [hsplit, pastOf_append] at hx
      rcases List.mem_append.mp hx with hx | hx
      · rw [hnovote i x hx] at hvote
        cases hvote
      · rw [pastOf_append]
        exact List.mem_append_right _ hx
    · refine ⟨mid ++ v :: since, t, old', by simp, (Sigma.mk.inj htouch).1, fun e he htid => ?_⟩
      have hnone : ∀ {l : List Step}, pastOf v.tid l = [] → e ∉ l := by
        intro l hl hmem
        have hin := mem_pastOf.mpr ⟨e, hmem, htid, rfl⟩
        rw [hl] at hin
        cases hin
      rcases List.mem_append.mp he with hmem | hmem
      · exact absurd hmem (hnone hmid)
      · rcases List.mem_cons.mp hmem with rfl | hmem
        · cases hcall : e.call
          case setCloseVote => rfl
          all_goals
            rw [hcall] at hv
            cases hv
        · exact absurd hmem (hnone hsince)
  · have hmem : (⟨.setCloseVote p.handle (some now), ()⟩ : Sigma Call.Reply) ∈
        pastOf v.tid late := by simp [hz]
    have hcontra := hnovote _ _ hmem
    cases hcontra

/-- **At the last count everybody live has voted.** -/
theorem live_voted (h : CloseRun app c₀ c new)
    (hnew : System.Newcomers (ClosesAs c₀.shared.db id) c₀ c new)
    (hu : UnanimousClose id state c₀ c) (hopen : new.any (closesRoom id) = false) {j : ℕ} {k : Step}
    (hclock : ⟨.nowUtc, now⟩ ∈ pastOf j new) (hlast : LastCount id j p now participants new k tr)
    (hq : q ∈ k.before.db.listParticipants id) (hlive : livePoller now q = true) :
    q.wantsCloseAt.isSome = true := by
  obtain ⟨hqrow, hqroom⟩ := mem_listParticipants.mp hq
  have hbefore := h.before hlast.suffix
  have hwf := h.start.wellFormed
  have hwf' := hbefore.wellFormed hwf
  have hsuf : tr <:+ new := (List.suffix_cons _ _).trans hlast.suffix
  obtain ⟨q₀, hq₀, hkey⟩ := hbefore.key_before hwf (h.keepsRoster hsuf.subset) hqrow
  have hhandle : q.handle = q₀.handle := Participant.handle_of_key hkey
  -- whoever is live was live from the start, or has polled in the run: either way it closes
  obtain ⟨i, hi⟩ : ∃ i, CloserOf c₀ c id q.handle i := by
    by_cases hpolls : ∃ e ∈ tr, e.call.polls q.handle = true
    · obtain ⟨e, he, hpolls⟩ := hpolls
      exact ⟨e.tid, h.closer_of_polls hnew hu hopen (hsuf.subset he) hpolls⟩
    · have hsame : q.lastPollAt = q₀.lastPollAt := by
        obtain ⟨q', hq', hkey', hpoll⟩ := hbefore.row_property hwf (h.keepsRoster hsuf.subset)
          (R := fun row => row.lastPollAt = q₀.lastPollAt) (fun e he row hrow hpoll => by
            rw [lastPollAt_kept, hpoll]
            rw [Participant.handle_of_key hrow, ← hhandle]
            exact Bool.not_eq_true _ ▸ fun hcontra => hpolls ⟨e, he, hcontra⟩) hq₀ rfl
        rwa [← hwf'.participant_unique hq' hqrow
          (Participant.handle_of_key (hkey'.trans hkey.symm))]
      have hle : c₀.shared.utc ≤ now := by
        obtain ⟨before, after, sess, late, old, -, hexec, hold, -⟩ := h.hist.seen hclock
        obtain ⟨rfl, -⟩ := done_of_read hexec
        exact hold.later.utc
      obtain ⟨i, hi⟩ := hu.everyone q₀
        (mem_listParticipants.mpr ⟨hq₀, (Participant.roomId_of_key hkey).symm.trans hqroom⟩)
        (livePoller_earlier hle (by rwa [livePoller, ← hsame]))
      exact ⟨i, hhandle ▸ hi⟩
  obtain ⟨inst, room, p', now', rows, past, hproposed⟩ := h.proposed hu hopen hi
  obtain ⟨q₁, -, hq₁, hkey₁, hroom⟩ := h.voter hproposed.polled
    (show pastOf i new = [⟨.notify id, ()⟩] ++ past from hproposed.log)
  have hvote : (⟨.setCloseVote p'.handle (some now'), ()⟩ : Sigma Call.Reply) ∈ pastOf i tr := by
    refine hlast.votes i _ ?_ rfl
    rw [hproposed.log]
    cases hproposed.polled
    simp
  have htropen : tr.any (closesRoom id) = false := by
    obtain ⟨late, rfl⟩ := hsuf
    rw [List.any_append, Bool.or_eq_false_iff] at hopen
    exact hopen.2
  obtain ⟨q', hq', hkey', hvoted⟩ := h.own_vote hlast.suffix hvote ⟨q₁, hq₁, hkey₁⟩
    fun e he => hroom ▸ h.not_clear hsuf hu.was hu.wasOpen htropen e he
  rwa [← hwf'.participant_unique hq' hqrow
    ((Participant.handle_of_key hkey').trans hproposed.handle)]

/-- **At its count the caller of the last count is live.** -/
theorem caller_live (h : CloseRun app c₀ c new)
    (hnew : System.Newcomers (ClosesAs c₀.shared.db id) c₀ c new)
    (hu : UnanimousClose id state c₀ c) (hopen : new.any (closesRoom id) = false) {j : ℕ} {k : Step}
    (hj : CloserOf c₀ c id p.handle j) (hroom : p.roomId = id)
    (hrow : ∃ q ∈ c₀.shared.db.participants, q.key = p.key)
    (hlast : LastCount id j p now participants new k tr) :
    ∃ q ∈ k.before.db.listParticipants id, livePoller now q = true := by
  obtain ⟨since, t, old, rfl, htouch, hother⟩ := hlast.poll
  have hsuf : since ++ t :: old <:+ new := (List.suffix_cons _ _).trans hlast.suffix
  have hkeeps := h.keepsRoster hsuf.subset
  have hwf := h.start.wellFormed
  obtain ⟨hold, ⟨sess, hexec⟩, hsince⟩ := System.History.split (h.before hlast.suffix)
  obtain ⟨q₀, hq₀, hkey₀⟩ := hrow
  obtain ⟨q₁, hq₁, hkey₁⟩ := History.key_after hold hwf (fun e he => hkeeps e (by simp [he])) hq₀
  have hhandle : q₁.handle = p.handle := Participant.handle_of_key (hkey₁.trans hkey₀)
  -- the poll sets it, and nobody else polls for the caller
  have hpolled : (t.call.onParticipant t.reply q₁).lastPollAt = now := by
    obtain ⟨tid, call, reply, before, after⟩ := t
    obtain rfl : call = .touchLastPoll p.handle now := htouch
    simp [Call.onParticipant, hhandle]
  have hkey₂ := Call.key_onParticipant t.call t.reply q₁
  have hmem : t.call.onParticipant t.reply q₁ ∈ t.after.db.participants := by
    rw [(effect_of_exec hexec).roster (hkeeps t (by simp))]
    exact List.mem_map_of_mem hq₁
  obtain ⟨q, hq, hkey, hpoll⟩ := History.row_property hsince
    ((History.wellFormed hold hwf).exec hexec) (fun e he => hkeeps e (by simp [he])) (R := fun row => row.lastPollAt = now)
    (fun e he row hrow hpoll => by
      have hrowhandle : row.handle = p.handle :=
        (Participant.handle_of_key (hrow.trans hkey₂)).trans hhandle
      rw [lastPollAt_kept, hpoll]
      rw [hrowhandle]
      refine Bool.not_eq_true _ ▸ fun hcontra => ?_
      have hcloser := h.closer_of_polls hnew hu hopen (hsuf.subset (by simp [he])) hcontra
      rw [hother e he (hu.once _ _ _ hcloser hj)] at hcontra
      cases hcontra) hmem hpolled
  refine ⟨q, mem_listParticipants.mpr ⟨hq, ?_⟩, ?_⟩
  · rw [Participant.roomId_of_key (hkey.trans (hkey₂.trans (hkey₁.trans hkey₀))), hroom]
  · rw [livePoller, hpoll, sub_self]
    decide

/-- **A unanimous close closes the room.** -/
theorem closes (h : CloseRun app c₀ c new)
    (hnew : System.Newcomers (ClosesAs c₀.shared.db id) c₀ c new)
    (hu : UnanimousClose id state c₀ c) : new.any (closesRoom id) = true := by
  refine Bool.not_eq_false _ ▸ fun hopen => ?_
  obtain ⟨j, handle, inst, room, p, now, participants, past, k, tr, hj, hproposed, hlast⟩ :=
    h.last_count hnew hu hopen
  have hlog : pastOf j new = [⟨.notify id, ()⟩] ++ past := hproposed.log
  obtain ⟨q₀, -, hq₀, hkey₀, hroom⟩ := h.voter hproposed.polled hlog
  have hclock : ⟨.nowUtc, now⟩ ∈ pastOf j new ∧ ⟨.getRoom id, some room⟩ ∈ pastOf j new := by
    rw [hlog]
    cases hproposed.polled
    simp
  have hquorum : room.config.closeQuorum = .all := h.reach.read_quorum (i := j) (by
    rw [h.newcomers.trace, pastOf_append]
    exact List.mem_append_left _ hclock.2)
  have hrows : k.before.db.listParticipants id = participants := by
    obtain ⟨sess, hexec⟩ := (h.reach.recorded (h.newcomers.suffix hlast.suffix)).exec
    have hcount := hlast.count
    obtain ⟨tid, call, reply, before, after⟩ := k
    cases hcount
    exact (done_of_read hexec).1
  have hreached : (countVotes participants now room.config.closeQuorum).2 ≤
      (countVotes participants now room.config.closeQuorum).1 := by
    rw [hquorum, countVotes_all, ← hrows]
    refine ⟨?_, fun q hq hlive => ?_⟩
    · exact h.caller_live hnew hu hopen (hproposed.handle ▸ hj) hroom ⟨q₀, hq₀, hkey₀⟩ hlast
    · exact h.live_voted hnew hu hopen hclock.1 hlast hq hlive
  exact absurd hproposed.lacking (Nat.not_lt.mpr hreached)

end CloseRun

/-- **A unanimous close completes.**  Let a room be open, and let nothing run but
closes without force by its participants: one of everybody who is live at the
start, and one at most of anybody.  Once all of them have been answered the room
is closed, by exactly one event, and each was answered `closed`, `close_proposed`,
or that it cannot close a closed room. -/
theorem unanimous_close_completes (h₀ : Reachable app c₀)
    (hrun : (daemon app).RunWith (System.Only (ClosesAs c₀.shared.db id) c₀.threads.length) c₀ c)
    (hu : UnanimousClose id state c₀ c) : CloseCompleted id state c₀ c := by
  obtain ⟨new, htrace, -⟩ := hrun.history
  have hnew := hrun.newcomers new htrace
  have h : CloseRun app c₀ c new := by
    refine ⟨h₀, hrun.run, hnew.trace, fun j t hj ht => ?_, hnew.tids⟩
    obtain ⟨handle, hfor⟩ := Option.isSome_iff_exists.mp (hnew.threads j t hj ht)
    obtain ⟨r, p, hreq, hforce, -⟩ := closesFor_spec hfor
    rw [hreq, Request.consensusClose, hforce]
    rfl
  have hclosed := h.closes hnew hu
  have htrail := h.trail h.hist List.suffix_rfl id
  rw [hclosed] at htrail
  refine ⟨htrail.1, htrail.2, fun i a hi ha => ?_⟩
  obtain ⟨t, ht, -⟩ := Option.bind_eq_some_iff.mp ha
  obtain ⟨handle, hfor⟩ := Option.isSome_iff_exists.mp (hnew.threads i t hi ht)
  rcases h.answered hu.was hu.wasOpen ⟨hi, Option.bind_eq_some_iff.mpr ⟨t, ht, hfor⟩⟩ ha with
    ⟨inst, room, p, now, participants, past, -, -, hroom, -, -, rfl⟩ | ⟨-, rfl | rfl⟩
  · exact .inr (.inl ⟨countVotes participants now room.config.closeQuorum, by rw [hroom]⟩)
  · exact .inl rfl
  · exact .inr (.inr rfl)

/-- Alice is told of a proposal that bob has overtaken, and the room is closed. -/
theorem unanimous_close_completes_overtaken :
    CloseCompleted demoRoom .active assembled (play .default hollowProposal assembled) := by
  have hdemo : (∀ a ∈ hollowProposal,
        System.Only (ClosesAs assembled.shared.db demoRoom) assembled.threads.length assembled a) ∧
      assembled.shared.stateOf demoRoom = some .active ∧ assembled.threads.length = 3 ∧
      (play .default hollowProposal assembled).threads.length = 5 ∧
      (∀ i ∈ [3, 4],
        ((play .default hollowProposal assembled).threads[i]?.bind Thread.returned).isSome = true) ∧
      (∀ p ∈ assembled.shared.db.listParticipants demoRoom, ∃ i ∈ [3, 4],
        CloserOf assembled (play .default hollowProposal assembled) demoRoom p.handle i) ∧
      ((play .default hollowProposal assembled).threads[3]?.bind fun t =>
        closesFor assembled.shared.db demoRoom t.req) ≠
      ((play .default hollowProposal assembled).threads[4]?.bind fun t =>
        closesFor assembled.shared.db demoRoom t.req) := by
    decide +kernel
  obtain ⟨hmoves, hstate, hlength, hlength', hreturned, hall, hne⟩ := hdemo
  have htwo : ∀ handle i,
      CloserOf assembled (play .default hollowProposal assembled) demoRoom handle i →
        i = 3 ∨ i = 4 := by
    intro handle i hi
    obtain ⟨t, ht, -⟩ := Option.bind_eq_some_iff.mp hi.2
    have hlt := (List.getElem?_eq_some_iff.mp ht).choose
    have hle := hi.1
    omega
  refine unanimous_close_completes (reachable_demo _) (runWith_only hmoves)
    ⟨hstate, rfl, by omega, fun i hle hlt => ?_, fun p hp _ => ?_, fun handle i j hi hj => ?_⟩
  · exact Option.isSome_iff_exists.mp (hreturned i (by simp; omega))
  · obtain ⟨i, -, hi⟩ := hall p hp
    exact ⟨i, hi⟩
  · rcases htwo handle i hi with rfl | rfl <;> rcases htwo handle j hj with rfl | rfl
    · rfl
    · exact absurd (hi.2.trans hj.2.symm) hne
    · exact absurd (hj.2.trans hi.2.symm) hne
    · rfl

end ChatBotChat
