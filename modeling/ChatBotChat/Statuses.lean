/-
What a wait reports that has delivered nothing.

A wait reads the room, the roster, the clock and the latest messages, one after the
other, and answers with a status and perhaps a hint when to come again.  `Reported` is
what its log shows for each of them.

* `wait_statuses_justified` — every status is one that the client knows, and is true of
  the daemon at moments of the request; and so is the hint.
-/
import ChatBotChat.Refusals

namespace ChatBotChat

open Interleave Lifecycle

variable {app : AppState} {c c₀ : Daemon} {new : List Step} {past past' : Log}
  {id inst handle : String} {i : ℕ} {s s' : Store} {retryAfter : Option UInt32}

/-! ### Statuses and their grounds -/

/-- The status of a wait on a room that does not take traffic. -/
def RoomState.waitStatus : RoomState → Option WaitStatus
  | .paused => some .paused
  | .closed => some .closed
  | .archived => some .archived
  | .active | .idle | .stale => none

/-- The others of a roster are there, and dark. -/
def othersDark (roster : List Participant) (handle : String) (now : OffsetDateTime) : Bool :=
  !(roster.filter (·.handle ≠ handle)).isEmpty &&
    (roster.filter (·.handle ≠ handle)).all fun p => now - p.lastPollAt > GHOST_AFTER

/-- The log shows a roster, read right after the clock, for which `P` holds. -/
def Surveyed (id : String) (P : List Participant → OffsetDateTime → Prop) (past : Log) : Prop :=
  ∃ roster now older,
    ⟨.listParticipants id, roster⟩ :: ⟨.nowUtc, now⟩ :: older <:+ past ∧ P roster now

/-- The log shows nothing that would end a wait: the room takes traffic, and nothing that the
caller has not voted on is proposed. -/
structure Uneventful (id handle : String) (past : Log) : Prop where
  running : ∃ room : Room, ⟨.getRoom id, some room⟩ ∈ past ∧ room.state.halted = false
  noClose : Surveyed id (fun roster now =>
    proposalPending Participant.wantsCloseAt roster handle now = false) past
  noExtend : Surveyed id (fun roster now =>
    proposalPending Participant.wantsExtendAt roster handle now = false) past

/-- What the log of a wait shows for its hint. -/
inductive Hinted (id handle : String) (past : Log) : Option UInt32 → Prop
  | none : Hinted id handle past none
  | away {m : Message} {severity : Severity} {now : OffsetDateTime} :
      ⟨.latestMessageFromOther id handle, some m⟩ ∈ past → m.msgType = .waitingUser →
      m.severity = some severity → ⟨.nowUtc, now⟩ ∈ past →
      Hinted id handle past
        (some (backoffSecs severity (Rfc3339.Duration.wholeSeconds (now - m.createdAt))))
  | busy {m : Message} {roster : List Participant} {p : Participant} {now : OffsetDateTime} :
      ⟨.roomLatestMessage id, some m⟩ ∈ past → m.sender = handle →
      ⟨.listParticipants id, roster⟩ ∈ past → p ∈ roster → p.handle ≠ handle →
      m.seq ≤ p.lastReadSeq → ⟨.nowUtc, now⟩ ∈ past →
      Hinted id handle past
        (some (backoffSecs .med (Rfc3339.Duration.wholeSeconds (now - m.createdAt))))

/-- What the log of a wait of `handle` shows for the status that it reports. -/
inductive Reported (id handle : String) (past : Log) : String → Option UInt32 → Prop
  | halted {room : Room} : ⟨.getRoom id, some room⟩ ∈ past → room.state.halted = true →
      Reported id handle past room.state.asStr none
  | alone {roster : List Participant} : ⟨.listParticipants id, roster⟩ ∈ past →
      (∀ p ∈ roster, p.handle = handle) →
      Reported id handle past WaitStatus.awaitingCounterpart.asWire none
  | closeProposed : Surveyed id (fun roster now =>
      proposalPending Participant.wantsCloseAt roster handle now = true) past →
      Reported id handle past WaitStatus.closeProposed.asWire none
  | extendProposed : Surveyed id (fun roster now =>
      proposalPending Participant.wantsExtendAt roster handle now = true) past →
      Reported id handle past WaitStatus.extendProposed.asWire none
  | stale : Uneventful id handle past →
      Surveyed id (fun roster now => othersDark roster handle now = true) past →
      Reported id handle past WaitStatus.counterpartStale.asWire none
  | quiet {retryAfter : Option UInt32} : Uneventful id handle past →
      Hinted id handle past retryAfter →
      Reported id handle past WaitStatus.pausedByTimeout.asWire retryAfter

/-- A status that a wait of `handle` is answered with is one that the log shows the
grounds of. -/
def Accounted (id handle : String) (past : Log) (result : Except ApiError WaitResponse) : Prop :=
  ∀ status retryAfter, result = .ok (.timeout status retryAfter) →
    Reported id handle past status retryAfter

theorem accounted_error {e : ApiError} : Accounted id handle past (.error e) := nofun

theorem accounted_timeout {status : String} (h : Reported id handle past status retryAfter) :
    Accounted id handle past (.ok (.timeout status retryAfter)) := by
  rintro _ _ ⟨⟩
  exact h

theorem Surveyed.mono {P : List Participant → OffsetDateTime → Prop} (h : Surveyed id P past)
    (hsuf : past <:+ past') : Surveyed id P past' := by
  obtain ⟨roster, now, older, hread, hP⟩ := h
  exact ⟨roster, now, older, hread.trans hsuf, hP⟩

theorem Uneventful.mono (h : Uneventful id handle past) (hsuf : past <:+ past') :
    Uneventful id handle past' := by
  obtain ⟨⟨room, hread, hrunning⟩, hclose, hextend⟩ := h
  exact ⟨⟨room, hsuf.subset hread, hrunning⟩, hclose.mono hsuf, hextend.mono hsuf⟩

theorem Hinted.mono (h : Hinted id handle past retryAfter) (hsub : past ⊆ past') :
    Hinted id handle past' retryAfter := by
  cases h with
  | none => exact .none
  | away hlatest htype hseverity hnow => exact .away (hsub hlatest) htype hseverity (hsub hnow)
  | busy hlatest hsender hroster hp hother hread hnow =>
    exact .busy (hsub hlatest) hsender (hsub hroster) hp hother hread (hsub hnow)

/-! ### The handler -/

theorem closeProposed_surveys : (closeProposed id handle).Upholds Free past fun past' b =>
    past <:+ past' ∧ Surveyed id (fun roster now =>
      proposalPending Participant.wantsCloseAt roster handle now = b) past' :=
  .step trivial fun now => .step trivial fun roster =>
    ⟨List.suffix_append [_, _] past, roster, now, past, List.suffix_rfl, rfl⟩

theorem extendProposed_surveys : (extendProposed id handle).Upholds Free past fun past' b =>
    past <:+ past' ∧ Surveyed id (fun roster now =>
      proposalPending Participant.wantsExtendAt roster handle now = b) past' :=
  .step trivial fun now => .step trivial fun roster =>
    ⟨List.suffix_append [_, _] past, roster, now, past, List.suffix_rfl, rfl⟩

theorem counterpartIsStale_surveys : (counterpartIsStale id handle).Upholds Free past fun past' b =>
    past <:+ past' ∧ Surveyed id (fun roster now => othersDark roster handle now = b) past' :=
  .step trivial fun now => .step trivial fun roster =>
    ⟨List.suffix_append [_, _] past, roster, now, past, List.suffix_rfl, rfl⟩

theorem activeSentinelBackoff_hints : (activeSentinelBackoff id handle).Upholds Free past
    fun past' away => past <:+ past' ∧ Hinted id handle past' away := by
  refine .step trivial fun latest => ?_
  have hread : past <:+ ⟨.latestMessageFromOther id handle, latest⟩ :: past := List.suffix_cons _ _
  cases latest with
  | none => exact ⟨hread, .none⟩
  | some m =>
    dsimp only
    split
    · rename_i htype
      cases hseverity : m.severity with
      | none => exact ⟨hread, .none⟩
      | some severity =>
        refine .step trivial fun now => ⟨hread.trans (List.suffix_cons _ _), ?_⟩
        exact .away (List.mem_cons_of_mem _ List.mem_cons_self) htype hseverity List.mem_cons_self
    · exact ⟨hread, .none⟩

theorem counterpartBusyBackoff_hints : (counterpartBusyBackoff id handle).Upholds Free past
    fun past' hint => past <:+ past' ∧ Hinted id handle past' hint := by
  refine .step trivial fun latest => ?_
  have hread : past <:+ ⟨.roomLatestMessage id, latest⟩ :: past := List.suffix_cons _ _
  cases latest with
  | none => exact ⟨hread, .none⟩
  | some m =>
    dsimp only
    split
    · exact ⟨hread, .none⟩
    · rename_i hsender
      refine .step trivial fun roster => ?_
      have hlist := hread.trans (List.suffix_cons ⟨.listParticipants id, roster⟩ _)
      split
      · rename_i hany
        obtain ⟨p, hp, hreader⟩ := List.any_eq_true.mp hany
        simp only [Bool.and_eq_true, decide_eq_true_eq] at hreader
        refine .step trivial fun now => ⟨hlist.trans (List.suffix_cons _ _), ?_⟩
        exact .busy (List.mem_cons_of_mem _ (List.mem_cons_of_mem _ List.mem_cons_self))
          (not_not.mp hsender) (List.mem_cons_of_mem _ List.mem_cons_self) hp hreader.1 hreader.2
          List.mem_cons_self
      · exact ⟨hlist, .none⟩

theorem retryHint_hints {away : Option UInt32} (haway : Hinted id handle past away) :
    (retryHint id handle away).Upholds Free past fun past' hint =>
      past <:+ past' ∧ Hinted id handle past' hint := by
  cases away with
  | none => exact counterpartBusyBackoff_hints
  | some secs => exact ⟨List.suffix_rfl, haway⟩

theorem timeoutResponse_accounted {away : Bool} (hhint : Hinted id handle past retryAfter) :
    (timeoutResponse id handle retryAfter away).Upholds Free past fun past' result =>
      past <:+ past' ∧ Accounted id handle past' result := by
  refine .step trivial fun room => ?_
  have hread : past <:+ ⟨.getRoom id, room⟩ :: past := List.suffix_cons _ _
  cases room with
  | none => exact ⟨hread, accounted_error⟩
  | some room =>
    dsimp only
    split
    · rename_i hhalted
      exact ⟨hread, accounted_timeout (.halted List.mem_cons_self hhalted)⟩
    rename_i hrunning
    refine .bind (closeProposed_surveys.mono ?_)
    rintro past₁ closing ⟨h₁, hclosing⟩
    cases closing with
    | true => exact ⟨hread.trans h₁, accounted_timeout (.closeProposed hclosing)⟩
    | false =>
      refine .bind (extendProposed_surveys.mono ?_)
      rintro past₂ extending ⟨h₂, hextending⟩
      have hsuf : past <:+ past₂ := (hread.trans h₁).trans h₂
      cases extending with
      | true => exact ⟨hsuf, accounted_timeout (.extendProposed hextending)⟩
      | false =>
        have hquiet : Uneventful id handle past₂ :=
          ⟨⟨room, (h₁.trans h₂).subset List.mem_cons_self, Bool.eq_false_iff.mpr hrunning⟩,
            hclosing.mono h₂, hextending⟩
        cases away with
        | true => exact ⟨hsuf, accounted_timeout (.quiet hquiet (hhint.mono hsuf.subset))⟩
        | false =>
          refine .bind (counterpartIsStale_surveys.mono ?_)
          rintro past₃ stale ⟨h₃, hstale⟩
          have hlater : Uneventful id handle past₃ := hquiet.mono h₃
          cases stale with
          | true => exact ⟨hsuf.trans h₃, accounted_timeout (.stale hlater hstale)⟩
          | false =>
            exact ⟨hsuf.trans h₃, accounted_timeout (.quiet hlater (hhint.mono (hsuf.trans h₃).subset))⟩

/-- What a wait has found out when it answers: who its caller is, and the grounds of the
status that it reports. -/
def WaitAccounted (id inst : String) (past : Log) (result : Except ApiError WaitResponse) : Prop :=
  (∃ e, result = .error e) ∨ ∃ p found, Identified id inst p found ∧ found ⊆ past ∧
    Accounted id p.handle past result

theorem waitRoom_accounted (id : String) (r : WaitRequest) :
    (waitRoom app id r).Upholds Free []
      (WaitAccounted id (effectiveInstance r.toCaller)) := by
  refine .step trivial fun room => ?_
  cases room with
  | none => exact .inl ⟨_, rfl⟩
  | some room =>
    refine .bind (resolveParticipant_identified (fun _ => ⟨trivial, trivial⟩) ?_ ?_)
    · exact .inl ⟨_, rfl⟩
    intro found caller hfound
    -- from here on logs only grow
    have haccounted : ∀ past result, found ++ [⟨.getRoom id, some room⟩] <:+ past →
        Accounted id caller.handle past result →
          WaitAccounted id (effectiveInstance r.toCaller) past result := by
      intro past result hsuf h
      have hsub : found ⊆ past := List.Subset.trans (List.subset_append_left _ _) hsuf.subset
      exact .inr ⟨caller, found, hfound, hsub, h⟩
    refine .step trivial fun now => .step trivial fun _ => ?_
    generalize hstart : (⟨.touchLastPoll caller.handle now, ()⟩ :: ⟨.nowUtc, now⟩ ::
      (found ++ [⟨.getRoom id, some room⟩]) : Log) = start
    have hlog : found ++ [⟨.getRoom id, some room⟩] <:+ start :=
      hstart ▸ List.suffix_append [_, _] _
    by_cases hhalted : room.state.halted = true
    · simp only [hhalted, ↓reduceIte]
      refine Prog.upholds_past (fun _ _ => trivial) fun past outcome hsuf => ?_
      cases outcome with
      | message m => exact haccounted _ _ (hlog.trans hsuf) nofun
      | pausedByTimeout =>
        refine haccounted _ _ (hlog.trans hsuf) (accounted_timeout (.halted ?_ hhalted))
        exact (hlog.trans hsuf).subset (List.mem_append_right _ List.mem_cons_self)
    · simp only [hhalted]
      refine .bind (.step trivial fun roster => ?_)
      have hroster : found ++ [⟨.getRoom id, some room⟩] <:+
          ⟨.listParticipants id, roster⟩ :: start := hlog.trans (List.suffix_cons _ _)
      change (if roster.any (fun p => decide (p.handle ≠ caller.handle)) then _ else _ :
        Task (Except ApiError WaitResponse)).Upholds Free _ _
      split
      · refine Prog.upholds_past (fun _ _ => trivial) fun past₁ cap h₁ => ?_
        refine Prog.upholds_past (fun _ _ => trivial) fun past₂ outcome h₂ => ?_
        refine .bind (activeSentinelBackoff_hints.mono ?_)
        rintro past₃ away ⟨h₃, haway⟩
        refine .bind ((retryHint_hints haway).mono ?_)
        rintro past₄ retryAfter ⟨h₄, hhint⟩
        have hsuf := (((hroster.trans h₁).trans h₂).trans h₃).trans h₄
        cases outcome with
        | message m =>
          refine .step trivial fun consecutive => haccounted _ _ (hsuf.trans (List.suffix_cons _ _)) ?_
          exact nofun
        | pausedByTimeout =>
          refine (timeoutResponse_accounted hhint).mono ?_
          rintro past₅ result ⟨h₅, haccounts⟩
          exact haccounted _ _ (hsuf.trans h₅) haccounts
      · rename_i hnobody
        refine haccounted _ _ hroster (accounted_timeout (.alone List.mem_cons_self fun p hp => ?_))
        by_contra hother
        exact hnobody (List.any_eq_true.mpr ⟨p, hp, decide_eq_true hother⟩)

theorem serve_accounted (app : AppState) (req : Request) :
    (serve app req).Upholds Free [] fun past a => ∀ id r, req = .waitRoom id r →
      ∃ result, a = Except.map Answer.waited result ∧
        WaitAccounted id (effectiveInstance r.toCaller) past result := by
  by_cases hwait : ∃ id r, req = .waitRoom id r
  · obtain ⟨id, r, rfl⟩ := hwait
    refine upholds_answering.mpr ((waitRoom_accounted id r).mono fun past result hresult => ?_)
    rintro _ _ ⟨⟩
    exact ⟨result, rfl, hresult⟩
  · refine Prog.upholds_of_forall (fun _ _ => trivial) fun past a id r heq => ?_
    exact absurd ⟨id, r, heq⟩ hwait

/-! ### What is true of the daemon -/

/-- At one of these calls the request met a store like this; `now` is what it had read from
the clock, since the store was `s`. -/
def MeetsAt (s : Store) (new : List Step) (i : ℕ) (P : OffsetDateTime → Store → Prop) : Prop :=
  Meets new i fun s' => ∃ now, s.utc ≤ now ∧ now ≤ s'.utc ∧ P now s'

/-- At moments of the request the room took traffic, and nothing was proposed that the caller
had not voted on. -/
structure Quiet (s : Store) (new : List Step) (i : ℕ) (id handle : String) : Prop where
  running : Meets new i (Store.RoomIs id (·.state.halted = false))
  noClose : MeetsAt s new i fun now s' =>
    proposalPending Participant.wantsCloseAt (s'.db.listParticipants id) handle now = false
  noExtend : MeetsAt s new i fun now s' =>
    proposalPending Participant.wantsExtendAt (s'.db.listParticipants id) handle now = false

/-- What justifies a hint: a sentinel of somebody else that is the latest, or somebody who
has read the caller's own message, which is. -/
inductive HintJustified (new : List Step) (i : ℕ) (id handle : String) : Option UInt32 → Prop
  | none : HintJustified new i id handle none
  | away {m : Message} {severity : Severity} {now : OffsetDateTime} :
      Meets new i (·.db.latestMessageFromOther id handle = some m) → m.msgType = .waitingUser →
      m.severity = some severity → Meets new i (·.utc = now) →
      HintJustified new i id handle
        (some (backoffSecs severity (Rfc3339.Duration.wholeSeconds (now - m.createdAt))))
  | busy {m : Message} {now : OffsetDateTime} :
      Meets new i (·.db.roomLatestMessage id = some m) → m.sender = handle →
      Meets new i (fun s => ∃ p ∈ s.db.participants,
        p.roomId = id ∧ p.handle ≠ handle ∧ m.seq ≤ p.lastReadSeq) → Meets new i (·.utc = now) →
      HintJustified new i id handle
        (some (backoffSecs .med (Rfc3339.Duration.wholeSeconds (now - m.createdAt))))

/-- What justifies the status of a wait of `handle` that has come since the store was `s`. -/
inductive StatusJustified (s : Store) (new : List Step) (i : ℕ) (id handle : String) :
    WaitStatus → Option UInt32 → Prop
  | halted {state : RoomState} {status : WaitStatus} : state.waitStatus = some status →
      Meets new i (Store.RoomIs id (·.state = state)) →
      StatusJustified s new i id handle status none
  | alone : Gone s new id (·.handle ≠ handle) →
      Meets new i (fun s' => ∀ p ∈ s'.db.participants, p.roomId = id → p.handle = handle) →
      StatusJustified s new i id handle .awaitingCounterpart none
  | closeProposed : MeetsAt s new i (fun now s' =>
      proposalPending Participant.wantsCloseAt (s'.db.listParticipants id) handle now = true) →
      StatusJustified s new i id handle .closeProposed none
  | extendProposed : MeetsAt s new i (fun now s' =>
      proposalPending Participant.wantsExtendAt (s'.db.listParticipants id) handle now = true) →
      StatusJustified s new i id handle .extendProposed none
  | stale : Quiet s new i id handle →
      Meets new i (fun s' => (∃ p ∈ s'.db.participants, p.roomId = id ∧ p.handle ≠ handle) ∧
        ∀ p ∈ s'.db.participants, p.roomId = id → p.handle ≠ handle → livePoller s'.utc p = false) →
      StatusJustified s new i id handle .counterpartStale none
  | quiet {retryAfter : Option UInt32} : Quiet s new i id handle →
      HintJustified new i id handle retryAfter →
      StatusJustified s new i id handle .pausedByTimeout retryAfter

theorem History.meets_clock (hist : History app s new s') {now : OffsetDateTime}
    (hread : ⟨.nowUtc, now⟩ ∈ pastOf i new) : Meets new i (·.utc = now) := by
  obtain ⟨before, after, sess, newer, older, rfl, hexec, -, -⟩ := hist.seen hread
  obtain ⟨hutc, -⟩ := done_of_read hexec
  exact ⟨_, List.mem_append_right _ List.mem_cons_self, rfl, hutc⟩

/-- What a request read of a roster, the roster was. -/
theorem History.meets_roster (hist : History app s new s') {roster : List Participant}
    (hread : ⟨.listParticipants id, roster⟩ ∈ pastOf i new) :
    Meets new i (·.db.listParticipants id = roster) := by
  obtain ⟨before, after, sess, newer, older, rfl, hexec, -, -⟩ := hist.seen hread
  obtain ⟨hlist, -⟩ := done_of_read hexec
  exact ⟨_, List.mem_append_right _ List.mem_cons_self, rfl, hlist⟩

/-- Whom a request took for its caller, the name stood for. -/
theorem History.meets_caller (hist : History app s new s') {p : Participant} {found : Log}
    (hfound : Identified id inst p found) (hsub : found ⊆ pastOf i new) :
    Meets new i (fun s => p ∈ s.db.participants) ∧ p.roomId = id ∧
      (p.inst = inst ∨ p.handle = inst) := by
  cases hfound with
  | byInstance =>
    obtain ⟨before, after, sess, newer, older, rfl, hexec, -, -⟩ := hist.seen (hsub List.mem_cons_self)
    obtain ⟨hp, hroom, hinst⟩ := Db.getParticipantByInstance_spec (done_of_read hexec).1
    exact ⟨⟨_, List.mem_append_right _ List.mem_cons_self, rfl, hp⟩, hroom, .inl hinst⟩
  | byHandle =>
    obtain ⟨before, after, sess, newer, older, rfl, hexec, -, -⟩ := hist.seen (hsub List.mem_cons_self)
    obtain ⟨hp, hroom, hhandle⟩ := Db.getParticipantByHandle_spec (done_of_read hexec).1
    exact ⟨⟨_, List.mem_append_right _ List.mem_cons_self, rfl, hp⟩, hroom, .inr hhandle⟩

/-- What the log of a request shows of a roster and the clock is true at that moment. -/
theorem History.meetsAt (hist : History app s new s') {P : List Participant → OffsetDateTime → Prop}
    (h : Surveyed id P (pastOf i new)) :
    MeetsAt s new i fun now s' => P (s'.db.listParticipants id) now := by
  obtain ⟨roster, now, rest, ⟨newer, hsplit⟩, hP⟩ := h
  obtain ⟨tr₂, k, tr₁, rfl, hki, heq, -, hrest⟩ := pastOf_split hsplit.symm
  obtain ⟨hbefore, ⟨sess, hexec⟩, -⟩ := System.History.split hist
  refine ⟨k, List.mem_append_right _ List.mem_cons_self, hki, now, ?_⟩
  have hclock : ⟨.nowUtc, now⟩ ∈ pastOf i tr₁ := hrest ▸ List.mem_cons_self
  obtain ⟨before, after, sess', newer', older', -, hread, hsince, huntil⟩ := History.seen hbefore hclock
  obtain ⟨rfl, rfl⟩ := done_of_read hread
  obtain ⟨j, call, reply, before', after'⟩ := k
  cases heq
  have hlist : before'.db.listParticipants id = reply := (done_of_read hexec).1
  exact ⟨hsince.later.utc, huntil.later.utc, hlist.symm ▸ hP⟩

/-- Whom a request's clock calls dark, every later clock does. -/
theorem dark_later {now now' : OffsetDateTime} {p : Participant} (hle : now ≤ now')
    (hdark : now - p.lastPollAt > GHOST_AFTER) : livePoller now' p = false := by
  rw [livePoller, decide_eq_false_iff_not, not_le]
  exact lt_of_lt_of_le hdark (sub_le_sub_right hle _)

theorem mem_of_othersDark {roster : List Participant} {now : OffsetDateTime}
    (h : othersDark roster handle now = true) : (∃ p ∈ roster, p.handle ≠ handle) ∧
      ∀ p ∈ roster, p.handle ≠ handle → now - p.lastPollAt > GHOST_AFTER := by
  rw [othersDark, Bool.and_eq_true, Bool.not_eq_true', List.all_eq_true] at h
  obtain ⟨hthere, hdark⟩ := h
  constructor
  · obtain ⟨p, hp⟩ := List.exists_mem_of_ne_nil _ (List.isEmpty_eq_false_iff.mp hthere)
    obtain ⟨hp, hother⟩ := List.mem_filter.mp hp
    exact ⟨p, hp, of_decide_eq_true hother⟩
  · intro p hp hother
    exact of_decide_eq_true (hdark p (List.mem_filter.mpr ⟨hp, decide_eq_true hother⟩))

theorem History.quiet (hist : History app s new s') (h : Uneventful id handle (pastOf i new)) :
    Quiet s new i id handle := by
  obtain ⟨⟨room, hread, hrunning⟩, hclose, hextend⟩ := h
  refine ⟨(hist.meets_room hread).mono fun s h => h.mono fun row hdecode => ?_,
    hist.meetsAt hclose, hist.meetsAt hextend⟩
  rwa [← (rowToRoom_spec hdecode).2.1]

theorem History.hint_justified (hist : History app s new s')
    (h : Hinted id handle (pastOf i new) retryAfter) : HintJustified new i id handle retryAfter := by
  cases h with
  | none => exact .none
  | away hlatest htype hseverity hnow =>
    refine .away ?_ htype hseverity (hist.meets_clock hnow)
    obtain ⟨before, after, sess, newer, older, rfl, hexec, -, -⟩ := hist.seen hlatest
    exact ⟨_, List.mem_append_right _ List.mem_cons_self, rfl, (done_of_read hexec).1⟩
  | busy hlatest hsender hroster hp hother hread hnow =>
    refine .busy ?_ hsender ((hist.meets_roster hroster).mono ?_) (hist.meets_clock hnow)
    · obtain ⟨before, after, sess, newer, older, rfl, hexec, -, -⟩ := hist.seen hlatest
      exact ⟨_, List.mem_append_right _ List.mem_cons_self, rfl, (done_of_read hexec).1⟩
    · rintro s rfl
      obtain ⟨hp, hroom⟩ := mem_listParticipants.mp hp
      exact ⟨_, hp, hroom, hother, hread⟩

/-- The client reads the status of a halted room as what it is. -/
theorem fromWire_asStr {state : RoomState} (h : state.halted = true) :
    state.waitStatus = some (WaitStatus.fromWire state.asStr) := by
  cases state
  case paused | closed | archived => simp [RoomState.waitStatus, WaitStatus.fromWire, RoomState.asStr]
  all_goals cases h

/-- **What a log shows for a status is true of the daemon**, and the client knows the
status. -/
theorem History.status_justified (hist : History app s new s') (hwf : s.db.WellFormed)
    {status : String} (h : Reported id handle (pastOf i new) status retryAfter) :
    StatusJustified s new i id handle (WaitStatus.fromWire status) retryAfter := by
  cases h with
  | halted hread hhalted =>
    refine .halted (fromWire_asStr hhalted) ((hist.meets_room hread).mono fun s h => ?_)
    exact h.mono fun row hdecode => (rowToRoom_spec hdecode).2.1.symm
  | alone hread hnobody =>
    refine .alone ?_ ((hist.meets_roster hread).mono ?_)
    · rintro p hp rfl hother hkept
      obtain ⟨before, after, sess, newer, older, rfl, hexec, hbefore, -⟩ := hist.seen hread
      obtain ⟨hlist, -⟩ := done_of_read hexec
      obtain ⟨q, hq, hsame⟩ := hbefore.row_kept hwf hp fun e he => hkept e (by simp [he])
      have hmem := hlist ▸ mem_listParticipants.mpr ⟨hq, hsame.roomId⟩
      exact hother (hsame.handle.symm.trans (hnobody q hmem))
    · rintro s rfl p hp hroom
      exact hnobody p (mem_listParticipants.mpr ⟨hp, hroom⟩)
  | closeProposed hsurvey => exact .closeProposed (hist.meetsAt hsurvey)
  | extendProposed hsurvey => exact .extendProposed (hist.meetsAt hsurvey)
  | stale hquiet hsurvey =>
    refine .stale (hist.quiet hquiet) ((hist.meetsAt hsurvey).mono ?_)
    rintro s' ⟨now, -, hnow, hdark⟩
    obtain ⟨⟨p, hp, hother⟩, hall⟩ := mem_of_othersDark hdark
    obtain ⟨hp, hroom⟩ := mem_listParticipants.mp hp
    refine ⟨⟨p, hp, hroom, hother⟩, fun q hq hqroom hqother => ?_⟩
    exact dark_later hnow (hall q (mem_listParticipants.mpr ⟨hq, hqroom⟩) hqother)
  | quiet hquiet hhint => exact .quiet (hist.quiet hquiet) (hist.hint_justified hhint)

/-- **A wait's status tells the truth**: whatever is interleaved with a wait that is answered
with a status, the status is one that the client knows, and the daemon was like it says at
moments of the request.  Who is told to be alone was, and whoever was there with him when the
request came has been pruned; a proposal was pending for him by a clock of the request; whom
he is told to be stale had all been dark by then; a halted room was halted; and who is told
to poll again met a room that takes traffic and nothing to vote on, with a hint that a
sentinel or a reader of his latest message gives. -/
theorem wait_statuses_justified (h : Reachable app c₀) (hrun : (daemon app).Run c₀ c)
    (hi : c₀.threads.length ≤ i) {t : Thread Call Call.Reply Request Outcome}
    (ht : c.threads[i]? = some t) {r : WaitRequest} (hreq : t.req = .waitRoom id r)
    {status : String} (hstatus : t.returned = some (.ok (.waited (.timeout status retryAfter)))) :
    ∃ new p, c.trace = new ++ c₀.trace ∧ p.roomId = id ∧
      (p.inst = effectiveInstance r.toCaller ∨ p.handle = effectiveInstance r.toCaller) ∧
      Meets new i (fun s => p ∈ s.db.participants) ∧
      StatusJustified c₀.shared new i id p.handle (WaitStatus.fromWire status) retryAfter := by
  obtain ⟨new, hnew, hist⟩ := hrun.history
  obtain ⟨utc, instant, hrun'⟩ := h.run hrun
  have hbody : ∀ req, ((daemon app).body req).Upholds Free [] fun past a => ∀ id r,
      req = .waitRoom id r → ∃ result, a = Except.map Answer.waited result ∧
        WaitAccounted id (effectiveInstance r.toCaller) past result := serve_accounted app
  obtain ⟨result, heq, haccounted⟩ :=
    (hrun'.upheld (Φ := fun _ => Free) hbody).answered_since h.orderly hnew hi ht hstatus id r hreq
  cases result with
  | error e => cases heq
  | ok response =>
    cases heq
    rcases haccounted with ⟨e, heq⟩ | ⟨p, found, hfound, hsub, hreported⟩
    · cases heq
    obtain ⟨hmet, hroom, hname⟩ := History.meets_caller hist hfound hsub
    exact ⟨new, p, hnew, hroom, hname, hmet,
      History.status_justified hist h.wellFormed (hreported status retryAfter rfl)⟩

/-- A wait on a room that nobody else has joined. -/
def lonelyWait : Request := .waitRoom demoRoom ⟨alice, none⟩

set_option maxRecDepth 10000 in
theorem wait_statuses_justified_alone : ∃ (new : List Step) (p : Participant),
    (demo (gather none [alice] ++ [lonelyWait])).trace = new ++ (demo (gather none [alice])).trace ∧
      (p.inst = "alice" ∨ p.handle = "alice") ∧
      StatusJustified (demo (gather none [alice])).shared new 2 demoRoom p.handle
        .awaitingCounterpart none := by
  have hanswer : ((demo (gather none [alice] ++ [lonelyWait])).threads[2]?.map fun t =>
      (t.req, t.returned)) =
        some (lonelyWait, some (.ok (.waited (.timeout "awaiting_counterpart" none)))) := by
    decide +kernel
  obtain ⟨t, ht, heq⟩ := Option.map_eq_some_iff.mp hanswer
  obtain ⟨hreq, hstatus⟩ := Prod.mk.inj heq
  have hcame : (demo (gather none [alice])).threads.length ≤ 2 := by decide +kernel
  obtain ⟨new, p, hnew, -, hname, -, hjustified⟩ := wait_statuses_justified
    (reachable_demo (gather none [alice])) (run_demo_append (gather none [alice]) [lonelyWait])
    hcame ht hreq hstatus
  exact ⟨new, p, hnew, hname, hjustified⟩

end ChatBotChat
