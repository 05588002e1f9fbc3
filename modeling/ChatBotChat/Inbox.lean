/-
A wait and its inbox.

A wait that comes to its first claim while a message is there for its caller
delivers that message, at once and whatever the room looks like.  One answer
comes before the first claim: a caller that is alone in a room that is not halted
is told so.

* `inbox_before_status_iff` — a wait that starts while `m` is the next unread
  message of its caller, and whose caller is not robbed of `m`, never parks,
  makes few calls, and answers with `m` exactly when it found the room halted or
  somebody else in it.
-/
import ChatBotChat.Delivery

namespace ChatBotChat

open Interleave Lifecycle

variable {app : AppState} {c₀ c : Daemon} {e : Step} {tr old new : List Step} {id handle : String}
  {inst : String} {p q : Participant} {m : Message} {past : Log} {i n : ℕ}

/-! ### A wait by itself -/

/-- The call does not park. -/
def NoRecv (_ : Log) (c : Call) : Prop := ∀ rx deadline, c ≠ .recv rx deadline

/-- The replies a wait of `p` gets while `m` is its next unread message: it is found
under `inst`, and until it has delivered something its cursor is where it was. -/
def Offers (p : Participant) (m : Message) (inst : String) (past : Log) : (c : Call) → c.Reply → Prop
  | .getRoom id, r => id = p.roomId → r ≠ none
  | .getParticipantByInstance id inst', r => id = p.roomId → inst' = inst →
      (∀ q, r = some q → q.handle = p.handle) ∧ (r = none → p.handle = inst)
  | .getParticipantByHandle id inst', r => id = p.roomId → inst' = inst → p.handle = inst →
      ∃ q, r = some q ∧ q.handle = p.handle
  | .readCursor handle, r => handle = p.handle → Undelivered past → r = some p.lastReadSeq
  | .nextUnread id handle cursor, r => id = p.roomId → handle = p.handle →
      cursor = p.lastReadSeq → r = some m
  | .advanceCursor seq handle cursor, r => seq = m.seq → handle = p.handle →
      cursor = p.lastReadSeq → Undelivered past → r = true
  | _, _ => True

/-- The answer of a task that `Offers` describes. -/
abbrev Answers {α : Type} (p : Participant) (m : Message) (inst : String) (n : ℕ) (task : Task α)
    (past : Log) (Q : Log → α → Prop) : Prop :=
  task.Returns NoRecv (Offers p m inst) n past Q

theorem Looks.answers {α : Type} {task : Task α} (h : Looks n task) {Q : Log → α → Prop}
    (hQ : ∀ newer a, Glances newer → Q (newer ++ past) a) : Answers p m inst n task past Q := by
  refine Prog.Only.returns h ?_ fun newer a _ hnewer => hQ newer a hnewer
  rintro past c hc rx deadline rfl
  cases hc

/-- The claim delivers `m` in its first round. -/
theorem claimNextUnread_answers (hund : Undelivered past) :
    Answers p m inst 4 (claimNextUnread p.roomId p.handle) past fun past' found =>
      found = some m ∧ past <:+ past' := by
  refine Prog.Returns.iterate (Prog.Returns.step (by simp [NoRecv]) fun cursor hcursor => ?_)
  obtain rfl := hcursor rfl hund
  refine Prog.Returns.step (by simp [NoRecv]) fun found hfound => ?_
  obtain rfl := hfound rfl rfl rfl
  have hund' : Undelivered (⟨.nextUnread p.roomId p.handle p.lastReadSeq, some m⟩ ::
      ⟨.readCursor p.handle, some p.lastReadSeq⟩ :: past) := (hund.cons (by simp)).cons (by simp)
  refine Prog.Returns.step (by simp [NoRecv]) fun claimed hclaimed => ?_
  obtain rfl := hclaimed rfl rfl rfl hund'
  exact ⟨some m, rfl, rfl, ⟨[_, _, _], rfl⟩⟩

/-- The long-poll delivers `m` without asking whether to yield. -/
theorem waitForMessageUntil_answers {timeout : ℕ} {yields : Task Bool} (hund : Undelivered past) :
    Answers p m inst 9 (waitForMessageUntil p.roomId p.handle timeout yields) past
      fun past' outcome => outcome = .message m ∧ past <:+ past' := by
  refine Prog.Returns.step (by simp [NoRecv]) fun now _ => ?_
  refine Prog.Returns.step (by simp [NoRecv]) fun _ _ => ?_
  refine Prog.Returns.step (by simp [NoRecv]) fun rx _ => ?_
  refine Prog.Returns.step (by simp [NoRecv]) fun start _ => ?_
  have hund' := (((hund.cons (x := ⟨.nowUtc, now⟩) (by simp)).cons
    (x := ⟨.touchLastPoll p.handle now, ()⟩) (by simp)).cons
    (x := ⟨.subscribe p.roomId, rx⟩) (by simp)).cons (x := ⟨.instantNow, start⟩) (by simp)
  refine Prog.Returns.iterate (Prog.Returns.bind (m := 4) (n := 0) ?_)
  refine (claimNextUnread_answers hund').mono le_rfl ?_
  rintro past' _ ⟨rfl, hsuf⟩
  exact ⟨_, rfl, rfl, (List.suffix_append [_, _, _, _] past).trans hsuf⟩

/-- No call of the log lists participants. -/
def NoRoster (past : Log) : Prop := ∀ x ∈ past, ∀ id, x.1 ≠ .listParticipants id

/-- The caller is found. -/
theorem resolveParticipant_answers :
    Answers p m inst 2 (resolveParticipant p.roomId inst) past fun past' found =>
      ∃ q newer, found = some q ∧ q.handle = p.handle ∧ past' = newer ++ past ∧
        Glances newer ∧ NoRoster newer := by
  refine Prog.Returns.step (by simp [NoRecv]) fun byInstance hinstance => ?_
  obtain ⟨hsome, hnone⟩ := hinstance rfl rfl
  cases byInstance with
  | some q =>
    exact ⟨q, [_], rfl, hsome q rfl, rfl, by simp [Call.glance], by simp [NoRoster]⟩
  | none =>
    refine ⟨by simp [NoRecv], fun byHandle hhandle => ?_⟩
    obtain ⟨q, rfl, hq⟩ := hhandle rfl rfl (hnone rfl)
    exact ⟨q, [_, _], rfl, hq, rfl, by simp [Call.glance], by simp [NoRoster]⟩

/-- What a wait that is offered `m` answers, by what it read first: `m` if the room
was halted, and otherwise `m` exactly if somebody else was in the roster. -/
def Offered (p : Participant) (m : Message) (past : Log) (a : Outcome) : Prop :=
  ∃ room first, past = first ++ [⟨.getRoom p.roomId, some room⟩] ∧
    ((room.state.halted = true ∧ Carries a m) ∨
      (room.state.halted = false ∧ ∃ rows newer older,
        past = newer ++ ⟨.listParticipants p.roomId, rows⟩ :: older ∧ NoRoster older ∧
          (Carries a m ↔ rows.any (·.handle ≠ p.handle) = true)))

theorem waitRoom_answers {r : WaitRequest} :
    Answers p m (effectiveInstance r.toCaller) 29 (waitRoom app p.roomId r) []
      fun past a => Offered p m past (a.map .waited) := by
  refine Prog.Returns.step (by simp [NoRecv]) fun room hroom => ?_
  cases room with
  | none => exact absurd rfl (hroom rfl)
  | some room =>
    refine Prog.Returns.bind (m := 2) (n := 26) (resolveParticipant_answers.mono le_rfl ?_)
    rintro _ _ ⟨q, newer, rfl, hq, rfl, hglances, hroster⟩
    obtain hq : q.handle = p.handle := hq
    dsimp only
    rw [hq]
    refine Prog.Returns.step (by simp [NoRecv]) fun now _ => ?_
    refine Prog.Returns.step (by simp [NoRecv]) fun _ _ => ?_
    generalize hpast : (⟨.touchLastPoll p.handle now, ()⟩ :: ⟨.nowUtc, now⟩ ::
      (newer ++ [⟨.getRoom p.roomId, some room⟩]) : Log) = past
    have hfirst : past = (⟨.touchLastPoll p.handle now, ()⟩ :: ⟨.nowUtc, now⟩ :: newer) ++
        [⟨.getRoom p.roomId, some room⟩] := hpast.symm
    have hund : Undelivered past := by
      rw [← hpast]
      have hund₀ := hglances.undelivered.append (Undelivered.nil.cons
        (x := ⟨.getRoom p.roomId, some room⟩) (by simp))
      exact (hund₀.cons (by simp)).cons (by simp)
    have hroster' : NoRoster past := by
      rw [← hpast]
      intro x hx
      simp only [List.mem_cons, List.mem_append, List.not_mem_nil, or_false] at hx
      rcases hx with rfl | rfl | hx | rfl
      · simp
      · simp
      · exact hroster x hx
      · simp
    -- the first read stays the first, whatever comes after it
    have hextend : ∀ {past'}, past <:+ past' →
        ∃ first, past' = first ++ [⟨.getRoom p.roomId, some room⟩] := by
      rintro _ ⟨later, rfl⟩
      exact ⟨_, by rw [hfirst, ← List.append_assoc]⟩
    cases hhalted : room.state.halted with
    | true =>
      refine Prog.Returns.bind (m := 9) (n := 15)
        ((waitForMessageUntil_answers hund).mono le_rfl ?_)
      rintro past' _ ⟨rfl, hsuf⟩
      obtain ⟨first, hfirst'⟩ := hextend hsuf
      exact ⟨room, first, hfirst', .inl ⟨hhalted, .inr ⟨_, _, _, rfl⟩⟩⟩
    | false =>
      refine Prog.Returns.bind (m := 1) (n := 23) ?_
      refine Prog.Returns.step (by simp [NoRecv]) fun rows _ => ?_
      have hroster₁ : ∀ {past'} (rows' : List Participant),
          (⟨.listParticipants p.roomId, rows'⟩ :: past) <:+ past' →
            ∃ newer older, past' = newer ++ ⟨.listParticipants p.roomId, rows'⟩ :: older ∧
              NoRoster older := by
        rintro _ rows' ⟨later, rfl⟩
        exact ⟨later, past, rfl, hroster'⟩
      have hund₁ : Undelivered (⟨.listParticipants p.roomId, rows⟩ :: past) :=
        hund.cons (by simp)
      cases hcounterpart : rows.any (·.handle ≠ p.handle) with
      | false =>
        obtain ⟨first, hfirst'⟩ := hextend (List.suffix_cons ⟨.listParticipants p.roomId, rows⟩ past)
        obtain ⟨newer', older, hsplit, holder⟩ := hroster₁ rows List.suffix_rfl
        refine ⟨room, first, hfirst', .inr ⟨hhalted, rows, newer', older, hsplit, holder, ?_⟩⟩
        rw [hcounterpart]
        refine iff_of_false ?_ Bool.false_ne_true
        rintro (hcarries | ⟨_, _, _, hcarries⟩) <;> cases hcarries
      | true =>
        refine Prog.Returns.bind (m := 8) (n := 15) (looks_parkCap.answers fun newer₁ cap hnewer₁ => ?_)
        have hund₂ := hnewer₁.undelivered.append hund₁
        refine Prog.Returns.bind (m := 9) (n := 6)
          ((waitForMessageUntil_answers hund₂).mono le_rfl ?_)
        rintro past' _ ⟨rfl, hsuf⟩
        refine Prog.Returns.bind (m := 2) (n := 4)
          (looks_activeSentinelBackoff.answers fun newer₂ away hnewer₂ => ?_)
        refine Prog.Returns.bind (m := 3) (n := 1)
          (looks_retryHint.answers fun newer₃ retryAfter hnewer₃ => ?_)
        refine Prog.Returns.step (by simp [NoRecv]) fun consecutive _ => ?_
        have hsuf' := ((List.suffix_append newer₁ _).trans hsuf).trans
          (((List.suffix_append newer₂ past').trans (List.suffix_append newer₃ _)).trans
            (List.suffix_cons ⟨.consecutiveMsgCount p.roomId m.seq, consecutive⟩ _))
        obtain ⟨first, hfirst'⟩ := hextend
          ((List.suffix_cons ⟨.listParticipants p.roomId, rows⟩ past).trans hsuf')
        obtain ⟨newer', older, hsplit, holder⟩ := hroster₁ rows hsuf'
        refine ⟨room, first, hfirst', .inr ⟨hhalted, rows, newer', older, hsplit, holder, ?_⟩⟩
        rw [hcounterpart]
        exact iff_of_true (.inr ⟨_, _, _, rfl⟩) rfl

/-! ### A wait among others -/

/-- The wait's caller is `p`: by its instance, or by its handle where nobody was
found under that instance. -/
def CalledBy (p : Participant) (inst : String) (log : Log) : Prop :=
  p.inst = inst ∨ p.handle = inst ∧
    ∀ q, ⟨.getParticipantByInstance p.roomId inst, some q⟩ ∉ log

/-- No other request's claim delivers `m` to `handle`. -/
def NotRobbed (i : ℕ) (handle : String) (m : Message) (old new : List Step) : Prop :=
  ∀ e older, e :: older <:+ new → e.tid ≠ i → e.call.claims handle e.reply = true →
    foundBy (pastOf e.tid (older ++ old)) ≠ some m

theorem notRobbed_of_none {i : ℕ} {handle : String} {m : Message} {old new : List Step}
    (h : ∀ e ∈ new ++ old, e.tid ≠ i → e.call.claims handle e.reply = false) :
    NotRobbed i handle m old new := by
  intro e older hsuf hi hclaims
  have hmem : e ∈ new ++ old := List.mem_append_left _ (hsuf.mem List.mem_cons_self)
  rw [h e hmem hi] at hclaims
  cases hclaims

/-- `m` is still the next unread message of `p`, and until request `i` has
delivered something the cursor of `p` is where it was. -/
structure OnOffer (p : Participant) (m : Message) (i : ℕ) (new : List Step) (s : Store) :
    Prop where
  row : ∃ q ∈ s.db.participants, SameRow p q ∧ q.inst = p.inst ∧
    (Undelivered (pastOf i new) → q.lastReadSeq = p.lastReadSeq)
  next : s.db.nextUnread p.roomId p.handle p.lastReadSeq = some m

theorem Undelivered.of_cons {x : Sigma Call.Reply} (h : Undelivered (x :: past)) :
    Undelivered past :=
  fun seq handle cursor hmem => h seq handle cursor (List.mem_cons_of_mem _ hmem)

theorem Undelivered.of_pastOf_cons (h : Undelivered (pastOf i (e :: tr))) :
    Undelivered (pastOf i tr) := by
  by_cases hi : e.tid = i
  · subst hi
    rw [pastOf_cons_self] at h
    exact h.of_cons
  · rwa [pastOf_cons_of_ne hi] at h

/-- A request that has just claimed has delivered something. -/
theorem not_undelivered_of_claims (hclaims : e.call.claims handle e.reply = true) :
    ¬ Undelivered (pastOf e.tid (e :: tr)) := by
  obtain ⟨seq, cursor, hcall, hreply⟩ := Call.claims_spec hclaims
  intro hund
  rw [pastOf_cons_self] at hund
  obtain ⟨tid, call, reply, before, after⟩ := e
  dsimp only at hcall hreply
  subst hcall
  rw [eq_of_heq hreply] at hund
  exact hund _ _ _ List.mem_cons_self

theorem OnOffer.call (h : Recorded app c e (tr ++ old)) (hsuf : e :: tr <:+ new)
    (hkept : NotPruned new p.handle) (hroom : ∀ m ∈ deliveries p.handle old new, m.roomId = p.roomId)
    (hrobbed : NotRobbed i p.handle m old new) (ho : OnOffer p m i tr e.before) :
    OnOffer p m i (e :: tr) e.after := by
  obtain ⟨⟨q, hq, hsame, hinst, hcursor⟩, hnext⟩ := ho
  have hkept' : ¬ Removes e q.handle := hsame.handle ▸ hkept e (hsuf.mem List.mem_cons_self)
  refine ⟨⟨_, h.effect.kept hq hkept', ⟨?_, ?_⟩, ?_, fun hund => ?_⟩, ?_⟩
  · rw [Call.onParticipant_handle, hsame.handle]
  · rw [Call.onParticipant_roomId, hsame.roomId]
  · rw [Call.onParticipant_inst, hinst]
  · have hat : q.lastReadSeq = p.lastReadSeq := hcursor hund.of_pastOf_cons
    rw [Call.onParticipant_lastReadSeq]
    by_cases hclaims : e.call.claims q.handle e.reply = true
    · -- whoever claims first claims `m`, and that is the wait itself
      exfalso
      obtain ⟨t, id, m', ht, hclaiming, -⟩ := h.cursor_moved hq hclaims
      obtain ⟨rest, hlog, -⟩ := hclaiming.log
      have hfound : foundBy (pastOf e.tid (tr ++ old)) = some m' := by
        rw [hlog]
        rfl
      rw [hsame.handle] at hclaims hclaiming
      have hm' : m' ∈ deliveries p.handle old new :=
        (deliveries_suffix hsuf).subset (mem_deliveries_of_claims hclaims hfound)
      obtain rfl : p.roomId = id :=
        (hroom m' hm').symm.trans (Db.addressedTo_iff.mp hclaiming.spec.2.2).1
      have hunread := hclaiming.unread
      rw [hat] at hunread
      obtain rfl : m = m' := Option.some_inj.mp (hnext.symm.trans hunread)
      by_cases hi : e.tid = i
      · subst hi
        exact not_undelivered_of_claims hclaims hund
      · exact hrobbed e tr hsuf hi hclaims hfound
    · rw [Bool.not_eq_true] at hclaims
      rw [h.cursor_kept hq hclaims, hat]
  · rw [Db.nextUnread, h.effect.messages]
    exact Feed.next_append hnext

theorem Reachable.onOffer (h₀ : Reachable app c₀) (hrun : (daemon app).Run c₀ c)
    (hnew : c.trace = new ++ c₀.trace) (hp : p ∈ c₀.shared.db.participants)
    (hm : c₀.shared.db.nextUnread p.roomId p.handle p.lastReadSeq = some m)
    (hkept : NotPruned new p.handle)
    (hroom : ∀ m ∈ deliveries p.handle c₀.trace new, m.roomId = p.roomId)
    (hrobbed : NotRobbed i p.handle m c₀.trace new) {e : Step} {older : List Step}
    (hsuf : e :: older <:+ new) : OnOffer p m i older e.before := by
  have hreach := h₀.run hrun
  obtain ⟨newer, hsplit⟩ := hsuf
  have hist : History app c₀.shared new c.shared := hrun.history_of_eq hnew
  rw [← hsplit] at hist
  refine History.induction h₀.wellFormed (P := OnOffer p m i) ?_ ?_ ?_
    (System.History.split hist).1 List.suffix_rfl
  · exact ⟨⟨p, hp, ⟨rfl, rfl⟩, rfl, fun _ => rfl⟩, hm⟩
  · intro tr s₁ s₂ _ hdb _ _ _ ho
    exact ⟨by rw [hdb]; exact ho.row, by rw [hdb]; exact ho.next⟩
  · intro e' tr sess hsuf' _ _ _ ho
    have hin : e' :: tr <:+ new := by
      obtain ⟨later, hlater⟩ := hsuf'
      exact ⟨newer ++ e :: later, by rw [← hsplit, ← hlater]; simp⟩
    have hrec : Recorded app c e' (tr ++ c₀.trace) := by
      refine hreach.recorded ?_
      obtain ⟨later, hlater⟩ := hin
      exact ⟨later, by rw [hnew, ← hlater]; simp⟩
    exact ho.call hrec hin hkept hroom hrobbed

/-- While `m` is on offer, the replies the wait gets are as `Offers` says. -/
theorem OnOffer.offers {older : List Step} (h : Recorded app c e older)
    (ho : OnOffer p m e.tid tr e.before) (hcaller : CalledBy p inst (pastOf e.tid new))
    (he : e ∈ new) : Offers p m inst (pastOf e.tid tr) e.call e.reply := by
  obtain ⟨⟨q, hq, hsame, hinst, hcursor⟩, hnext⟩ := ho
  obtain ⟨sess, hexec⟩ := h.exec
  have hwf := h.wellFormed_before
  have hlogged : ⟨e.call, e.reply⟩ ∈ pastOf e.tid new := mem_pastOf.mpr ⟨e, he, rfl, rfl⟩
  obtain ⟨tid, call, reply, before, after⟩ := e
  cases call
  case getRoom id =>
    rintro rfl
    have hroom : before.db.hasRoom p.roomId = true := hsame.roomId ▸ hwf.homes q hq
    exact Db.getRoom_ne_none hroom (done_of_tryRead hexec).1
  case getParticipantByInstance id inst' =>
    rintro rfl rfl
    have hread : before.db.getParticipantByInstance p.roomId inst' = reply := (done_of_read hexec).1
    rcases hcaller with rfl | ⟨hhandle, hnobody⟩
    · -- instances are unique, so that the row found is the one that was there
      rw [← hsame.roomId, ← hinst, hwf.getParticipantByInstance_eq hq] at hread
      subst hread
      exact ⟨fun q' hq' => by rw [← Option.some_inj.mp hq', hsame.handle], nofun⟩
    · refine ⟨fun q' hq' => ?_, fun _ => hhandle⟩
      have hq'' : reply = some q' := hq'
      dsimp only at hlogged
      rw [hq''] at hlogged
      exact absurd hlogged (hnobody q')
  case getParticipantByHandle id inst' =>
    rintro rfl rfl hhandle
    have hread : before.db.getParticipantByHandle p.roomId inst' = reply := (done_of_read hexec).1
    rw [← hhandle, ← hsame.roomId, ← hsame.handle, hwf.getParticipantByHandle_eq hq] at hread
    exact ⟨q, hread.symm, hsame.handle⟩
  case readCursor handle =>
    rintro rfl hund
    have hread : before.db.readCursor p.handle = reply := (done_of_read hexec).1
    cases reply with
    | none =>
      rw [Db.readCursor, Option.map_eq_none_iff, List.find?_eq_none] at hread
      exact absurd (by simp [hsame.handle]) (hread q hq)
    | some k =>
      obtain ⟨q', hfind, rfl⟩ := Option.map_eq_some_iff.mp hread
      have hhandle : q'.handle = p.handle := by simpa using List.find?_some hfind
      rw [hwf.participant_unique (List.mem_of_find?_eq_some hfind) hq (hhandle.trans hsame.handle.symm),
        hcursor hund]
  case nextUnread id handle cursor =>
    rintro rfl rfl rfl
    exact (done_of_read hexec).1.symm.trans hnext
  case advanceCursor seq handle cursor =>
    rintro rfl rfl rfl hund
    exact (swap_spec hwf hexec).mpr ⟨q, hq, hsame.handle, hcursor hund⟩
  all_goals trivial

/-! ### What the wait read first -/

/-- The first call of request `i` among those that `wanted` describes. -/
def firstCall (i : ℕ) (wanted : Call → Bool) (tr : List Step) : Option Step :=
  tr.reverse.find? fun e => e.tid = i && wanted e.call

def Call.readsRoom : Call → Bool
  | .getRoom _ => true
  | _ => false

def Call.readsRoster : Call → Bool
  | .listParticipants _ => true
  | _ => false

/-- The wait found the room halted when it read it, or, when it asked for a
counterpart, somebody else in it. -/
def Drains (i : ℕ) (tr : List Step) (id handle : String) : Prop :=
  (∃ e, firstCall i Call.readsRoom tr = some e ∧
    ∃ row ∈ e.before.db.rooms, row.id = id ∧ row.state.halted = true) ∨
  ∃ e, firstCall i Call.readsRoster tr = some e ∧
    ∃ q ∈ e.before.db.participants, q.roomId = id ∧ q.handle ≠ handle

/-- The first such call of a log is the first such call of the run. -/
theorem firstCall_of_log (wanted : Call → Bool) {newer older : Log} {x : Sigma Call.Reply}
    (hlog : pastOf i tr = newer ++ x :: older) (hx : wanted x.1 = true)
    (holder : ∀ y ∈ older, wanted y.1 = false) : ∃ e, firstCall i wanted tr = some e ∧ e ∈ tr ∧
      (⟨e.call, e.reply⟩ : Sigma Call.Reply) = x := by
  obtain ⟨tr₂, e, tr₁, rfl, rfl, rfl, -, rfl⟩ := pastOf_split hlog
  refine ⟨e, ?_, by simp, rfl⟩
  have hbefore : tr₁.reverse.find? (fun e' => e'.tid = e.tid && wanted e'.call) = none := by
    rw [List.find?_eq_none]
    intro e' he' hmatch
    rw [Bool.and_eq_true, decide_eq_true_eq] at hmatch
    have hnot := holder ⟨e'.call, e'.reply⟩
      (mem_pastOf.mpr ⟨e', List.mem_reverse.mp he', hmatch.1, rfl⟩)
    rw [hmatch.2] at hnot
    cases hnot
  rw [firstCall, List.reverse_append, List.reverse_cons, List.append_assoc, List.find?_append, hbefore]
  simp [hx]

/-- A room that was read is halted exactly if its row is. -/
theorem halted_of_getRoom {db : Db} {room : Room} (hwf : db.WellFormed)
    (h : db.getRoom id = some (some room)) :
    room.state.halted = true ↔ ∃ row ∈ db.rooms, row.id = id ∧ row.state.halted = true := by
  obtain ⟨row, hrow, hdecode⟩ := Db.getRoom_spec h
  obtain ⟨hmem, rfl⟩ := Db.mem_of_roomRow hrow
  rw [(rowToRoom_spec hdecode).2.1]
  refine ⟨fun hhalted => ⟨row, hmem, rfl, hhalted⟩, ?_⟩
  rintro ⟨row', hmem', hid, hhalted⟩
  rwa [hwf.room_unique hmem' hmem hid] at hhalted

/-- What a wait that was offered `m` answered, by the state it read first. -/
theorem Offered.carries_iff (h : Reachable app c) (hsub : new ⊆ c.trace)
    {a : Outcome} (ho : Offered p m (pastOf i new) a) :
    Carries a m ↔ Drains i new p.roomId p.handle := by
  obtain ⟨room, first, hlog, hanswer⟩ := ho
  obtain ⟨e, he, hmem, hx⟩ := firstCall_of_log Call.readsRoom hlog rfl (by simp)
  have hroom : room.state.halted = true ↔
      ∃ row ∈ e.before.db.rooms, row.id = p.roomId ∧ row.state.halted = true := by
    obtain ⟨older, hrec⟩ := h.recorded_of_mem (hsub hmem)
    obtain ⟨sess, hexec⟩ := hrec.exec
    have hwf := hrec.wellFormed_before
    obtain ⟨tid, call, reply, before, after⟩ := e
    cases hx
    exact halted_of_getRoom hwf (done_of_tryRead hexec).1
  rcases hanswer with ⟨hhalted, hcarries⟩ | ⟨hhalted, rows, newer, older, hlog', holder, hiff⟩
  · exact iff_of_true hcarries (.inl ⟨e, he, hroom.mp hhalted⟩)
  · obtain ⟨k, hk, hmem', hx'⟩ := firstCall_of_log Call.readsRoster hlog' rfl (by
      intro y hy
      refine Bool.eq_false_iff.mpr fun hreads => ?_
      cases hcall : y.1 <;> rw [hcall] at hreads <;> try cases hreads
      exact holder y hy _ hcall)
    have hrows : rows.any (·.handle ≠ p.handle) = true ↔
        ∃ q ∈ k.before.db.participants, q.roomId = p.roomId ∧ q.handle ≠ p.handle := by
      obtain ⟨older', hrec⟩ := h.recorded_of_mem (hsub hmem')
      obtain ⟨sess, hexec⟩ := hrec.exec
      obtain ⟨tid, call, reply, before, after⟩ := k
      cases hx'
      have hread : before.db.listParticipants p.roomId = reply := (done_of_read hexec).1
      rw [← hread, List.any_eq_true]
      simp [mem_listParticipants, and_assoc]
    rw [hiff, hrows]
    constructor
    · exact fun hother => .inr ⟨k, hk, hother⟩
    · rintro (⟨e', he', hrow⟩ | ⟨k', hk', hother⟩)
      · obtain rfl := Option.some_inj.mp (he.symm.trans he')
        rw [hroom.mpr hrow] at hhalted
        cases hhalted
      · obtain rfl := Option.some_inj.mp (hk.symm.trans hk')
        exact hother

/-! ### The inbox comes first -/

/-- **A waiting agent's inbox comes before any status, unless it is alone.**  Let `m`
be the next unread message of `p` when a wait of `p` arrives, let the row of `p`
stay from then on, let only messages of its room be claimed for it, and let no other
claim deliver `m`.  Then the wait makes at most 29 calls and
never parks; and what it answers is `m` exactly when it read the room as halted or
found somebody else in it. -/
theorem inbox_before_status_iff (h₀ : Reachable app c₀) {r : WaitRequest}
    (hrun : (daemon app).Run (arrived app (.waitRoom p.roomId r) c₀) c)
    (hnew : c.trace = new ++ c₀.trace) (hp : p ∈ c₀.shared.db.participants)
    (hm : c₀.shared.db.nextUnread p.roomId p.handle p.lastReadSeq = some m)
    (hcaller : CalledBy p (effectiveInstance r.toCaller) (pastOf c₀.threads.length new))
    (hkept : NotPruned new p.handle)
    (hroom : ∀ m ∈ deliveries p.handle c₀.trace new, m.roomId = p.roomId)
    (hrobbed : NotRobbed c₀.threads.length p.handle m c₀.trace new) :
    (pastOf c₀.threads.length new).length ≤ 29 ∧
      c.threads[c₀.threads.length]?.bind receiving = none ∧
      ∀ a, c.threads[c₀.threads.length]?.bind Thread.returned = some a →
        (Carries a m ↔ Drains c₀.threads.length new p.roomId p.handle) := by
  have h₁ : Reachable app (arrived app (.waitRoom p.roomId r) c₀) := h₀.run (run_arrived _ _ _)
  have hreach := h₁.run hrun
  have hthread : (arrived app (.waitRoom p.roomId r) c₀).threads[c₀.threads.length]? =
      some ⟨.waitRoom p.roomId r, .running (serve app (.waitRoom p.roomId r))⟩ := by
    simp [arrived]
  have hreturns : Answers p m (effectiveInstance r.toCaller) 29 (serve app (.waitRoom p.roomId r)) []
      (Offered p m) :=
    Prog.Returns.bind (m := 29) (n := 0) waitRoom_answers
  have hremains := hrun.remains hthread hreturns hnew (by
    rintro e older hsuf hi
    have hoffer := h₁.onOffer hrun hnew hp hm hkept hroom hrobbed hsuf
    have hsuf' : e :: (older ++ c₀.trace) <:+ c.trace := by
      obtain ⟨later, hlater⟩ := hsuf
      exact ⟨later, by rw [hnew, ← hlater]; simp⟩
    rw [← hi] at hoffer hcaller ⊢
    exact hoffer.offers (hreach.recorded hsuf') hcaller (hsuf.mem List.mem_cons_self))
  refine ⟨hremains.calls, ?_, fun a ha => ?_⟩
  · cases hwaiting : c.threads[c₀.threads.length]?.bind receiving with
    | none => rfl
    | some x =>
      obtain ⟨id, rx, deadline⟩ := x
      obtain ⟨t, ht, hreceiving⟩ := Option.bind_eq_some_iff.mp hwaiting
      obtain ⟨r', f, rfl⟩ := receiving_spec hreceiving
      exact absurd rfl (hremains.waiting ht rx deadline)
  · have hsub : new ⊆ c.trace := hnew ▸ List.subset_append_left _ _
    exact (hremains.returned ha).carries_iff hreach hsub

/-- Where all messages are of one room, only messages of that room have been claimed. -/
theorem Reachable.deliveries_in_room (h : Reachable app c) (hnew : c.trace = new ++ old)
    (hrooms : ∀ m ∈ c.shared.db.messages, m.roomId = id) :
    ∀ m ∈ deliveries handle old new, m.roomId = id :=
  fun m hm => hrooms m ((h.handedOut hnew hm).mem h)

/-- Bob's wait, once it has arrived, by itself. -/
def bobWaits (i : ℕ) (c₀ : Daemon) : Daemon :=
  play .default (steps i 40) (arrived .default (.waitRoom demoRoom ⟨bob, none⟩) c₀)

/-- What alice wrote to all. -/
def hello : Message := ⟨1, demoRoom, "api-opus-0001", none, "hello", 0, .msg, false, none, none⟩

/-- Alice has written, and bob has not read it. -/
def unreadBob : Daemon :=
  demo (gather none [alice, bob] ++ [.sendMessage demoRoom ⟨alice, none, "hello", false⟩])

theorem inbox_before_status_iff_unreadBob : ∃ new, (bobWaits 4 unreadBob).trace = new ++ unreadBob.trace ∧
    ∀ a, (bobWaits 4 unreadBob).threads[4]?.bind Thread.returned = some a →
      (Carries a hello ↔ Drains 4 new demoRoom bobJoined.handle) := by
  have hreach : Reachable .default unreadBob := reachable_demo _
  have hrun : (daemon .default).Run (arrived .default (.waitRoom demoRoom ⟨bob, none⟩) unreadBob)
      (bobWaits 4 unreadBob) := run_play _ _
  obtain ⟨new, hnew, -⟩ := hrun.history
  rw [arrived_trace] at hnew
  obtain ⟨hlength, hbob, hnext, hkept, hrooms, hothers⟩ :
      unreadBob.threads.length = 4 ∧ bobJoined ∈ unreadBob.shared.db.participants ∧
      unreadBob.shared.db.nextUnread bobJoined.roomId bobJoined.handle bobJoined.lastReadSeq =
        some hello ∧
      NotPruned (bobWaits 4 unreadBob).trace bobJoined.handle ∧
      (∀ m ∈ (bobWaits 4 unreadBob).shared.db.messages, m.roomId = demoRoom) ∧
      (∀ e ∈ (bobWaits 4 unreadBob).trace, e.tid ≠ 4 →
        e.call.claims bobJoined.handle e.reply = false) := by decide +kernel
  rw [hnew] at hkept
  rw [hnew, ← hlength] at hothers
  have hwaited : Reachable .default (bobWaits 4 unreadBob) := (hreach.run (run_arrived _ _ _)).run hrun
  have hwait := inbox_before_status_iff hreach (p := bobJoined) (m := hello) hrun hnew
    hbob hnext (.inl (by decide)) (fun e he => hkept e (List.mem_append_left _ he))
    (hwaited.deliveries_in_room hnew hrooms) (notRobbed_of_none hothers)
  rw [hlength] at hwait
  exact ⟨new, hnew, hwait.2.2⟩

/-- Bob has polled and alice has not for sixteen minutes; she writes, and is pruned. -/
def forsakenBob : Daemon :=
  play .default (.tick (960000000000, 0) :: inTurn 3 [.waitRoom demoRoom ⟨bob, none⟩,
    .sendMessage demoRoom ⟨alice, none, "hello", false⟩, .pruneRoom demoRoom])
    (demo (gather none [alice, bob]))

/-- What alice wrote before she was pruned. -/
def lastWords : Message := { hello with createdAt := 960000000000 }

/-- The wait of a caller that is alone answers with a status although a message is
there for it. -/
theorem inbox_not_before_status :
    ¬ ∀ (c₀ c : Daemon) (new : List Step) (p : Participant) (m : Message) (r : WaitRequest),
      Reachable .default c₀ → (daemon .default).Run (arrived .default (.waitRoom p.roomId r) c₀) c →
      c.trace = new ++ c₀.trace → p ∈ c₀.shared.db.participants →
      c₀.shared.db.nextUnread p.roomId p.handle p.lastReadSeq = some m →
      CalledBy p (effectiveInstance r.toCaller) (pastOf c₀.threads.length new) →
      NotPruned new p.handle → (∀ m ∈ deliveries p.handle c₀.trace new, m.roomId = p.roomId) →
      NotRobbed c₀.threads.length p.handle m c₀.trace new →
      ∀ a, c.threads[c₀.threads.length]?.bind Thread.returned = some a → Carries a m := by
  intro h
  have hrun : (daemon .default).Run (arrived .default (.waitRoom demoRoom ⟨bob, none⟩) forsakenBob)
      (bobWaits 6 forsakenBob) := run_play _ _
  obtain ⟨new, hnew, -⟩ := hrun.history
  rw [arrived_trace] at hnew
  have hbob : { bobJoined with lastPollAt := 960000000000 } ∈ forsakenBob.shared.db.participants ∧
      forsakenBob.shared.db.nextUnread demoRoom bobJoined.handle bobJoined.lastReadSeq =
        some lastWords := by decide +kernel
  obtain ⟨hlength, hkept, hrooms, hothers, hanswer⟩ :
      forsakenBob.threads.length = 6 ∧
      NotPruned (bobWaits 6 forsakenBob).trace bobJoined.handle ∧
      (∀ m ∈ (bobWaits 6 forsakenBob).shared.db.messages, m.roomId = demoRoom) ∧
      (∀ e ∈ (bobWaits 6 forsakenBob).trace, e.tid ≠ 6 →
        e.call.claims bobJoined.handle e.reply = false) ∧
      (bobWaits 6 forsakenBob).threads[forsakenBob.threads.length]?.bind Thread.returned =
        some (.ok (.waited (.timeout "awaiting_counterpart" none))) := by decide +kernel
  rw [hnew] at hkept
  rw [hnew, ← hlength] at hothers
  have hreach : Reachable .default forsakenBob := (reachable_demo _).play _
  have hwaited : Reachable .default (bobWaits 6 forsakenBob) :=
    (hreach.run (run_arrived _ _ _)).run hrun
  have hcarries := h forsakenBob (bobWaits 6 forsakenBob) new
    { bobJoined with lastPollAt := 960000000000 } lastWords ⟨bob, none⟩ hreach hrun hnew hbob.1
    hbob.2 (.inl (by decide)) (fun e he => hkept e (List.mem_append_left _ he))
    (hwaited.deliveries_in_room hnew hrooms) (notRobbed_of_none hothers) _ hanswer
  rcases hcarries with hcarries | ⟨_, _, _, hcarries⟩ <;> cases hcarries

end ChatBotChat
