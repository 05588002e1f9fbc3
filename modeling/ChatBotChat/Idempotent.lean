/-
Joins of one instance, in any order.

While only joins of one instance into one room move, the participants change in
two ways: a row of that instance is appended, once at most, and the nickname of
that row is set.  `JoinRun` collects what the moves of such a run are;
`renamed_kept` and `renamed_origin` follow the rows through it, and
`JoinRun.row_of_found` says that whatever a join finds under the instance is the
row of the instance at the end of the run.

A join can fail in one way only: the last of its attempts is refused.  Since a
join loses the race for the instance once at most (`JoinRun.lost_once`), all its
other attempts met a handle that was taken (`JoinRun.failedInserts_le`).
-/
import ChatBotChat.Interleave.Newcomers
import ChatBotChat.Joining
import ChatBotChat.Cursors

namespace ChatBotChat

open Interleave

variable {app : AppState} {c₀ c : Daemon} {e : Step} {new older tr : List Step} {id inst : String}
  {p q : Participant} {s s' : Store} {sess : List UInt16}

/-- The request is a join of the instance into the room. -/
def IsJoin (id inst : String) (req : Request) : Prop :=
  ∃ r, req = .joinRoom id r ∧ effectiveInstance r.toCaller = inst

/-- Only joins of the instance arrive, and only requests from number `n₀` on move. -/
def OnlyJoins (id inst : String) (n₀ : ℕ) (_ : Daemon) : Action → Prop
  | .start req => IsJoin id inst req
  | .step j _ | .fail j | .drop j => n₀ ≤ j
  | .tick _ => True

/-- `p` is the participant of the instance. -/
def Holds (id inst : String) (p : Participant) : Prop := p.roomId = id ∧ p.inst = inst

/-- The call is an insert under a handle that is taken. -/
def collides (e : Step) : Bool :=
  match e.call with
  | .createParticipant p => e.before.db.participants.any (·.handle = p.handle)
  | _ => false

/-- The call is an insert that was refused though its handle was free. -/
def loses (e : Step) : Bool := e.call.refused e.reply && !collides e

/-- How many inserts of request `i` met a handle that was taken. -/
def handleCollisions (i : ℕ) (tr : List Step) : ℕ := tr.countP fun e => e.tid = i && collides e

theorem Call.eq_of_mints {x : Sigma Call.Reply} (h : x.1.mints x.2 = true) :
    ∃ p, x = ⟨.createParticipant p, .inserted⟩ := by
  obtain ⟨k, r⟩ := x
  cases k
  case createParticipant p =>
    cases r with
    | inserted => exact ⟨p, rfl⟩
    | uniqueViolation => cases h
  all_goals cases h

theorem Call.eq_of_refused {x : Sigma Call.Reply} (h : x.1.refused x.2 = true) :
    ∃ p, x = ⟨.createParticipant p, .uniqueViolation⟩ := by
  obtain ⟨k, r⟩ := x
  cases k
  case createParticipant p =>
    cases r with
    | inserted => cases h
    | uniqueViolation => exact ⟨p, rfl⟩
  all_goals cases h

/-- An insert is refused where the handle or the instance is taken, and does nothing. -/
theorem refused_spec
    (h : Store.exec sess (.createParticipant p) s = .done .uniqueViolation s') :
    s' = s ∧ ∃ q ∈ s.db.participants,
      q.handle = p.handle ∨ q.roomId = p.roomId ∧ q.inst = p.inst := by
  obtain ⟨db, hdb, rfl⟩ := done_of_tryWrite h
  unfold Db.createParticipant at hdb
  split at hdb
  · rename_i htaken
    cases hdb
    obtain ⟨q, hq, hkey⟩ := List.any_eq_true.mp htaken
    exact ⟨rfl, q, hq, by simpa using hkey⟩
  · split at hdb <;> cases hdb

/-! ### The moves of such a run -/

/-- `q` is `p`, but perhaps for its nickname. -/
def Renamed (p q : Participant) : Prop := q = { p with nickname := q.nickname }

theorem Renamed.refl (p : Participant) : Renamed p p := rfl

theorem Renamed.trans {p q r : Participant} (h : Renamed p q) (h' : Renamed q r) : Renamed p r := by
  refine Eq.trans h' ?_
  rw [h]

theorem Renamed.handle (h : Renamed p q) : q.handle = p.handle := by
  rw [h]

theorem Renamed.holds (h : Renamed p q) (hp : Holds id inst p) : Holds id inst q := by
  rw [h]
  exact hp

/-- A call that joins make. -/
def Call.ofJoin (c : Call) : Prop :=
  c.keepsDb = true ∨ (∃ p, c = .createParticipant p) ∨ ∃ handle nickname, c = .setNickname handle nickname

theorem JoinCall.ofJoin {past : Log} {k : Call} (h : JoinCall id inst past k) : k.ofJoin := by
  cases k
  case createParticipant p => exact .inr (.inl ⟨p, rfl⟩)
  case setNickname handle nickname => exact .inr (.inr ⟨handle, nickname, rfl⟩)
  all_goals exact .inl h

/-- A call of a join deletes nobody. -/
theorem Call.ofJoin.prunes {k : Call} (h : k.ofJoin) (p : Participant) : k.prunes p = false := by
  cases k
  case pruneStaleParticipants =>
    rcases h with h | ⟨_, h⟩ | ⟨_, _, h⟩ <;> cases h
  all_goals rfl

/-- A call of a join leaves a participant as it is, or sets its nickname. -/
theorem Call.ofJoin.onParticipant {k : Call} (h : k.ofJoin) (r : k.Reply) (p : Participant) :
    Renamed p (k.onParticipant r p) ∧
      ((∀ nickname, k ≠ .setNickname p.handle nickname) → k.onParticipant r p = p) := by
  cases k
  case setNickname handle nickname =>
    simp only [Call.onParticipant]
    split
    · rename_i heq
      subst heq
      exact ⟨rfl, fun hne => absurd rfl (hne nickname)⟩
    · exact ⟨.refl p, fun _ => rfl⟩
  case setCloseVote => rcases h with h | ⟨_, h⟩ | ⟨_, _, h⟩ <;> cases h
  case clearCloseVotes => rcases h with h | ⟨_, h⟩ | ⟨_, _, h⟩ <;> cases h
  case clearExtendVote => rcases h with h | ⟨_, h⟩ | ⟨_, _, h⟩ <;> cases h
  case touchLastPoll => rcases h with h | ⟨_, h⟩ | ⟨_, _, h⟩ <;> cases h
  case tryExtend => rcases h with h | ⟨_, h⟩ | ⟨_, _, h⟩ <;> cases h
  case advanceCursor => rcases h with h | ⟨_, h⟩ | ⟨_, _, h⟩ <;> cases h
  all_goals exact ⟨.refl p, fun _ => rfl⟩

/-- What the moves of a run of joins are. -/
structure JoinRun (app : AppState) (id inst : String) (c₀ c : Daemon) (new : List Step) : Prop where
  start : Reachable app c₀
  run : (daemon app).Run c₀ c
  trace : c.trace = new ++ c₀.trace
  threads : ∀ j t, c₀.threads.length ≤ j → c.threads[j]? = some t → IsJoin id inst t.req
  tids : ∀ e ∈ new, c₀.threads.length ≤ e.tid

/-- **The moves of a run of joins** are calls of joins of the instance. -/
theorem joinRun_of_onlyJoins (h₀ : Reachable app c₀)
    (h : (daemon app).RunWith (OnlyJoins id inst c₀.threads.length) c₀ c) :
    ∀ new, c.trace = new ++ c₀.trace → JoinRun app id inst c₀ c new := by
  intro new hnew
  have honly : (daemon app).RunWith (System.Only (IsJoin id inst) c₀.threads.length) c₀ c := by
    refine h.mono fun _ a hok => ?_
    cases a <;> exact hok
  have hnewcomers := honly.newcomers new hnew
  exact ⟨h₀, h.run, hnew, hnewcomers.threads, hnewcomers.tids⟩

/-! ### The rows of such a run -/

/-- Along calls of joins a row stays, but perhaps for its nickname. -/
theorem renamed_kept (hist : History app s tr s') (hwf : s.db.WellFormed)
    (hjoin : ∀ e ∈ tr, e.call.ofJoin) (hp : p ∈ s.db.participants) :
    ∃ q ∈ s'.db.participants, Renamed p q := by
  refine History.induction hwf (P := fun _ s => ∃ q ∈ s.db.participants, Renamed p q)
    ⟨p, hp, .refl p⟩ (fun _ hdb _ _ _ hrow => hdb ▸ hrow) ?_ hist List.suffix_rfl
  rintro e tr' sess hsuf hexec _ _ ⟨q, hq, hsame⟩
  have hcall : e.call.ofJoin := hjoin e (hsuf.mem List.mem_cons_self)
  refine ⟨_, (effect_of_exec hexec).mem_participants.mpr (.inl ⟨q, hq, hcall.prunes q, rfl⟩), ?_⟩
  exact hsame.trans (hcall.onParticipant e.reply q).1

/-- Along calls of joins a row was there before, or has been minted. -/
theorem renamed_origin (hist : History app s tr s') (hwf : s.db.WellFormed)
    (hjoin : ∀ e ∈ tr, e.call.ofJoin) (hq : q ∈ s'.db.participants) :
    (∃ p ∈ s.db.participants, Renamed p q) ∨
      ∃ e ∈ tr, ∃ p, e.call = .createParticipant p ∧ e.call.mints e.reply = true ∧ Renamed p q := by
  refine History.induction hwf (P := fun tr' s' => ∀ q ∈ s'.db.participants,
    (∃ p ∈ s.db.participants, Renamed p q) ∨ ∃ e ∈ tr', ∃ p, e.call = .createParticipant p ∧
      e.call.mints e.reply = true ∧ Renamed p q) ?_ ?_ ?_ hist List.suffix_rfl q hq
  · exact fun q hq => .inl ⟨q, hq, .refl q⟩
  · intro tr' s₁ s₂ _ hdb _ _ _ hrows
    rwa [hdb]
  · intro e tr' sess hsuf hexec _ _ hrows q hq
    have hcall : e.call.ofJoin := hjoin e (hsuf.mem List.mem_cons_self)
    rcases (effect_of_exec hexec).mem_participants.mp hq with ⟨q', hq', -, rfl⟩ | hjoined
    · have hsame := (hcall.onParticipant e.reply q').1
      rcases hrows q' hq' with ⟨p, hp, hold⟩ | ⟨e', he', p, hcreates, hmints, hold⟩
      · exact .inl ⟨p, hp, hold.trans hsame⟩
      · exact .inr ⟨e', List.mem_cons_of_mem _ he', p, hcreates, hmints, hold.trans hsame⟩
    · refine .inr ⟨e, List.mem_cons_self, q, ?_⟩
      obtain ⟨tid, call, reply, before, after⟩ := e
      cases call
      case createParticipant p =>
        cases reply
        · obtain rfl := Option.some_inj.mp hjoined
          exact ⟨rfl, rfl, .refl _⟩
        · cases hjoined
      all_goals cases hjoined

/-- Rows of one instance are one row. -/
theorem Db.WellFormed.holds_unique {db : Db} (hwf : db.WellFormed) (hp : p ∈ db.participants)
    (hq : q ∈ db.participants) (hholds : Holds id inst p) (hholds' : Holds id inst q) : p = q :=
  List.inj_on_of_nodup_map hwf.instances hp hq (by
    rw [hholds.1, hholds.2, hholds'.1, hholds'.2])

namespace JoinRun

theorem reach (h : JoinRun app id inst c₀ c new) : Reachable app c := h.start.run h.run

theorem hist (h : JoinRun app id inst c₀ c new) : History app c₀.shared new c.shared :=
  h.run.history_of_eq h.trace

/-- Only the joins have moved. -/
theorem newcomers (h : JoinRun app id inst c₀ c new) :
    System.Newcomers (IsJoin id inst) c₀ c new := ⟨h.trace, h.threads, h.tids⟩

theorem call (h : JoinRun app id inst c₀ c new) (hsuf : e :: older <:+ new) :
    JoinCall id inst (pastOf e.tid older) e.call := by
  obtain ⟨t, -, ⟨r, hreq, rfl⟩, hdisc⟩ :=
    h.newcomers.event h.start.orderly h.reach.joining hsuf
  exact hdisc id r hreq

theorem ofJoin (h : JoinRun app id inst c₀ c new) (he : e ∈ new) : e.call.ofJoin := by
  obtain ⟨newer, older, hsplit⟩ := List.append_of_mem he
  exact (h.call ⟨newer, hsplit.symm⟩).ofJoin

/-- What a join was answered follows from its log. -/
theorem answered (h : JoinRun app id inst c₀ c new) {j : ℕ} (hj : c₀.threads.length ≤ j)
    {a : Outcome} (ha : c.threads[j]?.bind Thread.returned = some a) :
    JoinAnswered id inst (pastOf j new) a := by
  obtain ⟨t, -, ⟨r, hreq, rfl⟩, hconclusion⟩ :=
    h.newcomers.returned h.start.orderly h.reach.joining hj ha
  exact hconclusion id r hreq

/-- A row that a history of the run passes by is there at the end. -/
theorem kept (h : JoinRun app id inst c₀ c new) {newer : List Step}
    (hist : History app s newer c.shared) (hsub : newer ⊆ new) (hwf : s.db.WellFormed)
    (hp : p ∈ s.db.participants) : ∃ q ∈ c.shared.db.participants, Renamed p q :=
  renamed_kept hist hwf (fun _ he => h.ofJoin (hsub he)) hp

/-- **What a join finds is the row of the instance**, unless a handle of the room is
that instance. -/
theorem row_of_found (h : JoinRun app id inst c₀ c new)
    (hfree : ∀ p ∈ c.shared.db.participants, p.roomId = id → p.handle ≠ inst) {j : ℕ}
    (hfound : FoundIn (pastOf j new) id inst p) :
    ∃ q ∈ c.shared.db.participants, Holds id inst q ∧ q.handle = p.handle := by
  have hwf := h.start.wellFormed
  rcases hfound with hread | hread | ⟨roster, hread, hmem, hpinst⟩
  · obtain ⟨before, after, sess, newer, older, rfl, hexec, hbefore, hafter⟩ := h.hist.seen hread
    obtain ⟨hfind, rfl⟩ := done_of_read hexec
    obtain ⟨hp, hholds⟩ := Db.getParticipantByInstance_spec hfind
    obtain ⟨q, hq, hsame⟩ := h.kept hafter (List.subset_append_left _ _) (hbefore.wellFormed hwf) hp
    exact ⟨q, hq, hsame.holds hholds, hsame.handle⟩
  · -- found by handle: then that handle is the instance
    obtain ⟨before, after, sess, newer, older, rfl, hexec, hbefore, hafter⟩ := h.hist.seen hread
    obtain ⟨hfind, rfl⟩ := done_of_read hexec
    obtain ⟨hp, hroom, hhandle⟩ := Db.getParticipantByHandle_spec hfind
    obtain ⟨q, hq, hsame⟩ := h.kept hafter (List.subset_append_left _ _) (hbefore.wellFormed hwf) hp
    refine absurd (hsame.handle.trans hhandle) (hfree q hq ?_)
    rw [hsame]
    exact hroom
  · obtain ⟨before, after, sess, newer, older, rfl, hexec, hbefore, hafter⟩ := h.hist.seen hread
    obtain ⟨hlist, rfl⟩ := done_of_read hexec
    rw [← hlist] at hmem
    obtain ⟨hrow, hroom⟩ := mem_listParticipants.mp hmem
    obtain ⟨q, hq, hsame⟩ := h.kept hafter (List.subset_append_left _ _) (hbefore.wellFormed hwf)
      hrow
    exact ⟨q, hq, hsame.holds ⟨hroom, hpinst⟩, hsame.handle⟩

/-- A minted row is there at the end, under the instance. -/
theorem row_of_minted (h : JoinRun app id inst c₀ c new) {newer : List Step}
    (hsplit : new = newer ++ e :: older) (hcall : e.call = .createParticipant p)
    (hmints : e.call.mints e.reply = true) :
    (∃ q ∈ c.shared.db.participants, Holds id inst q ∧ q.handle = p.handle) ∧
      ∀ q ∈ e.before.db.participants, ¬ Holds id inst q := by
  have hjoin := h.call (show e :: older <:+ new from ⟨newer, hsplit.symm⟩)
  have hist := h.hist
  have hsub : newer ⊆ new := hsplit ▸ List.subset_append_left _ _
  rw [hsplit] at hist
  obtain ⟨hbefore, ⟨sess, hexec⟩, hafter⟩ := System.History.split hist
  have hwf := History.wellFormed hbefore h.start.wellFormed
  obtain ⟨tid, call, reply, before, after⟩ := e
  dsimp only at hcall
  subst hcall
  cases reply with
  | uniqueViolation => cases hmints
  | inserted =>
    change Store.exec sess (.createParticipant p) before = .done .inserted after at hexec
    obtain ⟨-, hfresh⟩ := joined_spec hexec (p := p) rfl
    have hholds : Holds id inst p := ⟨hjoin.1, hjoin.2.1⟩
    have hrow : p ∈ after.db.participants :=
      (effect_of_exec hexec).mem_participants.mpr (.inr rfl)
    obtain ⟨q, hq, hsame⟩ := h.kept hafter hsub (hwf.exec hexec) hrow
    refine ⟨⟨q, hq, hsame.holds hholds, hsame.handle⟩, fun q hq hholds' => ?_⟩
    exact (hfresh q hq).2 ⟨hholds'.1.trans hholds.1.symm, hholds'.2.trans hholds.2.symm⟩

/-- What was found is found still. -/
theorem found_of_suffix {j : ℕ} (hsuf : older <:+ new) (h : FoundIn (pastOf j older) id inst p) :
    FoundIn (pastOf j new) id inst p := by
  obtain ⟨newer, rfl⟩ := hsuf
  rw [pastOf_append]
  rcases h with h | h | ⟨roster, h, hmem⟩
  · exact .inl (List.mem_append_right _ h)
  · exact .inr (.inl (List.mem_append_right _ h))
  · exact .inr (.inr ⟨roster, List.mem_append_right _ h, hmem⟩)

/-- **The others are as they were**: neither changed nor gone. -/
theorem stays (h : JoinRun app id inst c₀ c new)
    (hfree : ∀ p ∈ c.shared.db.participants, p.roomId = id → p.handle ≠ inst)
    (hp : p ∈ c₀.shared.db.participants) (hother : ¬ Holds id inst p) :
    p ∈ c.shared.db.participants := by
  refine History.induction h.start.wellFormed (P := fun _ s => p ∈ s.db.participants) hp
    (fun _ hdb _ _ _ hrow => hdb ▸ hrow) ?_ h.hist List.suffix_rfl
  intro e older sess hsuf hexec _ hafter hrow
  have hcall : e.call.ofJoin := h.ofJoin (hsuf.mem List.mem_cons_self)
  refine (effect_of_exec hexec).mem_participants.mpr (.inl ⟨p, hrow, hcall.prunes p, ?_⟩)
  refine (hcall.onParticipant e.reply p).2 fun nickname heq => hother ?_
  -- a nickname is set for the row of the instance only
  have hjoin := h.call hsuf
  rw [heq] at hjoin
  obtain ⟨p', hhandle, hfound⟩ := hjoin
  obtain ⟨q, hq, hholds, hqhandle⟩ := h.row_of_found hfree
    (found_of_suffix ((List.suffix_cons _ _).trans hsuf) hfound)
  obtain ⟨q', hq', hsame⟩ := renamed_kept h.hist h.start.wellFormed (fun _ => h.ofJoin) hp
  obtain rfl := h.reach.wellFormed.participant_unique hq hq'
    (hqhandle.trans (hhandle.trans hsame.handle.symm))
  rw [Holds, hsame] at hholds
  exact hholds

/-- A minted row was the first of the instance: none was minted before it. -/
theorem minted_first (h : JoinRun app id inst c₀ c new) {newer : List Step}
    (hsplit : new = newer ++ e :: older) (hmints : e.call.mints e.reply = true) :
    ∀ e' ∈ older, e'.call.mints e'.reply = false := by
  intro e' he'
  by_contra hmints'
  rw [Bool.not_eq_false] at hmints'
  obtain ⟨p, hentry⟩ := Call.eq_of_mints (x := ⟨e.call, e.reply⟩) hmints
  obtain ⟨p', hentry'⟩ := Call.eq_of_mints (x := ⟨e'.call, e'.reply⟩) hmints'
  obtain ⟨-, hnone⟩ := h.row_of_minted hsplit (congrArg Sigma.fst hentry) hmints
  obtain ⟨a, b, rfl⟩ := List.append_of_mem he'
  have hjoin := h.call (show e' :: b <:+ new from ⟨newer ++ e :: a, by simp [hsplit]⟩)
  rw [show e'.call = _ from congrArg Sigma.fst hentry'] at hjoin
  have hist := h.hist
  rw [hsplit] at hist
  obtain ⟨hfirst, ⟨sess, hexec⟩, hlater⟩ := System.History.split (System.History.split hist).1
  have hwf := (History.wellFormed hfirst h.start.wellFormed).exec hexec
  have hrow : p' ∈ e'.after.db.participants :=
    (effect_of_exec hexec).mem_participants.mpr
      (.inr (congrArg (fun x : Sigma Call.Reply => x.1.joined x.2) hentry'))
  have hsub : ∀ x ∈ a, x ∈ new := by
    intro x hx
    rw [hsplit]
    simp [hx]
  obtain ⟨q, hq, hsame⟩ := renamed_kept hlater hwf (fun x hx => h.ofJoin (hsub x hx)) hrow
  exact hnone q hq (hsame.holds ⟨hjoin.1, hjoin.2.1⟩)

/-- **One request at most mints.** -/
theorem minted_once (h : JoinRun app id inst c₀ c new) {e e' : Step} (he : e ∈ new) (he' : e' ∈ new)
    (hmints : e.call.mints e.reply = true) (hmints' : e'.call.mints e'.reply = true) :
    e.tid = e'.tid := by
  obtain ⟨newer, older, hsplit⟩ := List.append_of_mem he
  rw [hsplit] at he'
  rcases List.mem_append.mp he' with hlater | he'
  · obtain ⟨a, b, rfl⟩ := List.append_of_mem hlater
    have hsplit' : new = a ++ e' :: (b ++ e :: older) := by
      rw [hsplit]
      simp
    have hnone := h.minted_first hsplit' hmints' e (by simp)
    rw [hmints] at hnone
    cases hnone
  · rcases List.mem_cons.mp he' with rfl | hearlier
    · rfl
    · have hnone := h.minted_first hsplit hmints e' hearlier
      rw [hmints'] at hnone
      cases hnone

/-- An insert that lost the race left a row of the instance behind. -/
theorem row_of_lost (h : JoinRun app id inst c₀ c new) (hsuf : e :: older <:+ new)
    (hlost : loses e = true) : ∃ q ∈ e.after.db.participants, Holds id inst q := by
  have hjoin := h.call hsuf
  have hist := h.hist
  obtain ⟨newer, hsplit⟩ := hsuf
  rw [← hsplit] at hist
  obtain ⟨-, ⟨sess, hexec⟩, -⟩ := System.History.split hist
  obtain ⟨hrefused, hfree⟩ := Bool.and_eq_true_iff.mp hlost
  obtain ⟨p, hentry⟩ := Call.eq_of_refused (x := ⟨e.call, e.reply⟩) hrefused
  obtain ⟨tid, call, reply, before, after⟩ := e
  cases hentry
  change Store.exec sess (.createParticipant p) before = .done .uniqueViolation after at hexec
  obtain ⟨hroom, hinst, -, -⟩ := hjoin
  obtain ⟨hsame, q, hq, htaken⟩ := refused_spec hexec
  refine ⟨q, hsame ▸ hq, ?_⟩
  rcases htaken with hhandle | ⟨hqroom, hqinst⟩
  · rw [collides, Bool.not_eq_true', List.any_eq_false] at hfree
    exact absurd (decide_eq_true hhandle) (hfree q hq)
  · exact ⟨hqroom.trans hroom, hqinst.trans hinst⟩

/-- **A request loses the race once at most**: the look behind it finds the row. -/
theorem lost_once (h : JoinRun app id inst c₀ c new) (hsuf : e :: older <:+ new)
    (hlost : loses e = true) : ∀ e' ∈ older, ¬ (e'.tid = e.tid ∧ loses e' = true) := by
  rintro e' he' ⟨htid, hlost'⟩
  obtain ⟨p, hentry⟩ := Call.eq_of_refused (x := ⟨e.call, e.reply⟩) (Bool.and_eq_true_iff.mp hlost).1
  obtain ⟨p', hentry'⟩ :=
    Call.eq_of_refused (x := ⟨e'.call, e'.reply⟩) (Bool.and_eq_true_iff.mp hlost').1
  obtain ⟨a, b, rfl⟩ := List.append_of_mem he'
  have hsuf' : e' :: b <:+ new := ((List.suffix_append a _).trans (List.suffix_cons e _)).trans hsuf
  obtain ⟨q, hq, hholds⟩ := h.row_of_lost hsuf' hlost'
  have hjoin := h.call hsuf
  rw [show e.call = _ from congrArg Sigma.fst hentry, pastOf_append, ← htid, pastOf_cons_self,
    hentry'] at hjoin
  have hlook := hjoin.2.2.2 _ _ _ rfl
  -- the row that won is there when the look is made
  have hist := h.hist
  obtain ⟨newer, hsplit⟩ := hsuf
  rw [← hsplit] at hist
  obtain ⟨hfirst, ⟨sess, hexec⟩, hlater⟩ := System.History.split (System.History.split hist).1
  have hwf := (History.wellFormed hfirst h.start.wellFormed).exec hexec
  obtain ⟨before, after, sess', a', b', rfl, hread, hbefore, -⟩ := History.seen hlater hlook
  obtain ⟨hnobody, rfl⟩ := done_of_read hread
  have hsub : ∀ x ∈ b', x ∈ new := by
    intro x hx
    rw [← hsplit]
    simp [hx]
  obtain ⟨q', hq', hsame⟩ := renamed_kept hbefore hwf (fun x hx => h.ofJoin (hsub x hx)) hq
  exact Db.getParticipantByInstance_eq_none.mp hnobody q' hq' (hsame.holds hholds)

/-- Of the refused inserts of a request, all but one met a taken handle. -/
theorem failedInserts_le (h : JoinRun app id inst c₀ c new) (j : ℕ) :
    failedInserts (pastOf j new) ≤ handleCollisions j new + 1 := by
  have hsplit : ∀ tr : List Step, failedInserts (pastOf j tr) ≤
      handleCollisions j tr + tr.countP fun e => e.tid = j && loses e := by
    intro tr
    induction tr with
    | nil => exact Nat.zero_le _
    | cons e tr ih =>
      rw [handleCollisions, List.countP_cons, List.countP_cons, ← handleCollisions]
      by_cases hj : e.tid = j
      · subst hj
        rw [pastOf_cons_self, failedInserts_cons]
        have hkind : (if e.call.refused e.reply then 1 else 0) ≤
            (if collides e then 1 else 0) + if loses e then 1 else 0 := by
          unfold loses
          cases e.call.refused e.reply <;> cases collides e <;> simp
        simp only [decide_true, Bool.true_and]
        omega
      · rw [pastOf_cons_of_ne hj]
        omega
  have hlost : ∀ tr, tr <:+ new → tr.countP (fun e => e.tid = j && loses e) ≤ 1 := by
    intro tr
    induction tr with
    | nil => exact fun _ => Nat.zero_le _
    | cons e tr ih =>
      intro hsuf
      rw [List.countP_cons]
      split
      · rename_i he
        rw [Bool.and_eq_true, decide_eq_true_eq] at he
        obtain ⟨rfl, he⟩ := he
        have hzero : tr.countP (fun e' => e'.tid = e.tid && loses e') = 0 := by
          refine List.countP_eq_zero.mpr fun e' he' => ?_
          rw [Bool.and_eq_true, decide_eq_true_eq]
          exact h.lost_once hsuf he e' he'
        omega
      · exact (ih ((List.suffix_cons _ _).trans hsuf))
  have := hsplit new
  have := hlost new List.suffix_rfl
  omega

/-- A room that was there is found. -/
theorem room_found (h : JoinRun app id inst c₀ c new) (hroom : c₀.shared.db.hasRoom id = true)
    (j : ℕ) : ⟨.getRoom id, none⟩ ∉ pastOf j new := by
  intro hread
  obtain ⟨before, after, sess, newer, older, -, hexec, hbefore, -⟩ := h.hist.seen hread
  obtain ⟨hget, rfl⟩ := done_of_tryRead hexec
  obtain ⟨row, hrow, rfl⟩ := Db.hasRoom_iff.mp hroom
  obtain ⟨row', hrow', hid, -⟩ := (History.later hbefore).rooms row hrow
  exact Db.getRoom_ne_none (Db.hasRoom_iff.mpr ⟨row', hrow', hid⟩) hget rfl

/-- A join that came by a handle came by that of the row of the instance. -/
theorem row_of_attached (h : JoinRun app id inst c₀ c new)
    (hfree : ∀ p ∈ c.shared.db.participants, p.roomId = id → p.handle ≠ inst) {j cursor : ℕ}
    {handle : String} {resumed : Bool} {past : Log} (hsub : past ⊆ pastOf j new)
    (hattached : Attached id inst handle resumed cursor past) :
    ∃ q ∈ c.shared.db.participants, Holds id inst q ∧ q.handle = handle := by
  cases hattached with
  | found hread _ =>
    exact h.row_of_found hfree (j := j) (hread.imp (hsub ·) fun hread => .inl (hsub hread))
  | reused hmem hinst _ =>
    refine h.row_of_found hfree (j := j) (.inr (.inr ⟨_, hsub ?_, hmem, hinst⟩))
    simp
  | minted hroom hinst _ =>
    obtain ⟨before, after, sess, newer, older, hsplit, -⟩ := h.hist.seen (hsub List.mem_cons_self)
    exact (h.row_of_minted (e := ⟨j, .createParticipant _, .inserted, before, after⟩) hsplit rfl rfl).1

/-- **Every join is answered with the handle of the row.** -/
theorem answered_ok (h : JoinRun app id inst c₀ c new) (hroom : c₀.shared.db.hasRoom id = true)
    {j : ℕ} (hj : c₀.threads.length ≤ j) (hcollisions : handleCollisions j new + 1 < MAX_ATTEMPTS)
    {a : Outcome} (ha : c.threads[j]?.bind Thread.returned = some a) :
    ∃ response, joinResponseOf c j = some response := by
  have hanswer := h.answered hj ha
  cases a with
  | ok answer =>
    cases answer with
    | joined response => exact ⟨response, joinResponseOf_eq_some.mpr ha⟩
    | _ => exact False.elim hanswer
  | error e =>
    have hfailed := h.failedInserts_le j
    rcases hanswer.2 with hnone | ⟨-, hmany⟩
    · exact absurd hnone (h.room_found hroom j)
    · omega

end JoinRun

/-- What joins of one instance come to. -/
structure IdempotentJoin (id inst : String) (c₀ c : Daemon) : Prop where
  oneRow : ∃ p ∈ c.shared.db.participants, Holds id inst p ∧
    (∀ q ∈ c.shared.db.participants, Holds id inst q → q = p) ∧
      ∀ j < c.threads.length, c₀.threads.length ≤ j →
        ∃ response, joinResponseOf c j = some response ∧ response.handle = p.handle
  atMostOne : ∀ j k response response', c₀.threads.length ≤ j → c₀.threads.length ≤ k →
    joinResponseOf c j = some response → joinResponseOf c k = some response' →
      response.resumed = false → response'.resumed = false → j = k
  exactlyOne : (∀ q ∈ c₀.shared.db.participants, ¬ Holds id inst q) →
    ∃ j response, c₀.threads.length ≤ j ∧ joinResponseOf c j = some response ∧
      response.resumed = false
  others : ∀ q, ¬ Holds id inst q →
    (q ∈ c.shared.db.participants ↔ q ∈ c₀.shared.db.participants)
  own : ∀ q ∈ c₀.shared.db.participants, Holds id inst q →
    ∃ q' ∈ c.shared.db.participants, Renamed q q'

/-- **Joining is idempotent under concurrency**: any number of joins of one instance
into one room, in any order, come to one row, whose handle they all are answered
with, to one new participant at most, and to no change of the others. -/
theorem join_idempotent (h₀ : Reachable app c₀)
    (hrun : (daemon app).RunWith (OnlyJoins id inst c₀.threads.length) c₀ c)
    (hnew : c.trace = new ++ c₀.trace) (hroom : c₀.shared.db.hasRoom id = true)
    (hfree : ∀ p ∈ c.shared.db.participants, p.roomId = id → p.handle ≠ inst)
    (hsome : c₀.threads.length < c.threads.length)
    (hanswered : ∀ j < c.threads.length, c₀.threads.length ≤ j →
      (c.threads[j]?.bind Thread.returned).isSome)
    (hcollisions : ∀ j, c₀.threads.length ≤ j → handleCollisions j new + 1 < MAX_ATTEMPTS) :
    IdempotentJoin id inst c₀ c := by
  have h := joinRun_of_onlyJoins h₀ hrun new hnew
  have hwf := h.reach.wellFormed
  have hresponse : ∀ j < c.threads.length, c₀.threads.length ≤ j →
      ∃ response, joinResponseOf c j = some response := by
    intro j hlt hj
    obtain ⟨a, ha⟩ := Option.isSome_iff_exists.mp (hanswered j hlt hj)
    exact h.answered_ok hroom hj (hcollisions j hj) ha
  have hattached : ∀ {j response}, c₀.threads.length ≤ j → joinResponseOf c j = some response →
      ∃ x cursor older, pastOf j new = x :: older ∧ x.1.mints x.2 = false ∧
        Attached id inst response.handle response.resumed cursor older := by
    intro j response hj hr
    obtain ⟨cursor, msgs, older, hpast, hattached, -⟩ := h.answered hj (joinResponseOf_eq_some.mp hr)
    exact ⟨_, cursor, older, hpast, rfl, hattached⟩
  have hrow : ∀ {j response}, c₀.threads.length ≤ j → joinResponseOf c j = some response →
      ∃ q ∈ c.shared.db.participants, Holds id inst q ∧ q.handle = response.handle := by
    intro j response hj hr
    obtain ⟨x, cursor, older, hpast, -, hattached⟩ := hattached hj hr
    refine h.row_of_attached hfree (j := j) ?_ hattached
    rw [hpast]
    exact List.subset_cons_self _ _
  have hminter : ∀ {j response}, c₀.threads.length ≤ j → joinResponseOf c j = some response →
      response.resumed = false → ∃ e ∈ new, e.tid = j ∧ e.call.mints e.reply = true := by
    intro j response hj hr hresumed
    obtain ⟨x, cursor, older, hpast, -, hattached⟩ := hattached hj hr
    rw [hresumed] at hattached
    obtain ⟨p, hmem⟩ := hattached.mints
    have hmem' : ⟨.createParticipant p, .inserted⟩ ∈ pastOf j new := by
      rw [hpast]
      exact List.mem_cons_of_mem _ hmem
    obtain ⟨before, after, sess, newer, older, hsplit, -⟩ := h.hist.seen hmem'
    exact ⟨⟨j, .createParticipant p, .inserted, before, after⟩, by simp [hsplit], rfl, rfl⟩
  obtain ⟨response, hr⟩ := hresponse _ hsome le_rfl
  obtain ⟨p, hp, hholds, -⟩ := hrow le_rfl hr
  constructor
  case oneRow =>
    refine ⟨p, hp, hholds, fun q hq hq' => hwf.holds_unique hq hp hq' hholds, ?_⟩
    intro j hlt hj
    obtain ⟨response, hr⟩ := hresponse j hlt hj
    obtain ⟨q, hq, hq', hhandle⟩ := hrow hj hr
    obtain rfl := hwf.holds_unique hq hp hq' hholds
    exact ⟨response, hr, hhandle.symm⟩
  case atMostOne =>
    intro j k response response' hj hk hr hr' hresumed hresumed'
    obtain ⟨e, he, rfl, hmints⟩ := hminter hj hr hresumed
    obtain ⟨e', he', rfl, hmints'⟩ := hminter hk hr' hresumed'
    exact h.minted_once he he' hmints hmints'
  case exactlyOne =>
    intro hnone
    rcases renamed_origin h.hist h.start.wellFormed (fun _ => h.ofJoin) hp with
      ⟨p₀, hp₀, hsame⟩ | ⟨e, he, p', hcall, hmints, -⟩
    · refine absurd ?_ (hnone p₀ hp₀)
      rw [Holds, hsame] at hholds
      exact hholds
    · have hj := h.tids e he
      have hlt : e.tid < c.threads.length :=
        h.reach.orderly.tid_lt (by rw [hnew]; exact List.mem_append_left _ he)
      obtain ⟨response, hr⟩ := hresponse _ hlt hj
      refine ⟨e.tid, response, hj, hr, ?_⟩
      obtain ⟨x, cursor, older, hpast, hx, hattached⟩ := hattached hj hr
      have hmem : ⟨e.call, e.reply⟩ ∈ x :: older := by
        rw [← hpast]
        exact mem_pastOf.mpr ⟨e, he, rfl, rfl⟩
      by_contra hresumed
      rw [Bool.not_eq_false] at hresumed
      rw [hresumed] at hattached
      have hnot := unminted_cons.mpr ⟨hx, hattached.unminted⟩ _ hmem
      rw [hmints] at hnot
      cases hnot
  case others =>
    intro q hother
    refine ⟨fun hq => ?_, fun hq => h.stays hfree hq hother⟩
    rcases renamed_origin h.hist h.start.wellFormed (fun _ => h.ofJoin) hq with
      ⟨q₀, hq₀, hsame⟩ | ⟨e, he, p', hcall, hmints, hsame⟩
    · have hother₀ : ¬ Holds id inst q₀ := fun hholds₀ => hother (hsame.holds hholds₀)
      have hstays := h.stays hfree hq₀ hother₀
      obtain rfl := hwf.participant_unique hq hstays hsame.handle
      exact hq₀
    · obtain ⟨newer, older, hsplit⟩ := List.append_of_mem he
      have hjoin := h.call (show e :: older <:+ new from ⟨newer, hsplit.symm⟩)
      rw [hcall] at hjoin
      exact absurd (hsame.holds ⟨hjoin.1, hjoin.2.1⟩) hother
  case own =>
    intro q hq _
    exact renamed_kept h.hist h.start.wellFormed (fun _ => h.ofJoin) hq

/-! ### A lost race -/

/-- Of the same repo and model, in another room. -/
def neighbour : Caller := ⟨"api", "opus", "/api", "carol"⟩

/-- Two rooms; a neighbour has joined the other one. -/
def neighbours : Daemon := demo [.openRoom ⟨"demo", none, none, none⟩,
  .openRoom ⟨"other", none, none, none⟩, .joinRoom "cbc-other-19700101-0000" ⟨neighbour, none⟩]

/-- Alice joins, draws the neighbour's handle `n` times, and draws a free one; then
she joins once more, and is answered before the first join goes on. -/
def race (n : ℕ) : List Action :=
  .start (.joinRoom demoRoom ⟨alice, none⟩) :: (List.replicate (5 + 6 * n) (.step 3 [2]) ++
    List.replicate 2 (.step 3 [3]) ++ .start (.joinRoom demoRoom ⟨alice, none⟩) :: (steps 4 20 ++
      List.replicate 8 (.step 3 [3])))

def raced (n : ℕ) : Daemon := play .default (race n) neighbours

theorem runWith_raced (n : ℕ) :
    (daemon .default).RunWith (OnlyJoins demoRoom "alice" neighbours.threads.length) neighbours
      (raced n) := by
  have hlength : neighbours.threads.length = 3 := by decide +kernel
  refine runWith_play _ _ fun a ha c => ?_
  have hjoin : IsJoin demoRoom "alice" (.joinRoom demoRoom ⟨alice, none⟩) :=
    ⟨_, rfl, by decide +kernel⟩
  rw [hlength]
  rcases List.mem_cons.mp ha with rfl | ha
  · exact hjoin
  rcases List.mem_append.mp ha with ha | ha
  · rcases List.mem_append.mp ha with ha | ha
    · obtain rfl := List.eq_of_mem_replicate ha
      exact le_rfl
    · obtain rfl := List.eq_of_mem_replicate ha
      exact le_rfl
  rcases List.mem_cons.mp ha with rfl | ha
  · exact hjoin
  rcases List.mem_append.mp ha with ha | ha
  · obtain rfl := List.eq_of_mem_replicate ha
    exact Nat.le_succ 3
  · obtain rfl := List.eq_of_mem_replicate ha
    exact le_rfl

/-- No request met more taken handles than all of them. -/
theorem handleCollisions_le {tr : List Step} (hnew : c.trace = tr ++ c₀.trace) (j : ℕ) :
    handleCollisions j tr ≤ c.trace.countP collides := by
  rw [hnew, List.countP_append]
  refine (List.countP_mono_left fun e _ he => ?_).trans (Nat.le_add_right _ _)
  exact (Bool.and_eq_true_iff.mp he).2

/-- One taken handle and one lost race: both joins are answered with the one row. -/
theorem join_idempotent_raced : IdempotentJoin demoRoom "alice" neighbours (raced 1) := by
  have hrun := runWith_raced 1
  obtain ⟨new, hnew, -⟩ := hrun.history
  obtain ⟨hcount, hroom, hfree, harrived, hanswered⟩ :
      (raced 1).trace.countP collides = 1 ∧
      neighbours.shared.db.hasRoom demoRoom = true ∧
      (∀ p ∈ (raced 1).shared.db.participants, p.roomId = demoRoom → p.handle ≠ "alice") ∧
      neighbours.threads.length < (raced 1).threads.length ∧
      (∀ j < (raced 1).threads.length, neighbours.threads.length ≤ j →
        ((raced 1).threads[j]?.bind Thread.returned).isSome) := by decide +kernel
  refine join_idempotent (reachable_demo _) hrun hnew hroom hfree harrived hanswered fun j _ => ?_
  have hle := handleCollisions_le hnew j
  rw [hcount] at hle
  exact Nat.lt_of_le_of_lt (Nat.succ_le_succ hle) (by decide)

/-- After sixty-three taken handles a lost race is an error: the last attempt does
not look who won. -/
theorem join_gives_up : ¬ ∀ (id inst : String) (c₀ c : Daemon) (new : List Step),
    Reachable .default c₀ →
    (daemon .default).RunWith (OnlyJoins id inst c₀.threads.length) c₀ c →
    c.trace = new ++ c₀.trace → c₀.shared.db.hasRoom id = true →
    (∀ p ∈ c.shared.db.participants, p.roomId = id → p.handle ≠ inst) →
    c₀.threads.length < c.threads.length →
    (∀ j < c.threads.length, c₀.threads.length ≤ j →
      (c.threads[j]?.bind Thread.returned).isSome) →
    (∀ j, c₀.threads.length ≤ j → handleCollisions j new < MAX_ATTEMPTS) →
    IdempotentJoin id inst c₀ c := by
  intro h
  have hrun := runWith_raced 63
  obtain ⟨new, hnew, -⟩ := hrun.history
  obtain ⟨hcount, hroom, hfree, harrived, hanswered, hlow, hhigh, hnone⟩ :
      (raced 63).trace.countP collides = 63 ∧
      neighbours.shared.db.hasRoom demoRoom = true ∧
      (∀ p ∈ (raced 63).shared.db.participants, p.roomId = demoRoom → p.handle ≠ "alice") ∧
      neighbours.threads.length < (raced 63).threads.length ∧
      (∀ j < (raced 63).threads.length, neighbours.threads.length ≤ j →
        ((raced 63).threads[j]?.bind Thread.returned).isSome) ∧
      3 < (raced 63).threads.length ∧ neighbours.threads.length ≤ 3 ∧
      (joinResponseOf (raced 63) 3).isNone = true := by decide +kernel
  have hjoined := h demoRoom "alice" neighbours (raced 63) new (reachable_demo _) hrun hnew
    hroom hfree harrived hanswered fun j _ => by
      have hle := handleCollisions_le hnew j
      rw [hcount] at hle
      exact Nat.lt_of_le_of_lt hle (by decide)
  obtain ⟨p, -, -, -, hanswers⟩ := hjoined.oneRow
  obtain ⟨response, hr, -⟩ := hanswers 3 hlow hhigh
  rw [hr] at hnone
  cases hnone

end ChatBotChat
