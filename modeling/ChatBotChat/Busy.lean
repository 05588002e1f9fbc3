/-
What the hint of a busy counterpart says.

`counterpart_busy_backoff` gives a hint when the room's latest message is the
caller's and another cursor of the roster has reached it.  A join seeds the cursor of
a new row with what the room has come to, and a claim takes it to the message it
delivers, so that a cursor comes to a message in one of three ways (`Reached`).

* `Reachable.hint_given` — the hint of an answered wait was given in a stretch of its
  log, by an away-signal or by a busy counterpart;
* `busy_hint` — behind each hint is another participant that has obtained the
  message, was let in when it was there, or has obtained a later message from an
  inbox that it is not in.
-/
import ChatBotChat.Interleave.Logs
import ChatBotChat.Obtained

namespace ChatBotChat

open Interleave

variable {app : AppState} {c : Daemon} {e : Step} {tr : List Step} {id handle : String}
  {p : Participant} {m : Message} {i : ℕ} {log newer stretch older : Log} {secs : UInt32}

/-! ### The hint -/

theorem not_gives_none : ¬ (pure none : Task (Option UInt32)).Gives log (some secs) := by
  intro h
  obtain ⟨-, hnone⟩ := Prog.gives_pure_iff.mp h
  cases hnone

/-- **A hint is given** behind a look at the room's latest message, which is the
caller's, and one at the roster, where another cursor has reached it. -/
theorem gives_busy (h : (counterpartBusyBackoff id handle).Gives stretch (some secs)) :
    ∃ now participants latest p, stretch = [⟨.nowUtc, now⟩, ⟨.listParticipants id, participants⟩,
      ⟨.roomLatestMessage id, some latest⟩] ∧ latest.sender = handle ∧ p ∈ participants ∧
        p.handle ≠ handle ∧ latest.seq ≤ p.lastReadSeq := by
  obtain ⟨latest, log, rfl, hlooked⟩ := Prog.gives_step_iff.mp h
  cases latest with
  | none => exact absurd hlooked not_gives_none
  | some latest =>
    dsimp only at hlooked
    split_ifs at hlooked with hsender
    · exact absurd hlooked not_gives_none
    · obtain ⟨participants, log, rfl, hlisted⟩ := Prog.gives_step_iff.mp hlooked
      split_ifs at hlisted with hany
      · obtain ⟨p, hp, hread⟩ := List.any_eq_true.mp hany
        rw [Bool.and_eq_true, decide_eq_true_eq, decide_eq_true_eq] at hread
        obtain ⟨now, log, rfl, hclock⟩ := Prog.gives_step_iff.mp hlisted
        obtain ⟨rfl, -⟩ := Prog.gives_pure_iff.mp hclock
        exact ⟨now, participants, latest, p, rfl, not_not.mp hsender, hp, hread.1, hread.2⟩
      · exact absurd hlisted not_gives_none

/-- The log ends with the three calls behind a hint. -/
def looksBusy (id handle : String) : Log → Bool
  | ⟨.nowUtc, _⟩ :: ⟨.listParticipants id', participants⟩ ::
      ⟨.roomLatestMessage id'', some latest⟩ :: _ =>
    id' = id && id'' = id && latest.sender = handle &&
      participants.any fun p => p.handle ≠ handle && latest.seq ≤ p.lastReadSeq
  | _ => false

/-- There, a hint has been given. -/
theorem gives_of_looksBusy (h : looksBusy id handle log = true) : ∃ stretch older secs,
    log = stretch ++ older ∧ (counterpartBusyBackoff id handle).Gives stretch (some secs) := by
  unfold looksBusy at h
  split at h
  · rename_i now id' participants id'' latest older
    simp only [Bool.and_eq_true, decide_eq_true_eq] at h
    obtain ⟨⟨⟨rfl, rfl⟩, hsender⟩, hany⟩ := h
    let elapsed : ℤ := Rfc3339.Duration.wholeSeconds ((now : OffsetDateTime) - latest.createdAt)
    refine ⟨[_, _, _], older, backoffSecs .med elapsed, rfl,
      Prog.gives_step_iff.mpr ⟨some latest, [_, _], rfl, ?_⟩⟩
    dsimp only
    rw [if_neg (not_not.mpr hsender)]
    refine Prog.gives_step_iff.mpr ⟨participants, [_], rfl, ?_⟩
    rw [if_pos hany]
    exact Prog.gives_step_iff.mpr ⟨now, [], rfl, .ret⟩
  · cases h

/-! ### The hint of an answer -/

/-- The hint of a response. -/
def WaitResponse.hint : WaitResponse → Option UInt32
  | .message _ _ retryAfter _ => retryAfter
  | .timeout _ retryAfter => retryAfter

/-- A stretch of the log gave the hint: an away-signal, or a busy counterpart. -/
def HintedBy (id handle : String) (secs : UInt32) (log : Log) : Prop :=
  ∃ stretch, stretch <:+: log ∧ ((activeSentinelBackoff id handle).Gives stretch (some secs) ∨
    (counterpartBusyBackoff id handle).Gives stretch (some secs))

theorem HintedBy.later (h : HintedBy id handle secs log) :
    HintedBy id handle secs (log ++ older) := by
  obtain ⟨stretch, hstretch, hgives⟩ := h
  exact ⟨stretch, hstretch.trans (List.prefix_append _ _).isInfix, hgives⟩

theorem gives_ok_iff {resp resp' : WaitResponse} :
    (pure (.ok resp') : Task (Except ApiError WaitResponse)).Gives log (.ok resp) ↔
      log = [] ∧ resp = resp' := by
  rw [Prog.gives_pure_iff, Except.ok.injEq]

/-- A wait that claimed nothing hands on the hint it was given, or none. -/
theorem gives_timeoutResponse {hint : Option UInt32} {away : Bool} {resp : WaitResponse}
    (h : (timeoutResponse id handle hint away).Gives log (.ok resp)) :
    resp.hint = none ∨ resp.hint = hint := by
  obtain ⟨room, log, rfl, hroom⟩ := Prog.gives_step_iff.mp h
  cases room with
  | none =>
    obtain ⟨-, herror⟩ := Prog.gives_pure_iff.mp hroom
    cases herror
  | some room =>
    dsimp only at hroom
    split at hroom
    · obtain ⟨-, rfl⟩ := gives_ok_iff.mp hroom
      exact .inl rfl
    · obtain ⟨closing, first, rest, rfl, -, hclosing⟩ := Prog.gives_bind_iff.mp hroom
      cases closing with
      | true =>
        obtain ⟨-, rfl⟩ := gives_ok_iff.mp hclosing
        exact .inl rfl
      | false =>
        obtain ⟨extending, first, rest, rfl, -, hextending⟩ := Prog.gives_bind_iff.mp hclosing
        cases extending with
        | true =>
          obtain ⟨-, rfl⟩ := gives_ok_iff.mp hextending
          exact .inl rfl
        | false =>
          cases away with
          | true =>
            obtain ⟨-, rfl⟩ := gives_ok_iff.mp hextending
            exact .inr rfl
          | false =>
            obtain ⟨stale, first, rest, rfl, -, hstale⟩ := Prog.gives_bind_iff.mp hextending
            cases stale with
            | true =>
              obtain ⟨-, rfl⟩ := gives_ok_iff.mp hstale
              exact .inl rfl
            | false =>
              obtain ⟨-, rfl⟩ := gives_ok_iff.mp hstale
              exact .inr rfl

/-- The hint of a wait comes from a stretch of its log. -/
theorem gives_waitRoom {r : WaitRequest} {resp : WaitResponse}
    (h : (waitRoom app id r).Gives log (.ok resp)) (hhint : resp.hint = some secs) :
    ∃ handle, HintedBy id handle secs log := by
  obtain ⟨room, log₁, rfl, hroom⟩ := Prog.gives_step_iff.mp h
  cases room with
  | none =>
    obtain ⟨-, herror⟩ := Prog.gives_pure_iff.mp hroom
    cases herror
  | some room =>
    obtain ⟨caller, first, log₂, rfl, -, hcaller⟩ := Prog.gives_bind_iff.mp hroom
    cases caller with
    | none =>
      obtain ⟨-, herror⟩ := Prog.gives_pure_iff.mp hcaller
      cases herror
    | some caller =>
      obtain ⟨now, log₃, rfl, hnow⟩ := Prog.gives_step_iff.mp hcaller
      obtain ⟨-, log₄, rfl, htouched⟩ := Prog.gives_step_iff.mp hnow
      split_ifs at htouched with hhalted
      · -- the drain of a halted room gives none
        obtain ⟨outcome, first, log₅, rfl, -, houtcome⟩ := Prog.gives_bind_iff.mp htouched
        cases outcome with
        | message m =>
          obtain ⟨-, rfl⟩ := gives_ok_iff.mp houtcome
          cases hhint
        | pausedByTimeout =>
          obtain ⟨-, rfl⟩ := gives_ok_iff.mp houtcome
          cases hhint
      · obtain ⟨counterpart, first, log₅, rfl, -, hcounterpart⟩ := Prog.gives_bind_iff.mp htouched
        cases counterpart with
        | false =>
          obtain ⟨-, rfl⟩ := gives_ok_iff.mp hcounterpart
          cases hhint
        | true =>
          obtain ⟨cap, first, log₆, rfl, -, hcap⟩ := Prog.gives_bind_iff.mp hcounterpart
          obtain ⟨outcome, first, log₇, rfl, -, houtcome⟩ := Prog.gives_bind_iff.mp hcap
          obtain ⟨away, looked, log₈, rfl, haway, hasked⟩ := Prog.gives_bind_iff.mp houtcome
          obtain ⟨hint, asked, log₉, rfl, hretry, hanswer⟩ := Prog.gives_bind_iff.mp hasked
          obtain rfl : hint = some secs := by
            cases outcome with
            | message m =>
              obtain ⟨consecutive, log, rfl, hcount⟩ := Prog.gives_step_iff.mp hanswer
              obtain ⟨-, rfl⟩ := gives_ok_iff.mp hcount
              exact hhint
            | pausedByTimeout =>
              rcases gives_timeoutResponse hanswer with hnone | hsome
              · rw [hnone] at hhint
                cases hhint
              · rw [← hsome, hhint]
          refine ⟨caller.handle, ?_⟩
          -- seven stretches of the log lie before the looks
          iterate 7 apply HintedBy.later
          cases away with
          | some secs' =>
            obtain ⟨-, hsame⟩ := Prog.gives_pure_iff.mp hretry
            rw [← hsame] at haway
            exact ⟨looked, (List.suffix_append _ _).isInfix, .inl haway⟩
          | none => exact ⟨asked, List.infix_append _ _ _, .inr hretry⟩

/-- **The hint of an answered wait** was given in a stretch of its log. -/
theorem Reachable.hint_given (h : Reachable app c) {t : Thread Call Call.Reply Request Outcome}
    (ht : c.threads[i]? = some t) {r : WaitRequest} (hreq : t.req = .waitRoom id r)
    {resp : WaitResponse} (hanswer : t.returned = some (.ok (.waited resp)))
    (hhint : resp.hint = some secs) : ∃ handle, HintedBy id handle secs (pastOf i c.trace) := by
  obtain ⟨utc, instant, hrun⟩ := h
  have hgives : (serve app t.req).Gives (pastOf i c.trace) (.ok (.waited resp)) :=
    hrun.gives ht hanswer
  rw [hreq] at hgives
  obtain ⟨result, log, rest, hlog, hwait, hend⟩ := Prog.gives_bind_iff.mp hgives
  obtain ⟨rfl, hresult⟩ := Prog.gives_pure_iff.mp hend
  cases result with
  | error e => cases hresult
  | ok resp' =>
    cases hresult
    rw [hlog, List.nil_append]
    exact gives_waitRoom hwait hhint

/-! ### How a cursor comes to a message -/

/-- A participant whose cursor has come to `m` or beyond it. -/
inductive Reached (m : Message) (p : Participant) (tr : List Step) : Prop
  /-- It has claimed `m`. -/
  | obtained (hm : m ∈ deliveries p.handle [] tr)
  /-- It was let into the room when `m` was there already. -/
  | letIn {k : Step} {q : Participant} (hk : k ∈ tr) (hjoined : k.call.joined k.reply = some q)
      (hhandle : q.handle = p.handle) (hroom : q.roomId = p.roomId)
      (hm : m ∈ k.before.db.messages)
  /-- It has claimed a later message from an inbox that `m` is not in. -/
  | passed {m' : Message} (hm' : m' ∈ deliveries p.handle [] tr) (hlt : m.seq < m'.seq)
      (hnot : Db.addressedTo m'.roomId p.handle m = false)

theorem deliveries_subset_cons : deliveries handle [] tr ⊆ deliveries handle [] (e :: tr) := by
  intro m hm
  rw [deliveries]
  split
  · exact List.mem_append_right _ hm
  · exact hm

theorem Reached.cons (h : Reached m p tr) : Reached m p (e :: tr) := by
  cases h with
  | obtained hm => exact .obtained (deliveries_subset_cons hm)
  | letIn hk hjoined hhandle hroom hm =>
    exact .letIn (List.mem_cons_of_mem _ hk) hjoined hhandle hroom hm
  | passed hm' hlt hnot => exact .passed (deliveries_subset_cons hm') hlt hnot

theorem Reached.of_same {q : Participant} (h : Reached m p tr) (hhandle : q.handle = p.handle)
    (hroom : q.roomId = p.roomId) : Reached m q tr := by
  cases h with
  | obtained hm => exact .obtained (hhandle ▸ hm)
  | letIn hk hjoined hhandle' hroom' hm =>
    exact .letIn hk hjoined (hhandle'.trans hhandle.symm) (hroom'.trans hroom.symm) hm
  | passed hm' hlt hnot => exact .passed (hhandle ▸ hm') hlt (hhandle ▸ hnot)

/-- Each message a cursor has come to was reached. -/
def CursorsReached (tr : List Step) (s : Store) : Prop :=
  ∀ p ∈ s.db.participants, ∀ m ∈ s.db.messages, m.seq ≤ p.lastReadSeq → Reached m p tr

/-- What a claim goes over on its way is in no inbox it claims from. -/
theorem Claiming.passes {req : Request} {cursor : ℕ} {m' : Message}
    (h : Claiming e tr req id handle cursor m') (hwf : e.before.db.WellFormed)
    (hm : m ∈ e.before.db.messages) (hlt : cursor < m.seq) (hlt' : m.seq < m'.seq) :
    Db.addressedTo m'.roomId handle m = false := by
  rw [(Db.addressedTo_iff.mp h.spec.2.2).1, Bool.eq_false_iff]
  intro hto
  have hle := Feed.next_least hwf.seqs h.unread hm hlt hto
  omega

/-- **A claim comes to the message it delivers**, and passes what it cannot deliver. -/
theorem Reached.of_claim (h : Recorded app c e tr) (hp : p ∈ e.before.db.participants)
    (hclaims : e.call.claims p.handle e.reply = true) (hm : m ∈ e.before.db.messages)
    (hlt : p.lastReadSeq < m.seq)
    (hle : m.seq ≤ e.call.cursorAfter p.handle p.lastReadSeq) : Reached m p (e :: tr) := by
  obtain ⟨t, id, m', ht, hclaiming, hcursor⟩ := h.cursor_moved hp hclaims
  have hwf := h.wellFormed_before
  have hm' : m' ∈ deliveries p.handle [] (e :: tr) := by
    rw [← List.append_nil tr] at hclaiming
    rw [deliveries_cons_of_claims hclaims hclaiming]
    exact List.mem_cons_self
  rw [hcursor] at hle
  rcases Nat.eq_or_lt_of_le hle with heq | hlt'
  · -- two messages with one number are one
    obtain rfl : m = m' := List.inj_on_of_nodup_map (hwf.seqs.imp Nat.ne_of_lt) hm
      hclaiming.spec.1 heq
    exact .obtained hm'
  · exact .passed hm' hlt' (hclaiming.passes hwf hm hlt hlt')

theorem Call.landed_of_joined {k : Call} {r : k.Reply} (h : k.joined r = some p) :
    k.landed r = none := by
  cases k
  case createParticipant => rfl
  all_goals cases h

/-- **No cursor comes to a message in another way.** -/
theorem Reachable.cursorsReached (h : Reachable app c) : Throughout c CursorsReached := by
  refine h.induction ?_ ?_ ?_
  · rintro s₀ ⟨hdb, -⟩
    simp [CursorsReached, hdb, Db.empty]
  · intro tr s₁ s₂ hdb _ _ _ hreached
    rwa [CursorsReached, hdb]
  · intro e tr hrec hreached p' hp' m hm hle
    have hposted := h.cursorsPosted.before hrec.suffix
    rcases hrec.effect.mem_participants.mp hp' with ⟨p, hp, -, rfl⟩ | hjoined
    · rw [Call.onParticipant_lastReadSeq] at hle
      -- a row that was there: its cursor had come to `m`, or the call took it there
      suffices hbefore : Reached m p (e :: tr) from
        hbefore.of_same (Call.onParticipant_handle _) (Call.onParticipant_roomId _)
      rw [hrec.effect.messages] at hm
      rcases List.mem_append.mp hm with hm | hlanded
      · by_cases hold : m.seq ≤ p.lastReadSeq
        · exact (hreached p hp m hm hold).cons
        · have hclaims : e.call.claims p.handle e.reply = true := by
            by_contra hnone
            rw [hrec.cursor_kept hp (Bool.eq_false_iff.mpr hnone)] at hle
            exact hold hle
          exact .of_claim hrec hp hclaims hm (Nat.lt_of_not_le hold) hle
      · -- what has just landed lies beyond every cursor
        have hkept : e.call.claims p.handle e.reply = false := by
          by_contra hclaims
          rw [Call.landed_of_claims (eq_true_of_ne_false hclaims)] at hlanded
          cases hlanded
        obtain ⟨sess, hexec⟩ := hrec.exec
        rw [hrec.cursor_kept hp hkept, (landed_spec hexec (Option.mem_toList.mp hlanded)).1] at hle
        exact absurd (hposted p hp) (Nat.not_lt.mpr hle)
    · rw [hrec.effect.messages, Call.landed_of_joined hjoined, Option.toList_none,
        List.append_nil] at hm
      -- a row that is new: `m` was there when it was let in
      exact .letIn List.mem_cons_self hjoined rfl rfl hm

/-! ### Behind a hint -/

/-- Behind the log `older`, request `i` looked at the room's latest message, and it
was `m`. -/
def LatestWas (c : Daemon) (i : ℕ) (id : String) (older : Log) (m : Message) : Prop :=
  ∃ k past, k :: past <:+ c.trace ∧ k.tid = i ∧ k.call = .roomLatestMessage id ∧
    pastOf i past = older ∧ k.before.db.roomLatestMessage id = some m

/-- Behind the look at `m`, request `i` looked at the roster, when `tr` had been called,
and it had the row `p`. -/
def RosterHad (c : Daemon) (i : ℕ) (id : String) (older : Log) (m : Message) (p : Participant)
    (tr : List Step) : Prop :=
  ∃ l, l :: tr <:+ c.trace ∧ l.tid = i ∧ l.call = .listParticipants id ∧
    pastOf i tr = ⟨.roomLatestMessage id, some m⟩ :: older ∧ p ∈ l.before.db.listParticipants id

/-- A read that a request has made shows what there was. -/
theorem Reachable.read_shows (h : Reachable app c) (hsuf : e :: tr <:+ c.trace) {call : Call}
    {reply : call.Reply} (hread : (⟨e.call, e.reply⟩ : Sigma Call.Reply) = ⟨call, reply⟩) :
    e.call = call ∧ ∃ sess, Store.exec sess call e.before = .done reply e.after := by
  obtain ⟨sess, hexec⟩ := (h.recorded hsuf).exec
  obtain ⟨tid, call', reply', before, after⟩ := e
  cases hread
  exact ⟨rfl, sess, hexec⟩

/-- **A hint of a busy counterpart** means that the room's latest message, when it was
looked at, was the caller's, and that some other participant of the room had obtained
it, or was let in when it was there, or had obtained a later message from an inbox
that it is not in. -/
theorem busy_hint (h : Reachable app c) (hlog : pastOf i c.trace = newer ++ (stretch ++ older))
    (hgives : (counterpartBusyBackoff id handle).Gives stretch (some secs)) :
    ∃ m p tr, LatestWas c i id older m ∧ m.sender = handle ∧ RosterHad c i id older m p tr ∧
      p.handle ≠ handle ∧ Reached m p tr := by
  obtain ⟨now, participants, m, p, rfl, hown, hp, hother, hle⟩ := gives_busy hgives
  obtain ⟨b, l, tr, hsplit, hl, hlist, -, hlook⟩ :=
    pastOf_split (show pastOf i c.trace = (newer ++ [_]) ++ _ :: _ by simpa using hlog)
  obtain ⟨mid, k, past, rfl, hk, hread, -, hpast⟩ := pastOf_cons_split hlook
  have hsuf : l :: (mid ++ k :: past) <:+ c.trace := ⟨b, hsplit.symm⟩
  have hsuf' : k :: past <:+ c.trace :=
    ((List.suffix_append mid _).trans (List.suffix_cons l _)).trans hsuf
  obtain ⟨hcall, sess, hexec⟩ := h.read_shows hsuf hlist
  obtain ⟨hroster, -⟩ := done_of_read hexec
  obtain ⟨hcall', sess', hexec'⟩ := h.read_shows hsuf' hread
  obtain ⟨hlatest, hsame⟩ := done_of_read hexec'
  rw [← hroster] at hp
  have hm : m ∈ l.before.db.messages := by
    have hthere : m ∈ k.after.db.messages := by
      rw [hsame]
      exact (List.mem_filter.mp (List.mem_of_getLast? hlatest)).1
    exact (h.history_between hsuf).later.messages.subset hthere
  have hreached := h.cursorsReached.before hsuf p (mem_listParticipants.mp hp).1 m hm hle
  exact ⟨m, p, _, ⟨k, past, hsuf', hk, hcall', hpast, hlatest⟩, hown,
    ⟨l, hsuf, hl, hcall, hlook, hp⟩, hother, hreached⟩

/-- Alice has written, bob has read it, and alice waits. -/
def readBob : List Request := gather none [alice, bob] ++ greeting ++
  [.waitRoom demoRoom ⟨alice, some 0⟩]

/-- Her wait is given a hint. -/
theorem busy_hint_readBob : ∃ older m p tr, LatestWas (demo readBob) 5 demoRoom older m ∧
    m.sender = "api-opus-0001" ∧ RosterHad (demo readBob) 5 demoRoom older m p tr ∧
    p.handle ≠ "api-opus-0001" ∧ Reached m p tr := by
  have hlooks : looksBusy demoRoom "api-opus-0001" ((pastOf 5 (demo readBob).trace).drop 7) =
      true := by decide +kernel
  obtain ⟨stretch, older, secs, hlog, hgives⟩ := gives_of_looksBusy hlooks
  have hsplit : pastOf 5 (demo readBob).trace =
      (pastOf 5 (demo readBob).trace).take 7 ++ (stretch ++ older) := by
    rw [← hlog, List.take_append_drop]
  exact ⟨older, busy_hint (reachable_demo _) hsplit hgives⟩

/-- What has been delivered was the target of a compare-and-swap. -/
theorem Reachable.swap_of_delivered (h : Reachable app c) (hm : m ∈ deliveries handle [] c.trace) :
    ∃ e ∈ c.trace, ∃ cursor, e.call = .advanceCursor m.seq handle cursor := by
  obtain ⟨e, tr, hsuf, hclaims, hfound⟩ := mem_deliveries hm
  rw [List.append_nil] at hfound
  obtain ⟨seq, cursor, hcall, -⟩ := Call.claims_spec hclaims
  obtain ⟨t, id, m', -, hclaiming, rfl⟩ := (h.recorded hsuf).claiming hcall
  obtain ⟨rest, hlog, -⟩ := hclaiming.log
  rw [hlog] at hfound
  obtain rfl : m' = m := Option.some_inj.mp hfound
  exact ⟨e, hsuf.mem List.mem_cons_self, cursor, hcall⟩

/-- Where a compare-and-swap takes its cursor. -/
def Call.target : Call → Option ℕ
  | .advanceCursor seq _ _ => some seq
  | _ => none

/-- Alice has written, bob joins, and alice waits. -/
def lateBob : List Request := gather none [alice] ++
  [.sendMessage demoRoom ⟨alice, none, "hello", false⟩, .joinRoom demoRoom ⟨bob, none⟩,
    .waitRoom demoRoom ⟨alice, some 0⟩]

/-- A participant that has merely joined behind the message is enough for a hint. -/
theorem not_busy_hint : ¬ ∀ (app : AppState) (c : Daemon) (i : ℕ) (id handle : String)
    (newer stretch older : Log) (secs : UInt32), Reachable app c →
    pastOf i c.trace = newer ++ (stretch ++ older) →
    (counterpartBusyBackoff id handle).Gives stretch (some secs) →
    ∃ m other, LatestWas c i id older m ∧ m.sender = handle ∧ other ≠ handle ∧
      m ∈ deliveries other [] c.trace := by
  intro h
  obtain ⟨hlooks, hnone⟩ : looksBusy demoRoom "api-opus-0001"
        ((pastOf 4 (demo lateBob).trace).drop 7) = true ∧
      ∀ e ∈ (demo lateBob).trace, e.call.target = none := by decide +kernel
  obtain ⟨stretch, older, secs, hlog, hgives⟩ := gives_of_looksBusy hlooks
  have hsplit : pastOf 4 (demo lateBob).trace =
      (pastOf 4 (demo lateBob).trace).take 7 ++ (stretch ++ older) := by
    rw [← hlog, List.take_append_drop]
  obtain ⟨m, other, -, -, -, hm⟩ := h .default _ 4 demoRoom "api-opus-0001" _ stretch older secs
    (reachable_demo lateBob) hsplit hgives
  -- nothing has been claimed
  obtain ⟨e, he, cursor, hcall⟩ := (reachable_demo lateBob).swap_of_delivered hm
  have htarget := hnone e he
  rw [hcall] at htarget
  cases htarget

/-- Alice has written to herself; between the two looks of her wait she writes to all,
and bob reads it. -/
def overtaken : Daemon :=
  play .default (.start (.waitRoom demoRoom ⟨alice, some 0⟩) :: (steps 4 23 ++
    .start (.sendMessage demoRoom ⟨alice, none, "hello", false⟩) :: (steps 5 40 ++
      .start (.waitRoom demoRoom ⟨bob, none⟩) :: (steps 6 40 ++ steps 4 40))))
    (demo (gather none [alice, bob] ++
      [.sendMessage demoRoom ⟨alice, some "api-opus-0001", "note", false⟩]))

/-- There nobody has obtained the message, and nobody was let in behind it. -/
theorem not_obtained_or_letIn : ¬ ∀ (app : AppState) (c : Daemon) (i : ℕ) (id handle : String)
    (newer stretch older : Log) (secs : UInt32), Reachable app c →
    pastOf i c.trace = newer ++ (stretch ++ older) →
    (counterpartBusyBackoff id handle).Gives stretch (some secs) →
    ∃ m other, LatestWas c i id older m ∧ (m ∈ deliveries other [] c.trace ∨
      ∃ k ∈ c.trace, ∃ q, k.call.joined k.reply = some q ∧ m ∈ k.before.db.messages) := by
  intro h
  obtain ⟨hlooks, hlatest, htarget, hjoined⟩ : looksBusy demoRoom "api-opus-0001"
        ((pastOf 4 overtaken.trace).drop 7) = true ∧
      (∀ e ∈ overtaken.trace, e.tid = 4 → e.call = .roomLatestMessage demoRoom →
        (e.before.db.roomLatestMessage demoRoom).map Message.seq = some 1) ∧
      (∀ e ∈ overtaken.trace, e.call.target ≠ some 1) ∧
      ∀ e ∈ overtaken.trace, e.call.joined e.reply ≠ none → e.before.db.messages = [] := by
    decide +kernel
  have hreach : Reachable .default overtaken := (reachable_demo _).play _
  obtain ⟨stretch, older, secs, hlog, hgives⟩ := gives_of_looksBusy hlooks
  have hsplit : pastOf 4 overtaken.trace =
      (pastOf 4 overtaken.trace).take 7 ++ (stretch ++ older) := by
    rw [← hlog, List.take_append_drop]
  obtain ⟨m, other, ⟨k, past, hsuf, hk, hcall, -, hm⟩, hhad⟩ :=
    h .default _ 4 demoRoom "api-opus-0001" _ stretch older secs hreach hsplit hgives
  have hseq : m.seq = 1 := by
    have hfirst := hlatest k (hsuf.mem List.mem_cons_self) hk hcall
    rw [hm] at hfirst
    exact Option.some_inj.mp hfirst
  rcases hhad with hdelivered | ⟨k, hk, q, hlet, hthere⟩
  · obtain ⟨e, he, cursor, hswap⟩ := hreach.swap_of_delivered hdelivered
    refine htarget e he ?_
    rw [hswap, hseq]
    rfl
  · rw [hjoined k hk (by rw [hlet]; exact Option.some_ne_none q)] at hthere
    cases hthere

end ChatBotChat
