/-
Whether the recipient of a message can obtain it.

A send with a recipient is refused unless the recipient is met in the roster.
From then on, as long as its row is kept, every claim of its inbox that is
answered with a message takes the next one, so that the message is reached after
finitely many claims (`Obtained`), if it is in the inbox at all.  A message is in
nobody's own inbox, but a participant may well be the recipient of its own
message.

* `no_black_hole_iff` — the recipient obtains the message exactly when it is not
  the sender.
-/
import ChatBotChat.Interleave.Alone
import ChatBotChat.JoinWindow
import ChatBotChat.Sending

namespace ChatBotChat

open Interleave

variable {app : AppState} {c c' : Daemon} {e k : Step} {new older tr : List Step} {s : Store}
  {id handle : String} {p q : Participant} {i j : ℕ} {m : Message}

/-! ### Claims -/

/-- Request `j` is a claim of this inbox, and has been answered. -/
def answeredClaim (id handle : String) (c : Daemon) (j : ℕ) : Bool :=
  decide (c.threads[j]?.map Thread.req = some (.claimNextUnread id handle)) &&
    (c.threads[j]?.bind Thread.returned).isSome

/-- How many claims of this inbox have arrived since `c` and been answered. -/
def claimsAnswered (id handle : String) (c c' : Daemon) : ℕ :=
  (arrivals c c').countP (answeredClaim id handle c')

/-- Since request `i` looked at the roster, the row of `handle` has not been pruned, and
only messages of the room have been claimed for it. -/
def Undisturbed (i : ℕ) (id handle : String) (tr : List Step) : Prop :=
  ∀ newer e older, tr = newer ++ e :: older → e.tid = i → e.call = .listParticipants id →
    NotPruned newer handle ∧ ∀ m ∈ deliveries handle (e :: older) newer, m.roomId = id

/-- The run goes on, and leaves the inbox undisturbed. -/
structure Continues (app : AppState) (i : ℕ) (id handle : String) (c c' : Daemon) : Prop where
  run : (daemon app).Run c c'
  undisturbed : Undisturbed i id handle c'.trace

/-- `m` is handed out to `handle` after a number of claims, which can always be made. -/
def Obtained (app : AppState) (i : ℕ) (id handle : String) (m : Message) (c : Daemon) : Prop :=
  ∃ n, (∃ c', Continues app i id handle c c' ∧ n ≤ claimsAnswered id handle c c') ∧
    ∀ c', Continues app i id handle c c' → n ≤ claimsAnswered id handle c c' →
      HandedOut c' handle m

/-! ### Making a claim -/

/-- A claim by itself is answered. -/
theorem claim_executes (app : AppState) (id handle : String) (hwf : s.db.WellFormed) :
    ∃ m s', execute Store.exec [] 5 (serve app (.claimNextUnread id handle)) s =
      some (.ok (.claimed m), s') := by
  cases hread : s.db.readCursor handle with
  | none =>
    refine ⟨none, s, ?_⟩
    simp [execute, serve, claimNextUnread, Prog.iterate, Prog.unroll, Prog.perform, Store.exec,
      Store.read, hread, Bind.bind, Prog.bind, pure]
  | some cursor =>
    cases hnext : s.db.nextUnread id handle cursor with
    | none =>
      refine ⟨none, s, ?_⟩
      simp [execute, serve, claimNextUnread, Prog.iterate, Prog.unroll, Prog.perform, Store.exec,
        Store.read, hread, Bind.bind, Prog.bind, pure, hnext]
    | some m =>
      -- nobody has moved the cursor meanwhile
      have hwon : (s.db.advanceCursor m.seq handle cursor).1 = true := by
        obtain ⟨p, hp, rfl⟩ := Option.map_eq_some_iff.mp hread
        have hswap : Store.exec [] (.advanceCursor m.seq handle p.lastReadSeq) s =
            .done (s.db.advanceCursor m.seq handle p.lastReadSeq).1
              { s with db := (s.db.advanceCursor m.seq handle p.lastReadSeq).2 } := rfl
        refine (swap_spec hwf hswap).mpr ⟨p, List.mem_of_find?_eq_some hp, ?_, rfl⟩
        simpa using List.find?_some hp
      refine ⟨some m, { s with db := (s.db.advanceCursor m.seq handle cursor).2 }, ?_⟩
      simp [execute, serve, claimNextUnread, Prog.iterate, Prog.unroll, Prog.perform, Store.exec,
        Store.read, hread, Bind.bind, Prog.bind, pure, hnext, Store.write, hwon]

/-- A claim can always be made, and is answered while nothing else moves. -/
theorem claim_served (h : Reachable app c) (id handle : String) : ∃ c' new,
    (daemon app).Run c c' ∧ c'.trace = new ++ c.trace ∧ (∀ e ∈ new, e.tid = c.threads.length) ∧
      c'.threads.length = c.threads.length + 1 ∧
      c'.threads[c.threads.length]?.map Thread.req = some (.claimNextUnread id handle) ∧
      (c'.threads[c.threads.length]?.bind Thread.returned).isSome = true ∧
      ∀ j < c.threads.length, c'.threads[j]? = c.threads[j]? := by
  obtain ⟨m, s', hexec⟩ := claim_executes app id handle h.wellFormed
  have hlast : (arrived app (.claimNextUnread id handle) c).threads[c.threads.length]? =
      some ⟨.claimNextUnread id handle, .running (serve app (.claimNextUnread id handle))⟩ := by
    simp [arrived]
  obtain ⟨c', hserved, -⟩ : ∃ c', (daemon app).Served c.threads.length (.ok (.claimed m))
      (arrived app (.claimNextUnread id handle) c) c' ∧ c'.shared = s' :=
    System.served_of_execute hlast hexec
  obtain ⟨new, hnew, htids⟩ := hserved.trace
  refine ⟨c', new, (run_arrived app _ c).trans hserved.run, hnew, htids, ?_, ?_, ?_, ?_⟩
  · rw [hserved.length]
    simp [arrived]
  · rw [hserved.request, hlast]
    rfl
  · rw [hserved.returned]
    rfl
  · intro j hj
    rw [hserved.others j hj.ne]
    exact List.getElem?_append_left hj

/-! ### What has been delivered -/

/-- What has been delivered was claimed by a request. -/
theorem Reachable.delivered_by (h : Reachable app c) (hsplit : c.trace = new ++ older)
    (hm : m ∈ deliveries handle older new) : ∃ e ∈ new, ∃ tr t id cursor,
      c.threads[e.tid]? = some t ∧ Claiming e tr t.req id handle cursor m := by
  obtain ⟨e, tr, hsuf, hclaims, hfound⟩ := mem_deliveries hm
  have hrec : Recorded app c e (tr ++ older) := by
    refine h.recorded ?_
    obtain ⟨newer, hnewer⟩ := hsuf
    exact ⟨newer, by rw [hsplit, ← hnewer, List.append_assoc, List.cons_append]⟩
  obtain ⟨t, id, cursor, ht, hclaiming⟩ := hrec.claimed_by hclaims hfound
  exact ⟨e, hsuf.mem List.mem_cons_self, _, t, id, cursor, ht, hclaiming⟩

/-- **Nobody is handed a message of its own.** -/
theorem Reachable.sender_of_handedOut (h : Reachable app c) (hm : HandedOut c handle m) :
    m.sender ≠ handle := by
  obtain ⟨e, tr, hsuf, hclaims, hfound, -⟩ := hm
  obtain ⟨t, id, cursor, ht, hclaiming⟩ := (h.recorded hsuf).claimed_by hclaims hfound
  exact (Db.addressedTo_iff.mp hclaiming.spec.2.2).2.1

/-- From any call on, as long as the row is kept and only messages of its room are
claimed for it, what is delivered is what lies between the cursors. -/
theorem Reachable.tracked_in_room (h : Reachable app c) (hsplit : c.trace = new ++ k :: older)
    (hp : p ∈ k.after.db.participants) (hkept : NotPruned new p.handle)
    (hroom : ∀ m ∈ deliveries p.handle (k :: older) new, m.roomId = p.roomId) :
    Tracked p (k :: older) new c.shared := by
  refine h.induction_after hsplit ?_ ?_ ?_
  · exact ⟨p, hp, ⟨rfl, rfl⟩, le_rfl, Feed.taken_self.symm⟩
  · intro tr s₁ s₂ hdb _ _ _ ht
    rwa [Tracked, hdb]
  · intro e tr hsuf hrec ht
    refine ht.call_in_room hrec (hkept e (hsuf.mem List.mem_cons_self)) ?_
      (h.cursorsPosted.before hrec.suffix)
    intro hclaims t id cursor m _ hclaiming
    have hm : m ∈ deliveries p.handle (k :: older) new := by
      obtain ⟨newer, rfl⟩ := hsuf
      rw [deliveries_append, deliveries_cons_of_claims hclaims hclaiming]
      exact List.mem_append_right _ List.mem_cons_self
    rw [← hroom m hm, (Db.addressedTo_iff.mp hclaiming.spec.2.2).1]

/-! ### Counting claims -/

/-- Every claim that succeeded has delivered something. -/
theorem Reachable.claims_le_deliveries (h : Reachable app c) (hsplit : c.trace = new ++ older) :
    new.countP (fun e => e.call.claims handle e.reply) ≤ (deliveries handle older new).length := by
  have hall : ∀ tr, tr <:+ new →
      tr.countP (fun e => e.call.claims handle e.reply) ≤ (deliveries handle older tr).length := by
    intro tr
    induction tr with
    | nil => exact fun _ => le_rfl
    | cons e tr ih =>
      intro hsuf
      have hrest := ih ((List.suffix_cons _ _).trans hsuf)
      rw [List.countP_cons, deliveries]
      split
      · rename_i hclaims
        have hsuf' : e :: (tr ++ older) <:+ c.trace := by
          obtain ⟨newer, hnewer⟩ := hsuf
          exact ⟨newer, by rw [hsplit, ← hnewer, List.append_assoc, List.cons_append]⟩
        obtain ⟨m, hfound, -⟩ := h.carries hsuf' hclaims
        rw [hfound, Option.toList_some, List.singleton_append, List.length_cons]
        omega
      · exact hrest
  exact hall new List.suffix_rfl

/-- What has been delivered up to a cursor are no more messages than there are
sequence numbers. -/
theorem deliveries_length_le (hwf : s.db.WellFormed) {k k' n : ℕ} (hlt : k' < n)
    {want : Message → Bool} :
    (Feed.taken Message.seq want k k' s.db.messages).length ≤ n := by
  have hnodup : ((Feed.taken Message.seq want k k' s.db.messages).map Message.seq).Nodup :=
    (Feed.sorted_taken want k k' hwf.seqs).imp Nat.ne_of_lt
  have hsub : (Feed.taken Message.seq want k k' s.db.messages).map Message.seq ⊆ List.range n := by
    intro seq hseq
    obtain ⟨m, hm, rfl⟩ := List.mem_map.mp hseq
    exact List.mem_range.mpr ((Feed.mem_taken.mp hm).2.2.2.trans_lt hlt)
  simpa using (List.subperm_of_subset hnodup hsub).length_le

/-- Where every claim that was answered has succeeded, there are as many successes. -/
theorem claimsAnswered_le (hclaims : ∀ j ∈ arrivals c c', answeredClaim id handle c' j = true →
      ∃ e ∈ new, e.tid = j ∧ e.call.claims handle e.reply = true) :
    claimsAnswered id handle c c' ≤ new.countP fun e => e.call.claims handle e.reply := by
  have hnodup : ((arrivals c c').filter (answeredClaim id handle c')).Nodup :=
    (nodup_arrivals c c').filter _
  have hsub : (arrivals c c').filter (answeredClaim id handle c') ⊆
      (new.filter fun e => e.call.claims handle e.reply).map Event.tid := by
    intro j hj
    obtain ⟨hmem, hanswered⟩ := List.mem_filter.mp hj
    obtain ⟨e, he, htid, hclaims⟩ := hclaims j hmem hanswered
    exact List.mem_map.mpr ⟨e, List.mem_filter.mpr ⟨he, hclaims⟩, htid⟩
  have hle := (List.subperm_of_subset hnodup hsub).length_le
  rwa [List.length_map, ← List.countP_eq_length_filter, ← List.countP_eq_length_filter] at hle

/-! ### A message on its way -/

/-- The message `m` landed with the call `k`, and the row `p` stands in front of it. -/
structure OnItsWay (id : String) (m : Message) (k : Step) (p : Participant) : Prop where
  landed : m ∈ k.after.db.messages
  addressed : Db.addressedTo id p.handle m = true
  row : p ∈ k.after.db.participants
  roomId : p.roomId = id
  ahead : p.lastReadSeq < m.seq

section
variable (h : Reachable app c) (hway : OnItsWay id m k p) (hsplit : c.trace = new ++ k :: older)
  (hkept : NotPruned new p.handle)
  (hroom : ∀ m ∈ deliveries p.handle (k :: older) new, m.roomId = id)

include h hway hsplit hkept hroom

/-- A message that the cursor has passed has been delivered. -/
theorem OnItsWay.delivered (hq : q ∈ c.shared.db.participants) (hhandle : q.handle = p.handle)
    (hpassed : m.seq ≤ q.lastReadSeq) : m ∈ deliveries p.handle (k :: older) new := by
  obtain ⟨q', hq', hsame, -, htaken⟩ :=
    h.tracked_in_room hsplit hway.row hkept (hway.roomId ▸ hroom)
  obtain rfl := h.wellFormed.participant_unique hq hq' (hhandle.trans hsame.handle.symm)
  rw [← List.mem_reverse, htaken, hway.roomId]
  have hrec : Recorded app c k older := h.recorded ⟨new, hsplit.symm⟩
  exact Feed.mem_taken.mpr
    ⟨hrec.later.messages.subset hway.landed, hway.ahead, hway.addressed, hpassed⟩

/-- A claim that was made while the cursor stood in front of the message has not found
the inbox empty. -/
theorem OnItsWay.not_empty {cursor : ℕ} (hq : q ∈ c.shared.db.participants)
    (hhandle : q.handle = p.handle) (hahead : q.lastReadSeq < m.seq)
    (hread : ⟨.readCursor p.handle, some cursor⟩ ∈ pastOf j new) :
    ⟨.nextUnread id p.handle cursor, none⟩ ∉ pastOf j new := by
  intro hempty
  have hist : History app k.after new c.shared := by
    obtain ⟨s₀, -, hist⟩ := h.history
    rw [hsplit] at hist
    exact (System.History.split hist).2.2
  -- the cursor that was read is no further than the one there is
  have hle : cursor ≤ q.lastReadSeq := by
    obtain ⟨before, after, sess, newer, between, rfl, hexec, hbetween, -⟩ := hist.seen hread
    obtain ⟨hcursor, rfl⟩ := done_of_read hexec
    obtain ⟨q₁, hfind, rfl⟩ := Option.map_eq_some_iff.mp hcursor
    have hq₁ := List.mem_of_find?_eq_some hfind
    have hhandle₁ : q₁.handle = p.handle := by simpa using List.find?_some hfind
    have hwf := (h.recorded (e := k) ⟨_, hsplit.symm⟩).wellFormed_after
    have hroom₁ : q₁.roomId = id := by
      obtain ⟨q₂, hq₂, hsame, -⟩ :=
        hbetween.instance_kept hwf hway.row fun e he => hkept e (by simp [he])
      obtain rfl := (hbetween.wellFormed hwf).participant_unique hq₁ hq₂
        (hhandle₁.trans hsame.handle.symm)
      exact hsame.roomId.trans hway.roomId
    have hsplit₁ : c.trace = newer ++ ⟨j, .readCursor p.handle, some q₁.lastReadSeq, after, after⟩ ::
        (between ++ k :: older) := by
      rw [hsplit]
      simp
    have hlater : ∀ m' ∈ deliveries q₁.handle (⟨j, .readCursor p.handle, some q₁.lastReadSeq, after,
        after⟩ :: (between ++ k :: older)) newer, m'.roomId = q₁.roomId := by
      intro m' hm'
      rw [hroom₁]
      refine hroom m' ?_
      rw [deliveries_append]
      rw [hhandle₁] at hm'
      exact List.mem_append_left _ hm'
    obtain ⟨q', hq', hsame, hle, -⟩ := h.tracked_in_room hsplit₁ hq₁
      (fun e he => hhandle₁ ▸ hkept e (List.mem_append_left _ he)) hlater
    obtain rfl := h.wellFormed.participant_unique hq hq'
      (hhandle.trans (hhandle₁.symm.trans hsame.handle.symm))
    exact hle
  obtain ⟨before, after, sess, newer, between, rfl, hexec, hbefore, -⟩ := hist.seen hempty
  obtain ⟨hnone, rfl⟩ := done_of_read hexec
  have hpassed := List.find?_eq_none.mp hnone m (hbefore.later.messages.subset hway.landed)
  rw [hway.addressed, Bool.and_true, decide_eq_true_eq] at hpassed
  omega

omit hroom in
/-- The row is there whenever its cursor is read. -/
theorem OnItsWay.not_gone : ⟨.readCursor p.handle, none⟩ ∉ pastOf j new := by
  intro hread
  have hist : History app k.after new c.shared := by
    obtain ⟨s₀, -, hist⟩ := h.history
    rw [hsplit] at hist
    exact (System.History.split hist).2.2
  obtain ⟨before, after, sess, newer, between, rfl, hexec, hbetween, -⟩ := hist.seen hread
  obtain ⟨hcursor, rfl⟩ := done_of_read hexec
  have hwf := (h.recorded (e := k) ⟨_, hsplit.symm⟩).wellFormed_after
  obtain ⟨q, hq, hsame, -⟩ :=
    hbetween.instance_kept hwf hway.row fun e he => hkept e (by simp [he])
  have hnone := List.find?_eq_none.mp (Option.map_eq_none_iff.mp hcursor) q hq
  rw [decide_eq_true_eq] at hnone
  exact hnone hsame.handle

/-- **While the message is unread, every claim that is answered has succeeded.** -/
theorem OnItsWay.claim_succeeds (hq : q ∈ c.shared.db.participants) (hhandle : q.handle = p.handle)
    (hahead : q.lastReadSeq < m.seq) (hlog : pastOf j c.trace ⊆ pastOf j new)
    (hanswered : answeredClaim id p.handle c j = true) :
    ∃ e ∈ new, e.tid = j ∧ e.call.claims p.handle e.reply = true := by
  rw [answeredClaim, Bool.and_eq_true, decide_eq_true_eq, Option.map_eq_some_iff,
    Option.isSome_iff_exists] at hanswered
  obtain ⟨⟨t, ht, hreq⟩, a, ha⟩ := hanswered
  rw [ht, Option.bind_some] at ha
  have hconcl := (h.orderly.returned ht ha).2
  rw [hreq] at hconcl
  obtain ⟨past, hpast⟩ : ∃ past, pastOf j c.trace = past := ⟨_, rfl⟩
  rw [hpast] at hconcl hlog
  cases a with
  | error e => exact False.elim hconcl
  | ok answer =>
    cases answer with
    | claimed found =>
      cases found with
      | some m' =>
        obtain ⟨cursor, hswap⟩ :
            ∃ cursor, ⟨.advanceCursor m'.seq p.handle cursor, true⟩ ∈ past := by
          cases hconcl with
          | round _ => exact ⟨_, List.mem_cons_self⟩
        obtain ⟨e, he, htid, heq⟩ := mem_pastOf.mp (hlog hswap)
        have hsame := congrArg (fun x : Sigma Call.Reply => x.1.claims p.handle x.2) heq
        refine ⟨e, he, htid, hsame.trans ?_⟩
        simp [Call.claims]
      | none =>
        cases hconcl with
        | gone _ =>
          exact absurd (hlog List.mem_cons_self) (hway.not_gone h hsplit hkept)
        | caughtUp _ =>
          have hread := hlog (List.mem_cons_of_mem _ List.mem_cons_self)
          exact absurd (hlog List.mem_cons_self)
            (hway.not_empty h hsplit hkept hroom hq hhandle hahead hread)
    | _ => exact False.elim hconcl

end

/-- **The message is reached** by as many claims as its sequence number says. -/
theorem OnItsWay.reached (hway : OnItsWay id m k p) (h : Reachable app c')
    (hsplit : c'.trace = new ++ k :: older) (hkept : NotPruned new p.handle)
    (hroom : ∀ m ∈ deliveries p.handle (k :: older) new, m.roomId = id)
    (hlog : ∀ j ∈ arrivals c c', pastOf j c'.trace ⊆ pastOf j new)
    (hcount : m.seq + 1 ≤ claimsAnswered id p.handle c c') :
    m ∈ deliveries p.handle (k :: older) new := by
  obtain ⟨q, hq, hsame, -, htaken⟩ :=
    h.tracked_in_room hsplit hway.row hkept (hway.roomId ▸ hroom)
  rcases Nat.lt_or_ge q.lastReadSeq m.seq with hahead | hpassed
  · have hanswered : claimsAnswered id p.handle c c' ≤
        new.countP fun e => e.call.claims p.handle e.reply :=
      claimsAnswered_le fun j hj =>
        hway.claim_succeeds h hsplit hkept hroom hq hsame.handle hahead (hlog j hj)
    have hdelivered : new.countP (fun e => e.call.claims p.handle e.reply) ≤
        (deliveries p.handle (k :: older) new).length := h.claims_le_deliveries hsplit
    have hfew : (deliveries p.handle (k :: older) new).length ≤ m.seq := by
      rw [← List.length_reverse, htaken]
      exact deliveries_length_le h.wellFormed hahead
    omega
  · exact hway.delivered h hsplit hkept hroom hq hsame.handle hpassed

/-! ### One more claim -/

theorem arrivals_succ (hle : c.threads.length ≤ c'.threads.length) {c'' : Daemon}
    (hlength : c''.threads.length = c'.threads.length + 1) :
    arrivals c c'' = arrivals c c' ++ [c'.threads.length] := by
  have hmore : c''.threads.length - c.threads.length =
      c'.threads.length - c.threads.length + 1 := by omega
  rw [arrivals, hmore, List.range'_1_concat, arrivals]
  congr 2
  omega

/-- One claim more has been answered. -/
theorem claimsAnswered_succ (hle : c.threads.length ≤ c'.threads.length) {c'' : Daemon}
    (hlength : c''.threads.length = c'.threads.length + 1)
    (hothers : ∀ j < c'.threads.length, c''.threads[j]? = c'.threads[j]?)
    (hlast : answeredClaim id handle c'' c'.threads.length = true) :
    claimsAnswered id handle c c'' = claimsAnswered id handle c c' + 1 := by
  rw [claimsAnswered, arrivals_succ hle hlength, List.countP_append, List.countP_singleton,
    if_pos hlast, claimsAnswered]
  congr 1
  refine List.countP_congr fun j hj => ?_
  rw [answeredClaim, answeredClaim, hothers j (mem_arrivals.mp hj).2]

/-- What a claim of the inbox does leaves it undisturbed. -/
theorem Undisturbed.claim (h : Reachable app c') (hi : i ≠ j)
    (hsplit : c'.trace = new ++ tr) (htids : ∀ e ∈ new, e.tid = j)
    (hreq : c'.threads[j]?.map Thread.req = some (.claimNextUnread id handle))
    (hundisturbed : Undisturbed i id handle tr) : Undisturbed i id handle c'.trace := by
  have hthread : ∀ {e t}, e ∈ new → c'.threads[e.tid]? = some t →
      t.req = .claimNextUnread id handle := by
    intro e t he ht
    rw [htids e he] at ht
    rw [ht] at hreq
    exact Option.some_inj.mp hreq
  have hprunes : NotPruned new handle := by
    rintro e he ⟨p, -, -, hprunes⟩
    obtain ⟨older, hrec⟩ := h.recorded_of_mem (hsplit ▸ List.mem_append_left _ he)
    obtain ⟨t, ht, hdisc⟩ := hrec.disciplined
    have hclaim := hthread he ht
    obtain ⟨tid, call, reply, before, after⟩ := e
    cases call
    case pruneStaleParticipants =>
      rw [hclaim] at hdisc
      cases hdisc.1
    all_goals cases hprunes
  intro newer e older htr htid hcall
  rw [hsplit] at htr
  -- the look at the roster was not part of the claim
  obtain ⟨between, rfl, hold⟩ : ∃ between, newer = new ++ between ∧ tr = between ++ e :: older := by
    rcases List.append_eq_append_iff.mp htr with ⟨between, hnewer, hold⟩ | ⟨between, hnew, hold⟩
    · exact ⟨between, hnewer, hold⟩
    · cases between with
      | nil => exact ⟨[], by simpa using hnew.symm, hold.symm⟩
      | cons x between =>
        obtain ⟨rfl, -⟩ := List.cons_eq_cons.mp hold
        exact absurd (htid.symm.trans (htids _ (by simp [hnew]))) hi
  obtain ⟨hkept, hroom⟩ := hundisturbed between e older hold htid hcall
  refine ⟨fun x hx => ?_, fun m hm => ?_⟩
  · rcases List.mem_append.mp hx with hx | hx
    · exact hprunes x hx
    · exact hkept x hx
  · rw [deliveries_append] at hm
    rcases List.mem_append.mp hm with hm | hm
    · rw [hold] at hsplit
      obtain ⟨x, hx, log, t, id', cursor, ht, hclaiming⟩ := h.delivered_by hsplit hm
      obtain ⟨rest, -, hfor, -⟩ := hclaiming.log
      rw [hthread hx ht] at hfor
      rw [(Db.addressedTo_iff.mp hclaiming.spec.2.2).1]
      exact hfor.1.symm
    · exact hroom m hm

/-- **A claim can always be made**, and leaves the inbox undisturbed. -/
theorem Continues.claim (h₀ : Reachable app c) (hi : i < c.threads.length)
    (h : Continues app i id handle c c') : ∃ c'', Continues app i id handle c c'' ∧
      claimsAnswered id handle c c'' = claimsAnswered id handle c c' + 1 := by
  have hreach := h₀.run h.run
  have hle : c.threads.length ≤ c'.threads.length := by
    obtain ⟨t, ht⟩ : ∃ t, c.threads[c.threads.length - 1]? = some t :=
      ⟨_, List.getElem?_eq_getElem (show c.threads.length - 1 < c.threads.length by omega)⟩
    obtain ⟨t', ht', -⟩ := h.run.thread_persists ht
    have hlt := (List.getElem?_eq_some_iff.mp ht').choose
    omega
  obtain ⟨c'', new, hrun, hnew, htids, hlength, hreq, hreturned, hothers⟩ :=
    claim_served hreach id handle
  refine ⟨c'', ⟨h.run.trans hrun, ?_⟩, claimsAnswered_succ hle hlength hothers ?_⟩
  · exact h.undisturbed.claim (hreach.run hrun) (by omega) hnew htids hreq
  · rw [answeredClaim, hreq, hreturned]
    simp

/-- Any number of claims can be made. -/
theorem Continues.claims (h₀ : Reachable app c) (hi : i < c.threads.length)
    (hundisturbed : Undisturbed i id handle c.trace) (n : ℕ) :
    ∃ c', Continues app i id handle c c' ∧ n ≤ claimsAnswered id handle c c' := by
  induction n with
  | zero => exact ⟨c, ⟨.refl, hundisturbed⟩, Nat.zero_le _⟩
  | succ n ih =>
    obtain ⟨c', hcontinues, hle⟩ := ih
    obtain ⟨c'', hcontinues', heq⟩ := hcontinues.claim h₀ hi
    exact ⟨c'', hcontinues', by omega⟩

/-! ### A send with a recipient -/

/-- The log of a send shows its message inserted, and before that its recipient met. -/
theorem SentBy.cut {inst : String} {r : SendMessageRequest} {room : Room} {sender : Participant}
    {now : OffsetDateTime} (hsent : SentBy id inst r room sender now m (pastOf i tr))
    (hto : r.to_ = some handle) : ∃ late k mid l old participants,
      tr = late ++ k :: (mid ++ l :: old) ∧ k.tid = i ∧ l.tid = i ∧
        (⟨k.call, k.reply⟩ : Sigma Call.Reply) = ⟨.createMessageCapped id sender.handle (some handle)
          r.body now r.fromHuman room.config.hardCap.toNat, some m⟩ ∧
        (⟨l.call, l.reply⟩ : Sigma Call.Reply) = ⟨.listParticipants id, participants⟩ ∧
        (∃ p ∈ participants, p.handle = handle) ∧
        ∃ found, Identified id inst sender found ∧ found ⊆ pastOf i tr := by
  obtain ⟨past, hpast⟩ : ∃ past, pastOf i tr = past := ⟨_, rfl⟩
  rw [hpast] at hsent ⊢
  cases hsent with
  | @mk older revival haccepted _ =>
    cases haccepted with
    | @mk found known _ hfound hmet =>
      rw [hto] at hmet hpast
      cases hmet with
      | @met _ participants hp =>
        have hlog : pastOf i tr = (⟨.notify id, ()⟩ :: (revival ++
            [⟨.touchLastActivity id now, ()⟩, ⟨.clearExtendVote sender.handle, ()⟩,
              ⟨.setCloseVote sender.handle none, ()⟩])) ++
            ⟨.createMessageCapped id sender.handle (some handle) r.body now r.fromHuman
              room.config.hardCap.toNat, some m⟩ :: (⟨.nowUtc, now⟩ ::
                ⟨.listParticipants id, participants⟩ :: (found ++ [⟨.getRoom id, some room⟩])) := by
          rw [hpast]
          simp
        obtain ⟨late, k, rest, rfl, hk, hinsert, -, hrest⟩ := pastOf_split hlog
        obtain ⟨mid, l, old, rfl, hl, hlist, -, -⟩ :=
          pastOf_split (show pastOf i rest = [_] ++ _ :: _ from hrest)
        refine ⟨late, k, mid, l, old, participants, rfl, hk, hl, hinsert, hlist, hp, found, hfound,
          ?_⟩
        intro x hx
        simp [hx]

/-- What a send has inserted is its message. -/
theorem Recorded.inserted (h : Recorded app c k tr) {sender body : String}
    {recipient : Option String} {now : OffsetDateTime} {fromHuman : Bool} {cap : ℤ}
    (hinsert : (⟨k.call, k.reply⟩ : Sigma Call.Reply) =
      ⟨.createMessageCapped id sender recipient body now fromHuman cap, some m⟩) :
    m ∈ k.after.db.messages ∧ m.seq = k.before.db.nextSeq ∧ m.roomId = id ∧ m.sender = sender ∧
      m.recipient = recipient := by
  obtain ⟨sess, hexec⟩ := h.exec
  have heffect := h.effect.messages
  obtain ⟨tid, call, reply, before, after⟩ := k
  cases hinsert
  change Store.exec sess (.createMessageCapped id sender recipient body now fromHuman cap) before =
    .done (some m) after at hexec
  obtain ⟨hrow, -⟩ := landed_row hexec (m := m) rfl
  obtain ⟨hseq, -⟩ := landed_spec hexec (m := m) rfl
  have hm : m ∈ after.db.messages := by
    rw [show after.db.messages = before.db.messages ++ [m] from heffect]
    exact List.mem_append_right _ List.mem_cons_self
  obtain rfl := Option.some_inj.mp hrow
  exact ⟨hm, hseq, rfl, rfl, rfl⟩

/-- A message to a participant that was met and has stayed is on its way to it, unless
it is the participant's own. -/
theorem Reachable.onItsWay (h : Reachable app c) {l : Step} {late mid old : List Step}
    {sender body : String} {now : OffsetDateTime} {fromHuman : Bool} {cap : ℤ}
    {participants : List Participant} (hsplit : c.trace = late ++ k :: (mid ++ l :: old))
    (hinsert : (⟨k.call, k.reply⟩ : Sigma Call.Reply) =
      ⟨.createMessageCapped id sender (some handle) body now fromHuman cap, some m⟩)
    (hlist : (⟨l.call, l.reply⟩ : Sigma Call.Reply) = ⟨.listParticipants id, participants⟩)
    (hp : ∃ p ∈ participants, p.handle = handle) (hkept : NotPruned (late ++ k :: mid) handle)
    (hother : handle ≠ sender) : ∃ q, OnItsWay id m k q ∧ q.handle = handle := by
  have hsuf : k :: (mid ++ l :: old) <:+ c.trace := ⟨late, hsplit.symm⟩
  have hrec := h.recorded hsuf
  have hrec' : Recorded app c l old :=
    h.recorded (((List.suffix_append mid _).trans (List.suffix_cons k _)).trans hsuf)
  obtain ⟨hm, hseq, hroom, hsender, hrecipient⟩ := hrec.inserted hinsert
  obtain ⟨p, hmet, rfl⟩ := hp
  obtain ⟨hrow, hproom⟩ : p ∈ l.after.db.participants ∧ p.roomId = id := by
    obtain ⟨sess, hexec⟩ := hrec'.exec
    obtain ⟨tid, call, reply, before, after⟩ := l
    cases hlist
    change Store.exec sess (.listParticipants id) before = .done reply after at hexec
    obtain ⟨hread, rfl⟩ := done_of_read hexec
    rw [← hread] at hmet
    exact mem_listParticipants.mp hmet
  obtain ⟨q, hq, hsame, -⟩ := (h.history_between hsuf).instance_kept hrec'.wellFormed_after hrow
    fun e he => hkept e (by simp [he])
  have hkept' : ¬ Removes k q.handle := by
    rw [hsame.handle]
    exact hkept k (by simp)
  have hposted := h.cursorsPosted.before hsuf q hq
  refine ⟨_, ⟨hm, ?_, hrec.effect.kept hq hkept', ?_, ?_⟩, ?_⟩
  · rw [Call.onParticipant_handle, hsame.handle]
    exact Db.addressedTo_iff.mpr ⟨hroom, hsender.trans_ne hother.symm, .inr hrecipient⟩
  · rw [Call.onParticipant_roomId, hsame.roomId, hproom]
  · rw [Call.onParticipant_lastReadSeq, (Sigma.mk.inj hinsert).1, hseq]
    exact hposted
  · rw [Call.onParticipant_handle, hsame.handle]

/-- **When a message to a participant is no black hole**: let a send with a recipient have
been answered with success, and let the recipient's row be kept since the send met it
in the roster.  Then the recipient obtains the message exactly when it is not the
participant that the send acted as. -/
theorem no_black_hole_iff (h : Reachable app c) {t : Thread Call Call.Reply Request Outcome}
    (ht : c.threads[i]? = some t) {r : SendMessageRequest} (hreq : t.req = .sendMessage id r)
    (hto : r.to_ = some handle) {seq : ℕ} (hanswer : t.returned = some (.ok (.sent seq)))
    (hundisturbed : Undisturbed i id handle c.trace) : ∃ sender m,
      (∃ found, Identified id (effectiveInstance r.toCaller) sender found ∧
        found ⊆ pastOf i c.trace) ∧
      m ∈ c.shared.db.messages ∧ m.seq = seq ∧ m.sender = sender.handle ∧
        (Obtained app i id handle m c ↔ handle ≠ sender.handle) := by
  obtain ⟨room, sender, now, m, hseq, hsent⟩ := h.sending.returned ht hanswer id r seq hreq rfl
  obtain ⟨late, k, mid, l, old, participants, hsplit, -, hl, hinsert, hlist, hmet, hfound⟩ :=
    hsent.cut hto
  have hrec : Recorded app c k (mid ++ l :: old) := h.recorded ⟨late, hsplit.symm⟩
  obtain ⟨hm, -, -, hsender, -⟩ := hrec.inserted hinsert
  have hi : i < c.threads.length := (List.getElem?_eq_some_iff.mp ht).choose
  refine ⟨sender, m, hfound, hrec.later.messages.subset hm, hseq, hsender, ?_⟩
  constructor
  · rintro ⟨n, ⟨c', hcontinues, hcount⟩, hobtained⟩
    rw [← hsender]
    exact ((h.run hcontinues.run).sender_of_handedOut (hobtained c' hcontinues hcount)).symm
  · intro hother
    refine ⟨m.seq + 1, Continues.claims h hi hundisturbed _, fun c' hcontinues hcount => ?_⟩
    obtain ⟨new, hnew, -⟩ := hcontinues.run.history
    have hsplit' : c'.trace = (new ++ late) ++ k :: (mid ++ l :: old) := by
      rw [hnew, hsplit, List.append_assoc]
    have hlook : l.call = .listParticipants id := (Sigma.mk.inj hlist).1
    obtain ⟨hkept, hroom⟩ := hcontinues.undisturbed ((new ++ late) ++ k :: mid) l old
      (by rw [hsplit']; simp) hl hlook
    obtain ⟨q, hway, hhandle⟩ :=
      (h.run hcontinues.run).onItsWay hsplit' hinsert hlist hmet hkept hother
    subst hhandle
    have hdelivered : m ∈ deliveries q.handle (k :: (mid ++ l :: old)) (new ++ late) := by
      refine hway.reached (h.run hcontinues.run) hsplit' (fun e he => hkept e ?_) (fun m' hm' => ?_)
        (fun j hj => ?_) hcount
      · exact List.mem_append_left _ he
      · refine hroom m' ?_
        rw [deliveries_append]
        exact List.mem_append_left _ hm'
      · rw [hnew, pastOf_append, h.orderly.pastOf_eq_nil (mem_arrivals.mp hj).1, List.append_nil,
          pastOf_append]
        exact List.subset_append_left _ _
    exact (h.run hcontinues.run).handedOut hsplit' hdelivered

/-- Where nothing has been claimed and nobody pruned, nothing is disturbed. -/
theorem undisturbed_of_quiet (hquiet : ∀ e ∈ tr, (∀ p ∈ e.before.db.participants,
    p.handle = handle → e.call.prunes p = false) ∧ e.call.claims handle e.reply = false) :
    Undisturbed i id handle tr := by
  rintro newer e older rfl - -
  refine ⟨?_, fun m hm => ?_⟩
  · rintro x hx ⟨p, hp, hhandle, hprunes⟩
    rw [(hquiet x (List.mem_append_left _ hx)).1 p hp hhandle] at hprunes
    cases hprunes
  · obtain ⟨x, log, hsuf, hclaims, -⟩ := mem_deliveries hm
    rw [(hquiet x (List.mem_append_left _ (hsuf.mem List.mem_cons_self))).2] at hclaims
    cases hclaims

/-- Alice writes to bob. -/
def toBob : List Request := gather none [alice, bob] ++
  [.sendMessage demoRoom ⟨alice, some "web-opus-0002", "hello", false⟩]

/-- Bob can obtain what alice has written to him. -/
theorem no_black_hole_iff_toBob : ∃ m ∈ (demo toBob).shared.db.messages,
    m.seq = 1 ∧ Obtained .default 3 demoRoom "web-opus-0002" m (demo toBob) := by
  have hdemo :
      (demo toBob).threads[3]?.map Thread.req = some (.sendMessage demoRoom
        ⟨alice, some "web-opus-0002", "hello", false⟩) ∧
      (demo toBob).threads[3]?.bind Thread.returned = some (.ok (.sent 1)) ∧
      (∀ e ∈ (demo toBob).trace, (∀ p ∈ e.before.db.participants, p.handle = "web-opus-0002" →
        e.call.prunes p = false) ∧ e.call.claims "web-opus-0002" e.reply = false) ∧
      ∀ m ∈ (demo toBob).shared.db.messages, m.sender = "api-opus-0001" := by
    decide +kernel
  obtain ⟨hreq, hanswer, hquiet, hsenders⟩ := hdemo
  obtain ⟨t, ht, hreq⟩ := Option.map_eq_some_iff.mp hreq
  rw [ht, Option.bind_some] at hanswer
  obtain ⟨sender, m, -, hm, hseq, hsender, hiff⟩ := no_black_hole_iff (reachable_demo _) ht hreq rfl
    hanswer (undisturbed_of_quiet hquiet)
  refine ⟨m, hm, hseq, hiff.mpr ?_⟩
  rw [← hsender, hsenders m hm]
  decide

/-- Alice writes to herself. -/
def toAlice : List Request := gather none [alice] ++
  [.sendMessage demoRoom ⟨alice, some "api-opus-0001", "hello", false⟩]

/-- The message of a sender to itself is accepted, and never obtained. -/
theorem not_no_black_hole :
    ¬ ∀ (app : AppState) (c : Daemon) (i : ℕ) (id handle : String) (r : SendMessageRequest)
      (seq : ℕ) (t : Thread Call Call.Reply Request Outcome), Reachable app c →
      c.threads[i]? = some t → t.req = .sendMessage id r → r.to_ = some handle →
      t.returned = some (.ok (.sent seq)) → Undisturbed i id handle c.trace →
      ∃ m ∈ c.shared.db.messages, m.seq = seq ∧ Obtained app i id handle m c := by
  intro h
  have hdemo :
      (demo toAlice).threads[2]?.map Thread.req = some (.sendMessage demoRoom
        ⟨alice, some "api-opus-0001", "hello", false⟩) ∧
      (demo toAlice).threads[2]?.bind Thread.returned = some (.ok (.sent 1)) ∧
      (∀ e ∈ (demo toAlice).trace, (∀ p ∈ e.before.db.participants, p.handle = "api-opus-0001" →
        e.call.prunes p = false) ∧ e.call.claims "api-opus-0001" e.reply = false) ∧
      ∀ m ∈ (demo toAlice).shared.db.messages, m.sender = "api-opus-0001" := by
    decide +kernel
  obtain ⟨hreq, hanswer, hquiet, hsenders⟩ := hdemo
  obtain ⟨t, ht, hreq⟩ := Option.map_eq_some_iff.mp hreq
  rw [ht, Option.bind_some] at hanswer
  obtain ⟨m, hm, -, n, ⟨c', hcontinues, hcount⟩, hobtained⟩ :=
    h .default _ 2 demoRoom _ _ 1 t (reachable_demo toAlice) ht hreq rfl hanswer
      (undisturbed_of_quiet hquiet)
  have hreach := (reachable_demo toAlice).run hcontinues.run
  exact hreach.sender_of_handedOut (hobtained c' hcontinues hcount) (hsenders m hm)

end ChatBotChat
