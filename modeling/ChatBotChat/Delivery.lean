/-
Exactly-once, in-order delivery.

A claim reads the cursor of its participant, looks for the next unread message
and compare-and-swaps the cursor, in three calls between which anything may
happen.  What ties the messages delivered so far to the cursor is `Tracked`:
they are what a reader has taken of the inbox whose cursor went from where it
started to where it is.

* `exactly_once_delivery` — the deliveries of a participant that is not pruned
  are a prefix of its inbox, each claim answers with what it delivered, nobody
  answers with what it has not won (`Reachable.won`), and a
  claim is retried at most once for each rival that succeeds.
-/
import ChatBotChat.Cursors

namespace ChatBotChat

open Interleave

variable {app : AppState} {c₀ c : Daemon} {e : Step} {tr old new : List Step} {id handle : String}
  {p q : Participant}

/-! ### Deliveries -/

/-- The message that the last call of a log found. -/
def foundBy : Log → Option Message
  | ⟨.nextUnread _ _ _, m⟩ :: _ => m
  | _ => none

/-- The messages that the successful claims of `new` delivered to `handle`, newest
first; `old` was recorded before. -/
def deliveries (handle : String) (old : List Step) : List Step → List Message
  | [] => []
  | e :: new =>
    if e.call.claims handle e.reply then
      (foundBy (pastOf e.tid (new ++ old))).toList ++ deliveries handle old new
    else deliveries handle old new

/-- The claims made on their own for `handle` are for this room. -/
def ClaimsInRoom (c : Daemon) (id handle : String) : Prop :=
  ∀ t ∈ c.threads, ∀ id', t.req = .claimNextUnread id' handle → id' = id

/-- A claim made on its own. -/
def Request.isClaim : Request → Bool
  | .claimNextUnread _ _ => true
  | _ => false

theorem claimsInRoom_of_none (h : ∀ t ∈ c.threads, t.req.isClaim = false) :
    ClaimsInRoom c id handle := by
  intro t ht id' hreq
  have hnone := h t ht
  rw [hreq] at hnone
  cases hnone

/-! ### One call -/

theorem Call.claims_spec {c : Call} {r : c.Reply} (h : c.claims handle r = true) :
    ∃ seq cursor, c = .advanceCursor seq handle cursor ∧ r ≍ true := by
  cases c
  case advanceCursor seq handle' cursor =>
    rw [Call.claims, Bool.and_eq_true, decide_eq_true_eq] at h
    obtain ⟨rfl, rfl⟩ := h
    exact ⟨seq, cursor, rfl, HEq.rfl⟩
  all_goals cases h

theorem Call.landed_of_claims {c : Call} {r : c.Reply} (h : c.claims handle r = true) :
    c.landed r = none := by
  cases c
  case advanceCursor => rfl
  all_goals cases h

/-- A call that is no successful claim leaves the cursor where it is. -/
theorem Recorded.cursor_kept (h : Recorded app c e tr) (hq : q ∈ e.before.db.participants)
    (hclaims : e.call.claims q.handle e.reply = false) :
    e.call.cursorAfter q.handle q.lastReadSeq = q.lastReadSeq := by
  obtain ⟨sess, hexec⟩ := h.exec
  have hwf := h.wellFormed_before
  obtain ⟨tid, call, reply, before, after⟩ := e
  cases call
  case advanceCursor seq handle cursor =>
    dsimp only [Call.cursorAfter, Call.claims] at hclaims ⊢
    rw [if_neg]
    rintro ⟨hhandle, hcursor⟩
    have hwon : reply = true := (swap_spec hwf hexec).mpr ⟨q, hq, hhandle, hcursor⟩
    simp [hhandle, hwon] at hclaims
  all_goals rfl

/-- A successful claim moves the cursor to the message it found. -/
theorem Recorded.cursor_moved (h : Recorded app c e tr) (hq : q ∈ e.before.db.participants)
    (hclaims : e.call.claims q.handle e.reply = true) :
    ∃ t id m, c.threads[e.tid]? = some t ∧ Claiming e tr t.req id q.handle q.lastReadSeq m ∧
      e.call.cursorAfter q.handle q.lastReadSeq = m.seq := by
  obtain ⟨seq, cursor, hcall, hreply⟩ := Call.claims_spec hclaims
  obtain ⟨t, id, m, ht, hclaiming, rfl⟩ := h.claiming hcall
  obtain ⟨sess, hexec⟩ := h.exec
  have hwf := h.wellFormed_before
  obtain ⟨tid, call, reply, before, after⟩ := e
  dsimp only at hcall
  subst hcall
  obtain rfl := eq_of_heq hreply
  -- the row it matched is the only one of that handle
  obtain ⟨q', hq', hhandle, rfl⟩ := (swap_spec hwf hexec).mp rfl
  obtain rfl : q' = q := hwf.participant_unique hq' hq hhandle
  refine ⟨t, id, m, ht, hclaiming, ?_⟩
  rw [Call.cursorAfter, if_pos ⟨rfl, rfl⟩]

/-- A claim for `handle` is for the room of its row. -/
theorem Recorded.claim_room (h : Recorded app c e tr) (hq : q ∈ e.before.db.participants)
    (hkept : NotPruned c.trace q.handle) (hroom : ClaimsInRoom c q.roomId q.handle)
    {t : Thread Call Call.Reply Request Outcome} (ht : c.threads[e.tid]? = some t) {rest : Log}
    (hrest : rest ⊆ pastOf e.tid tr) (hfor : ClaimsFor t.req rest id q.handle) : id = q.roomId := by
  unfold ClaimsFor at hfor
  split at hfor
  · -- a wait resolved its caller in its room
    obtain ⟨rfl, hres⟩ := hfor
    obtain ⟨s₀, hboot, hist⟩ := h.history
    have hkept' : ∀ e' ∈ tr, ¬ Removes e' q.handle := fun e' he' =>
      hkept e' (h.suffix.subset (List.mem_cons_of_mem _ he'))
    obtain ⟨q', hq', hhandle, rfl⟩ :=
      hist.resolved_row (hboot.1 ▸ Db.wellFormed_empty) (hres.mono hrest) hkept'
    rw [h.wellFormed_before.participant_unique hq' hq hhandle]
  · rename_i hreq
    obtain ⟨rfl, rfl⟩ := hfor
    exact hroom t (List.mem_of_getElem? ht) _ hreq
  · exact hfor.elim

/-! ### The deliveries and the cursor -/

/-- The row of `p` is still there, and what has been delivered since is what lies
between its cursor then and its cursor now. -/
def Tracked (p : Participant) (old new : List Step) (s : Store) : Prop :=
  ∃ q ∈ s.db.participants, SameRow p q ∧ p.lastReadSeq ≤ q.lastReadSeq ∧
    (deliveries p.handle old new).reverse =
      Feed.taken Message.seq (Db.addressedTo p.roomId p.handle) p.lastReadSeq q.lastReadSeq
        s.db.messages

theorem deliveries_cons_of_claims {m : Message} {req : Request} {cursor : ℕ}
    (hclaims : e.call.claims handle e.reply = true)
    (hclaiming : Claiming e (new ++ old) req id handle cursor m) :
    deliveries handle old (e :: new) = m :: deliveries handle old new := by
  obtain ⟨rest, hlog, -⟩ := hclaiming.log
  rw [deliveries, if_pos hclaims, hlog]
  rfl

/-- What has been delivered was found by a claim that succeeded. -/
theorem mem_deliveries {m : Message} (hm : m ∈ deliveries handle old new) : ∃ e tr, e :: tr <:+ new ∧
    e.call.claims handle e.reply = true ∧ foundBy (pastOf e.tid (tr ++ old)) = some m := by
  induction new with
  | nil => simp [deliveries] at hm
  | cons e new ih =>
    have hlater : m ∈ deliveries handle old new → ∃ e' tr, e' :: tr <:+ e :: new ∧
        e'.call.claims handle e'.reply = true ∧ foundBy (pastOf e'.tid (tr ++ old)) = some m := by
      intro hm
      obtain ⟨e', tr, hsuf, hfound⟩ := ih hm
      exact ⟨e', tr, hsuf.trans (List.suffix_cons _ _), hfound⟩
    rw [deliveries] at hm
    split at hm
    · rename_i hclaims
      rcases List.mem_append.mp hm with hm | hm
      · exact ⟨e, new, List.suffix_rfl, hclaims, Option.mem_toList.mp hm⟩
      · exact hlater hm
    · exact hlater hm

/-- A claim that succeeded took what it had found. -/
theorem Recorded.claimed_by {m : Message} (h : Recorded app c e tr)
    (hclaims : e.call.claims handle e.reply = true) (hfound : foundBy (pastOf e.tid tr) = some m) : ∃ t id cursor,
      c.threads[e.tid]? = some t ∧ Claiming e tr t.req id handle cursor m := by
  obtain ⟨seq, cursor, hcall, -⟩ := Call.claims_spec hclaims
  obtain ⟨t, id, m', ht, hclaiming, -⟩ := h.claiming hcall
  obtain ⟨rest, hlog, -⟩ := hclaiming.log
  rw [hlog] at hfound
  obtain rfl : m' = m := Option.some_inj.mp hfound
  exact ⟨t, id, cursor, ht, hclaiming⟩

/-- **One call keeps the deliveries in step with the cursor**, if a claim it makes is
for the room of the row. -/
theorem Tracked.call_in_room (h : Recorded app c e (tr ++ old)) (hkept : ¬ Removes e p.handle)
    (hroom : e.call.claims p.handle e.reply = true → ∀ t id cursor m,
      c.threads[e.tid]? = some t → Claiming e (tr ++ old) t.req id p.handle cursor m →
        id = p.roomId)
    (hposted : CursorsPosted e.before) (ht : Tracked p old tr e.before) :
    Tracked p old (e :: tr) e.after := by
  obtain ⟨q, hq, hsame, hle, htaken⟩ := ht
  have hq' := h.effect.kept hq (hsame.handle ▸ hkept)
  have hsame' : SameRow p (e.call.onParticipant e.reply q) := by
    constructor
    · rw [Call.onParticipant_handle, hsame.handle]
    · rw [Call.onParticipant_roomId, hsame.roomId]
  refine ⟨_, hq', hsame', ?_⟩
  rw [Call.onParticipant_lastReadSeq]
  by_cases hclaims : e.call.claims q.handle e.reply = true
  · -- the claim takes exactly the next unread message
    obtain ⟨t, id, m, ht, hclaiming, hcursor⟩ := h.cursor_moved hq hclaims
    have hmessages : e.after.db.messages = e.before.db.messages := by
      rw [h.effect.messages, Call.landed_of_claims hclaims, Option.toList_none, List.append_nil]
    have hunread := hclaiming.unread
    rw [hsame.handle] at hclaims hclaiming
    obtain rfl := hroom hclaims t id _ m ht hclaiming
    rw [hsame.handle] at hunread
    have hlt : q.lastReadSeq < m.seq := hclaiming.spec.2.1
    rw [hcursor, hmessages, deliveries_cons_of_claims hclaims hclaiming, List.reverse_cons, htaken]
    exact ⟨by omega, (Feed.taken_next h.wellFormed_before.seqs hle hunread).symm⟩
  · -- the cursor stays, and what lands lies beyond it
    rw [Bool.not_eq_true] at hclaims
    rw [h.cursor_kept hq hclaims]
    rw [hsame.handle] at hclaims
    have hskip : deliveries p.handle old (e :: tr) = deliveries p.handle old tr := by
      rw [deliveries, hclaims]
      rfl
    refine ⟨hle, ?_⟩
    rw [hskip, htaken, h.effect.messages]
    refine (Feed.taken_append fun m hm => ?_).symm
    obtain ⟨sess, hexec⟩ := h.exec
    rw [(landed_spec hexec (Option.mem_toList.mp hm)).1]
    exact hposted q hq

/-- Where the row has never been pruned, every claim is for its room. -/
theorem Tracked.call (h : Recorded app c e (tr ++ old)) (hkept : NotPruned c.trace p.handle)
    (hroom : ClaimsInRoom c p.roomId p.handle) (hposted : CursorsPosted e.before)
    (ht : Tracked p old tr e.before) : Tracked p old (e :: tr) e.after := by
  have hrow : ∃ q ∈ e.before.db.participants, SameRow p q :=
    ht.imp fun q hq => ⟨hq.1, hq.2.1⟩
  obtain ⟨q, hq, hsame⟩ := hrow
  refine ht.call_in_room h (hkept e (h.suffix.mem List.mem_cons_self)) ?_ hposted
  intro _ t id cursor m hthread hclaiming
  obtain ⟨rest, hlog, hfor, -⟩ := hclaiming.log
  have hrest : rest ⊆ pastOf e.tid (tr ++ old) := by
    rw [hlog]
    exact List.subset_append_right [_, _] rest
  rw [← hsame.handle] at hkept hroom hfor
  rw [← hsame.roomId] at hroom ⊢
  exact h.claim_room hq hkept hroom hthread hrest hfor

/-- The deliveries stay in step with the cursor along a run. -/
theorem Reachable.tracked (h₀ : Reachable app c₀) (hrun : (daemon app).Run c₀ c)
    (hnew : c.trace = new ++ c₀.trace) (hp : p ∈ c₀.shared.db.participants)
    (hkept : NotPruned c.trace p.handle) (hroom : ClaimsInRoom c p.roomId p.handle) :
    Tracked p c₀.trace new c.shared := by
  have hposted := (h₀.run hrun).cursorsPosted
  refine h₀.induction_from hrun hnew ?_ ?_ ?_
  · exact ⟨p, hp, ⟨rfl, rfl⟩, le_rfl, Feed.taken_self.symm⟩
  · intro tr s₁ s₂ hdb _ _ _ ht
    rwa [Tracked, hdb]
  · intro e tr _ hrec ht
    exact ht.call hrec hkept hroom (hposted.before hrec.suffix)

/-! ### Retries -/

/-- The call lost the race for the cursor of `handle`. -/
def Call.loses (handle : String) : (c : Call) → c.Reply → Bool
  | .advanceCursor _ handle' _, claimed => handle = handle' && !claimed
  | _, _ => false

/-- How often request `i` lost the race for the cursor of `handle`, and tried again. -/
def retries (i : ℕ) (handle : String) (tr : List Step) : ℕ :=
  tr.countP fun e => e.tid = i && e.call.loses handle e.reply

/-- How many claims of other requests for `handle` succeeded. -/
def rivals (i : ℕ) (handle : String) (tr : List Step) : ℕ :=
  tr.countP fun e => e.tid ≠ i && e.call.claims handle e.reply

/-- Request `i` has read the cursor of `handle` and is about to compare-and-swap it. -/
def Pending (i : ℕ) (handle : String) (cursor : ℕ) (tr : List Step) : Prop :=
  ∃ rest, pastOf i tr = ⟨.readCursor handle, some cursor⟩ :: rest ∨
    ∃ id m, pastOf i tr = ⟨.nextUnread id handle cursor, m⟩ ::
      ⟨.readCursor handle, some cursor⟩ :: rest

/-- Since it read the cursor of `handle`, request `i` has lost no more races than
rivals won; and one less if the next one is lost already. -/
structure Paced (i : ℕ) (handle : String) (newer tr : List Step) (k : ℕ) : Prop where
  lost : retries i handle newer ≤ rivals i handle newer
  losing : ∀ cursor, Pending i handle cursor tr → cursor ≠ k →
    retries i handle newer < rivals i handle newer

theorem retries_cons (i : ℕ) (e : Step) : retries i handle (e :: tr) = retries i handle tr +
    if e.tid = i ∧ e.call.loses handle e.reply = true then 1 else 0 := by
  rw [retries, List.countP_cons]
  simp [retries]

theorem rivals_cons (i : ℕ) (e : Step) : rivals i handle (e :: tr) = rivals i handle tr +
    if e.tid ≠ i ∧ e.call.claims handle e.reply = true then 1 else 0 := by
  rw [rivals, List.countP_cons]
  simp [rivals]

/-- A pending read shows the cursor at its own instant. -/
theorem Recorded.pending_cons (h : Recorded app c e tr) {cursor : ℕ}
    (hq : q ∈ e.before.db.participants) (hpending : Pending e.tid q.handle cursor (e :: tr)) :
    cursor = q.lastReadSeq ∨
      (∃ id, e.call = .nextUnread id q.handle cursor) ∧ Pending e.tid q.handle cursor tr := by
  obtain ⟨rest, hread | ⟨id, m, hnext⟩⟩ := hpending
  · obtain ⟨hcall, -⟩ := List.cons_eq_cons.mp ((pastOf_cons_self e tr).symm.trans hread)
    obtain ⟨sess, hexec⟩ := h.exec
    have hwf := h.wellFormed_before
    obtain ⟨tid, call, reply, before, after⟩ := e
    cases hcall
    obtain ⟨hreply, -⟩ := done_of_read hexec
    -- the row of the handle is the one the read found
    obtain ⟨q', hfind, rfl⟩ := Option.map_eq_some_iff.mp hreply
    have hhandle : q'.handle = q.handle := by simpa using List.find?_some hfind
    rw [hwf.participant_unique (List.mem_of_find?_eq_some hfind) hq hhandle]
    exact .inl rfl
  · obtain ⟨hcall, hlog⟩ := List.cons_eq_cons.mp ((pastOf_cons_self e tr).symm.trans hnext)
    exact .inr ⟨⟨id, congrArg Sigma.fst hcall⟩, rest, .inl hlog⟩

theorem not_pending_of_swap {seq cursor cursor' : ℕ} {handle' : String}
    (hcall : e.call = .advanceCursor seq handle' cursor') :
    ¬ Pending e.tid handle cursor (e :: tr) := by
  obtain ⟨tid, call, reply, before, after⟩ := e
  cases hcall
  rintro ⟨rest, hlog | ⟨id, m, hlog⟩⟩ <;>
  · rw [pastOf_cons_self] at hlog
    cases hlog

theorem Call.loses_spec {c : Call} {r : c.Reply} (h : c.loses handle r = true) :
    ∃ seq cursor, c = .advanceCursor seq handle cursor ∧ r ≍ false := by
  cases c
  case advanceCursor seq handle' cursor =>
    rw [Call.loses, Bool.and_eq_true, decide_eq_true_eq, Bool.not_eq_true'] at h
    obtain ⟨rfl, rfl⟩ := h
    exact ⟨seq, cursor, rfl, HEq.rfl⟩
  all_goals cases h

/-- A race that is lost was lost already: the cursor read is not the cursor. -/
theorem Recorded.losing (h : Recorded app c e tr) (hq : q ∈ e.before.db.participants)
    (hloses : e.call.loses q.handle e.reply = true) :
    ∃ cursor, Pending e.tid q.handle cursor tr ∧ cursor ≠ q.lastReadSeq := by
  obtain ⟨seq, cursor, hcall, hreply⟩ := Call.loses_spec hloses
  obtain ⟨t, id, m, -, hclaiming, rfl⟩ := h.claiming hcall
  obtain ⟨rest, hlog, -⟩ := hclaiming.log
  refine ⟨cursor, ⟨rest, .inr ⟨id, some m, hlog⟩⟩, ?_⟩
  rintro rfl
  obtain ⟨sess, hexec⟩ := h.exec
  have hwf := h.wellFormed_before
  obtain ⟨tid, call, reply, before, after⟩ := e
  dsimp only at hcall
  subst hcall
  obtain rfl := eq_of_heq hreply
  have hwon := (swap_spec hwf hexec).mpr ⟨q, hq, rfl, rfl⟩
  cases hwon

/-- A call of another request: either it wins the race, or it leaves the cursor. -/
theorem Paced.other {i : ℕ} {newer : List Step} (h : Recorded app c e tr) (hi : e.tid ≠ i)
    (hq : q ∈ e.before.db.participants) (hpaced : Paced i q.handle newer tr q.lastReadSeq) :
    Paced i q.handle (e :: newer) (e :: tr) (e.call.cursorAfter q.handle q.lastReadSeq) := by
  have hretries : retries i q.handle (e :: newer) = retries i q.handle newer := by
    simp [retries_cons, hi]
  by_cases hclaims : e.call.claims q.handle e.reply = true
  · have hrivals : rivals i q.handle (e :: newer) = rivals i q.handle newer + 1 := by
      simp [rivals_cons, hi, hclaims]
    have hlost := hpaced.lost
    constructor
    · rw [hretries, hrivals]
      omega
    · intro cursor _ _
      rw [hretries, hrivals]
      omega
  · have hrivals : rivals i q.handle (e :: newer) = rivals i q.handle newer := by
      simp [rivals_cons, hclaims]
    rw [Bool.not_eq_true] at hclaims
    rw [h.cursor_kept hq hclaims]
    constructor
    · rw [hretries, hrivals]
      exact hpaced.lost
    · intro cursor hpending hne
      rw [hretries, hrivals]
      rw [Pending, pastOf_cons_of_ne hi] at hpending
      exact hpaced.losing cursor hpending hne

/-- A call of the request itself: a race is lost only to a rival that has won one
since the cursor was read. -/
theorem Paced.own {newer : List Step} (h : Recorded app c e tr)
    (hq : q ∈ e.before.db.participants) (hpaced : Paced e.tid q.handle newer tr q.lastReadSeq) :
    Paced e.tid q.handle (e :: newer) (e :: tr)
      (e.call.cursorAfter q.handle q.lastReadSeq) := by
  have hrivals : rivals e.tid q.handle (e :: newer) = rivals e.tid q.handle newer := by
    simp [rivals_cons]
  by_cases hloses : e.call.loses q.handle e.reply = true
  · have hretries : retries e.tid q.handle (e :: newer) = retries e.tid q.handle newer + 1 := by
      simp [retries_cons, hloses]
    obtain ⟨cursor, hpending, hne⟩ := h.losing hq hloses
    have hlt := hpaced.losing cursor hpending hne
    obtain ⟨seq, cursor, hcall, -⟩ := Call.loses_spec hloses
    constructor
    · rw [hretries, hrivals]
      omega
    · intro cursor' hpending'
      exact absurd hpending' (not_pending_of_swap hcall)
  · have hretries : retries e.tid q.handle (e :: newer) = retries e.tid q.handle newer := by
      simp [retries_cons, hloses]
    constructor
    · rw [hretries, hrivals]
      exact hpaced.lost
    · intro cursor hpending hne
      rw [hretries, hrivals]
      by_cases hclaims : e.call.claims q.handle e.reply = true
      · obtain ⟨seq, cursor', hcall, -⟩ := Call.claims_spec hclaims
        exact absurd hpending (not_pending_of_swap hcall)
      · rw [Bool.not_eq_true] at hclaims
        rw [h.cursor_kept hq hclaims] at hne
        rcases h.pending_cons hq hpending with heq | ⟨-, hpending'⟩
        · exact absurd heq hne
        · exact hpaced.losing cursor hpending' hne

/-- Every request that has read the cursor of `p` since `old` is paced. -/
def AllPaced (p : Participant) (old new : List Step) (s : Store) : Prop :=
  ∃ q ∈ s.db.participants, q.handle = p.handle ∧
    ∀ newer e older, new = newer ++ e :: older → e.call = .readCursor p.handle →
      Paced e.tid p.handle newer (new ++ old) q.lastReadSeq

theorem AllPaced.call (h : Recorded app c e (tr ++ old)) (hkept : NotPruned c.trace p.handle)
    (hpaced : AllPaced p old tr e.before) : AllPaced p old (e :: tr) e.after := by
  obtain ⟨q, hq, hhandle, hpaced⟩ := hpaced
  have hkept' : ¬ Removes e q.handle := hhandle ▸ hkept e (h.suffix.mem List.mem_cons_self)
  refine ⟨_, h.effect.kept hq hkept', ?_, ?_⟩
  · rw [Call.onParticipant_handle, hhandle]
  rw [Call.onParticipant_lastReadSeq]
  intro newer e' older hsplit hread
  cases newer with
  | nil =>
    -- the read itself: it shows the cursor as it is
    obtain ⟨rfl, rfl⟩ := List.cons_eq_cons.mp hsplit
    refine ⟨le_rfl, fun cursor hpending hne => ?_⟩
    have hsame : e.call.cursorAfter q.handle q.lastReadSeq = q.lastReadSeq := by
      rw [hread]
      rfl
    rw [hsame] at hne
    rw [← hhandle] at hpending hread
    rcases h.pending_cons hq hpending with heq | ⟨⟨id, hcall⟩, -⟩
    · exact absurd heq hne
    · exact absurd (hread.symm.trans hcall) (by simp)
  | cons x newer =>
    obtain ⟨rfl, hsplit'⟩ := List.cons_eq_cons.mp hsplit
    have hp := hpaced newer e' older hsplit' hread
    rw [← hhandle] at hp ⊢
    by_cases hi : e.tid = e'.tid
    · rw [← hi] at hp ⊢
      exact hp.own h hq
    · exact hp.other h hi hq

/-- A claim is retried at most once for each rival that succeeds. -/
theorem Reachable.allPaced (h₀ : Reachable app c₀) (hrun : (daemon app).Run c₀ c)
    (hnew : c.trace = new ++ c₀.trace) (hp : p ∈ c₀.shared.db.participants)
    (hkept : NotPruned c.trace p.handle) : AllPaced p c₀.trace new c.shared := by
  refine h₀.induction_from hrun hnew ?_ ?_ ?_
  · exact ⟨p, hp, rfl, fun newer e older hsplit => absurd hsplit (by simp)⟩
  · intro tr s₁ s₂ hdb _ _ _ hpaced
    rwa [AllPaced, hdb]
  · intro e tr _ hrec hpaced
    exact hpaced.call hrec hkept

/-! ### Answers -/

/-- The answer hands `m` to the caller. -/
def Carries (a : Outcome) (m : Message) : Prop :=
  a = .ok (.claimed (some m)) ∨ ∃ surfaceToUser retryAfter roomState,
    a = .ok (.waited (.message (messageView m) surfaceToUser retryAfter roomState))

/-- In a log with one delivery, what its claim found is what it delivered. -/
theorem foundBy_of_delivered {m : Message} {newer claim rest later older : Log} {handle' : String}
    {seq cursor : ℕ} (hclaim : Delivered id handle m claim) (hnewer : Undelivered newer)
    (hrest : Undelivered rest)
    (hsplit : newer ++ (claim ++ rest) = later ++ ⟨.advanceCursor seq handle' cursor, true⟩ ::
      older) : foundBy older = some m := by
  obtain ⟨htries⟩ := hclaim
  rename_i tries cursor'
  have hund : Undelivered (⟨.nextUnread id handle cursor', some m⟩ ::
      ⟨.readCursor handle, some cursor'⟩ :: (tries ++ rest)) :=
    ((htries.undelivered.append hrest).cons (by simp)).cons (by simp)
  obtain ⟨-, -, hlog⟩ := (List.append_cons_inj_of_notMem (hnewer _ _ _) (hund _ _ _)).mp hsplit
  rw [← hlog]
  rfl

theorem WaitAnswered.carries {m : Message} {later older : Log} {seq cursor : ℕ} {a : Outcome}
    {handle' : String}
    (h : WaitAnswered id (later ++ ⟨.advanceCursor seq handle' cursor, true⟩ :: older) a)
    (hfound : foundBy older = some m) : Carries a m := by
  have hmem : ⟨.advanceCursor seq handle' cursor, true⟩ ∈
      later ++ ⟨.advanceCursor seq handle' cursor, true⟩ :: older :=
    List.mem_append_right _ List.mem_cons_self
  unfold WaitAnswered at h
  split at h
  · obtain ⟨handle, m', newer, claim, rest, hsplit, hclaim, hnewer, hrest, -, rfl, -⟩ := h
    have hfound' := foundBy_of_delivered hclaim hnewer hrest hsplit.symm
    obtain rfl : m' = m := Option.some_inj.mp (hfound'.symm.trans hfound)
    exact .inr ⟨_, _, _, rfl⟩
  · exact absurd hmem (h _ _ _)
  · exact h.elim
  · exact absurd hmem (h _ _ _)

theorem ClaimAnswered.carries {m : Message} {later older : Log} {seq cursor : ℕ} {a : Outcome}
    {handle' : String}
    (h : ClaimAnswered id handle (later ++ ⟨.advanceCursor seq handle' cursor, true⟩ :: older) a)
    (hfound : foundBy older = some m) : Carries a m := by
  have hmem : ⟨.advanceCursor seq handle' cursor, true⟩ ∈
      later ++ ⟨.advanceCursor seq handle' cursor, true⟩ :: older :=
    List.mem_append_right _ List.mem_cons_self
  unfold ClaimAnswered at h
  split at h
  · exact absurd hmem (h.undelivered _ _ _)
  · rename_i m'
    have hsplit : [] ++ (later ++ ⟨.advanceCursor seq handle' cursor, true⟩ :: older ++ []) =
        later ++ ⟨.advanceCursor seq handle' cursor, true⟩ :: older := by simp
    have hfound' := foundBy_of_delivered h .nil .nil hsplit
    obtain rfl : m' = m := Option.some_inj.mp (hfound'.symm.trans hfound)
    exact .inl rfl
  · exact h.elim

/-- A request that has delivered a message answers with it, if it answers. -/
theorem Reachable.carries (h : Reachable app c) (hsuf : e :: tr <:+ c.trace)
    (hclaims : e.call.claims handle e.reply = true) :
    ∃ m, foundBy (pastOf e.tid tr) = some m ∧
      ∀ a, c.threads[e.tid]?.bind Thread.returned = some a → Carries a m := by
  have hrec := h.recorded hsuf
  obtain ⟨seq, cursor, hcall, hreply⟩ := Call.claims_spec hclaims
  obtain ⟨t, id, m, ht, hclaiming, rfl⟩ := hrec.claiming hcall
  obtain ⟨rest, hlog, hfor, -⟩ := hclaiming.log
  refine ⟨m, by rw [hlog]; rfl, fun a ha => ?_⟩
  rw [ht] at ha
  have hconcl := (h.orderly.returned ht ha).2
  -- the log of the request is cut at its compare-and-swap
  obtain ⟨newer, htr⟩ := hsuf
  have hpast : pastOf e.tid c.trace = pastOf e.tid newer ++
      ⟨.advanceCursor m.seq handle cursor, true⟩ :: pastOf e.tid tr := by
    rw [← htr, pastOf_append, pastOf_cons_self]
    obtain ⟨tid, call, reply, before, after⟩ := e
    dsimp only at hcall hreply ⊢
    subst hcall
    rw [eq_of_heq hreply]
  rw [hpast] at hconcl
  have hfound : foundBy (pastOf e.tid tr) = some m := by
    rw [hlog]
    rfl
  unfold ClaimsFor at hfor
  split at hfor
  · rename_i hreq
    rw [hreq] at hconcl
    exact WaitAnswered.carries hconcl hfound
  · rename_i hreq
    rw [hreq] at hconcl
    exact ClaimAnswered.carries hconcl hfound
  · exact hfor.elim

/-- A claim for `handle` has delivered `m`, and its request answers with `m`, if it
answers. -/
def HandedOut (c : Daemon) (handle : String) (m : Message) : Prop :=
  ∃ e older, e :: older <:+ c.trace ∧ e.call.claims handle e.reply = true ∧
    foundBy (pastOf e.tid older) = some m ∧
      ∀ a, c.threads[e.tid]?.bind Thread.returned = some a → Carries a m

/-- What has been delivered has been handed out. -/
theorem Reachable.handedOut (h : Reachable app c) (hnew : c.trace = new ++ old) {m : Message}
    (hm : m ∈ deliveries handle old new) : HandedOut c handle m := by
  obtain ⟨e, tr, ⟨newer, hsplit⟩, hclaims, hfound⟩ := mem_deliveries hm
  have hsuf : e :: (tr ++ old) <:+ c.trace := ⟨newer, by simp [hnew, ← hsplit]⟩
  obtain ⟨m', hfound', hcarries⟩ := h.carries hsuf hclaims
  obtain rfl := Option.some_inj.mp (hfound.symm.trans hfound')
  exact ⟨e, tr ++ old, hsuf, hclaims, hfound, hcarries⟩

theorem HandedOut.mem {m : Message} (hm : HandedOut c handle m) (h : Reachable app c) :
    m ∈ c.shared.db.messages := by
  obtain ⟨e, tr, hsuf, hclaims, hfound, -⟩ := hm
  have hrec := h.recorded hsuf
  obtain ⟨t, id, cursor, -, hclaiming⟩ := hrec.claimed_by hclaims hfound
  obtain ⟨sess, hexec⟩ := hrec.exec
  refine hrec.later.messages.subset ?_
  rw [hrec.effect.messages]
  exact List.mem_append_left _ hclaiming.spec.1

/-- The request claims from an inbox. -/
def Request.claims : Request → Bool
  | .waitRoom _ _ | .claimNextUnread _ _ => true
  | _ => false

/-- The answer may have a message. -/
def Answer.hands : Answer → Bool
  | .claimed _ | .waited _ => true
  | _ => false

theorem Carries.hands {answer : Answer} {m : Message} (h : Carries (.ok answer) m) :
    answer.hands = true := by
  rcases h with h | ⟨_, _, _, h⟩ <;> cases h <;> rfl

/-- Nobody else is answered with a message. -/
theorem serve_carries (app : AppState) (req : Request) :
    (serve app req).Upholds (fun _ _ => True) [] fun _ a => ∀ m, Carries a m → req.claims = true := by
  have hanswering : ∀ {α : Type} {f : α → Answer} {handler : Task (Except ApiError α)},
      (∀ x, (f x).hands = false) → (answering f handler).Upholds (fun _ _ => True) []
        fun _ a => ∀ m, Carries a m → req.claims = true := by
    intro α f handler hnever
    refine upholds_answering.mpr (Prog.upholds_of_forall (fun _ _ => trivial) ?_)
    rintro past (e | x) m hcarries
    · rcases hcarries with h | ⟨_, _, _, h⟩ <;> cases h
    · exact absurd hcarries.hands (Bool.eq_false_iff.mp (hnever x))
  cases req with
  | waitRoom id r => exact Prog.upholds_of_forall (fun _ _ => trivial) fun _ _ _ _ => rfl
  | claimNextUnread id handle =>
    exact Prog.upholds_of_forall (fun _ _ => trivial) fun _ _ _ _ => rfl
  | sweep =>
    refine .bind (Prog.upholds_of_forall (fun _ _ => trivial) fun past outcomes m hcarries => ?_)
    exact absurd hcarries.hands Bool.false_ne_true
  | openRoom r => exact hanswering fun _ => rfl
  | listRooms state all => exact hanswering fun _ => rfl
  | joinRoom id r => exact hanswering fun _ => rfl
  | sendMessage id r => exact hanswering fun _ => rfl
  | signalRoom id r => exact hanswering fun _ => rfl
  | closeRoom id r => exact hanswering fun _ => rfl
  | extendRoom id r => exact hanswering fun _ => rfl
  | pauseRoom id r => exact hanswering fun _ => rfl
  | wakeRoom id r => exact hanswering fun _ => rfl
  | pruneRoom id => exact hanswering fun _ => rfl

theorem Reachable.carried (h : Reachable app c) :
    System.Upheld (fun _ _ _ => True) (fun req _ a => ∀ m, Carries a m → req.claims = true) c := by
  obtain ⟨utc, instant, hrun⟩ := h
  have hbody : ∀ req, ((daemon app).body req).Upholds (fun _ _ => True) []
      fun _ a => ∀ m, Carries a m → req.claims = true := serve_carries app
  exact hrun.upheld hbody

/-- The log ends in a claim of the request's own that delivered `m`, and the answer has it. -/
theorem Conclusion.delivered {m : Message} {req : Request} {past : Log} {a : Outcome}
    (h : Conclusion req past a) (hreq : req.claims = true) (hcarries : Carries a m) :
    ∃ id handle m' newer claim rest, past = newer ++ (claim ++ rest) ∧
      Delivered id handle m' claim ∧ ClaimsFor req rest id handle ∧ Carries a m' ∧
        m'.seq = m.seq := by
  obtain ⟨-, hconcl⟩ := h
  cases req
  case waitRoom id r =>
    rcases hcarries with rfl | ⟨surface, retry, state, rfl⟩
    · exact hconcl.elim
    · obtain ⟨handle, m', newer, claim, rest, rfl, hclaim, -, -, hres, hview, -⟩ := hconcl
      refine ⟨id, handle, m', newer, claim, rest, rfl, hclaim, ⟨rfl, hres⟩, ?_, ?_⟩
      · rw [hview]
        exact .inr ⟨_, _, _, rfl⟩
      · exact (congrArg MessageView.seq hview).symm
  case claimNextUnread id handle =>
    rcases hcarries with rfl | ⟨surface, retry, state, rfl⟩
    · have hclaim : Delivered id handle m past := hconcl
      exact ⟨id, handle, m, [], past, [], by simp, hclaim, ⟨rfl, rfl⟩, .inl rfl, rfl⟩
    · exact hconcl.elim
  all_goals cases hreq

theorem ClaimsFor.mono {req : Request} {past past' : Log} (h : ClaimsFor req past id handle)
    (hsub : past ⊆ past') : ClaimsFor req past' id handle := by
  unfold ClaimsFor at h ⊢
  split at h
  · exact ⟨h.1, h.2.mono hsub⟩
  · exact h
  · exact h.elim

/-- **A message that was answered was won**: the request that answers with it has itself
found it and moved the cursor to it. -/
theorem Reachable.won (h : Reachable app c) {i : ℕ} {t : Thread Call Call.Reply Request Outcome}
    {a : Outcome} {m : Message} (ht : c.threads[i]? = some t) (ha : t.returned = some a)
    (hcarries : Carries a m) : ∃ e older id handle m', e :: older <:+ c.trace ∧ e.tid = i ∧
      ClaimsFor t.req (pastOf i older) id handle ∧ e.call.claims handle e.reply = true ∧
        foundBy (pastOf i older) = some m' ∧ Carries a m' ∧ m'.seq = m.seq := by
  have hreq := h.carried.returned ht ha m hcarries
  obtain ⟨id, handle, m', newer, claim, rest, hpast, hclaim, hfor, hcarries', hseq⟩ :=
    (h.orderly.returned ht ha).delivered hreq hcarries
  obtain ⟨-⟩ := hclaim
  rename_i tries cursor
  obtain ⟨tr₂, e, tr₁, htr, rfl, hx, -, hown⟩ := pastOf_split hpast
  refine ⟨e, tr₁, id, handle, m', ⟨tr₂, htr.symm⟩, rfl, ?_, ?_, ?_, hcarries', hseq⟩
  · rw [hown]
    exact hfor.mono (List.subset_append_right (_ :: _ :: tries) rest)
  · obtain ⟨tid, call, reply, before, after⟩ := e
    cases hx
    simp [Call.claims]
  · rw [hown]
    rfl

/-! ### Exactly once, in order -/

theorem Carries.seq_eq {a : Outcome} {m m' : Message} (h : Carries a m) (h' : Carries a m') :
    m.seq = m'.seq := by
  rcases h with rfl | ⟨_, _, _, rfl⟩ <;> rcases h' with h' | ⟨_, _, _, h'⟩
  · cases h'
    rfl
  · cases h'
  · cases h'
  · exact congrArg MessageView.seq (WaitResponse.message.inj (Answer.waited.inj (Except.ok.inj h'))).1

/-- A claim that succeeded has delivered what it found. -/
theorem mem_deliveries_of_claims {m : Message} (hclaims : e.call.claims handle e.reply = true)
    (hfound : foundBy (pastOf e.tid (tr ++ old)) = some m) :
    m ∈ deliveries handle old (e :: tr) := by
  rw [deliveries, if_pos hclaims, hfound]
  exact List.mem_cons_self

theorem deliveries_suffix (hsuf : tr <:+ new) : deliveries handle old tr <:+ deliveries handle old new := by
  obtain ⟨newer, rfl⟩ := hsuf
  induction newer with
  | nil => exact List.suffix_rfl
  | cons e newer ih =>
    rw [List.cons_append, deliveries]
    split
    · exact ih.trans (List.suffix_append _ _)
    · exact ih

/-- Of two claims that succeeded, one before the other, the later one has delivered another
message. -/
theorem seq_ne_of_later {e' : Step} {tr' : List Step} {m m' : Message}
    (honce : ((deliveries handle old new).map Message.seq).Nodup) (hsuf : e :: tr <:+ new)
    (hlater : e' :: tr' <:+ tr) (hclaims : e.call.claims handle e.reply = true)
    (hclaims' : e'.call.claims handle e'.reply = true)
    (hfound : foundBy (pastOf e.tid (tr ++ old)) = some m)
    (hfound' : foundBy (pastOf e'.tid (tr' ++ old)) = some m') : m.seq ≠ m'.seq := by
  have hnodup := honce.sublist ((deliveries_suffix hsuf).sublist.map Message.seq)
  rw [deliveries, if_pos hclaims, hfound, Option.toList_some, List.singleton_append, List.map_cons,
    List.nodup_cons] at hnodup
  intro heq
  have hmem := (deliveries_suffix hlater).subset (mem_deliveries_of_claims hclaims' hfound')
  exact hnodup.1 (heq ▸ List.mem_map_of_mem hmem)

/-- Request `i` is answered with `m`, and has claimed for `handle` in `tr`. -/
def AnsweredWith (c : Daemon) (handle : String) (tr : List Step) (i : ℕ) (m : Message) : Prop :=
  (∃ a, c.threads[i]?.bind Thread.returned = some a ∧ Carries a m) ∧
    ∃ e older, e :: older <:+ tr ∧ e.tid = i ∧ e.call.claims handle e.reply = true

/-- What has been delivered to `p` between `c₀` and `c`, and at what cost. -/
structure ExactlyOnce (p : Participant) (c₀ c : Daemon) (new : List Step) : Prop where
  /-- Nothing is skipped and nothing is out of order. -/
  inOrder : (deliveries p.handle c₀.trace new).reverse <+:
    c.shared.db.inbox p.roomId p.handle p.lastReadSeq
  once : ((deliveries p.handle c₀.trace new).map Message.seq).Nodup
  cursor : ∃ q ∈ c.shared.db.participants, SameRow p q ∧ p.lastReadSeq ≤ q.lastReadSeq
  answers : ∀ e older, e :: older <:+ new → e.call.claims p.handle e.reply = true →
    ∃ m, foundBy (pastOf e.tid (older ++ c₀.trace)) = some m ∧
      ∀ a, c.threads[e.tid]?.bind Thread.returned = some a → Carries a m
  /-- What a request is answered with, it has won by a claim of its own. -/
  won : ∀ i t a m, c.threads[i]? = some t → t.returned = some a → Carries a m →
    ∃ e older id handle m', e :: older <:+ c.trace ∧ e.tid = i ∧
      ClaimsFor t.req (pastOf i older) id handle ∧ e.call.claims handle e.reply = true ∧
        foundBy (pastOf i older) = some m' ∧ Carries a m' ∧ m'.seq = m.seq
  /-- No two requests are answered with the same message. -/
  distinct : ∀ i j m m', AnsweredWith c p.handle new i m → AnsweredWith c p.handle new j m' →
    m.seq = m'.seq → i = j
  retries : ∀ newer e older, new = newer ++ e :: older → e.call = .readCursor p.handle →
    retries e.tid p.handle newer ≤ rivals e.tid p.handle newer

/-- **Exactly-once, in-order delivery.**  From any point of any run on, and as
long as the row of `p` is not pruned: what the successful claims deliver to `p`,
in the order of their compare-and-swaps, is a prefix of its inbox after its
cursor; no message is delivered twice; the cursor does not decrease; each claim
answers with what it delivered, and nobody answers with anything else, so that no
two answers have the same message; and since it read the cursor, a claim has lost
the race at most once for each rival that won it. -/
theorem exactly_once_delivery (h₀ : Reachable app c₀) (hrun : (daemon app).Run c₀ c)
    (hnew : c.trace = new ++ c₀.trace) (hp : p ∈ c₀.shared.db.participants)
    (hkept : NotPruned c.trace p.handle) (hroom : ClaimsInRoom c p.roomId p.handle) :
    ExactlyOnce p c₀ c new := by
  have h := h₀.run hrun
  obtain ⟨q, hq, hsame, hle, htaken⟩ := h₀.tracked hrun hnew hp hkept hroom
  obtain ⟨_, _, _, hpaced⟩ := h₀.allPaced hrun hnew hp hkept
  have hsorted := h.wellFormed.seqs
  have honce : ((deliveries p.handle c₀.trace new).map Message.seq).Nodup := by
    -- what has been taken is in increasing order
    have hincreasing := Feed.sorted_taken (Db.addressedTo p.roomId p.handle) p.lastReadSeq
      q.lastReadSeq hsorted
    rw [← htaken, List.map_reverse] at hincreasing
    exact List.nodup_reverse.mp (hincreasing.imp Nat.ne_of_lt)
  have hanswers : ∀ e older, e :: older <:+ new → e.call.claims p.handle e.reply = true →
      ∃ m, foundBy (pastOf e.tid (older ++ c₀.trace)) = some m ∧
        ∀ a, c.threads[e.tid]?.bind Thread.returned = some a → Carries a m := by
    intro e older hsuf hclaims
    refine h.carries ?_ hclaims
    obtain ⟨newer, hsplit⟩ := hsuf
    exact ⟨newer, by rw [hnew, ← hsplit, List.append_assoc, List.cons_append]⟩
  constructor
  case inOrder =>
    rw [htaken]
    exact Feed.taken_prefix hsorted
  case once => exact honce
  case cursor => exact ⟨q, hq, hsame, hle⟩
  case answers => exact hanswers
  case won => exact fun i t a m ht ha hcarries => h.won ht ha hcarries
  case distinct =>
    rintro i j m m' ⟨⟨a, ha, hm⟩, e, older, hsuf, rfl, hclaims⟩
      ⟨⟨b, hb, hm'⟩, e', older', hsuf', rfl, hclaims'⟩ hseq
    obtain ⟨m₁, hfound, hcarries⟩ := hanswers e older hsuf hclaims
    obtain ⟨m₂, hfound', hcarries'⟩ := hanswers e' older' hsuf' hclaims'
    have heq : m₁.seq = m₂.seq :=
      ((hcarries a ha).seq_eq hm).trans (hseq.trans (hm'.seq_eq (hcarries' b hb)))
    -- one of the two claims is the other, or came before it
    rcases List.suffix_or_suffix_of_suffix hsuf hsuf' with hone | hone
    · rcases List.suffix_cons_iff.mp hone with hsame | hlater
      · rw [(List.cons_eq_cons.mp hsame).1]
      · exact absurd heq.symm (seq_ne_of_later honce hsuf' hlater hclaims' hclaims hfound' hfound)
    · rcases List.suffix_cons_iff.mp hone with hsame | hlater
      · rw [(List.cons_eq_cons.mp hsame).1]
      · exact absurd heq (seq_ne_of_later honce hsuf hlater hclaims hclaims' hfound hfound')
  case retries =>
    intro newer e older hsplit hread
    exact (hpaced newer e older hsplit hread).lost

/-- Alice writes to bob, who waits. -/
def greeting : List Request :=
  [.sendMessage demoRoom ⟨alice, none, "hello", false⟩, .waitRoom demoRoom ⟨bob, none⟩]

/-- The row of bob when both have joined. -/
def bobJoined : Participant :=
  ⟨"web-opus-0002", demoRoom, "web", "opus", "/web", "bob", 0, 0, 0, none, none, none⟩

theorem exactly_once_delivery_greeting : ∃ new,
    (demo (gather none [alice, bob] ++ greeting)).trace =
      new ++ (demo (gather none [alice, bob])).trace ∧
    ExactlyOnce bobJoined (demo (gather none [alice, bob]))
      (demo (gather none [alice, bob] ++ greeting)) new := by
  have hrun : (daemon .default).Run (demo (gather none [alice, bob]))
      (demo (gather none [alice, bob] ++ greeting)) := run_demo_append _ _
  have hp : bobJoined ∈ (demo (gather none [alice, bob])).shared.db.participants := by
    decide +kernel
  have hkept : NotPruned (demo (gather none [alice, bob] ++ greeting)).trace bobJoined.handle := by
    decide +kernel
  have hroom : ClaimsInRoom (demo (gather none [alice, bob] ++ greeting)) bobJoined.roomId
      bobJoined.handle := claimsInRoom_of_none (by decide +kernel)
  obtain ⟨new, hnew, -⟩ := hrun.history
  exact ⟨new, hnew, exactly_once_delivery (reachable_demo _) hrun hnew hp hkept hroom⟩

end ChatBotChat
