/-
The context of a join and the inbox behind it.

A join that answers has taken its cursor from a row (`Reachable.join_cursor`):
from one it read, or from the one it minted.  From that call on the deliveries to
the participant are what lies between this cursor and the one there is
(`Tracked`), and no message lands at or before it any more
(`History.landed_later`).  So the cursor cuts the log in two: the window that the
join answers with, and what only a wait delivers.
-/
import ChatBotChat.Joining
import ChatBotChat.Delivery

namespace ChatBotChat

open Interleave

variable {app : AppState} {c₁ c : Daemon} {e k : Step} {new older tr : List Step} {s s' : Store}
  {id inst handle : String} {p q : Participant} {i cursor : ℕ}

/-! ### The row a join takes its cursor from -/

/-- `k` is a call of request `i`, and then `p` is the row of `handle` in the room,
and at the cursor. -/
structure TookCursor (i : ℕ) (id handle : String) (cursor : ℕ) (k : Step) (p : Participant) :
    Prop where
  tid : k.tid = i
  row : p ∈ k.after.db.participants
  handle : p.handle = handle
  roomId : p.roomId = id
  cursor : p.lastReadSeq = cursor

/-- A join that found its participant has taken the cursor it read. -/
theorem tookCursor_of_read (id : String) (hist : History app s tr s') {k : Call} {r : k.Reply}
    (hread : ⟨k, r⟩ ∈ pastOf i tr)
    (hrow : ∀ {before after : Store} {sess}, Store.exec sess k before = .done r after →
      p ∈ after.db.participants ∧ p.roomId = id) :
    ∃ newer e older, tr = newer ++ e :: older ∧ TookCursor i id p.handle p.lastReadSeq e p := by
  obtain ⟨before, after, sess, newer, older, hsplit, hexec, -⟩ := hist.seen hread
  obtain ⟨hp, hroom⟩ := hrow hexec
  exact ⟨newer, ⟨i, k, r, before, after⟩, older, hsplit, rfl, hp, rfl, hroom, rfl⟩

theorem row_of_byInstance {sess : List UInt16}
    (h : Store.exec sess (.getParticipantByInstance id inst) s = .done (some p) s') :
    p ∈ s'.db.participants ∧ p.roomId = id ∧ p.inst = inst := by
  obtain ⟨hfind, rfl⟩ := done_of_read h
  exact Db.getParticipantByInstance_spec hfind

theorem row_of_byHandle {sess : List UInt16}
    (h : Store.exec sess (.getParticipantByHandle id handle) s = .done (some p) s') :
    p ∈ s'.db.participants ∧ p.roomId = id := by
  obtain ⟨hfind, rfl⟩ := done_of_read h
  obtain ⟨hp, hroom, -⟩ := Db.getParticipantByHandle_spec hfind
  exact ⟨hp, hroom⟩

/-- A join that met its participant in the roster finds the row when it looks for
the cursor, if no prune came between. -/
theorem tookCursor_of_reused (hist : History app s tr s') (hwf : s.db.WellFormed)
    {row : Option Participant} {roster : List Participant} {newer older : Log}
    (hpast : pastOf i tr = ⟨.getParticipantByInstance id inst, row⟩ ::
      (newer ++ ⟨.listParticipants id, roster⟩ :: older))
    (hq : q ∈ roster) (hinst : q.inst = inst) (hkept : NotPruned tr q.handle) :
    ∃ newer e older p, tr = newer ++ e :: older ∧ row = some p ∧
      TookCursor i id q.handle p.lastReadSeq e p := by
  obtain ⟨tr₂, k, tr₁, rfl, rfl, hk, -, hold⟩ := pastOf_cons_split hpast
  obtain ⟨hbefore, ⟨sess, hexec⟩, -⟩ := System.History.split hist
  have hwf' := History.wellFormed hbefore hwf
  -- the row of the roster is there still
  have hroster : ⟨.listParticipants id, roster⟩ ∈ pastOf k.tid tr₁ := by
    rw [hold]
    simp
  obtain ⟨before, after, sess', between, first, hsplit, hlist, hfirst, hbetween⟩ :=
    History.seen hbefore hroster
  obtain ⟨hmembers, rfl⟩ := done_of_read hlist
  rw [← hmembers] at hq
  obtain ⟨hrow, hroom⟩ := mem_listParticipants.mp hq
  have hstays : ∀ x ∈ between, ¬ Removes x q.handle := by
    intro x hx
    refine hkept x (List.mem_append_right _ (List.mem_cons_of_mem _ ?_))
    rw [hsplit]
    exact List.mem_append_left _ hx
  obtain ⟨q', hq', hsame, hinst'⟩ := hbetween.instance_kept (hfirst.wellFormed hwf) hrow hstays
  obtain ⟨tid, call, reply, before', after'⟩ := k
  cases hk
  change Store.exec sess (.getParticipantByInstance id inst) before' = .done reply after' at hexec
  cases reply with
  | none =>
    obtain ⟨hnobody, -⟩ := done_of_read hexec
    exact absurd ⟨hsame.roomId.trans hroom, hinst'.trans hinst⟩
      (Db.getParticipantByInstance_eq_none.mp hnobody q' hq')
  | some p =>
    obtain ⟨hp, hproom, hpinst⟩ := row_of_byInstance hexec
    obtain ⟨-, rfl⟩ := done_of_read hexec
    -- instances are unique
    have heq : p = q' := by
      refine List.inj_on_of_nodup_map hwf'.instances hp hq' ?_
      rw [hproom, hpinst, hsame.roomId, hinst', hroom, hinst]
    refine ⟨tr₂, _, tr₁, p, rfl, rfl, rfl, hp, ?_, hproom, rfl⟩
    rw [heq, hsame.handle]

/-- **A join that answers has taken its cursor from its row.** -/
theorem Recorded.join_cursor (h : Recorded app c e tr) {resumed : Bool}
    (hattached : Attached id inst handle resumed cursor (pastOf i tr))
    (hkept : NotPruned tr handle) :
    ∃ newer k older p, tr = newer ++ k :: older ∧ TookCursor i id handle cursor k p := by
  obtain ⟨s₀, hboot, hist⟩ := h.history
  have hwf : s₀.db.WellFormed := hboot.1 ▸ Db.wellFormed_empty
  generalize hpast : pastOf i tr = past at hattached
  cases hattached with
  | @found p past hread _ =>
    rw [← hpast] at hread
    rcases hread with hread | hread
    · obtain ⟨newer, k, older, hsplit, htook⟩ := tookCursor_of_read id hist hread
        fun hexec => ⟨(row_of_byInstance hexec).1, (row_of_byInstance hexec).2.1⟩
      exact ⟨newer, k, older, p, hsplit, htook⟩
    · obtain ⟨newer, k, older, hsplit, htook⟩ := tookCursor_of_read id hist hread
        fun hexec => row_of_byHandle hexec
      exact ⟨newer, k, older, p, hsplit, htook⟩
  | reused hq hinst _ =>
    obtain ⟨newer, k, older, p, hsplit, rfl, htook⟩ :=
      tookCursor_of_reused hist hwf hpast hq hinst hkept
    exact ⟨newer, k, older, p, hsplit, htook⟩
  | @minted p older hroom _ _ =>
    have hread : ⟨.createParticipant p, .inserted⟩ ∈ pastOf i tr := by
      rw [hpast]
      exact List.mem_cons_self
    obtain ⟨newer, k, older, hsplit, htook⟩ := tookCursor_of_read id hist hread
      fun hexec => ⟨(effect_of_exec hexec).mem_participants.mpr (.inr rfl), hroom⟩
    exact ⟨newer, k, older, p, hsplit, htook⟩

/-! ### What lands later -/

/-- What lands later lands behind all that was there. -/
theorem History.landed_later (h : History app s tr s') (hwf : s.db.WellFormed) :
    ∃ landed, s'.db.messages = s.db.messages ++ landed ∧ ∀ m ∈ landed, s.db.nextSeq ≤ m.seq := by
  refine History.induction hwf (P := fun _ s' => ∃ landed,
    s'.db.messages = s.db.messages ++ landed ∧ ∀ m ∈ landed, s.db.nextSeq ≤ m.seq)
    ⟨[], by simp⟩ ?_ ?_ h List.suffix_rfl
  · rintro tr' s₁ s₂ _ hdb _ _ _ hlanded
    rwa [hdb]
  · rintro e tr' sess _ hexec _ _ ⟨landed, hmessages, hlater⟩
    refine ⟨landed ++ (e.call.landed e.reply).toList, ?_, fun m hm => ?_⟩
    · rw [(effect_of_exec hexec).messages, hmessages, List.append_assoc]
    · rcases List.mem_append.mp hm with hm | hm
      · exact hlater m hm
      · rw [(landed_spec hexec (Option.mem_toList.mp hm)).1]
        exact Db.nextSeq_mono (hmessages ▸ List.prefix_append _ _)

/-- The window up to a posted cursor stays what it is. -/
theorem History.window_kept (h : History app s tr s') (hwf : s.db.WellFormed)
    (hposted : cursor < s.db.nextSeq) (limit : ℕ) :
    s'.db.recentMessagesUpTo id cursor limit = s.db.recentMessagesUpTo id cursor limit := by
  obtain ⟨landed, hmessages, hlater⟩ := h.landed_later hwf
  have hnone : landed.filter (fun m => m.roomId = id && m.seq ≤ cursor) = [] := by
    rw [List.filter_eq_nil_iff]
    intro m hm
    have hle := hlater m hm
    rw [Bool.and_eq_true, decide_eq_true_eq, decide_eq_true_eq]
    omega
  rw [Db.recentMessagesUpTo, hmessages, List.filter_append, hnone, List.append_nil]
  rfl

/-! ### Deliveries from a call on -/

theorem deliveries_append (handle : String) (old mid new : List Step) :
    deliveries handle old (new ++ mid) =
      deliveries handle (mid ++ old) new ++ deliveries handle old mid := by
  induction new with
  | nil => rfl
  | cons e new ih =>
    rw [List.cons_append, deliveries, deliveries, ih, List.append_assoc]
    split
    · rw [List.append_assoc]
    · rfl

/-- From any call on, what is delivered to a participant is what lies between its
cursor then and its cursor now. -/
theorem Reachable.tracked_after (h : Reachable app c) {newer : List Step}
    (hsplit : c.trace = newer ++ k :: older) (hp : p ∈ k.after.db.participants)
    (hkept : NotPruned c.trace p.handle) (hroom : ClaimsInRoom c p.roomId p.handle) :
    Tracked p (k :: older) newer c.shared := by
  refine h.induction_after hsplit ?_ ?_ ?_
  · exact ⟨p, hp, ⟨rfl, rfl⟩, le_rfl, Feed.taken_self.symm⟩
  · intro tr s₁ s₂ hdb _ _ _ ht
    rwa [Tracked, hdb]
  · intro e tr _ hrec ht
    exact ht.call hrec hkept hroom (h.cursorsPosted.before hrec.suffix)

/-! ### The partition -/

/-- A cursor that cuts the log between the context of a join and the inbox: `c₁` is
where join `i` has been answered, and `new` is what has been called since. -/
structure Partition (i : ℕ) (id handle : String) (recent : List MessageView) (c₁ c : Daemon)
    (new : List Step) (cursor : ℕ) : Prop where
  /-- The context is the last rows up to the cursor, in order. -/
  context : recent = ((c.shared.db.messages.filter fun m => m.roomId = id && m.seq ≤ cursor).rtake
    50).map messageView
  ascending : (recent.map MessageView.seq).Pairwise (· < ·)
  /-- What is delivered after the join lies behind the cursor. -/
  behind : ∀ m ∈ deliveries handle c₁.trace new, cursor < m.seq ∧ HandedOut c handle m
  /-- What lies behind the cursor was delivered while the join ran or after it, or can
  be claimed. -/
  ahead : ∃ q ∈ c.shared.db.participants, q.handle = handle ∧ q.roomId = id ∧
    ∃ newer older, c.trace = newer ++ older ∧ (∃ e ∈ older, e.tid = i) ∧
      ∀ m ∈ c.shared.db.messages, cursor < m.seq → Db.addressedTo id handle m = true →
        (m ∈ deliveries handle older newer ∧ HandedOut c handle m) ∨
          m ∈ c.shared.db.inbox id handle q.lastReadSeq

/-- **The context of a join and the inbox partition the log**: however the join came
by its participant, and whatever was sent and claimed meanwhile. -/
theorem join_partitions (h₁ : Reachable app c₁) {t : Thread Call Call.Reply Request Outcome}
    (ht : c₁.threads[i]? = some t) {r : JoinRoomRequest} (hreq : t.req = .joinRoom id r)
    {response : JoinRoomResponse} (hanswer : t.returned = some (.ok (.joined response)))
    (hrun : (daemon app).Run c₁ c) (hnew : c.trace = new ++ c₁.trace)
    (hkept : NotPruned c.trace response.handle) (hroom : ClaimsInRoom c id response.handle) :
    ∃ cursor, Partition i id response.handle response.recentMessages c₁ c new cursor := by
  have hreach := h₁.run hrun
  obtain ⟨cursor, msgs, logged, hpast, hattached, hrecent⟩ :=
    h₁.joining.returned ht hanswer id r hreq
  -- the window is the last call of the join, and the cursor was taken before
  obtain ⟨b, e, a, htrace, rfl, hlast, -, hlogged⟩ := pastOf_cons_split hpast
  have hsplit : c.trace = (new ++ b) ++ e :: a := by
    rw [hnew, htrace, List.append_assoc]
  have hrec := hreach.recorded (show e :: a <:+ c.trace from ⟨new ++ b, hsplit.symm⟩)
  have hkept' : NotPruned a response.handle := fun x hx =>
    hkept x (hrec.suffix.subset (List.mem_cons_of_mem _ hx))
  rw [← hlogged] at hattached
  obtain ⟨a₂, k, a₁, p, hsplit', htook⟩ := hrec.join_cursor hattached hkept'
  have hsplit'' : c.trace = (new ++ (b ++ e :: a₂)) ++ k :: a₁ := by
    rw [hsplit, hsplit']
    simp
  have hposted : cursor < k.after.db.nextSeq := by
    rw [← htook.cursor]
    exact hreach.cursorsPosted.after ⟨_, hsplit''.symm⟩ p htook.row
  obtain ⟨q, hq, hsame, hle, htaken⟩ := hreach.tracked_after hsplit'' htook.row
    (htook.handle ▸ hkept) (htook.roomId ▸ htook.handle ▸ hroom)
  rw [htook.handle, htook.roomId, htook.cursor] at htaken
  have hsorted := hreach.wellFormed.seqs
  have hwindow : msgs = c.shared.db.recentMessagesUpTo id cursor RECENT_MESSAGE_LIMIT := by
    have hwf := (hreach.recorded (e := k) ⟨_, hsplit''.symm⟩).wellFormed_after
    have hbetween : History app k.after a₂ e.before :=
      hreach.history_between (hsplit' ▸ hrec.suffix)
    obtain ⟨s₀, -, hist⟩ := hreach.history
    rw [hsplit''] at hist
    have hlater := (System.History.split hist).2.2
    rw [History.window_kept hlater hwf hposted, ← hbetween.window_kept hwf hposted]
    obtain ⟨sess, hexec⟩ := hrec.exec
    obtain ⟨tid, call, reply, before, after⟩ := e
    cases hlast
    exact (done_of_read hexec).1.symm
  have htaken' : ∀ m ∈ deliveries response.handle (k :: a₁) (new ++ (b ++ e :: a₂)),
      cursor < m.seq := by
    intro m hm
    rw [← List.mem_reverse, htaken] at hm
    exact (Feed.mem_taken.mp hm).2.1
  refine ⟨cursor, ?_, ?_, ?_, ?_⟩
  case refine_1 =>
    rw [hrecent, hwindow]
    rfl
  case refine_2 =>
    have hseqs : response.recentMessages.map MessageView.seq = msgs.map Message.seq := by
      rw [hrecent, List.map_map]
      rfl
    have hsub : msgs.Sublist c.shared.db.messages := by
      rw [hwindow]
      exact (List.drop_sublist _ _).trans List.filter_sublist
    rw [hseqs]
    exact hsorted.sublist (hsub.map _)
  case refine_3 =>
    intro m hm
    refine ⟨htaken' m ?_, hreach.handedOut hnew hm⟩
    rw [deliveries_append]
    refine List.mem_append_left _ ?_
    rwa [htrace, hsplit', ← List.cons_append, ← List.append_assoc] at hm
  case refine_4 =>
    refine ⟨q, hq, hsame.handle.trans htook.handle, hsame.roomId.trans htook.roomId, _, _, hsplit'',
      ⟨k, List.mem_cons_self, htook.tid⟩, fun m hm hlt hto => ?_⟩
    by_cases hseq : m.seq ≤ q.lastReadSeq
    · have hdelivered : m ∈ deliveries response.handle (k :: a₁) (new ++ (b ++ e :: a₂)) := by
        rw [← List.mem_reverse, htaken]
        exact Feed.mem_taken.mpr ⟨hm, hlt, hto, hseq⟩
      exact .inl ⟨hdelivered, hreach.handedOut hsplit'' hdelivered⟩
    · exact .inr (Feed.mem_unread.mpr ⟨hm, by omega, hto⟩)

/-- Bob has read one message of alice's, she has written another, and he joins again. -/
def rejoined : List Request :=
  gather none [alice, bob] ++ greeting ++
    [.sendMessage demoRoom ⟨alice, none, "more", false⟩, .joinRoom demoRoom ⟨bob, none⟩]

/-- He is shown the first message, and his next wait brings the second. -/
theorem join_partitions_rejoined : ∃ response new cursor,
    joinResponseOf (demo rejoined) 6 = some response ∧
    Partition 6 demoRoom response.handle response.recentMessages (demo rejoined)
      (demo (rejoined ++ [.waitRoom demoRoom ⟨bob, none⟩])) new cursor := by
  have hrun : (daemon .default).Run (demo rejoined)
      (demo (rejoined ++ [.waitRoom demoRoom ⟨bob, none⟩])) := run_demo_append _ _
  obtain ⟨new, hnew, -⟩ := hrun.history
  obtain ⟨response, hresponse, hhandle⟩ : ∃ response,
      joinResponseOf (demo rejoined) 6 = some response ∧ response.handle = bobJoined.handle :=
    Option.map_eq_some_iff.mp (by decide +kernel)
  obtain ⟨t, ht, hreturned⟩ := Option.bind_eq_some_iff.mp (joinResponseOf_eq_some.mp hresponse)
  have hreq : t.req = .joinRoom demoRoom ⟨bob, none⟩ := by
    have hreqs : (demo rejoined).threads[6]?.map Thread.req = some (.joinRoom demoRoom ⟨bob, none⟩) := by
      decide +kernel
    rw [ht] at hreqs
    exact Option.some_inj.mp hreqs
  have hkept : NotPruned (demo (rejoined ++ [.waitRoom demoRoom ⟨bob, none⟩])).trace
      response.handle := by
    rw [hhandle]
    decide +kernel
  have hroom : ClaimsInRoom (demo (rejoined ++ [.waitRoom demoRoom ⟨bob, none⟩])) demoRoom
      response.handle := claimsInRoom_of_none (by decide +kernel)
  obtain ⟨cursor, hpartition⟩ := join_partitions (reachable_demo _) ht hreq hreturned hrun hnew hkept
    hroom
  exact ⟨response, new, cursor, hresponse, hpartition⟩

end ChatBotChat
