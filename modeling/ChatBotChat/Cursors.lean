/-
Participants and their read cursors along a run.

* `Reachable.induction_upto` — induction along the end of a reachable run;
* `History.row_kept` — the row of a handle that no prune removes stays, and its
  cursor never decreases;
* `Reachable.cursorsPosted` — a cursor never points beyond the messages;
* `swap_spec` — a compare-and-swap of a cursor succeeds exactly where the cursor
  is the one it expects;
* `claimed_message` — what a claim delivers is the next unread message at the
  instant of its compare-and-swap, however old its read is.
-/
import ChatBotChat.Reach
import ChatBotChat.Feed

namespace ChatBotChat

open Interleave

variable {s s' : Store} {sess : List UInt16} {c : Call} {r : c.Reply} {req : Request}
  {past : Log} {app : AppState} {tr : List Step} {id handle : String}

/-! ### The end of a run -/

/-- **Induction along the end of a reachable run**, up to any point of it. -/
theorem Reachable.induction_upto {c₀ c : Daemon} (h₀ : Reachable app c₀)
    (hrun : (daemon app).Run c₀ c) {new : List Step} (hnew : c.trace = new ++ c₀.trace)
    {P : List Step → Store → Prop} (hstart : P [] c₀.shared)
    (htick : ∀ {tr s₁ s₂}, s₂.db = s₁.db → s₂.hub = s₁.hub → s₁.utc ≤ s₂.utc →
      s₁.instant ≤ s₂.instant → P tr s₁ → P tr s₂)
    (hcall : ∀ {e tr}, e :: tr <:+ new → Recorded app c e (tr ++ c₀.trace) → P tr e.before →
      P (e :: tr) e.after) (hist : History app c₀.shared tr s) (hsuf : tr <:+ new) : P tr s := by
  refine History.induction h₀.wellFormed hstart
    (fun _ hdb hhub hutc hinstant => htick hdb hhub hutc hinstant) ?_ hist hsuf
  intro e tr sess hsuf _ _ _ hP
  have hsuf' : e :: (tr ++ c₀.trace) <:+ c.trace := by
    obtain ⟨newer, htr⟩ := hsuf
    exact ⟨newer, by rw [hnew, ← htr, List.append_assoc, List.cons_append]⟩
  exact hcall hsuf ((h₀.run hrun).recorded hsuf') hP

/-- Induction along the end of a reachable run. -/
theorem Reachable.induction_from {c₀ c : Daemon} (h₀ : Reachable app c₀)
    (hrun : (daemon app).Run c₀ c) {new : List Step} (hnew : c.trace = new ++ c₀.trace)
    {P : List Step → Store → Prop} (hstart : P [] c₀.shared)
    (htick : ∀ {tr s₁ s₂}, s₂.db = s₁.db → s₂.hub = s₁.hub → s₁.utc ≤ s₂.utc →
      s₁.instant ≤ s₂.instant → P tr s₁ → P tr s₂)
    (hcall : ∀ {e tr}, e :: tr <:+ new → Recorded app c e (tr ++ c₀.trace) → P tr e.before →
      P (e :: tr) e.after) : P new c.shared :=
  h₀.induction_upto hrun hnew hstart htick hcall (hrun.history_of_eq hnew) List.suffix_rfl

/-- **Induction from a recorded call on**, up to any later point of the run. -/
theorem Reachable.induction_since {c : Daemon} (h : Reachable app c) {e : Step}
    {newer older : List Step} (hsuf : newer ++ e :: older <:+ c.trace)
    (hist : History app e.after newer s) {P : List Step → Store → Prop} (hstart : P [] e.after)
    (htick : ∀ {tr s₁ s₂}, s₂.db = s₁.db → s₂.hub = s₁.hub → s₁.utc ≤ s₂.utc →
      s₁.instant ≤ s₂.instant → P tr s₁ → P tr s₂)
    (hcall : ∀ {e' tr}, e' :: tr <:+ newer → Recorded app c e' (tr ++ e :: older) →
      P tr e'.before → P (e' :: tr) e'.after) : P newer s := by
  have hrec := h.recorded (e := e) ((List.suffix_append newer _).trans hsuf)
  refine History.induction hrec.wellFormed_after hstart
    (fun _ hdb hhub hutc hinstant => htick hdb hhub hutc hinstant) ?_ hist List.suffix_rfl
  intro e' tr sess hsuf' _ _ _ hP
  have hlonger : e' :: (tr ++ e :: older) <:+ newer ++ e :: older := by
    obtain ⟨latest, htr⟩ := hsuf'
    exact ⟨latest, by rw [← htr, List.append_assoc, List.cons_append]⟩
  exact hcall hsuf' (h.recorded (hlonger.trans hsuf)) hP

/-- Induction from a recorded call to the end of the run. -/
theorem Reachable.induction_after {c : Daemon} (h : Reachable app c) {e : Step}
    {newer older : List Step} (hsplit : c.trace = newer ++ e :: older)
    {P : List Step → Store → Prop} (hstart : P [] e.after)
    (htick : ∀ {tr s₁ s₂}, s₂.db = s₁.db → s₂.hub = s₁.hub → s₁.utc ≤ s₂.utc →
      s₁.instant ≤ s₂.instant → P tr s₁ → P tr s₂)
    (hcall : ∀ {e' tr}, e' :: tr <:+ newer → Recorded app c e' (tr ++ e :: older) →
      P tr e'.before → P (e' :: tr) e'.after) : P newer c.shared := by
  obtain ⟨s₀, -, hist⟩ := h.history
  have hsuf : newer ++ e :: older <:+ c.trace := hsplit ▸ List.suffix_rfl
  rw [hsplit] at hist
  exact h.induction_since hsuf (System.History.split hist).2.2 hstart htick hcall

/-- What lies between two recorded calls is a history. -/
theorem Reachable.history_between {c : Daemon} (h : Reachable app c) {e k : Step}
    {between older : List Step} (hsuf : k :: (between ++ e :: older) <:+ c.trace) :
    History app e.after between k.before := by
  obtain ⟨s₀, -, hist⟩ := (h.recorded hsuf).history
  exact (System.History.split hist).2.2

/-! ### What becomes of a cursor -/

/-- The cursor a call leaves a participant with. -/
def Call.cursorAfter : Call → String → ℕ → ℕ
  | .advanceCursor seq handle' cursor, handle, k =>
    if handle = handle' ∧ k = cursor then seq else k
  | _, _, k => k

/-- The call moved the cursor of `handle`. -/
def Call.claims (handle : String) : (c : Call) → c.Reply → Bool
  | .advanceCursor _ handle' _, claimed => handle = handle' && claimed
  | _, _ => false

@[simp] theorem Call.onParticipant_lastReadSeq (p : Participant) :
    (c.onParticipant r p).lastReadSeq = c.cursorAfter p.handle p.lastReadSeq := by
  cases c
  case tryExtend =>
    cases r <;> simp only [onParticipant, cursorAfter] <;> split_ifs <;> rfl
  case advanceCursor seq handle cursor =>
    simp only [onParticipant, cursorAfter, Db.atCursor, Bool.and_eq_true, decide_eq_true_eq]
    split <;> rfl
  all_goals
    simp only [onParticipant, cursorAfter]
    try split
  all_goals rfl

/-- A compare-and-swap succeeds exactly where the row of the handle has the
cursor it expects. -/
theorem swap_spec (hwf : s.db.WellFormed) {seq cursor : ℕ} {claimed : Bool}
    (h : Store.exec sess (.advanceCursor seq handle cursor) s = .done claimed s') :
    claimed = true ↔ ∃ p ∈ s.db.participants, p.handle = handle ∧ p.lastReadSeq = cursor := by
  have hreply : claimed = (s.db.participants.countP (Db.atCursor handle cursor) == 1) := by
    cases h
    rfl
  have hmatch : ∀ p : Participant,
      Db.atCursor handle cursor p = true ↔ p.handle = handle ∧ p.lastReadSeq = cursor := by
    intro p
    simp [Db.atCursor]
  -- handles are unique, so that at most one row matches
  have hone : s.db.participants.countP (Db.atCursor handle cursor) ≤ 1 := by
    have hnodup := List.nodup_iff_count_le_one.mp hwf.handles handle
    rw [List.count, List.countP_map] at hnodup
    refine le_trans (List.countP_mono_left fun p _ hp => ?_) hnodup
    simpa using ((hmatch p).mp hp).1
  have hpos : 0 < s.db.participants.countP (Db.atCursor handle cursor) ↔
      ∃ p ∈ s.db.participants, p.handle = handle ∧ p.lastReadSeq = cursor := by
    rw [List.countP_pos_iff]
    exact exists_congr fun p => and_congr_right fun _ => hmatch p
  rw [hreply, beq_iff_eq, ← hpos]
  omega

/-! ### Rows that stay -/

/-- The call deleted the row of `handle`. -/
def Removes (e : Step) (handle : String) : Prop :=
  ∃ p ∈ e.before.db.participants, p.handle = handle ∧ e.call.prunes p = true

/-- No prune of the run deletes the row of `handle`. -/
def NotPruned (tr : List Step) (handle : String) : Prop := ∀ e ∈ tr, ¬ Removes e handle

instance (e : Step) (handle : String) : Decidable (Removes e handle) :=
  inferInstanceAs (Decidable (∃ p ∈ _, _ ∧ _))

instance (tr : List Step) (handle : String) : Decidable (NotPruned tr handle) :=
  inferInstanceAs (Decidable (∀ e ∈ tr, ¬ Removes e handle))

theorem Effect.kept {e : Step} (h : Effect e.before e.call e.reply e.after) {p : Participant}
    (hp : p ∈ e.before.db.participants) (hkept : ¬ Removes e p.handle) :
    e.call.onParticipant e.reply p ∈ e.after.db.participants := by
  have hprunes : e.call.prunes p = false := by
    rw [Bool.eq_false_iff]
    exact fun hcontra => hkept ⟨p, hp, rfl, hcontra⟩
  exact h.mem_participants.mpr (.inl ⟨p, hp, hprunes, rfl⟩)

/-- What stays of a participant along a history in which its row is not removed. -/
structure SameRow (p q : Participant) : Prop where
  handle : q.handle = p.handle
  roomId : q.roomId = p.roomId

/-- A row that is not removed stays, under its instance. -/
theorem History.instance_kept (h : History app s tr s') (hwf : s.db.WellFormed) {p : Participant}
    (hp : p ∈ s.db.participants) (hkept : ∀ e ∈ tr, ¬ Removes e p.handle) :
    ∃ q ∈ s'.db.participants, SameRow p q ∧ q.inst = p.inst := by
  refine History.induction hwf (P := fun _ s => ∃ q ∈ s.db.participants, SameRow p q ∧ q.inst = p.inst)
    ⟨p, hp, ⟨rfl, rfl⟩, rfl⟩ (fun _ hdb _ _ _ hrow => hdb ▸ hrow) ?_ h List.suffix_rfl
  rintro e tr' sess hsuf hexec _ _ ⟨q, hq, hsame, hinst⟩
  have hstays : ¬ Removes e q.handle := hsame.handle ▸ hkept e (hsuf.mem List.mem_cons_self)
  refine ⟨_, (effect_of_exec hexec).kept hq hstays, ⟨?_, ?_⟩, ?_⟩
  · rw [Call.onParticipant_handle, hsame.handle]
  · rw [Call.onParticipant_roomId, hsame.roomId]
  · rw [Call.onParticipant_inst, hinst]

/-- A row that is not removed stays. -/
theorem History.row_kept (h : History app s tr s') (hwf : s.db.WellFormed) {p : Participant}
    (hp : p ∈ s.db.participants) (hkept : ∀ e ∈ tr, ¬ Removes e p.handle) :
    ∃ q ∈ s'.db.participants, SameRow p q := by
  obtain ⟨q, hq, hsame, -⟩ := h.instance_kept hwf hp hkept
  exact ⟨q, hq, hsame⟩

/-- A resolved caller had a row in the room, and still has it if no prune removed
it. -/
theorem History.resolved_row (h : History app s tr s') (hwf : s.db.WellFormed) {i : ℕ}
    (hres : ResolvedIn (pastOf i tr) id handle) (hkept : ∀ e ∈ tr, ¬ Removes e handle) :
    ∃ q ∈ s'.db.participants, q.handle = handle ∧ q.roomId = id := by
  obtain ⟨p, inst, rfl, hread⟩ := hres
  -- both ways of resolving the caller read a row of the room with that handle
  have hfound : ∃ s₁ newer, newer ⊆ tr ∧ s₁.db.WellFormed ∧ History app s₁ newer s' ∧
      p ∈ s₁.db.participants ∧ p.roomId = id := by
    rcases hread with hread | hread
    · obtain ⟨before, after, sess, newer, older, rfl, hexec, hbefore, hafter⟩ := h.seen hread
      obtain ⟨hfind, rfl⟩ := done_of_read hexec
      obtain ⟨hp, hroom, -⟩ := Db.getParticipantByInstance_spec hfind
      exact ⟨_, newer, List.subset_append_left _ _, hbefore.wellFormed hwf, hafter, hp, hroom⟩
    · obtain ⟨before, after, sess, newer, older, rfl, hexec, hbefore, hafter⟩ := h.seen hread
      obtain ⟨hfind, rfl⟩ := done_of_read hexec
      obtain ⟨hp, hroom, -⟩ := Db.getParticipantByHandle_spec hfind
      exact ⟨_, newer, List.subset_append_left _ _, hbefore.wellFormed hwf, hafter, hp, hroom⟩
  obtain ⟨s₁, newer, hin, hwf₁, hafter, hp, rfl⟩ := hfound
  obtain ⟨q, hq, hsame⟩ := hafter.row_kept hwf₁ hp fun e he => hkept e (hin he)
  exact ⟨q, hq, hsame.handle, hsame.roomId⟩

/-! ### Where cursors point -/

/-- The messages of a room for `handle` after a `seq`, oldest first. -/
def Db.inbox (db : Db) (id handle : String) (afterSeq : ℕ) : List Message :=
  Feed.unread Message.seq (Db.addressedTo id handle) afterSeq db.messages

theorem maxKey_mono {keys keys' : List ℕ} (h : keys ⊆ keys') : maxKey keys ≤ maxKey keys' := by
  induction keys with
  | nil => exact Nat.zero_le _
  | cons k keys ih =>
    rw [List.cons_subset] at h
    exact max_le (le_maxKey h.1) (ih h.2)

theorem Db.nextSeq_mono {db db' : Db} (h : db.messages <+: db'.messages) :
    db.nextSeq ≤ db'.nextSeq := by
  have hle := maxKey_mono (List.map_subset Message.seq h.subset)
  rw [Db.nextSeq, Db.nextSeq]
  omega

theorem Db.currentSeq_lt_nextSeq (db : Db) (id : String) : db.currentSeq id < db.nextSeq := by
  have hle : db.currentSeq id ≤ maxKey (db.messages.map Message.seq) :=
    maxKey_mono (List.map_subset _ (List.filter_sublist.subset))
  rw [Db.nextSeq]
  omega

/-- No cursor points beyond the messages there are. -/
def CursorsPosted (s : Store) : Prop := ∀ p ∈ s.db.participants, p.lastReadSeq < s.db.nextSeq

/-- What a compare-and-swap of a cursor knows: its request has just read the
cursor and found `m` behind it, and `m` is still the next unread message. -/
structure Claiming (e : Step) (older : List Step) (req : Request) (id handle : String)
    (cursor : ℕ) (m : Message) : Prop where
  log : ∃ rest, pastOf e.tid older = ⟨.nextUnread id handle cursor, some m⟩ ::
    ⟨.readCursor handle, some cursor⟩ :: rest ∧ ClaimsFor req rest id handle ∧ Undelivered rest
  unread : e.before.db.nextUnread id handle cursor = some m

theorem Db.addressedTo_iff {m : Message} : Db.addressedTo id handle m = true ↔
    m.roomId = id ∧ m.sender ≠ handle ∧ (m.recipient = none ∨ m.recipient = some handle) := by
  simp [Db.addressedTo, and_assoc]

theorem Claiming.spec {e : Step} {cursor : ℕ} {m : Message}
    (h : Claiming e tr req id handle cursor m) : m ∈ e.before.db.messages ∧ cursor < m.seq ∧
      Db.addressedTo id handle m = true :=
  Feed.next_spec h.unread

/-- **A claim delivers the next unread message** at the instant of its
compare-and-swap, however old its read is. -/
theorem Recorded.claiming {c : Daemon} {e : Step} (h : Recorded app c e tr) {seq cursor : ℕ}
    (hcall : e.call = .advanceCursor seq handle cursor) :
    ∃ t id m, c.threads[e.tid]? = some t ∧ Claiming e tr t.req id handle cursor m ∧ m.seq = seq := by
  obtain ⟨t, ht, hd⟩ := h.disciplined
  rw [hcall] at hd
  obtain ⟨id, m, rest, hlog, hseq, hfor, hund⟩ := hd
  obtain ⟨s₀, -, hist⟩ := h.history
  have hread : ⟨.nextUnread id handle cursor, some m⟩ ∈ pastOf e.tid tr := by
    rw [hlog]
    exact List.mem_cons_self
  obtain ⟨before, after, sess, newer, older, -, hexec, -, hafter⟩ := hist.seen hread
  obtain ⟨hfind, rfl⟩ := done_of_read hexec
  -- messages only grow at the end, so that what was found is found again
  obtain ⟨landed, hlanded⟩ := hafter.later.messages
  refine ⟨t, id, m, ht, ⟨⟨rest, hlog, hfor, hund⟩, ?_⟩, hseq⟩
  rw [Db.nextUnread, ← hlanded]
  exact Feed.next_append hfind

/-- A participant joins with the `seq` of a message of its room, or 0. -/
theorem joined_posted {s₀ : Store} {i : ℕ} (hist : History app s₀ tr s)
    (hd : Discipline req (pastOf i tr) c) {p : Participant} (hp : c.joined r = some p) :
    p.lastReadSeq < s.db.nextSeq := by
  cases c
  case createParticipant p' =>
    cases r
    · obtain rfl := Option.some_inj.mp hp
      obtain ⟨before, after, sess, newer, older, -, hexec, -, hafter⟩ := hist.seen hd.2.2.2
      obtain ⟨hseq, rfl⟩ := done_of_read hexec
      rw [← hseq]
      exact (Db.currentSeq_lt_nextSeq _ _).trans_le (Db.nextSeq_mono hafter.later.messages)
    · cases hp
  all_goals cases hp

/-- **No cursor ever points beyond the messages.** -/
theorem Reachable.cursorsPosted {c : Daemon} (h : Reachable app c) :
    Throughout c fun _ s => CursorsPosted s := by
  refine h.induction ?_ ?_ ?_
  · rintro s₀ ⟨hdb, -⟩
    simp [CursorsPosted, hdb, Db.empty]
  · intro tr s₁ s₂ hdb _ _ _ hposted
    rwa [CursorsPosted, hdb]
  · intro e tr hrec hposted p' hp'
    have hmono : e.before.db.nextSeq ≤ e.after.db.nextSeq :=
      Db.nextSeq_mono (hrec.effect.messages ▸ List.prefix_append _ _)
    refine lt_of_lt_of_le ?_ hmono
    rcases hrec.effect.mem_participants.mp hp' with ⟨p, hp, -, rfl⟩ | hjoined
    · rw [Call.onParticipant_lastReadSeq]
      have hold : p.lastReadSeq < e.before.db.nextSeq := hposted p hp
      cases hcall : e.call
      case advanceCursor seq handle cursor =>
        obtain ⟨t, id, m, -, hclaiming, rfl⟩ := hrec.claiming hcall
        have hnew : m.seq < e.before.db.nextSeq := Db.lt_nextSeq hclaiming.spec.1
        rw [Call.cursorAfter]
        split <;> assumption
      all_goals exact hold
    · obtain ⟨s₀, -, hist⟩ := hrec.history
      obtain ⟨t, -, hd⟩ := hrec.disciplined
      exact joined_posted hist hd hjoined

/-- A call never moves a cursor back. -/
theorem Recorded.cursor_le {c : Daemon} {e : Step} (h : Recorded app c e tr) (p : Participant) :
    p.lastReadSeq ≤ e.call.cursorAfter p.handle p.lastReadSeq := by
  cases hcall : e.call
  case advanceCursor seq handle cursor =>
    obtain ⟨t, id, m, -, hclaiming, rfl⟩ := h.claiming hcall
    have hlt : cursor < m.seq := hclaiming.spec.2.1
    rw [Call.cursorAfter]
    split
    · omega
    · exact le_rfl
  all_goals exact le_rfl

/-- **A cursor never decreases** while its row is not removed. -/
theorem Reachable.cursor_mono {c : Daemon} (h : Reachable app c) {e : Step}
    {newer older : List Step} (hsplit : c.trace = newer ++ e :: older) {p : Participant}
    (hp : p ∈ e.after.db.participants) (hkept : ∀ e' ∈ newer, ¬ Removes e' p.handle) :
    ∃ q ∈ c.shared.db.participants, SameRow p q ∧ p.lastReadSeq ≤ q.lastReadSeq := by
  refine h.induction_after hsplit
    (P := fun _ s => ∃ q ∈ s.db.participants, SameRow p q ∧ p.lastReadSeq ≤ q.lastReadSeq)
    ⟨p, hp, ⟨rfl, rfl⟩, le_rfl⟩ ?_ ?_
  · intro tr s₁ s₂ hdb _ _ _ hrow
    rwa [hdb]
  · rintro e' tr hsuf hrec ⟨q, hq, hsame, hle⟩
    have hstays : ¬ Removes e' q.handle := hsame.handle ▸ hkept e' (hsuf.mem List.mem_cons_self)
    refine ⟨_, hrec.effect.kept hq hstays, ⟨?_, ?_⟩, ?_⟩
    · rw [Call.onParticipant_handle, hsame.handle]
    · rw [Call.onParticipant_roomId, hsame.roomId]
    · rw [Call.onParticipant_lastReadSeq]
      exact hle.trans (hrec.cursor_le q)

end ChatBotChat
