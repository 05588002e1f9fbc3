/-
No wakeup is lost.

A waiter subscribes first, and each time before it parks it claims, and then
asks for a halted room and for proposals; a writer writes first and pings last.
So whatever a completed writer did before a waiter's last look was seen by it,
and of whatever it did after, the ping is still pending.

* `LastLook.silent` — a blocked waiter has seen no ping of its room since any
  of its last looks;
* `no_lost_wakeup` — no message of a completed writer is claimable by a blocked
  waiter, and no relevant change that a completed writer made holds.
-/
import ChatBotChat.Cursors

namespace ChatBotChat

open Interleave Lifecycle

variable {s s' : Store} {sess : List UInt16} {c : Call} {r : c.Reply} {app : AppState}
  {id handle : String} {rx : ℕ} {tr : List Step}

/-! ### The hub -/

/-- The receiver `rx` listens to the room, and at least `n` pings are pending. -/
def Heard (s : Store) (rx : ℕ) (id : String) (n : ℕ) : Prop :=
  ∃ receiver, s.hub.receivers[rx]? = some receiver ∧ receiver.roomId = id ∧ n ≤ receiver.pending

theorem Heard.mono {n n' : ℕ} (h : Heard s rx id n) (hn : n' ≤ n) : Heard s rx id n' := by
  obtain ⟨receiver, hrx, hroom, hle⟩ := h
  exact ⟨receiver, hrx, hroom, hn.trans hle⟩

theorem Heard.le_pending {n : ℕ} (h : Heard s rx id n) : n ≤ s.hub.pending rx := by
  obtain ⟨receiver, hrx, -, hle⟩ := h
  rw [Hub.pending, hrx]
  exact hle

/-- Only a ping, a subscription and a `recv` change the hub. -/
theorem hub_of_exec (h : Store.exec sess c s = .done r s') (hsub : ∀ id, c ≠ .subscribe id)
    (hping : ∀ id, c ≠ .notify id) (hrecv : ∀ rx deadline, c ≠ .recv rx deadline) :
    s'.hub = s.hub := by
  cases c
  case subscribe id => exact absurd rfl (hsub id)
  case notify id => exact absurd rfl (hping id)
  case recv rx deadline => exact absurd rfl (hrecv rx deadline)
  all_goals
    simp only [Store.exec, Store.read, Store.write] at h
    first
      | cases h; rfl
      | obtain ⟨-, rfl⟩ := done_of_tryRead h; rfl
      | obtain ⟨db, -, rfl⟩ := done_of_tryWrite h; rfl

/-- A ping of the room is heard. -/
theorem Heard.notify {n : ℕ} {r : Unit} (h : Heard s rx id n)
    (hexec : Store.exec sess (.notify id) s = .done r s') : Heard s' rx id (n + 1) := by
  obtain ⟨receiver, hrx, hroom, hle⟩ := h
  cases hexec
  refine ⟨{ receiver with pending := receiver.pending + 1 }, ?_, hroom, by simpa using hle⟩
  simp [Hub.notify, hrx, hroom]

/-- A `recv` leaves the other receivers alone, and its own receiver listening. -/
theorem Heard.recv {n rx' deadline : ℕ} {outcome : RecvOutcome} (h : Heard s rx id n)
    (hexec : Store.exec sess (.recv rx' deadline) s = .done outcome s')
    (hother : rx' = rx → n = 0) : Heard s' rx id n := by
  have hset : ∀ k, Heard { s with hub := s.hub.setPending rx' k } rx id n := by
    intro k
    obtain ⟨receiver, hrx, hroom, hle⟩ := h
    by_cases heq : rx' = rx
    · refine ⟨{ receiver with pending := k }, ?_, hroom, by simp [hother heq]⟩
      simp [Hub.setPending, hrx, heq]
    · refine ⟨receiver, ?_, hroom, hle⟩
      simp [Hub.setPending, hrx, heq]
  simp only [Store.exec, Store.recv] at hexec
  split_ifs at hexec
  · cases hexec
    exact h
  · cases hexec
    exact hset _
  · cases hexec
    exact hset _

/-- What has been heard stays pending until it is received. -/
theorem Heard.call {n : ℕ} (h : Heard s rx id n) (hexec : Store.exec sess c s = .done r s')
    (hquiet : ∀ deadline, c = .recv rx deadline → n = 0) : Heard s' rx id n := by
  cases c
  case subscribe id' =>
    obtain ⟨receiver, hrx, hroom, hle⟩ := h
    cases hexec
    refine ⟨receiver, ?_, hroom, hle⟩
    exact List.getElem?_append_left (List.getElem?_eq_some_iff.mp hrx).choose ▸ hrx
  case notify id' =>
    by_cases hid : id' = id
    · subst hid
      exact (h.notify hexec).mono (by omega)
    · obtain ⟨receiver, hrx, hroom, hle⟩ := h
      cases hexec
      refine ⟨receiver, ?_, hroom, hle⟩
      have hne : receiver.roomId ≠ id' := fun heq => hid (heq.symm.trans hroom)
      simp [Hub.notify, hrx, hne]
  case recv rx' deadline =>
    refine h.recv hexec fun heq => ?_
    subst heq
    exact hquiet deadline rfl
  all_goals
    have hhub := hub_of_exec hexec (by simp) (by simp) (by simp)
    rwa [Heard, hhub]

/-- The number of receivers never falls. -/
theorem receivers_le (h : Store.exec sess c s = .done r s') :
    s.hub.receivers.length ≤ s'.hub.receivers.length := by
  cases c
  case subscribe id =>
    cases h
    simp [Hub.subscribe]
  case notify id =>
    cases h
    simp [Hub.notify]
  case recv rx deadline =>
    simp only [Store.exec, Store.recv] at h
    split_ifs at h <;> cases h <;> simp [Hub.setPending]
  all_goals
    have hhub := hub_of_exec h (by simp) (by simp) (by simp)
    rw [hhub]

theorem History.receivers_le (h : History app s tr s') :
    s.hub.receivers.length ≤ s'.hub.receivers.length :=
  System.History.closure (fun s s' => s.hub.receivers.length ≤ s'.hub.receivers.length)
    (fun _ => le_rfl) le_trans (fun _ _ _ _ _ h => ChatBotChat.receivers_le h)
    (fun _ _ _ h => by rw [(tick_spec h).2.1]) h

/-- A subscription is named by its place, and starts listening. -/
theorem subscribe_spec (h : Store.exec sess (.subscribe id) s = .done rx s') :
    rx = s.hub.receivers.length ∧ s'.hub.receivers.length = rx + 1 ∧ Heard s' rx id 0 := by
  cases h
  refine ⟨rfl, by simp [Hub.subscribe], ⟨⟨id, 0⟩, ?_, rfl, le_rfl⟩⟩
  simp [Hub.subscribe]

/-! ### Blocked waiters -/

/-- Request `i` waits in the room and is blocked in `recv`: no ping is pending for
its receiver, and it has time left. -/
structure BlockedAt (c : Daemon) (i : ℕ) (id : String) (rx : ℕ) : Prop where
  waiting : ∃ deadline, c.threads[i]?.bind receiving = some (id, rx, deadline) ∧
    c.shared.instant < deadline
  nothing : c.shared.hub.pending rx = 0

/-- Request `j` is a send, signal, close, extend, pause or wake, and has completed
successfully. -/
def Completed (c : Daemon) (j : ℕ) : Prop :=
  ∃ t answer, c.threads[j]? = some t ∧ t.req.writes = true ∧ t.returned = some (.ok answer)

variable {c : Daemon} {i j : ℕ} {e k : Step} {b a newer older : List Step}

/-- The clock of a request's own log does not go back. -/
theorem Reachable.not_wentBack (h : Reachable app c) (hsuf : tr <:+ c.trace) :
    ¬ WentBack (pastOf i tr) := by
  rintro ⟨now, start, newer, rest, hlt, hlog⟩
  rw [← List.nil_append (_ :: _)] at hlog
  obtain ⟨b, k, a, rfl, -, hk, -, hpast⟩ := pastOf_split hlog
  obtain ⟨between, e, older, rfl, -, he, -, -⟩ := pastOf_split hpast
  have hsuf' : k :: (between ++ e :: older) <:+ c.trace := (List.suffix_append b _).trans hsuf
  have hlater := (h.history_between hsuf').later
  obtain ⟨sess, hexec⟩ := (h.recorded hsuf').exec
  obtain ⟨sess', hexec'⟩ := (h.recorded ((List.suffix_append (k :: between) _).trans hsuf')).exec
  obtain ⟨tid, call, reply, before, after⟩ := k
  obtain ⟨tid', call', reply', before', after'⟩ := e
  cases hk
  cases he
  have hnow : before.instant = reply := (done_of_read hexec).1
  have hstart : before'.instant = reply' := (done_of_read hexec').1
  have hsame : after' = before' := (done_of_read hexec').2
  have hle : after'.instant ≤ before.instant := hlater.instant
  have hle' : reply' ≤ reply := by
    rw [← hnow, ← hstart]
    exact hsame ▸ hle
  exact absurd hlt (Nat.not_lt_of_le hle')

/-- A receiver belongs to the request that subscribed it. -/
theorem Reachable.subscriber_unique (h : Reachable app c) {id id' : String}
    (hi : ⟨.subscribe id, rx⟩ ∈ pastOf i c.trace) (hj : ⟨.subscribe id', rx⟩ ∈ pastOf j c.trace) :
    i = j := by
  have hlater : ∀ {i j : ℕ} {id id' : String} {between older newer : List Step}
      {before after before' after' : Store},
      c.trace = newer ++ ⟨j, .subscribe id', rx, before', after'⟩ ::
        (between ++ ⟨i, .subscribe id, rx, before, after⟩ :: older) → False := by
    intro i j id id' between older newer before after before' after' hsplit
    have hsuf : (⟨j, .subscribe id', rx, before', after'⟩ : Step) ::
        (between ++ ⟨i, .subscribe id, rx, before, after⟩ :: older) <:+ c.trace :=
      ⟨newer, hsplit.symm⟩
    have hle := (h.history_between hsuf).receivers_le
    obtain ⟨sess', hexec'⟩ := (h.recorded hsuf).exec
    obtain ⟨sess, hexec⟩ := (h.recorded
      ((List.suffix_append (_ :: between) (⟨i, .subscribe id, rx, before, after⟩ :: older)).trans hsuf)).exec
    have hfirst := subscribe_spec hexec
    have hsecond := subscribe_spec hexec'
    dsimp only at hfirst hsecond hle
    omega
  obtain ⟨s₀, -, hist⟩ := h.history
  obtain ⟨before, after, -, newer, older, hsplit, -, -, -⟩ := hist.seen hi
  obtain ⟨before', after', -, newer', older', hsplit', -, -, -⟩ := hist.seen hj
  rcases compare_cuts (hsplit.symm.trans hsplit') with ⟨z, -, hz⟩ | ⟨-, heq, -⟩ | ⟨z, -, hz⟩
  · exact (hlater (hz ▸ hsplit)).elim
  · cases heq
    rfl
  · exact (hlater (hz ▸ hsplit')).elim

/-! ### The last looks of a blocked waiter -/

/-- Request `i` made the call `k`, after it had subscribed `rx` to the room, and
has received nothing since. -/
structure LastLook (c : Daemon) (i : ℕ) (id : String) (rx : ℕ) (b : List Step) (k : Step)
    (a : List Step) : Prop where
  split : c.trace = b ++ k :: a
  tid : k.tid = i
  quiet : ∀ x ∈ pastOf i b, ∀ deadline, x.1 ≠ .recv rx deadline
  subscribed : ⟨.subscribe id, rx⟩ ∈ pastOf i a

theorem lastLook_of_log {x : Sigma Call.Reply} (recent : Log) {rest : Log}
    (hlog : pastOf i c.trace = recent ++ x :: rest)
    (hquiet : ∀ y ∈ recent, ∀ deadline, y.1 ≠ .recv rx deadline)
    (hsub : ⟨.subscribe id, rx⟩ ∈ rest) :
    ∃ b k a, LastLook c i id rx b k a ∧ (⟨k.call, k.reply⟩ : Sigma Call.Reply) = x ∧
      pastOf i a = rest := by
  obtain ⟨b, k, a, hsplit, hk, hx, hb, ha⟩ := pastOf_split hlog
  exact ⟨b, k, a, ⟨hsplit, hk, hb ▸ hquiet, ha ▸ hsub⟩, hx, ha⟩

theorem Awake.subscribe_mem {past : Log} (h : Awake id rx past) : ⟨.subscribe id, rx⟩ ∈ past := by
  cases h with
  | subscribed => simp
  | woken hmem => exact List.mem_cons_of_mem _ hmem

theorem Parked.subscribe_mem {past : Log} (h : Parked id handle rx past) :
    ⟨.subscribe id, rx⟩ ∈ past := by
  obtain ⟨hawake, -, -, -, -, -⟩ := h
  simp [hawake.subscribe_mem]

theorem Parked.resolvedIn {past : Log} (h : Parked id handle rx past) :
    ResolvedIn past id handle := by
  obtain ⟨-, hres, -, -, -, -⟩ := h
  exact hres.mono fun x hx => by simp [hx]

/-- Nobody else receives from the receiver of a request. -/
theorem LastLook.no_recv (h : Reachable app c) (hlook : LastLook c i id rx b k a)
    (hsuf : e :: tr <:+ b) (deadline : ℕ) : e.call ≠ .recv rx deadline := by
  intro hcall
  have hsuf' : e :: (tr ++ k :: a) <:+ c.trace := by
    obtain ⟨newer, hb⟩ := hsuf
    exact ⟨newer, by rw [hlook.split, ← hb, List.append_assoc, List.cons_append]⟩
  obtain ⟨t, -, hd⟩ := (h.recorded hsuf').disciplined
  rw [hcall] at hd
  obtain ⟨id', r', handle', -, -, hparked | hback⟩ := hd
  · -- it is the waiter's own, which has received nothing since
    have hsub : ⟨.subscribe id', rx⟩ ∈ pastOf e.tid c.trace := by
      obtain ⟨newer, htr⟩ := hsuf'
      rw [← htr, pastOf_append, pastOf_cons_self]
      exact List.mem_append_right _ (List.mem_cons_of_mem _ hparked.subscribe_mem)
    have hsub' : ⟨.subscribe id, rx⟩ ∈ pastOf i c.trace := by
      rw [hlook.split, ← List.singleton_append, pastOf_append, pastOf_append]
      exact List.mem_append_right _ (List.mem_append_right _ hlook.subscribed)
    have hown : e.tid = i := h.subscriber_unique hsub hsub'
    have hmem : ⟨e.call, e.reply⟩ ∈ pastOf i b :=
      mem_pastOf.mpr ⟨e, hsuf.mem List.mem_cons_self, hown, rfl⟩
    exact hlook.quiet _ hmem deadline hcall
  · exact h.not_wentBack ((List.suffix_cons e _).trans hsuf') hback

theorem History.heard (h : History app s tr s') (hs : Heard s rx id 0) : Heard s' rx id 0 :=
  System.History.invariant (fun s => Heard s rx id 0)
    (fun _ _ _ _ _ hexec hheard => hheard.call hexec fun _ _ => rfl)
    (fun _ _ _ ht hheard => by rwa [Heard, (tick_spec ht).2.1]) h hs

/-- The receiver of a last look listens to the room. -/
theorem LastLook.heard (h : Reachable app c) (hlook : LastLook c i id rx b k a) :
    Heard k.after rx id 0 := by
  have hrec := h.recorded (e := k) ⟨b, hlook.split.symm⟩
  obtain ⟨s₀, -, hist⟩ := hrec.history
  obtain ⟨before, after, sess, newer, older, -, hexec, -, hafter⟩ := hist.seen hlook.subscribed
  obtain ⟨sess', hexec'⟩ := hrec.exec
  exact (hafter.heard (subscribe_spec hexec).2.2).call hexec' fun _ _ => rfl

/-- **A ping since the last look would be pending.** -/
theorem LastLook.silent (h : Reachable app c) (hlook : LastLook c i id rx b k a)
    (hnothing : c.shared.hub.pending rx = 0) : ∀ n ∈ b, n.call ≠ .notify id := by
  have hheard : Heard c.shared rx id 0 ∧
      ((∃ n ∈ b, n.call = .notify id) → Heard c.shared rx id 1) := by
    refine h.induction_after hlook.split (P := fun tr s => Heard s rx id 0 ∧
      ((∃ n ∈ tr, n.call = .notify id) → Heard s rx id 1)) ⟨hlook.heard h, by simp⟩ ?_ ?_
    · intro tr s₁ s₂ _ hhub _ _ hP
      simpa only [Heard, hhub] using hP
    · rintro e tr hsuf hrec ⟨hzero, hone⟩
      obtain ⟨sess, hexec⟩ := hrec.exec
      have hno := hlook.no_recv h hsuf
      refine ⟨hzero.call hexec fun _ _ => rfl, ?_⟩
      rintro ⟨n, hn, hcall⟩
      rcases List.mem_cons.mp hn with rfl | hn
      · obtain ⟨tid, call, reply, before, after⟩ := n
        dsimp only at hcall
        subst hcall
        exact hzero.notify hexec
      · exact (hone ⟨n, hn, hcall⟩).call hexec fun deadline hrecv => absurd hrecv (hno deadline)
  intro n hn hcall
  have hpos := (hheard.2 ⟨n, hn, hcall⟩).le_pending
  omega

/-! ### Completed writers -/

theorem Request.room_of_writes {req : Request} (h : req.writes = true) : ∃ id, req.room = some id := by
  cases req <;> first | exact ⟨_, rfl⟩ | cases h

/-- A completed writer has pinged its room, and done nothing since. -/
theorem Completed.pinged (h : Reachable app c) (hdone : Completed c j) : ∃ t id rest,
    c.threads[j]? = some t ∧ t.req.writes = true ∧ t.req.room = some id ∧
      pastOf j c.trace = ⟨.notify id, ()⟩ :: rest := by
  obtain ⟨t, answer, ht, hwrites, ha⟩ := hdone
  obtain ⟨id, hroom⟩ := Request.room_of_writes hwrites
  obtain ⟨rest, hlog⟩ := (h.orderly.returned ht ha).1 hwrites id hroom ⟨answer, rfl⟩
  exact ⟨t, id, rest, ht, hwrites, hroom, hlog⟩

/-- **What a completed writer did before its ping, the waiter's last look saw**: it
did not come after the look, as the ping would have come after it. -/
theorem LastLook.saw (h : Reachable app c) (hlook : LastLook c i id rx b k a)
    (hnothing : c.shared.hub.pending rx = 0) {rest : Log}
    (hpinged : pastOf j c.trace = ⟨.notify id, ()⟩ :: rest) (hsplit : c.trace = newer ++ e :: older)
    (he : e.tid = j) (hcall : e.call ≠ .notify id) :
    e = k ∨ ∃ between, newer = b ++ k :: between ∧ a = between ++ e :: older := by
  rcases compare_cuts (hsplit.symm.trans hlook.split) with ⟨z, rfl, -⟩ | ⟨-, rfl, -⟩ | hbefore
  · -- the ping is newer than `e`, and so newer than the look
    subst he
    rw [hsplit, pastOf_append, pastOf_cons_self] at hpinged
    have hping : ⟨.notify id, ()⟩ ∈ pastOf e.tid newer := by
      cases hnewer : pastOf e.tid newer with
      | nil =>
        rw [hnewer, List.nil_append] at hpinged
        exact absurd (congrArg Sigma.fst (List.cons_eq_cons.mp hpinged).1) hcall
      | cons x xs =>
        rw [hnewer, List.cons_append] at hpinged
        rw [(List.cons_eq_cons.mp hpinged).1]
        exact List.mem_cons_self
    obtain ⟨n, hn, -, heq⟩ := mem_pastOf.mp hping
    exact absurd (congrArg Sigma.fst heq)
      (hlook.silent h hnothing n (List.mem_append_left _ hn))
  · exact .inl rfl
  · exact .inr hbefore

/-! ### Where a writer writes -/

/-- The row of request `i`'s caller is not pruned. -/
def CallerStays (c : Daemon) (i : ℕ) : Prop :=
  ∀ {id handle : String}, ResolvedIn (pastOf i c.trace) id handle → NotPruned c.trace handle

/-- A caller resolved in another room is nobody in this one. -/
theorem Recorded.ne_of_resolved {id' : String} (h : Recorded app c e tr)
    (hstays : CallerStays c e.tid) (hres : ResolvedIn (pastOf e.tid tr) id' handle) (hne : id' ≠ id) {p : Participant}
    (hp : p ∈ e.before.db.participants) (hroom : p.roomId = id) : p.handle ≠ handle := by
  intro hhandle
  obtain ⟨s₀, hboot, hist⟩ := h.history
  have hsub : tr ⊆ c.trace := fun e' he' => h.suffix.subset (List.mem_cons_of_mem _ he')
  have hkept : NotPruned c.trace handle := by
    obtain ⟨newer, htr⟩ := h.suffix
    refine hstays (hres.mono ?_)
    rw [← htr, pastOf_append, pastOf_cons_self]
    exact List.subset_append_of_subset_right _ (List.subset_cons_self _ _)
  obtain ⟨q, hq, hqhandle, rfl⟩ := hist.resolved_row (hboot.1 ▸ Db.wellFormed_empty) hres
    fun e' he' => hkept e' (hsub he')
  have hsame := h.wellFormed_before.participant_unique hp hq (hhandle.trans hqhandle.symm)
  exact hne (hsame ▸ hroom)

/-- A call keeps what the proposals of a room depend on of a row. -/
structure SameVotes (p q : Participant) : Prop where
  wantsCloseAt : q.wantsCloseAt = p.wantsCloseAt
  wantsExtendAt : q.wantsExtendAt = p.wantsExtendAt
  lastPollAt : q.lastPollAt = p.lastPollAt

/-- **A writer leaves the votes of every other room alone.** -/
theorem Recorded.sameVotes {id' : String} (h : Recorded app c e tr) (hstays : CallerStays c e.tid)
    {t : Thread Call Call.Reply Request Outcome} (hroom : t.req.room = some id') (hne : id' ≠ id)
    (hd : Discipline t.req (pastOf e.tid tr) e.call) {p : Participant}
    (hp : p ∈ e.before.db.participants) (hpid : p.roomId = id) :
    SameVotes p (e.call.onParticipant e.reply p) := by
  have hother : ∀ {id'' handle : String}, t.req.room = some id'' →
      ResolvedIn (pastOf e.tid tr) id'' handle → p.handle ≠ handle := by
    intro id'' handle hroom' hres
    have heq : id'' = id' := Option.some_inj.mp (hroom'.symm.trans hroom)
    exact h.ne_of_resolved hstays hres (heq ▸ hne) hp hpid
  have hclear : ∀ {id'' : String}, t.req.room = some id'' → p.roomId ≠ id'' := by
    intro id'' hroom' heq
    have heq' : id'' = id' := Option.some_inj.mp (hroom'.symm.trans hroom)
    exact hne (heq'.symm.trans (heq.symm.trans hpid))
  obtain ⟨tid, call, reply, before, after⟩ := e
  cases call
  case setNickname handle nickname =>
    simp only [Call.onParticipant]
    split <;> exact ⟨rfl, rfl, rfl⟩
  case advanceCursor seq handle cursor =>
    simp only [Call.onParticipant]
    split <;> exact ⟨rfl, rfl, rfl⟩
  case setCloseVote handle at_ =>
    have hhandle : p.handle ≠ handle := by
      cases at_ with
      | none =>
        obtain ⟨id'', r, _, _, _, _, _, _, _, hreq, hres, -⟩ := hd
        exact hother (by rw [hreq]; rfl) hres
      | some now =>
        obtain ⟨id'', r, _, hreq, hres, -⟩ := hd
        exact hother (by rw [hreq]; rfl) hres
    simp only [Call.onParticipant, if_neg hhandle]
    exact ⟨rfl, rfl, rfl⟩
  case clearCloseVotes id'' =>
    obtain ⟨r, hreq⟩ := hd
    simp only [Call.onParticipant, if_neg (hclear (by rw [hreq]; rfl))]
    exact ⟨rfl, rfl, rfl⟩
  case clearExtendVote handle =>
    obtain ⟨id'', r, hreq, hres⟩ := hd
    simp only [Call.onParticipant, if_neg (hother (by rw [hreq]; rfl) hres)]
    exact ⟨rfl, rfl, rfl⟩
  case touchLastPoll handle now =>
    obtain ⟨id'', _, hroom', hres, -⟩ := hd
    simp only [Call.onParticipant, if_neg (hother hroom' hres)]
    exact ⟨rfl, rfl, rfl⟩
  case tryExtend id'' voter step now cutoff quorum =>
    obtain ⟨⟨r, hreq⟩, hres, -⟩ := hd
    have hvoter := hother (by rw [hreq]; rfl) hres
    have hroom'' := hclear (by rw [hreq]; rfl)
    cases reply <;> simp only [Call.onParticipant, if_neg hvoter, if_neg hroom''] <;>
      exact ⟨rfl, rfl, rfl⟩
  all_goals exact ⟨rfl, rfl, rfl⟩

/-! ### Relevant changes -/

/-- What `waitRelevantChange` looks for. -/
inductive Change where
  | halted
  | closing
  | extending

/-- The change holds for the participant `handle` of the room. -/
def Change.Holds (id handle : String) (s : Store) : Change → Prop
  | .halted => ∃ row ∈ s.db.rooms, row.id = id ∧ row.state.halted = true
  | .closing =>
    proposalPending Participant.wantsCloseAt (s.db.listParticipants id) handle s.utc = true
  | .extending =>
    proposalPending Participant.wantsExtendAt (s.db.listParticipants id) handle s.utc = true

/-- A proposal is pending when somebody else who is live has voted, and the caller
has not. -/
theorem proposalPending_iff {vote : Participant → Option OffsetDateTime} {db : Db}
    {now : OffsetDateTime} :
    proposalPending vote (db.listParticipants id) handle now = true ↔
      (∀ p ∈ db.participants, p.roomId = id → p.handle = handle → (vote p).isSome = false) ∧
      ∃ p ∈ db.participants, p.roomId = id ∧ p.handle ≠ handle ∧ (vote p).isSome = true ∧
        livePoller now p = true := by
  have hown : (db.listParticipants id).any (fun p => p.handle = handle && (vote p).isSome) = false ↔
      ∀ p ∈ db.participants, p.roomId = id → p.handle = handle → (vote p).isSome = false := by
    rw [List.any_eq_false]
    simp [mem_listParticipants]
  have hother : (db.listParticipants id).any
      (fun p => p.handle ≠ handle && (vote p).isSome && livePoller now p) = true ↔
      ∃ p ∈ db.participants, p.roomId = id ∧ p.handle ≠ handle ∧ (vote p).isSome = true ∧
        livePoller now p = true := by
    rw [List.any_eq_true]
    simp [mem_listParticipants, and_assoc]
  rw [← hown, ← hother, proposalPending]
  split
  · rename_i hvoted
    simp [hvoted]
  · rename_i hvoted
    exact ⟨fun hpending => ⟨Bool.eq_false_iff.mpr hvoted, hpending⟩, fun hpending => hpending.2⟩

/-- A proposal that is pending now was pending at any earlier reading of the clock. -/
theorem proposalPending_earlier {vote : Participant → Option OffsetDateTime}
    {participants : List Participant} {now now' : OffsetDateTime} (hle : now ≤ now')
    (h : proposalPending vote participants handle now' = true) :
    proposalPending vote participants handle now = true := by
  unfold proposalPending at *
  split at h
  · cases h
  · rename_i hvoted
    rw [if_neg hvoted]
    rw [List.any_eq_true] at h ⊢
    obtain ⟨p, hp, hmatch⟩ := h
    refine ⟨p, hp, ?_⟩
    simp only [Bool.and_eq_true] at hmatch ⊢
    refine ⟨hmatch.1, ?_⟩
    have hlive := hmatch.2
    unfold livePoller at *
    rw [decide_eq_true_eq] at *
    exact le_trans (Int.sub_le_sub_right hle _) hlive

/-- A call that keeps everybody and everybody's votes keeps the proposals. -/
theorem proposalPending_congr {vote : Participant → Option OffsetDateTime}
    (heff : Effect e.before e.call e.reply e.after) (hjoined : e.call.joined e.reply = none)
    (hrows : ∀ p ∈ e.before.db.participants, e.call.prunes p = false)
    (hvotes : ∀ p ∈ e.before.db.participants, p.roomId = id →
      vote (e.call.onParticipant e.reply p) = vote p ∧
        (e.call.onParticipant e.reply p).lastPollAt = p.lastPollAt) :
    proposalPending vote (e.after.db.listParticipants id) handle e.after.utc = true ↔
      proposalPending vote (e.before.db.listParticipants id) handle e.before.utc = true := by
  have hmem : ∀ p', p' ∈ e.after.db.participants ↔
      ∃ p ∈ e.before.db.participants, e.call.onParticipant e.reply p = p' := by
    intro p'
    rw [heff.mem_participants, hjoined]
    constructor
    · rintro (⟨p, hp, -, rfl⟩ | hnone)
      · exact ⟨p, hp, rfl⟩
      · cases hnone
    · rintro ⟨p, hp, rfl⟩
      exact .inl ⟨p, hp, hrows p hp, rfl⟩
  rw [proposalPending_iff, proposalPending_iff, heff.utc]
  refine and_congr ⟨?_, ?_⟩ ⟨?_, ?_⟩
  · intro hown p hp hroom hhandle
    have hafter := hown _ ((hmem _).mpr ⟨p, hp, rfl⟩) (by simpa using hroom) (by simpa using hhandle)
    rwa [(hvotes p hp hroom).1] at hafter
  · intro hown p' hp' hroom hhandle
    obtain ⟨p, hp, rfl⟩ := (hmem p').mp hp'
    rw [Call.onParticipant_roomId] at hroom
    rw [Call.onParticipant_handle] at hhandle
    rw [(hvotes p hp hroom).1]
    exact hown p hp hroom hhandle
  · rintro ⟨p', hp', hroom, hhandle, hvote, hlive⟩
    obtain ⟨p, hp, rfl⟩ := (hmem p').mp hp'
    rw [Call.onParticipant_roomId] at hroom
    rw [Call.onParticipant_handle] at hhandle
    rw [(hvotes p hp hroom).1] at hvote
    rw [livePoller, (hvotes p hp hroom).2] at hlive
    exact ⟨p, hp, hroom, hhandle, hvote, hlive⟩
  · rintro ⟨p, hp, hroom, hhandle, hvote, hlive⟩
    refine ⟨_, (hmem _).mpr ⟨p, hp, rfl⟩, ?_, ?_, ?_, ?_⟩
    · rw [Call.onParticipant_roomId, hroom]
    · rwa [Call.onParticipant_handle]
    · rwa [(hvotes p hp hroom).1]
    · rwa [livePoller, (hvotes p hp hroom).2]

/-- **A writer of another room makes no change hold here.** -/
theorem Recorded.change_elsewhere {id' : String} (h : Recorded app c e tr)
    (hstays : CallerStays c e.tid) {t : Thread Call Call.Reply Request Outcome}
    (ht : c.threads[e.tid]? = some t) (hwrites : t.req.writes = true)
    (hroom : t.req.room = some id') (hne : id' ≠ id) (change : Change)
    (hholds : change.Holds id handle e.after) : change.Holds id handle e.before := by
  obtain ⟨t', ht', hd⟩ := h.disciplined
  obtain rfl : t = t' := Option.some_inj.mp (ht.symm.trans ht')
  have hkept : ∀ p ∈ e.before.db.participants, e.call.prunes p = false := by
    intro p _
    obtain ⟨tid, call, reply, before, after⟩ := e
    cases call
    case pruneStaleParticipants id'' cutoff =>
      obtain ⟨hreq, -⟩ := hd
      rw [hreq] at hwrites
      cases hwrites
    all_goals rfl
  have hjoined : e.call.joined e.reply = none := by
    obtain ⟨tid, call, reply, before, after⟩ := e
    cases call
    case createParticipant p =>
      obtain ⟨⟨r, hreq⟩, -⟩ := hd
      rw [hreq] at hwrites
      cases hwrites
    all_goals rfl
  have hvotes := fun p hp hpid => h.sameVotes hstays hroom hne hd (p := p) hp hpid
  cases change with
  | halted =>
    obtain ⟨row', hrow', hid, hhalted⟩ := hholds
    rcases h.effect.mem_rooms.mp hrow' with ⟨row, hrow, rfl⟩ | hopened
    · rw [Call.onRoom_id] at hid
      refine ⟨row, hrow, hid, ?_⟩
      have hsame : e.call.nextState e.reply row.id row.state = row.state := by
        obtain ⟨tid, call, reply, before, after⟩ := e
        cases call
        case updateRoomState id'' from_ to_ now detail =>
          have hroom'' : t.req.room = some id'' := by
            refine hd.1.resolve_right fun hsweep => ?_
            rw [hsweep] at hwrites
            cases hwrites
          have heq : id'' = id' := Option.some_inj.mp (hroom''.symm.trans hroom)
          have hne' : ¬ row.id = id'' := fun heq' => hne (heq.symm.trans (heq'.symm.trans hid))
          cases reply
          · rfl
          · simp [Call.nextState, hne']
        all_goals rfl
      rwa [Call.onRoom_state, hsame] at hhalted
    · obtain ⟨-, room, hcall, rfl⟩ := opened_createRoom hopened
      rw [hcall] at hd
      obtain ⟨⟨r, hreq⟩, -⟩ := hd
      rw [hreq] at hwrites
      cases hwrites
  | closing =>
    exact (proposalPending_congr h.effect hjoined hkept fun p hp hpid =>
      ⟨(hvotes p hp hpid).wantsCloseAt, (hvotes p hp hpid).lastPollAt⟩).mp hholds
  | extending =>
    exact (proposalPending_congr h.effect hjoined hkept fun p hp hpid =>
      ⟨(hvotes p hp hpid).wantsExtendAt, (hvotes p hp hpid).lastPollAt⟩).mp hholds

/-- A message of a writer is in its room. -/
theorem Recorded.landed_room {id' : String} (h : Recorded app c e tr)
    {t : Thread Call Call.Reply Request Outcome} (ht : c.threads[e.tid]? = some t)
    (hroom : t.req.room = some id') {m : Message} (hm : e.call.landed e.reply = some m) :
    m.roomId = id' := by
  obtain ⟨t', ht', hd⟩ := h.disciplined
  obtain rfl : t = t' := Option.some_inj.mp (ht.symm.trans ht')
  obtain ⟨sess, hexec⟩ := h.exec
  have hrow := (landed_row hexec hm).1
  obtain ⟨tid, call, reply, before, after⟩ := e
  cases call
  case createMessageTyped =>
    rw [← Option.some_inj.mp hrow]
    exact Option.some_inj.mp (hd.1.symm.trans hroom)
  case createMessageCapped =>
    obtain ⟨⟨r, hreq, -⟩, -⟩ := hd
    rw [← Option.some_inj.mp hrow]
    exact Option.some_inj.mp ((congrArg Request.room hreq).symm.trans hroom)
  all_goals cases hrow

/-! ### No lost wakeup -/

/-- A claim for `handle` would return `m`, now or after older messages. -/
def Claimable (s : Store) (id handle : String) (m : Message) : Prop :=
  ∃ k, s.db.readCursor handle = some k ∧ m ∈ s.db.inbox id handle k

/-- Request `j` made the change hold, and it has held since. -/
def MadeTrue (c : Daemon) (j : ℕ) (id handle : String) (change : Change) : Prop :=
  ∃ newer e older, c.trace = newer ++ e :: older ∧ e.tid = j ∧
    ¬ change.Holds id handle e.before ∧ change.Holds id handle e.after ∧
    (∀ e' ∈ newer, change.Holds id handle e'.before ∧ change.Holds id handle e'.after) ∧
    change.Holds id handle c.shared

theorem BlockedAt.parked (h : Reachable app c) (hblocked : BlockedAt c i id rx) :
    ∃ handle, Parked id handle rx (pastOf i c.trace) := by
  obtain ⟨deadline, hwaiting, -⟩ := hblocked.waiting
  obtain ⟨t, ht, hreceiving⟩ := Option.bind_eq_some_iff.mp hwaiting
  obtain ⟨r, f, rfl⟩ := receiving_spec hreceiving
  obtain ⟨id', r', handle, hreq, -, hparked | hback⟩ := h.orderly.waiting ht
  · cases hreq
    exact ⟨handle, hparked⟩
  · exact absurd hback (h.not_wentBack List.suffix_rfl)

theorem Db.readCursor_spec {db : Db} {k : ℕ} (h : db.readCursor handle = some k) :
    ∃ p ∈ db.participants, p.handle = handle ∧ p.lastReadSeq = k := by
  obtain ⟨p, hfind, rfl⟩ := Option.map_eq_some_iff.mp h
  exact ⟨p, List.mem_of_find?_eq_some hfind, by simpa using List.find?_some hfind, rfl⟩

/-- A cursor that was read is at or before the cursor there is now. -/
theorem Reachable.cursor_read_le (h : Reachable app c) {cursor k : ℕ} (recent : Log) {rest : Log}
    (hlog : pastOf i c.trace = recent ++ ⟨.readCursor handle, some cursor⟩ :: rest)
    (hkept : NotPruned c.trace handle) (hnow : c.shared.db.readCursor handle = some k) :
    cursor ≤ k := by
  obtain ⟨newer, e, older, hsplit, -, hcall, -, -⟩ := pastOf_split hlog
  obtain ⟨sess, hexec⟩ := (h.recorded (e := e) ⟨newer, hsplit.symm⟩).exec
  obtain ⟨tid, call, reply, before, after⟩ := e
  cases hcall
  obtain ⟨hread, hafter⟩ := done_of_read hexec
  obtain ⟨p, hp, rfl, rfl⟩ := Db.readCursor_spec hread
  have hp' : p ∈ after.db.participants := by
    dsimp only at hafter
    rwa [hafter]
  obtain ⟨q, hq, hsame, hle⟩ := h.cursor_mono hsplit hp' fun e' he' =>
    hkept e' (hsplit ▸ List.mem_append_left _ he')
  obtain ⟨q', hq', hhandle, rfl⟩ := Db.readCursor_spec hnow
  rwa [h.wellFormed.participant_unique hq' hq (hhandle.trans hsame.handle.symm)]

/-- A caller that is not pruned finds its cursor. -/
theorem Reachable.cursor_found (h : Reachable app c) (recent : Log) {rest : Log}
    (hlog : pastOf i c.trace = recent ++ ⟨.readCursor handle, none⟩ :: rest)
    (hres : ResolvedIn rest id handle) (hkept : NotPruned c.trace handle) : False := by
  obtain ⟨newer, e, older, hsplit, he, hcall, -, holder⟩ := pastOf_split hlog
  have hrec := h.recorded (e := e) ⟨newer, hsplit.symm⟩
  obtain ⟨sess, hexec⟩ := hrec.exec
  obtain ⟨s₀, hboot, hist⟩ := hrec.history
  have hkept' : ∀ e' ∈ older, ¬ Removes e' handle := fun e' he' =>
    hkept e' (hrec.suffix.subset (List.mem_cons_of_mem _ he'))
  obtain ⟨q, hq, rfl, -⟩ :=
    hist.resolved_row (i := i) (hboot.1 ▸ Db.wellFormed_empty) (holder ▸ hres) hkept'
  obtain ⟨tid, call, reply, before, after⟩ := e
  cases hcall
  have hread : before.db.readCursor q.handle = none := (done_of_read hexec).1
  rw [Db.readCursor, Option.map_eq_none_iff, List.find?_eq_none] at hread
  exact hread q hq (by simp)

/-- **No message of a completed writer is claimable by a blocked waiter.** -/
theorem not_claimable (h : Reachable app c) (hblocked : BlockedAt c i id rx)
    (hparked : Parked id handle rx (pastOf i c.trace)) (hkept : NotPruned c.trace handle)
    (hdone : Completed c j) (he : e ∈ c.trace) (hj : e.tid = j) {m : Message}
    (hm : e.call.landed e.reply = some m) : ¬ Claimable c.shared id handle m := by
  rintro ⟨k, hcursor, hunread⟩
  obtain ⟨-, hlt, haddressed⟩ := Feed.mem_unread.mp hunread
  obtain ⟨newer, older, hsplit⟩ := List.append_of_mem he
  obtain ⟨t, id', rest, ht, -, hroom, hpinged⟩ := hdone.pinged h
  have hrec := h.recorded (e := e) ⟨newer, hsplit.symm⟩
  -- the writer pinged the room of its message
  have hid : m.roomId = id' := hrec.landed_room (hj ▸ ht) hroom hm
  have hid' : m.roomId = id := by
    rw [Db.addressedTo, Bool.and_eq_true, Bool.and_eq_true, decide_eq_true_eq] at haddressed
    exact haddressed.1.1
  obtain rfl : id' = id := hid.symm.trans hid'
  generalize hlog : pastOf i c.trace = past at hparked
  obtain @⟨claim, before, _, _, _, _, _, _, hawake, hres, hfound, -, -, -⟩ := hparked
  cases hfound with
  | @gone tries htries =>
    exact h.cursor_found [_, _, _, _, _, _] hlog hres.append hkept
  | @caughtUp tries cursor htries =>
    have hle : cursor ≤ k :=
      h.cursor_read_le [_, _, _, _, _, _, _] hlog hkept hcursor
    obtain ⟨b, look, a, hlook, hcall, -⟩ := lastLook_of_log [_, _, _, _, _, _] hlog
      (by simp) (List.mem_cons_of_mem _ (List.mem_append_right _ hawake.subscribe_mem))
    have hlooked := h.recorded (e := look) ⟨b, hlook.split.symm⟩
    have hne : e.call ≠ .notify id' := by
      intro hnotify
      obtain ⟨tid, call, reply, before, after⟩ := e
      dsimp only at hnotify
      subst hnotify
      cases hm
    rcases hlook.saw h hblocked.nothing hpinged hsplit hj hne with rfl | ⟨between, -, rfl⟩
    · obtain ⟨tid, call, reply, before, after⟩ := e
      cases hcall
      cases hm
    · -- the message had landed, so that the look would have found one
      have hlater := (h.history_between hlooked.suffix).later
      have hlanded : m ∈ e.after.db.messages := by
        rw [hrec.effect.messages, hm]
        exact List.mem_append_right _ List.mem_cons_self
      obtain ⟨sess, hexec⟩ := hlooked.exec
      obtain ⟨tid, call, reply, before, after⟩ := look
      cases hcall
      have hnone := Feed.next_eq_none.mp (done_of_read hexec).1
      have hmem := Feed.mem_unread.mpr
        ⟨hlater.messages.subset hlanded, hle.trans_lt hlt, haddressed⟩
      rw [hnone] at hmem
      cases hmem

/-- A ping changes nothing that a waiter looks for. -/
theorem Change.holds_notify {change : Change} {r : Unit}
    (hexec : Store.exec sess (.notify id') s = .done r s')
    (h : change.Holds id handle s') : change.Holds id handle s := by
  cases hexec
  cases change <;> exact h

/-- A change that a completed writer made held when the waiter looked last. -/
theorem MadeTrue.seen (h : Reachable app c) (hblocked : BlockedAt c i id rx)
    (hdone : Completed c j) (hstays : CallerStays c j) {change : Change}
    (hmade : MadeTrue c j id handle change) (hlook : LastLook c i id rx b k a)
    (hread : k.after = k.before) : change.Holds id handle k.before := by
  obtain ⟨newer, e, older, hsplit, hj, hnot, hholds, hsince, -⟩ := hmade
  obtain ⟨t, id', rest, ht, hwrites, hroom, hpinged⟩ := hdone.pinged h
  have hrec := h.recorded (e := e) ⟨newer, hsplit.symm⟩
  by_cases hid : id' = id
  · subst hid
    have hne : e.call ≠ .notify id' := by
      intro hnotify
      obtain ⟨sess, hexec⟩ := hrec.exec
      obtain ⟨tid, call, reply, before, after⟩ := e
      dsimp only at hnotify
      subst hnotify
      exact hnot (Change.holds_notify hexec hholds)
    rcases hlook.saw h hblocked.nothing hpinged hsplit hj hne with rfl | ⟨between, rfl, -⟩
    · exact absurd (hread ▸ hholds) hnot
    · exact (hsince k (List.mem_append_right _ List.mem_cons_self)).1
  · exact absurd (hrec.change_elsewhere (hj ▸ hstays) (hj ▸ ht) hwrites hroom hid change hholds) hnot

/-- A look at the participants that came after a look at the clock. -/
theorem LastLook.proposalPending (h : Reachable app c) (hlook : LastLook c i id rx b k a)
    {vote : Participant → Option OffsetDateTime} {rows : List Participant} {now : OffsetDateTime}
    (hcall : (⟨k.call, k.reply⟩ : Sigma Call.Reply) = ⟨.listParticipants id, rows⟩)
    (hclock : ⟨.nowUtc, now⟩ ∈ pastOf i a)
    (hholds : proposalPending vote (k.before.db.listParticipants id) handle k.before.utc = true) :
    proposalPending vote rows handle now = true := by
  have hrec := h.recorded (e := k) ⟨b, hlook.split.symm⟩
  have hle := hrec.utc_read_le hclock
  obtain ⟨sess, hexec⟩ := hrec.exec
  obtain ⟨tid, call, reply, before, after⟩ := k
  cases hcall
  have hrows : before.db.listParticipants id = reply := (done_of_read hexec).1
  rw [← hrows]
  exact proposalPending_earlier hle hholds

/-- **No change that a completed writer made holds for a blocked waiter.** -/
theorem not_madeTrue (h : Reachable app c) (hblocked : BlockedAt c i id rx)
    (hparked : Parked id handle rx (pastOf i c.trace)) (hdone : Completed c j)
    (hstays : CallerStays c j) (change : Change) : ¬ MadeTrue c j id handle change := by
  intro hmade
  generalize hlog : pastOf i c.trace = past at hparked
  obtain @⟨claim, older, _, room, t₁, t₂, closing, extending, hawake, -, -, hhalted, hclosing,
    hextending⟩ := hparked
  have hsub : ⟨.subscribe id, rx⟩ ∈ claim ++ older :=
    List.mem_append_right _ hawake.subscribe_mem
  cases change with
  | halted =>
    obtain ⟨b, k, a, hlook, hcall, -⟩ := lastLook_of_log [_, _, _, _] hlog (by simp)
      (List.mem_cons_of_mem _ hsub)
    have hrec := h.recorded (e := k) ⟨b, hlook.split.symm⟩
    obtain ⟨sess, hexec⟩ := hrec.exec
    have hwf := hrec.wellFormed_before
    have hread : k.after = k.before := by
      obtain ⟨tid, call, reply, before, after⟩ := k
      cases hcall
      exact (done_of_tryRead hexec).2
    obtain ⟨row, hrow, rfl, hstate⟩ := hmade.seen h hblocked hdone hstays hlook hread
    obtain ⟨tid, call, reply, before, after⟩ := k
    cases hcall
    have hget : before.db.getRoom row.id = some reply := (done_of_tryRead hexec).1
    rw [Db.getRoom, hwf.roomRow_eq hrow] at hget
    obtain ⟨room, hroom, rfl⟩ := Option.map_eq_some_iff.mp hget
    have heq := (rowToRoom_spec hroom).2.1
    rw [Option.elim, heq, hstate] at hhalted
    cases hhalted
  | closing =>
    obtain ⟨b, k, a, hlook, hcall, hpast⟩ := lastLook_of_log [_, _] hlog (by simp)
      (by simp only [List.mem_cons]; exact .inr (.inr (.inr hsub)))
    have hread : k.after = k.before := by
      obtain ⟨sess, hexec⟩ := (h.recorded (e := k) ⟨b, hlook.split.symm⟩).exec
      obtain ⟨tid, call, reply, before, after⟩ := k
      cases hcall
      exact (done_of_read hexec).2
    have hholds := hmade.seen h hblocked hdone hstays hlook hread
    rw [hlook.proposalPending h hcall (by simp [hpast]) hholds] at hclosing
    cases hclosing
  | extending =>
    obtain ⟨b, k, a, hlook, hcall, hpast⟩ := lastLook_of_log [] hlog (by simp)
      (by simp only [List.mem_cons]; exact .inr (.inr (.inr (.inr (.inr hsub)))))
    have hread : k.after = k.before := by
      obtain ⟨sess, hexec⟩ := (h.recorded (e := k) ⟨b, hlook.split.symm⟩).exec
      obtain ⟨tid, call, reply, before, after⟩ := k
      cases hcall
      exact (done_of_read hexec).2
    have hholds := hmade.seen h hblocked hdone hstays hlook hread
    rw [hlook.proposalPending h hcall (by simp [hpast]) hholds] at hextending
    cases hextending

/-- **No lost wakeup.**  Where a wait is blocked with time left and no ping
pending, no message that a completed send, signal, close, extend, pause or wake
inserted is claimable by it, and no halt and no proposal that such a request
made true still holds for it. -/
theorem no_lost_wakeup (h : Reachable app c) (hi : CallerStays c i) (hj : CallerStays c j)
    (hblocked : BlockedAt c i id rx) (hdone : Completed c j) :
    ∃ handle, ResolvedIn (pastOf i c.trace) id handle ∧ Parked id handle rx (pastOf i c.trace) ∧
      (∀ e ∈ c.trace, e.tid = j → ∀ m, e.call.landed e.reply = some m →
        ¬ Claimable c.shared id handle m) ∧
      ∀ change, ¬ MadeTrue c j id handle change := by
  obtain ⟨handle, hparked⟩ := hblocked.parked h
  have hres : ResolvedIn (pastOf i c.trace) id handle := hparked.resolvedIn
  exact ⟨handle, hres, hparked,
    fun e he hej m hm => not_claimable h hblocked hparked (hi hres) hdone he hej hm,
    fun change => not_madeTrue h hblocked hparked hdone hj change⟩

/-- Alice has written to bob, who has read it and waits for more. -/
def waitingBob : List Request := gather none [alice, bob] ++
  [.sendMessage demoRoom ⟨alice, none, "hello", false⟩, .waitRoom demoRoom ⟨bob, none⟩,
    .waitRoom demoRoom ⟨bob, none⟩]

theorem no_lost_wakeup_waitingBob : ∃ handle,
    ResolvedIn (pastOf 5 (demo waitingBob).trace) demoRoom handle ∧
      Parked demoRoom handle 1 (pastOf 5 (demo waitingBob).trace) ∧
      (∀ e ∈ (demo waitingBob).trace, e.tid = 3 → ∀ m, e.call.landed e.reply = some m →
        ¬ Claimable (demo waitingBob).shared demoRoom handle m) ∧
      ∀ change, ¬ MadeTrue (demo waitingBob) 3 demoRoom handle change := by
  obtain ⟨hstay, hwaiting, hnothing, hreturned⟩ :
      (∀ e ∈ (demo waitingBob).trace, ∀ p ∈ e.before.db.participants, e.call.prunes p = false) ∧
      ((demo waitingBob).threads[5]?.bind receiving = some (demoRoom, 1, 600000000000) ∧
        (demo waitingBob).shared.instant < 600000000000) ∧
      (demo waitingBob).shared.hub.pending 1 = 0 ∧
      ∃ t ∈ (demo waitingBob).threads[3]?, t.req.writes = true ∧
        t.returned = some (.ok (.sent 1)) := by decide +kernel
  have hkept : ∀ handle, NotPruned (demo waitingBob).trace handle := by
    rintro handle e he ⟨p, hp, -, hprunes⟩
    rw [hstay e he p hp] at hprunes
    cases hprunes
  have hblocked : BlockedAt (demo waitingBob) 5 demoRoom 1 :=
    ⟨⟨600000000000, hwaiting⟩, hnothing⟩
  have hdone : Completed (demo waitingBob) 3 := by
    obtain ⟨t, ht, hwrites, ha⟩ := hreturned
    exact ⟨t, _, ht, hwrites, ha⟩
  exact no_lost_wakeup (reachable_demo _) (fun _ => hkept _) (fun _ => hkept _) hblocked hdone

end ChatBotChat
