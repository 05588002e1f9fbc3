/-
Who is behind a call.

A call names a participant by its handle alone, and the tables do not say which request
made it.  What is done in somebody's name is done by a request that gave one of its names
and met it in the room.

* `authored` — every message was posted, and every vote was cast, by a request that had
  come as the participant whose it is;
* `nobody_impersonated` — whatever requests of others do, and however they are
  interleaved, a participant keeps its row, but for votes that the room clears, and no
  message appears under its handle; unless that is the handle of a row that was pruned.
-/
import ChatBotChat.Isolation

namespace ChatBotChat

open Interleave

variable {app : AppState} {c c' : Daemon} {e : Step} {tr new older : List Step} {req : Request}
  {past : Log} {k : Call} {r : k.Reply} {id inst handle : String} {p q : Participant} {m : Message}
  {s s' : Store} {sess : List UInt16} {j : ℕ} {t : Thread Call Call.Reply Request Outcome}

/-! ### Speaking for somebody -/

/-- The participant in whose name a call is made, by its handle. -/
def Call.speaker : Call → Option String
  | .createMessageTyped _ handle _ _ _ _ _ _ | .createMessageCapped _ handle _ _ _ _ _ =>
    some handle
  | k => k.whom

theorem speaker_of_whom (hk : k.whom = some handle) : k.speaker = some handle := by
  cases k <;> first | exact hk | cases hk

theorem signed_or_claims (hk : k.speaker = some handle) :
    k.signed = true ∨ ∃ seq cursor, k = .advanceCursor seq handle cursor := by
  cases k
  case advanceCursor seq handle' cursor =>
    obtain rfl := Option.some_inj.mp hk
    exact .inr ⟨seq, cursor, rfl⟩
  all_goals first | exact .inl rfl | cases hk

/-- Whoever acts as a participant speaks for nobody else. -/
theorem speaker_eq {handle' : String} (hk : k.speaker = some handle) (hacts : k.ActsAs handle') :
    handle = handle' := by
  cases k <;> first | exact (Option.some_inj.mp hk).symm.trans hacts | cases hk

/-- A message is landed under the handle that its call speaks for. -/
theorem speaker_of_landed (h : Store.exec sess k s = .done r s') (hm : k.landed r = some m) :
    k.speaker = some m.sender := by
  have hrow := (landed_row h hm).1
  cases k
  case createMessageTyped =>
    obtain rfl := Option.some_inj.mp hrow
    rfl
  case createMessageCapped =>
    obtain rfl := Option.some_inj.mp hrow
    rfl
  all_goals cases hrow

theorem signed_of_landed (hm : k.landed r = some m) : k.signed = true := by
  cases k <;> first | rfl | cases hm

/-- A message is landed in the room of its request. -/
theorem room_of_landed (h : Store.exec sess k s = .done r s') (hg : GuardedCall req past k)
    (hm : k.landed r = some m) : req.room = some m.roomId := by
  have hrow := (landed_row h hm).1
  cases k
  case createMessageTyped =>
    obtain rfl := Option.some_inj.mp hrow
    exact hg.1
  case createMessageCapped =>
    obtain rfl := Option.some_inj.mp hrow
    exact hg.1
  all_goals cases hrow

/-! ### Coming as somebody -/

/-- Before the calls `older`, request `j` has come as the participant `p`: it is about its
room, gives one of its names, and has found its row there. -/
structure CameAs (c : Daemon) (j : ℕ) (older : List Step) (p : Participant) : Prop where
  named : ∃ t inst, c.threads[j]? = some t ∧ t.req.ComesAs p.roomId inst ∧
    (p.inst = inst ∨ p.handle = inst)
  met : ∃ newer k oldest, older = newer ++ k :: oldest ∧ k.tid = j ∧ p ∈ k.after.db.participants

/-- Whomever a request has met was there when it looked. -/
theorem Recorded.met_row (h : Recorded app c e older) (hmet : Met id inst p (pastOf j older)) :
    p.roomId = id ∧ (p.inst = inst ∨ p.handle = inst) ∧
      ∃ newer k oldest, older = newer ++ k :: oldest ∧ k.tid = j ∧ p ∈ k.after.db.participants := by
  obtain ⟨s₀, -, hist⟩ := h.history
  rcases hmet with ⟨found, hfound, hsub⟩ | ⟨roster, hread, hmem, hpinst⟩
  · cases hfound with
    | byInstance =>
      obtain ⟨before, after, sess, newer, oldest, hsplit, hexec, -⟩ :=
        hist.seen (hsub List.mem_cons_self)
      obtain ⟨hfind, rfl⟩ := done_of_read hexec
      obtain ⟨hp, hroom, hinst⟩ := Db.getParticipantByInstance_spec hfind
      exact ⟨hroom, .inl hinst, newer, _, oldest, hsplit, rfl, hp⟩
    | byHandle =>
      obtain ⟨before, after, sess, newer, oldest, hsplit, hexec, -⟩ :=
        hist.seen (hsub List.mem_cons_self)
      obtain ⟨hfind, rfl⟩ := done_of_read hexec
      obtain ⟨hp, hroom, hhandle⟩ := Db.getParticipantByHandle_spec hfind
      exact ⟨hroom, .inr hhandle, newer, _, oldest, hsplit, rfl, hp⟩
  · obtain ⟨before, after, sess, newer, oldest, hsplit, hexec, -⟩ := hist.seen hread
    obtain ⟨hlist, rfl⟩ := done_of_read hexec
    rw [← hlist] at hmem
    obtain ⟨hp, hroom⟩ := mem_listParticipants.mp hmem
    exact ⟨hroom, .inl hpinst, newer, _, oldest, hsplit, rfl, hp⟩

/-- A request of the daemon's that speaks for somebody has a caller. -/
theorem caller_of_speaker (hd : Discipline req past k) (hsigned : k.signed = true → req.caller ≠ none)
    (hserved : k.signed = true ∨ req.served = true) (hk : k.speaker = some handle) :
    req.caller ≠ none := by
  rcases signed_or_claims hk with hsign | ⟨seq, cursor, rfl⟩
  · exact hsigned hsign
  · have hserved : req.served = true := hserved.resolve_left nofun
    obtain ⟨id', m, past', -, -, hfor, -⟩ := hd
    cases req with
    | waitRoom id'' r => nofun
    | claimNextUnread id'' handle'' => cases hserved
    | _ => exact hfor.elim

/-- **Whoever speaks for a participant has come as one of its handle.** -/
theorem Recorded.cameAs (h : Recorded app c e older) (hreach : Reachable app c)
    (ht : c.threads[e.tid]? = some t) (hserved : e.call.signed = true ∨ t.req.served = true)
    (hk : e.call.speaker = some handle) : ∃ p, CameAs c e.tid older p ∧ p.handle = handle := by
  obtain ⟨t₁, ht₁, hd⟩ := h.disciplined
  obtain ⟨t₂, ht₂, hacting⟩ := hreach.acting.event h.suffix
  obtain ⟨t₃, ht₃, hsigned⟩ := hreach.signed.event h.suffix
  obtain rfl := Option.some_inj.mp (ht.symm.trans ht₁)
  obtain rfl := Option.some_inj.mp (ht.symm.trans ht₂)
  obtain rfl := Option.some_inj.mp (ht.symm.trans ht₃)
  obtain ⟨id, inst, hcomes⟩ := comesAs_of_caller (caller_of_speaker hd hsigned hserved hk)
  rcases hacting id inst hcomes with hall | ⟨p, hmet, hacts⟩ | ⟨⟨p, hcreate⟩, -⟩
  · -- nobody goes by every handle
    exact absurd ((speaker_eq hk (hall "")).symm.trans (speaker_eq hk (hall "a"))) (by decide)
  · obtain ⟨rfl, hname, hrow⟩ := h.met_row hmet
    exact ⟨p, ⟨⟨t, inst, ht, hcomes, hname⟩, hrow⟩, (speaker_eq hk hacts).symm⟩
  · rw [hcreate] at hk
    cases hk

/-- Whoever came as a participant came as the one that has its handle now, unless a row of
that handle was pruned. -/
theorem CameAs.key_eq (h : CameAs c e.tid older p) (hreach : Reachable app c)
    (hrec : Recorded app c e older) (hkept : NotPruned older p.handle)
    (hq : q ∈ e.before.db.participants) (hhandle : q.handle = p.handle) : q.key = p.key := by
  obtain ⟨newer, k, oldest, rfl, -, hp⟩ := h.met
  have hk : Recorded app c k oldest :=
    hreach.recorded ((List.suffix_append _ _).trans ((List.suffix_cons _ _).trans hrec.suffix))
  obtain ⟨p', hp', hsame, hinst⟩ := (hreach.history_between hrec.suffix).instance_kept
    hk.wellFormed_after hp fun e' he' => hkept e' (List.mem_append_left _ he')
  obtain rfl := hrec.wellFormed_before.participant_unique hq hp' (hhandle.trans hsame.handle.symm)
  rw [Participant.key, Participant.key, hsame.roomId, hinst, hhandle]

/-! ### Votes -/

/-- The votes that a participant can cast. -/
inductive Vote where
  | close
  | extend

/-- When it was cast, if it was. -/
def Vote.of : Vote → Participant → Option OffsetDateTime
  | .close, p => p.wantsCloseAt
  | .extend, p => p.wantsExtendAt

/-- The call casts the vote of `handle`. -/
def Vote.CastBy (handle : String) (at_ : OffsetDateTime) : Vote → Call → Prop
  | .close, k => k = .setCloseVote handle (some at_)
  | .extend, k => ∃ id step cutoff quorum, k = .tryExtend id handle step at_ cutoff quorum

/-- The request asks for the vote. -/
def Vote.AskedBy : Vote → Request → Prop
  | .close, req => ∃ id r, req = .closeRoom id r
  | .extend, req => ∃ id r, req = .extendRoom id r

variable {v : Vote} {at_ : OffsetDateTime}

/-- A vote after a call was there before, or is cast by the call. -/
theorem vote_after (h : v.of (k.onParticipant r p) = some at_) :
    v.CastBy p.handle at_ k ∨ v.of p = some at_ := by
  cases k
  case setCloseVote handle' now =>
    simp only [Call.onParticipant] at h
    split at h
    · rename_i heq
      cases v with
      | close =>
        obtain rfl : now = some at_ := h
        exact .inl (heq ▸ rfl)
      | extend => exact .inr h
    · exact .inr h
  case tryExtend id' voter step now cutoff quorum =>
    by_cases hvoter : p.handle = voter
    · cases v with
      | close =>
        refine .inr ?_
        cases r <;> simp only [Call.onParticipant, hvoter, ↓reduceIte] at h
        · split at h <;> exact h
        · exact h
      | extend =>
        refine .inl ⟨id', step, cutoff, quorum, ?_⟩
        cases r <;> simp only [Call.onParticipant, hvoter, ↓reduceIte] at h
        · split at h
          · cases h
          · cases h
            rw [hvoter]
        · cases h
          rw [hvoter]
    · refine .inr ?_
      cases r <;> simp only [Call.onParticipant, hvoter, ↓reduceIte] at h
      · split at h
        · cases v with
          | close => exact h
          | extend => cases h
        · exact h
      · exact h
  case clearCloseVotes id' =>
    simp only [Call.onParticipant] at h
    split at h
    · cases v with
      | close => cases h
      | extend => exact .inr h
    · exact .inr h
  case clearExtendVote handle' =>
    simp only [Call.onParticipant] at h
    split at h
    · cases v with
      | close => exact .inr h
      | extend => cases h
    · exact .inr h
  all_goals
    refine .inr ?_
    simp only [Call.onParticipant] at h
    try split at h
  all_goals cases v <;> exact h

theorem Vote.CastBy.speaker (h : v.CastBy handle at_ k) :
    k.speaker = some handle ∧ k.signed = true := by
  cases v with
  | close =>
    obtain rfl : k = _ := h
    exact ⟨rfl, rfl⟩
  | extend =>
    obtain ⟨id, step, cutoff, quorum, rfl⟩ := h
    exact ⟨rfl, rfl⟩

theorem Vote.CastBy.asked (h : v.CastBy handle at_ k) (hd : Discipline req past k) :
    v.AskedBy req := by
  cases v with
  | close =>
    obtain rfl : k = _ := h
    obtain ⟨id, r, -, rfl, -⟩ := hd
    exact ⟨id, r, rfl⟩
  | extend =>
    obtain ⟨id, step, cutoff, quorum, rfl⟩ := h
    obtain ⟨⟨r, rfl⟩, -⟩ := hd
    exact ⟨id, r, rfl⟩

/-- Every vote was cast by a call, and has been in its row at every call since. -/
def VotesCast (tr : List Step) (s : Store) : Prop :=
  ∀ (v : Vote), ∀ p ∈ s.db.participants, ∀ at_, v.of p = some at_ → ∃ newer e older,
    tr = newer ++ e :: older ∧ v.CastBy p.handle at_ e.call ∧
      (∃ q ∈ e.before.db.participants, q.key = p.key) ∧
      ∀ e' ∈ newer, ∃ q ∈ e'.before.db.participants, q.key = p.key ∧ v.of q = some at_

theorem Reachable.votesCast (h : Reachable app c) : Throughout c VotesCast := by
  refine h.induction ?_ ?_ ?_
  · rintro s₀ ⟨hdb, -⟩
    simp [VotesCast, hdb, Db.empty]
  · intro tr s₁ s₂ hdb _ _ _ hcast
    rwa [VotesCast, hdb]
  · intro e tr hrec hcast v p' hp' at_ hvote
    rcases hrec.effect.mem_participants.mp hp' with ⟨p, hp, -, rfl⟩ | hjoined
    · rw [Call.key_onParticipant, Call.onParticipant_handle]
      rcases vote_after hvote with hcall | hvote
      · exact ⟨[], e, tr, rfl, hcall, ⟨p, hp, rfl⟩, by simp⟩
      · obtain ⟨newer, e₀, older, rfl, hcall, hrow, hstood⟩ := hcast v p hp at_ hvote
        refine ⟨e :: newer, e₀, older, rfl, hcall, hrow, ?_⟩
        rw [List.forall_mem_cons]
        exact ⟨⟨p, hp, rfl, hvote⟩, hstood⟩
    · -- nobody joins with a vote
      obtain ⟨t, -, hd⟩ := hrec.disciplined
      obtain ⟨tid, call, reply, before, after⟩ := e
      cases call
      case createParticipant p =>
        cases reply
        · obtain rfl := Option.some_inj.mp hjoined
          cases v with
          | close =>
            obtain ⟨-, hnone, -⟩ := hd
            cases hnone.symm.trans hvote
          | extend =>
            obtain ⟨-, -, hnone, -⟩ := hd
            cases hnone.symm.trans hvote
        · cases hjoined
      all_goals cases hjoined

/-! ### What was done in whose name -/

/-- **Every message and every vote is its owner's.**  A message was posted by a request
about its room that had come as a participant of its sender's handle.  A vote was cast by a
close, or an extend, that had come as a participant of the voter's handle, the voter itself
unless a row of that handle was pruned before; and the vote has been in the voter's row at
every call since. -/
theorem authored (h : Reachable app c) :
    (∀ m ∈ c.shared.db.messages, ∃ e older p, e :: older <:+ c.trace ∧
      e.call.landed e.reply = some m ∧ CameAs c e.tid older p ∧ p.handle = m.sender ∧
        p.roomId = m.roomId) ∧
    ∀ (v : Vote), ∀ q ∈ c.shared.db.participants, ∀ at_, v.of q = some at_ →
      ∃ newer e older p, c.trace = newer ++ e :: older ∧ v.CastBy q.handle at_ e.call ∧
        (∃ t, c.threads[e.tid]? = some t ∧ v.AskedBy t.req) ∧
        CameAs c e.tid older p ∧ p.handle = q.handle ∧
        (NotPruned older q.handle → p.key = q.key) ∧
        ∀ e' ∈ newer, ∃ q' ∈ e'.before.db.participants, q'.key = q.key ∧ v.of q' = some at_ := by
  constructor
  · intro m hm
    rw [h.ledger.now.landed, mem_landings] at hm
    obtain ⟨e, he, hlanded⟩ := hm
    obtain ⟨older, hrec⟩ := h.recorded_of_mem he
    obtain ⟨sess, hexec⟩ := hrec.exec
    obtain ⟨t, ht, hg⟩ := h.guarded.event hrec.suffix
    obtain ⟨p, hcame, hhandle⟩ := hrec.cameAs h ht (.inl (signed_of_landed hlanded))
      (speaker_of_landed hexec hlanded)
    refine ⟨e, older, p, hrec.suffix, hlanded, hcame, hhandle, ?_⟩
    obtain ⟨t', inst, ht', hcomes, -⟩ := hcame.named
    obtain rfl := Option.some_inj.mp (ht.symm.trans ht')
    exact Option.some_inj.mp (hcomes.1.symm.trans (room_of_landed hexec hg hlanded))
  · intro v q hq at_ hvote
    obtain ⟨newer, e, older, htr, hcast, ⟨q₀, hq₀, hkey⟩, hstood⟩ := h.votesCast.now v q hq at_ hvote
    have hrec : Recorded app c e older := h.recorded ⟨newer, htr.symm⟩
    obtain ⟨t, ht, hd⟩ := hrec.disciplined
    obtain ⟨p, hcame, hhandle⟩ := hrec.cameAs h ht (.inl hcast.speaker.2) hcast.speaker.1
    refine ⟨newer, e, older, p, htr, hcast, ⟨t, ht, hcast.asked hd⟩, hcame, hhandle, ?_, hstood⟩
    intro hkept
    rw [← hhandle] at hkept
    rw [← hkey, hcame.key_eq h hrec hkept hq₀]
    rw [Participant.handle_of_key hkey, hhandle]

/-- Alice writes, and bob votes to close. -/
def bobVotes : List Request := gather none [alice, bob] ++
  [.sendMessage demoRoom ⟨alice, none, "hello", false⟩, .closeRoom demoRoom ⟨bob, none, false⟩]

set_option maxRecDepth 10000 in
theorem authored_bob : ∃ q ∈ (demo bobVotes).shared.db.participants, q.inst = "bob" ∧
    ∃ newer e older p, (demo bobVotes).trace = newer ++ e :: older ∧
      Vote.close.CastBy q.handle 0 e.call ∧ CameAs (demo bobVotes) e.tid older p ∧ p.key = q.key := by
  have hvoted : ∃ q ∈ (demo bobVotes).shared.db.participants, q.inst = "bob" ∧
      q.wantsCloseAt = some 0 ∧ NotPruned (demo bobVotes).trace q.handle := by decide +kernel
  obtain ⟨q, hq, hinst, hvote, hkept⟩ := hvoted
  obtain ⟨newer, e, older, p, htr, hcast, -, hcame, -, hkey, -⟩ :=
    (authored (reachable_demo bobVotes)).2 .close q hq 0 hvote
  refine ⟨q, hq, hinst, newer, e, older, p, htr, hcast, hcame, hkey fun e' he' => hkept e' ?_⟩
  rw [htr]
  exact List.mem_append_right _ (List.mem_cons_of_mem _ he')

/-! ### What others leave alone -/

/-- A row and a later one between which the room may have cleared the votes. -/
structure Untouched (p q : Participant) : Prop where
  row : q = { p with wantsCloseAt := q.wantsCloseAt, wantsExtendAt := q.wantsExtendAt }
  votes : ∀ v : Vote, v.of q = v.of p ∨ v.of q = none

theorem Untouched.refl (p : Participant) : Untouched p p := ⟨rfl, fun _ => .inl rfl⟩

theorem Untouched.key (h : Untouched p q) : q.key = p.key := by
  rw [h.row]
  rfl

theorem Untouched.trans {u : Participant} (h : Untouched p q) (h' : Untouched q u) :
    Untouched p u := by
  constructor
  · rw [h'.row, h.row]
  · intro v
    rcases h'.votes v with heq | hnone
    · rw [heq]
      exact h.votes v
    · exact .inr hnone

/-- A call for others may clear the votes of a participant, no more. -/
theorem untouched_of_whom (hwhom : k.whom ≠ some p.handle) : Untouched p (k.onParticipant r p) := by
  rcases onParticipant_of_whom hwhom with heq | ⟨-, heq | heq⟩
  · rw [heq]
    exact .refl p
  · rw [heq]
    refine ⟨rfl, fun v => ?_⟩
    cases v with
    | close => exact .inr rfl
    | extend => exact .inl rfl
  · rw [heq]
    refine ⟨rfl, fun v => ?_⟩
    cases v with
    | close => exact .inl rfl
    | extend => exact .inr rfl

/-- A request of the daemon's that gives no name of the participant's. -/
structure OfOthers (p : Participant) (req : Request) : Prop where
  byInstance : ¬ req.ComesAs p.roomId p.inst
  byHandle : ¬ req.ComesAs p.roomId p.handle
  served : req.served = true

instance (id inst : String) (req : Request) : Decidable (req.ComesAs id inst) :=
  inferInstanceAs (Decidable (_ ∧ _))

instance (p : Participant) (req : Request) : Decidable (OfOthers p req) :=
  decidable_of_iff (¬ req.ComesAs p.roomId p.inst ∧ ¬ req.ComesAs p.roomId p.handle ∧
    req.served = true) ⟨fun h => ⟨h.1, h.2.1, h.2.2⟩, fun h => ⟨h.byInstance, h.byHandle, h.served⟩⟩

/-- **A call of others is not made in the name of a participant**, unless a row of its
handle was pruned. -/
theorem Recorded.speaker_ne (h : Recorded app c e older) (hreach : Reachable app c)
    (ht : c.threads[e.tid]? = some t) (hothers : OfOthers p t.req)
    (hq : q ∈ e.before.db.participants) (hkey : q.key = p.key)
    (hkept : NotPruned older p.handle) : e.call.speaker ≠ some p.handle := by
  intro hk
  obtain ⟨p', hcame, hhandle⟩ := h.cameAs hreach ht (.inr hothers.served) hk
  rw [← hhandle] at hkept
  have hkey' : p.key = p'.key := hkey.symm.trans
    (hcame.key_eq hreach h hkept hq ((Participant.handle_of_key hkey).trans hhandle.symm))
  obtain ⟨t', inst, ht', hcomes, hname⟩ := hcame.named
  obtain rfl := Option.some_inj.mp (ht.symm.trans ht')
  rw [← Participant.roomId_of_key hkey'] at hcomes
  rcases hname with rfl | rfl
  · have hinst : p'.inst = p.inst := congrArg (fun key => key.2.1) hkey'.symm
    exact hothers.byInstance (hinst ▸ hcomes)
  · exact hothers.byHandle (hhandle ▸ hcomes)

/-- **Nobody is impersonated**: however many requests of others are served, and however
they are interleaved, a participant keeps its row as it is, but for votes that were
cleared, and no message appears under its handle; unless a row of that handle is pruned. -/
theorem nobody_impersonated (h : Reachable app c) (hrun : (daemon app).Run c c')
    (hnew : c'.trace = new ++ c.trace) (hp : p ∈ c.shared.db.participants)
    (hothers : ∀ e ∈ new, ∀ t, c'.threads[e.tid]? = some t → OfOthers p t.req)
    (hkept : NotPruned c'.trace p.handle) :
    (∃ q ∈ c'.shared.db.participants, Untouched p q) ∧
      c'.shared.db.messages.filter (·.sender = p.handle) =
        c.shared.db.messages.filter (·.sender = p.handle) := by
  refine h.induction_from (P := fun _ s => (∃ q ∈ s.db.participants, Untouched p q) ∧
    s.db.messages.filter (·.sender = p.handle) =
      c.shared.db.messages.filter (·.sender = p.handle)) hrun hnew ⟨⟨p, hp, .refl p⟩, rfl⟩ ?_ ?_
  · intro tr s₁ s₂ hdb _ _ _ hs
    rwa [hdb]
  · rintro e tr hsuf hrec ⟨⟨q, hq, hrow⟩, hmessages⟩
    obtain ⟨t, ht, -⟩ := hrec.disciplined
    obtain ⟨sess, hexec⟩ := hrec.exec
    have hhandle : q.handle = p.handle := Participant.handle_of_key hrow.key
    have hspeaker : e.call.speaker ≠ some p.handle := by
      refine hrec.speaker_ne (h.run hrun) ht (hothers e (hsuf.mem List.mem_cons_self) t ht) hq
        hrow.key fun e' he' => hkept e' ?_
      exact hrec.suffix.subset (List.mem_cons_of_mem _ he')
    constructor
    · refine ⟨_, hrec.effect.kept hq ?_, hrow.trans (untouched_of_whom fun hwhom => ?_)⟩
      · rw [hhandle]
        exact hkept e (hrec.suffix.subset List.mem_cons_self)
      · exact hspeaker (speaker_of_whom (hwhom.trans (congrArg some hhandle)))
    · have hlanded : (e.call.landed e.reply).toList.filter (·.sender = p.handle) = [] := by
        rw [List.filter_eq_nil_iff]
        intro m hm hsender
        rw [Option.mem_toList] at hm
        exact hspeaker ((speaker_of_landed hexec hm).trans (congrArg some (of_decide_eq_true hsender)))
      rw [hrec.effect.messages, List.filter_append, hlanded, List.append_nil, hmessages]

/-- Bob talks and votes. -/
def bobTalk : List Request := [.sendMessage demoRoom ⟨bob, none, "hello", false⟩,
  .extendRoom demoRoom bob, .closeRoom demoRoom ⟨bob, none, false⟩]

set_option maxRecDepth 10000 in
theorem nobody_impersonated_alice : ∃ p ∈ (demo (gather none [alice, bob])).shared.db.participants,
    p.inst = "alice" ∧
      ∃ q ∈ (demo (gather none [alice, bob] ++ bobTalk)).shared.db.participants, Untouched p q := by
  have hrun := run_demo_append (gather none [alice, bob]) bobTalk
  obtain ⟨new, hnew, -⟩ := hrun.history
  have hrow : ∃ p ∈ (demo (gather none [alice, bob])).shared.db.participants, p.inst = "alice" ∧
      NotPruned (demo (gather none [alice, bob] ++ bobTalk)).trace p.handle ∧
      ∀ e ∈ (demo (gather none [alice, bob] ++ bobTalk)).trace, 3 ≤ e.tid →
        ((demo (gather none [alice, bob] ++ bobTalk)).threads[e.tid]?.all
          fun t => OfOthers p t.req) = true := by
    decide +kernel
  have hnewer : ∀ e ∈ (demo (gather none [alice, bob] ++ bobTalk)).trace.take
      ((demo (gather none [alice, bob] ++ bobTalk)).trace.length -
        (demo (gather none [alice, bob])).trace.length), 3 ≤ e.tid := by
    decide +kernel
  rw [take_newer hnew] at hnewer
  obtain ⟨p, hp, hinst, hkept, hothers⟩ := hrow
  refine ⟨p, hp, hinst, (nobody_impersonated (reachable_demo _) hrun hnew hp ?_ hkept).1⟩
  intro e he t ht
  have hmem : e ∈ (demo (gather none [alice, bob] ++ bobTalk)).trace :=
    hnew ▸ List.mem_append_left _ he
  have hall := hothers e hmem (hnewer e he)
  rw [ht] at hall
  exact of_decide_eq_true hall

end ChatBotChat
