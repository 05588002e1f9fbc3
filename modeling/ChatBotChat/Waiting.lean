/-
The wait and the claim follow their discipline.

* `claimNextUnread_upholds` — the rule of a claim: whatever races it loses, it
  ends as `FoundNothing` or `Delivered`;
* `waitForMessageUntil_upholds` — the rule of the long-poll: each time it parks
  it has just found nothing and seen nothing to yield for;
* `serve_upholds` — every request's program upholds `Discipline` and ends in
  `Conclusion`.
-/
import ChatBotChat.Handlers

namespace ChatBotChat

open Interleave Lifecycle

variable {app : AppState} {req : Request} {past : Log} {id handle : String}

/-! ### Programs that only look -/

/-- A task of at most `n` calls that read and take no part in a claim. -/
abbrev Looks {α : Type} (n : ℕ) (p : Task α) : Prop := Prog.Only (fun c => c.glance = true) p n

theorem Looks.perform {c : Call} (hc : c.glance = true) : Looks 1 (perform c) := Prog.Only.perform hc

theorem Looks.upholds {α : Type} {n : ℕ} {p : Task α} (h : Looks n p) {Q : Log → α → Prop}
    (hQ : ∀ newer a, Glances newer → Q (newer ++ past) a) :
    p.Upholds (Discipline req) past Q := by
  refine (Prog.Only.upholds h fun newer c hc => discipline_of_glance hc).mono ?_
  rintro _ a ⟨newer, rfl, _, hnewer⟩
  exact hQ newer a hnewer

theorem looks_hasCounterpart : Looks 1 (hasCounterpart id handle) :=
  (Looks.perform rfl).bind (n := 0) fun _ => .pure _

theorem looks_closeProposed : Looks 2 (closeProposed id handle) :=
  (Looks.perform rfl).bind (n := 1) fun _ => (Looks.perform rfl).bind (n := 0) fun _ => .pure _

theorem looks_extendProposed : Looks 2 (extendProposed id handle) :=
  (Looks.perform rfl).bind (n := 1) fun _ => (Looks.perform rfl).bind (n := 0) fun _ => .pure _

theorem looks_counterpartIsStale : Looks 2 (counterpartIsStale id handle) :=
  (Looks.perform rfl).bind (n := 1) fun _ => (Looks.perform rfl).bind (n := 0) fun _ => .pure _

theorem looks_activeSentinelBackoff : Looks 2 (activeSentinelBackoff id handle) := by
  refine (Looks.perform rfl).bind (n := 1) fun latest => ?_
  cases latest with
  | none => exact .pure _
  | some m =>
    dsimp only
    split
    · split
      · exact .pure _
      · exact (Looks.perform rfl).bind (n := 0) fun _ => .pure _
    · exact .pure _

theorem looks_counterpartBusyBackoff : Looks 3 (counterpartBusyBackoff id handle) := by
  refine (Looks.perform rfl).bind (n := 2) fun latest => ?_
  cases latest with
  | none => exact .pure _
  | some latest =>
    dsimp only
    split
    · exact .pure _
    · refine (Looks.perform rfl).bind (n := 1) fun participants => ?_
      split
      · exact (Looks.perform rfl).bind (n := 0) fun _ => .pure _
      · exact .pure _

theorem looks_retryHint {away : Option UInt32} : Looks 3 (retryHint id handle away) := by
  cases away with
  | none => exact looks_counterpartBusyBackoff
  | some secs => exact .pure _

theorem looks_parkCap {fullCap : ℕ} : Looks 8 (parkCap id handle fullCap) := by
  refine looks_activeSentinelBackoff.bind (n := 6) fun away => ?_
  cases away with
  | some secs => exact .pure _
  | none =>
    refine looks_counterpartIsStale.bind (n := 4) fun stale => ?_
    cases stale with
    | true => exact .pure _
    | false =>
      refine looks_closeProposed.bind (n := 2) fun closing => ?_
      cases closing with
      | true => exact .pure _
      | false =>
        refine looks_extendProposed.bind (n := 0) fun extending => ?_
        cases extending <;> exact .pure _

theorem looks_timeoutResponse {retryAfter : Option UInt32} {away : Bool} :
    Looks 7 (timeoutResponse id handle retryAfter away) := by
  refine (Looks.perform rfl).bind (n := 6) fun room => ?_
  cases room with
  | none => exact .pure _
  | some room =>
    dsimp only
    split
    · exact .pure _
    · refine looks_closeProposed.bind (n := 4) fun closing => ?_
      cases closing with
      | true => exact .pure _
      | false =>
        refine looks_extendProposed.bind (n := 2) fun extending => ?_
        cases extending with
        | true => exact .pure _
        | false =>
          cases away with
          | true => exact .pure _
          | false =>
            refine looks_counterpartIsStale.bind (n := 0) fun stale => ?_
            cases stale <;> exact .pure _

/-! ### Claiming -/

/-- The rule of a claim, for any discipline of its three calls. -/
theorem claimNextUnread_upholds {Φ : Log → Call → Prop} {Q : Log → Option Message → Prop}
    (hread : ∀ tries, Lost id handle tries → Φ (tries ++ past) (.readCursor handle))
    (hnext : ∀ tries cursor, Lost id handle tries →
      Φ (⟨.readCursor handle, some cursor⟩ :: (tries ++ past)) (.nextUnread id handle cursor))
    (hswap : ∀ tries cursor m, Lost id handle tries →
      Φ (⟨.nextUnread id handle cursor, some m⟩ :: ⟨.readCursor handle, some cursor⟩ ::
        (tries ++ past)) (.advanceCursor m.seq handle cursor))
    (hnone : ∀ claim, FoundNothing id handle claim → Q (claim ++ past) none)
    (hsome : ∀ claim m, Delivered id handle m claim → Q (claim ++ past) (some m)) :
    (claimNextUnread id handle).Upholds Φ past Q := by
  refine Prog.upholds_iterate (fun past' _ => ∃ tries, Lost id handle tries ∧ past' = tries ++ past)
    ⟨[], .start, rfl⟩ ?_
  rintro _ _ ⟨tries, htries, rfl⟩
  refine .step (hread tries htries) fun cursor => ?_
  cases cursor with
  | none => exact hnone _ (.gone htries)
  | some cursor =>
    refine .step (hnext tries cursor htries) fun m => ?_
    cases m with
    | none => exact hnone _ (.caughtUp htries)
    | some m =>
      refine .step (hswap tries cursor m htries) fun claimed => ?_
      cases claimed with
      | true => exact hsome _ m (.round htries)
      | false => exact ⟨_, .round htries, rfl⟩

theorem Undelivered.nil : Undelivered [] := by simp [Undelivered]

theorem Undelivered.append {past' : Log} (h : Undelivered past) (h' : Undelivered past') :
    Undelivered (past ++ past') := by
  intro seq handle cursor hmem
  rcases List.mem_append.mp hmem with hmem | hmem
  · exact h _ _ _ hmem
  · exact h' _ _ _ hmem

theorem Undelivered.cons {x : Sigma Call.Reply} (h : Undelivered past)
    (hx : ∀ seq handle cursor, x.1 ≠ .advanceCursor seq handle cursor) :
    Undelivered (x :: past) := by
  intro seq handle cursor hmem
  rcases List.mem_cons.mp hmem with heq | hmem
  · exact hx seq handle cursor (congrArg Sigma.fst heq).symm
  · exact h _ _ _ hmem

theorem Glances.undelivered (h : Glances past) : Undelivered past := by
  intro seq handle cursor hmem
  exact absurd (h _ hmem) (by simp [Call.glance])

theorem Lost.undelivered (h : Lost id handle past) : Undelivered past := by
  induction h with
  | start => exact .nil
  | round _ ih =>
    intro _ _ _ hmem
    rcases List.mem_cons.mp hmem with heq | hmem
    · cases heq
    · exact (ih.cons (by simp)).cons (by simp) _ _ _ hmem

theorem FoundNothing.undelivered (h : FoundNothing id handle past) : Undelivered past := by
  cases h with
  | gone h => exact h.undelivered.cons (by simp)
  | caughtUp h => exact (h.undelivered.cons (by simp)).cons (by simp)

/-- A claim for the inbox of its request keeps the discipline. -/
theorem claimNextUnread_disciplined {Q : Log → Option Message → Prop}
    (hfor : ∀ newer, ClaimsFor req (newer ++ past) id handle) (hund : Undelivered past)
    (hnone : ∀ claim, FoundNothing id handle claim → Q (claim ++ past) none)
    (hsome : ∀ claim m, Delivered id handle m claim → Q (claim ++ past) (some m)) :
    (claimNextUnread id handle).Upholds (Discipline req) past Q :=
  claimNextUnread_upholds (fun _ _ => trivial) (fun _ _ _ => trivial)
    (fun tries _ m htries => ⟨id, m, _, rfl, rfl, hfor tries, htries.undelivered.append hund⟩)
    hnone hsome

/-! ### Waiting -/

/-- The log at the moment the long-poll asks whether to yield. -/
inductive Asking (id handle : String) (rx start timeout : ℕ) : Log → Prop
  | mk {claim older : Log} {instant : ℕ} : FoundNothing id handle claim → Awake id rx older →
      ResolvedIn older id handle → ⟨.instantNow, start⟩ ∈ older → instant < start + timeout →
      Asking id handle rx start timeout (⟨.instantNow, instant⟩ :: (claim ++ older))

/-- What every round of the long-poll starts from: it has just subscribed or been
woken, and nothing has been delivered. -/
structure NextRound (id : String) (rx start : ℕ) (past past' : Log) : Prop where
  suffix : past <:+ past'
  undelivered : Undelivered past'
  awake : Awake id rx past'
  subscribed : ⟨.subscribe id, rx⟩ ∈ past'
  started : ⟨.instantNow, start⟩ ∈ past'

/-- A wake starts the next round. -/
theorem NextRound.woken {rx start : ℕ} {past' newer : Log} (deadline : ℕ) (outcome : RecvOutcome)
    (h : NextRound id rx start past past') (hnewer : Undelivered newer) :
    NextRound id rx start past (⟨.recv rx deadline, outcome⟩ :: (newer ++ past')) where
  suffix := (h.suffix.trans (List.suffix_append _ _)).trans (List.suffix_cons _ _)
  undelivered := (hnewer.append h.undelivered).cons (by simp)
  awake := .woken (List.mem_append_right _ h.subscribed)
  subscribed := List.mem_cons_of_mem _ (List.mem_append_right _ h.subscribed)
  started := List.mem_cons_of_mem _ (List.mem_append_right _ h.started)

/-- The rule of the long-poll: `yields` is only asked with time left and nothing
to claim, and where it does not yield the log must be one of a park. -/
theorem waitForMessageUntil_upholds {r : WaitRequest} {timeout : ℕ} {yields : Task Bool}
    {Q : Log → WaitOutcome → Prop} (hres : ResolvedIn past id handle) (hund : Undelivered past)
    (hyields : ∀ rx start past', Asking id handle rx start timeout past' →
      yields.Upholds (Discipline (.waitRoom id r)) past' fun past'' b =>
        ∃ newer, Glances newer ∧ past'' = newer ++ past' ∧
          (b = false → Parked id handle rx past'' ∨ WentBack past''))
    (hmsg : ∀ claim older m, Delivered id handle m claim → Undelivered older → past <:+ older →
      Q (claim ++ older) (.message m))
    (htime : ∀ past', Undelivered past' → past <:+ past' → Q past' .pausedByTimeout) :
    (waitForMessageUntil id handle timeout yields).Upholds (Discipline (.waitRoom id r)) past Q := by
  refine .step trivial fun now => ?_
  refine .step ⟨id, past, rfl, hres.cons, rfl⟩ fun _ => ?_
  refine .step trivial fun rx => .step trivial fun start => ?_
  refine Prog.upholds_iterate (fun past' _ => NextRound id rx start past past') ?_ ?_
  · refine ⟨⟨[_, _, _, _], rfl⟩, ?_, .subscribed, by simp, by simp⟩
    exact (((hund.cons (by simp)).cons (by simp)).cons (by simp)).cons (by simp)
  · intro past' _ hround
    have hres' : ResolvedIn past' id handle := hres.mono hround.suffix.subset
    refine .bind (claimNextUnread_disciplined (fun _ => ⟨rfl, hres'.append⟩) hround.undelivered ?_ ?_)
    · intro claim hclaim
      refine .step trivial fun instant => ?_
      have hund' : Undelivered (⟨.instantNow, instant⟩ :: claim) :=
        hclaim.undelivered.cons (by simp)
      by_cases hlate : start + timeout ≤ instant
      · simp only [hlate, ↓reduceIte]
        exact htime _ (hund'.append hround.undelivered)
          (hround.suffix.trans (List.suffix_append (⟨.instantNow, instant⟩ :: claim) _))
      · simp only [hlate]
        have hasking : Asking id handle rx start timeout (⟨.instantNow, instant⟩ :: (claim ++ past')) :=
          .mk hclaim hround.awake hres' hround.started (Nat.lt_of_not_le hlate)
        refine .bind ((hyields rx start _ hasking).mono ?_)
        rintro _ b ⟨newer, hnewer, rfl, hpark⟩
        have hund'' := hnewer.undelivered.append hund'
        rw [← List.cons_append, ← List.append_assoc] at hpark ⊢
        have hsuf := hround.suffix.trans
          (List.suffix_append (newer ++ ⟨.instantNow, instant⟩ :: claim) past')
        cases b with
        | true => exact htime _ (hund''.append hround.undelivered) hsuf
        | false =>
          refine .step ⟨id, r, handle, rfl, hres.mono hsuf.subset, hpark rfl⟩ fun outcome => ?_
          have hwoken := hround.woken (start + timeout) outcome hund''
          cases outcome with
          | ping => exact hwoken
          | lagged => exact hwoken
          | elapsed => exact htime _ hwoken.undelivered hwoken.suffix
          | closed =>
            have hfor : ∀ newer', ClaimsFor (.waitRoom id r) (newer' ++ _) id handle :=
              fun _ => ⟨rfl, (hres.mono hwoken.suffix.subset).append⟩
            refine .bind (claimNextUnread_disciplined hfor hwoken.undelivered ?_ ?_)
            · intro claim' hclaim'
              exact htime _ (hclaim'.undelivered.append hwoken.undelivered)
                (hwoken.suffix.trans (List.suffix_append _ _))
            · intro claim' m hclaim'
              exact hmsg _ _ m hclaim' hwoken.undelivered hwoken.suffix
    · intro claim m hclaim
      exact hmsg _ _ m hclaim hround.undelivered hround.suffix

/-- Asking for a relevant change only looks, and where there is none the log is
one of a park. -/
theorem waitRelevantChange_upholds {rx start timeout : ℕ} {past : Log}
    (hasking : Asking id handle rx start timeout past) :
    (waitRelevantChange id handle).Upholds (Discipline req) past fun past' b =>
      ∃ newer, Glances newer ∧ past' = newer ++ past ∧ (b = false → Parked id handle rx past') := by
  refine .step trivial fun room => ?_
  cases hhalted : room.elim false (·.state.halted) with
  | true => exact ⟨[_], by simp [Call.glance], rfl, nofun⟩
  | false =>
    refine .bind (.step trivial fun t₁ => .step trivial fun closing => ?_)
    cases hclosing : proposalPending Participant.wantsCloseAt closing handle t₁ with
    | true => exact ⟨[_, _, _], by simp [Call.glance], rfl, nofun⟩
    | false =>
      refine .step trivial fun t₂ => .step trivial fun extending => ?_
      refine ⟨[_, _, _, _, _], by simp [Call.glance], rfl, fun hextending => ?_⟩
      obtain ⟨hfound, hawake, hres, _, _⟩ := hasking
      exact .mk hawake hres hfound hhalted hclosing hextending

/-- The drain never yields, and can only park if the clock went back. -/
theorem drain_yields {rx start : ℕ} {past : Log} (hasking : Asking id handle rx start 0 past) :
    (pure false : Task Bool).Upholds (Discipline req) past fun past' b =>
      ∃ newer, Glances newer ∧ past' = newer ++ past ∧ (b = false → WentBack past') := by
  refine ⟨[], glances_nil, rfl, fun _ => ?_⟩
  obtain @⟨claim, _, instant, _, _, _, hstart, hlt⟩ := hasking
  obtain ⟨newer, older, rfl⟩ := List.append_of_mem hstart
  exact ⟨instant, start, claim ++ newer, older, hlt, by simp⟩

/-- The answer of a wait that delivered a message. -/
theorem WaitAnswered.message {m : Message} {newer claim older : Log} {surfaceToUser : Bool}
    (retryAfter : Option UInt32) (roomState : Option String) (hclaim : Delivered id handle m claim)
    (hnewer : Undelivered newer) (holder : Undelivered older) (hres : ResolvedIn older id handle)
    (hsurf : Surfaced id m surfaceToUser newer older) :
    WaitAnswered id (newer ++ (claim ++ older))
      (.ok (.waited (.message (messageView m) surfaceToUser retryAfter roomState))) :=
  ⟨handle, m, newer, claim, older, rfl, hclaim, hnewer, holder, hres, rfl, hsurf⟩

theorem drainHalted_upholds {r : WaitRequest} {room : Room} (hres : ResolvedIn past id handle)
    (hund : Undelivered past) (hroom : ⟨.getRoom id, some room⟩ ∈ past)
    (hhalted : room.state.halted = true) :
    (drainHalted id handle room.state).Upholds (Discipline (.waitRoom id r)) past
      fun past a => WaitAnswered id past (a.map .waited) := by
  refine .bind (waitForMessageUntil_upholds hres hund ?_ ?_ ?_)
  · intro rx start past' hasking
    refine (drain_yields hasking).mono ?_
    rintro past'' b ⟨newer, hnewer, rfl, hback⟩
    exact ⟨newer, hnewer, rfl, fun hb => .inr (hback hb)⟩
  · intro claim older m hclaim holder hsuf
    exact .message none (some room.state.asStr) hclaim .nil holder (hres.mono hsuf.subset)
      ⟨room, hsuf.subset hroom, .inl ⟨hhalted, rfl⟩⟩
  · intro past' hund' _
    exact hund'

/-- What `timeoutResponse` reports is never a message. -/
theorem timeoutResponse_upholds {r : WaitRequest} {retryAfter : Option UInt32} {away : Bool}
    (hund : Undelivered past) :
    (timeoutResponse id handle retryAfter away).Upholds (Discipline (.waitRoom id r)) past
      fun past a => WaitAnswered id past (a.map .waited) := by
  refine .step trivial fun room => ?_
  have hund' : Undelivered (⟨.getRoom id, room⟩ :: past) := hund.cons (by simp)
  cases room with
  | none => exact hund'
  | some room =>
    dsimp only
    split
    · exact hund'
    · refine .bind (looks_closeProposed.upholds fun newer closing hnewer => ?_)
      have hund₁ := hnewer.undelivered.append hund'
      cases closing with
      | true => exact hund₁
      | false =>
        refine .bind (looks_extendProposed.upholds fun newer' extending hnewer' => ?_)
        have hund₂ := hnewer'.undelivered.append hund₁
        cases extending with
        | true => exact hund₂
        | false =>
          cases away with
          | true => exact hund₂
          | false =>
            refine .bind (looks_counterpartIsStale.upholds fun newer'' stale hnewer'' => ?_)
            have hund₃ := hnewer''.undelivered.append hund₂
            cases stale <;> exact hund₃

theorem waitRoom_upholds (id : String) (r : WaitRequest) :
    (waitRoom app id r).Upholds (Discipline (.waitRoom id r)) []
      fun past a => WaitAnswered id past (a.map .waited) := by
  refine .step trivial fun room => ?_
  cases room with
  | none => exact Undelivered.nil.cons (by simp)
  | some room =>
    have hund₀ : Undelivered [⟨.getRoom id, some room⟩] := Undelivered.nil.cons (by simp)
    refine .bind (resolveParticipant_upholds ?_ ?_)
    · intro newer hnewer
      exact hnewer.undelivered.append hund₀
    · intro newer p hnewer hres
      refine .step trivial fun now => .step ⟨id, _, rfl, hres.cons, rfl⟩ fun _ => ?_
      have hund₁ := ((hnewer.undelivered.append hund₀).cons (x := ⟨.nowUtc, now⟩)
        (by simp)).cons (x := ⟨.touchLastPoll p.handle now, ()⟩) (by simp)
      have hres₁ := (hres.cons (x := ⟨.nowUtc, now⟩)).cons
        (x := ⟨.touchLastPoll p.handle now, ()⟩)
      have hroom : ∀ past : Log, ⟨.getRoom id, some room⟩ ∈ past ++ ⟨.touchLastPoll p.handle now, ()⟩ ::
          ⟨.nowUtc, now⟩ :: (newer ++ [⟨.getRoom id, some room⟩]) := by simp
      by_cases hhalted : room.state.halted = true
      · simp only [hhalted, ↓reduceIte]
        exact drainHalted_upholds hres₁ hund₁ (hroom []) hhalted
      · simp only [hhalted]
        refine .bind (looks_hasCounterpart.upholds fun newer₂ counterpart hnewer₂ => ?_)
        have hund₂ := hnewer₂.undelivered.append hund₁
        cases counterpart with
        | false => exact hund₂
        | true =>
          refine .bind (looks_parkCap.upholds fun newer₃ cap hnewer₃ => ?_)
          have hund₃ := hnewer₃.undelivered.append hund₂
          have hres₃ : ResolvedIn (newer₃ ++ (newer₂ ++ _)) id p.handle := hres₁.append.append
          rw [← List.append_assoc] at hund₃ hres₃ ⊢
          refine .bind (waitForMessageUntil_upholds hres₃ hund₃ ?_ ?_ ?_)
          · intro rx start past' hasking
            refine (waitRelevantChange_upholds hasking).mono ?_
            rintro past'' b ⟨newer', hnewer', rfl, hpark⟩
            exact ⟨newer', hnewer', rfl, fun hb => .inl (hpark hb)⟩
          · intro claim older m hclaim holder hsuf
            refine .bind (looks_activeSentinelBackoff.upholds fun newer₄ away hnewer₄ => ?_)
            refine .bind (looks_retryHint.upholds fun newer₅ retryAfter hnewer₅ => ?_)
            refine .step trivial fun consecutive => ?_
            rw [← List.append_assoc, ← List.cons_append]
            refine .message retryAfter none hclaim ?_ holder (hres₃.mono hsuf.subset)
              ⟨room, hsuf.subset (hroom _), .inr ⟨by simpa using hhalted, consecutive, by simp, rfl⟩⟩
            exact (hnewer₅.undelivered.append hnewer₄.undelivered).cons (by simp)
          · intro past' hund' _
            refine .bind (looks_activeSentinelBackoff.upholds fun newer₄ away hnewer₄ => ?_)
            refine .bind (looks_retryHint.upholds fun newer₅ retryAfter hnewer₅ => ?_)
            exact timeoutResponse_upholds
              (hnewer₅.undelivered.append (hnewer₄.undelivered.append hund'))

theorem claimRequest_upholds (id handle : String) :
    (claimNextUnread id handle).Upholds (Discipline (.claimNextUnread id handle)) []
      fun past m => ClaimAnswered id handle past (.ok (.claimed m)) := by
  refine claimNextUnread_disciplined (fun _ => ⟨rfl, rfl⟩) .nil ?_ ?_
  · intro claim hclaim
    rw [List.append_nil]
    exact hclaim
  · intro claim m hclaim
    rw [List.append_nil]
    exact hclaim

/-! ### Every request -/

/-- **Every handler follows its discipline**, whatever the replies are. -/
theorem serve_upholds (app : AppState) (req : Request) :
    (serve app req).Upholds (Discipline req) [] (Conclusion req) := by
  cases req with
  | openRoom r =>
    exact upholds_answering.mpr ((openRoom_upholds r).mono fun _ _ _ => ⟨nofun, trivial⟩)
  | listRooms state all => exact upholds_answering.mpr (.step trivial fun _ => ⟨nofun, trivial⟩)
  | joinRoom id r =>
    exact upholds_answering.mpr ((joinRoom_upholds id r).mono fun _ _ _ => ⟨nofun, trivial⟩)
  | sendMessage id r =>
    refine upholds_answering.mpr ((sendMessage_upholds id r).mono fun past a h => ⟨?_, h.2⟩)
    rintro _ _ ⟨⟩
    exact h.1
  | signalRoom id r =>
    refine upholds_answering.mpr ((signalRoom_upholds id r).mono fun past a h => ⟨?_, trivial⟩)
    rintro _ _ ⟨⟩
    exact h
  | waitRoom id r =>
    exact upholds_answering.mpr ((waitRoom_upholds id r).mono fun past a h => ⟨nofun, h⟩)
  | closeRoom id r =>
    refine upholds_answering.mpr ((closeRoom_upholds id r).mono fun past a h => ⟨?_, trivial⟩)
    rintro _ _ ⟨⟩
    exact h
  | extendRoom id r =>
    refine upholds_answering.mpr ((extendRoom_upholds id r).mono fun past a h => ⟨?_, h.2⟩)
    rintro _ _ ⟨⟩
    exact h.1
  | pauseRoom id r =>
    refine upholds_answering.mpr ((applyTransition_upholds rfl rfl (by decide)).mono
      fun past a h => ⟨?_, trivial⟩)
    rintro _ _ ⟨⟩
    exact h
  | wakeRoom id r =>
    refine upholds_answering.mpr ((applyTransition_upholds rfl rfl (by decide)).mono
      fun past a h => ⟨?_, trivial⟩)
    rintro _ _ ⟨⟩
    exact h
  | pruneRoom id =>
    exact upholds_answering.mpr ((pruneRoom_upholds id).mono fun _ _ _ => ⟨nofun, trivial⟩)
  | sweep => exact .bind (sweepTick_upholds.mono fun _ _ _ => ⟨nofun, trivial⟩)
  | claimNextUnread id handle =>
    exact .bind ((claimRequest_upholds id handle).mono fun _ _ h => ⟨nofun, h⟩)

end ChatBotChat
