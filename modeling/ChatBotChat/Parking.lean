/-
How long a wait parks, and whom it keeps alive.

A wait touches the row of the participant it resolved its caller to, subscribes,
reads the clock, and never parks beyond that reading and its cap (`Clocked`); it
has touched the row whenever it answers with a response, and the hint of the
response is a minute at most (`WaitDone`).
-/
import ChatBotChat.Reach
import ChatBotChat.Cbc.Poll

namespace ChatBotChat

open Interleave Poll

variable {app : AppState} {past : Log} {id inst handle : String} {cap : ℕ}

/-! ### The log of a wait -/

/-- The log shows `handle` as the participant under `inst`: by its instance, or by its
handle where the instance is nobody's. -/
def FoundAs (past : Log) (id inst handle : String) : Prop :=
  ∃ p : Participant, p.handle = handle ∧ (⟨.getParticipantByInstance id inst, some p⟩ ∈ past ∨
    ⟨.getParticipantByInstance id inst, none⟩ ∈ past ∧ ⟨.getParticipantByHandle id inst, some p⟩ ∈ past)

theorem FoundAs.mono {past' : Log} (h : FoundAs past id inst handle) (hsub : past ⊆ past') :
    FoundAs past' id inst handle := by
  obtain ⟨p, hp, hread | ⟨hnone, hread⟩⟩ := h
  · exact ⟨p, hp, .inl (hsub hread)⟩
  · exact ⟨p, hp, .inr ⟨hsub hnone, hsub hread⟩⟩

/-- The deadline is at most `cap` behind the clock that was read right after the
participant was touched. -/
def Clocked (cap : ℕ) (id inst : String) (past : Log) (deadline : ℕ) : Prop :=
  ∃ start rx handle now older, deadline ≤ start + cap ∧ FoundAs older id inst handle ∧
    ⟨.instantNow, start⟩ :: ⟨.subscribe id, rx⟩ :: ⟨.touchLastPoll handle now, ()⟩ ::
      ⟨.nowUtc, now⟩ :: older <:+ past

/-- What a wait knows when it touches a row, and when it parks. -/
def WaitCall (cap : ℕ) (id inst : String) (past : Log) : Call → Prop
  | .touchLastPoll handle _ => FoundAs past id inst handle
  | .recv _ deadline => Clocked cap id inst past deadline
  | _ => True

/-- The log shows a touch of the participant under `inst`. -/
def Touched (id inst : String) (past : Log) : Prop :=
  ∃ handle now, ⟨.touchLastPoll handle now, ()⟩ ∈ past ∧ FoundAs past id inst handle

/-- What a wait has done when it answers. -/
def WaitDone (id inst : String) (past : Log) : Outcome → Prop
  | .ok (.waited resp) => Hinted resp ∧ Touched id inst past
  | .ok _ => False
  | .error _ => ⟨.getRoom id, none⟩ ∈ past ∨
      ⟨.getParticipantByInstance id inst, none⟩ ∈ past ∧ ⟨.getParticipantByHandle id inst, none⟩ ∈ past

/-- The longest park a wait asks for. -/
def WaitRequest.parkCap (app : AppState) (req : WaitRequest) : ℕ :=
  match req.maxWaitSecs with
  | some secs => secs.toNat * 1000000000
  | none => app.waitCap

/-- The discipline of a wait, as one of all requests. -/
def WaitDiscipline (app : AppState) (req : Request) (past : Log) (k : Call) : Prop :=
  ∀ id r, req = .waitRoom id r → WaitCall (r.parkCap app) id (effectiveInstance r.toCaller) past k

/-- What a wait has done when it answers, as a conclusion of all requests. -/
def WaitConclusion (req : Request) (past : Log) (a : Outcome) : Prop :=
  ∀ id r, req = .waitRoom id r → WaitDone id (effectiveInstance r.toCaller) past a

/-! ### Hints -/

/-- The hint is a minute at most. -/
def Minute (hint : Option UInt32) : Prop := ∀ secs, hint = some secs → secs.toNat ≤ 60

theorem backoffSecs_le (severity : Severity) (elapsed : ℤ) : (backoffSecs severity elapsed).toNat ≤ 60 := by
  unfold backoffSecs
  rw [UInt32.toNat_ofNat']
  exact (Nat.mod_le _ _).trans (min_le_right _ _)

theorem minute_none : Minute none := by
  intro secs h
  cases h

theorem minute_backoffSecs (severity : Severity) (elapsed : ℤ) :
    Minute (some (backoffSecs severity elapsed)) := by
  rintro secs ⟨⟩
  exact backoffSecs_le severity elapsed

/-- Programs that only look are free to. -/
theorem Looks.parking {α : Type} {n : ℕ} {p : Task α} (h : Looks n p) {Q : Log → α → Prop}
    (hQ : ∀ newer a, Q (newer ++ past) a) : p.Upholds (WaitCall cap id inst) past Q := by
  refine (Prog.Only.upholds h fun newer c hc => ?_).mono ?_
  · cases c
    case touchLastPoll => cases hc
    case recv => cases hc
    all_goals trivial
  · rintro _ a ⟨newer, rfl, -, -⟩
    exact hQ newer a

theorem activeSentinelBackoff_minute {Q : Log → Option UInt32 → Prop}
    (hQ : ∀ newer away, Minute away → Q (newer ++ past) away) :
    (activeSentinelBackoff id handle).Upholds (WaitCall cap id inst) past Q := by
  refine .step trivial fun latest => ?_
  cases latest with
  | none => exact hQ [_] none minute_none
  | some m =>
    dsimp only
    split
    · split
      · exact hQ [_] none minute_none
      · exact .step trivial fun now => hQ [_, _] _ (minute_backoffSecs _ _)
    · exact hQ [_] none minute_none

theorem counterpartBusyBackoff_minute {Q : Log → Option UInt32 → Prop}
    (hQ : ∀ newer hint, Minute hint → Q (newer ++ past) hint) :
    (counterpartBusyBackoff id handle).Upholds (WaitCall cap id inst) past Q := by
  refine .step trivial fun latest => ?_
  cases latest with
  | none => exact hQ [_] none minute_none
  | some latest =>
    dsimp only
    split
    · exact hQ [_] none minute_none
    · refine .step trivial fun participants => ?_
      split
      · exact .step trivial fun now => hQ [_, _, _] _ (minute_backoffSecs _ _)
      · exact hQ [_, _] none minute_none

theorem retryHint_minute {away : Option UInt32} (haway : Minute away)
    {Q : Log → Option UInt32 → Prop} (hQ : ∀ newer hint, Minute hint → Q (newer ++ past) hint) :
    (retryHint id handle away).Upholds (WaitCall cap id inst) past Q := by
  cases away with
  | none => exact counterpartBusyBackoff_minute hQ
  | some secs => exact hQ [] _ haway

/-- The status of a wait carries no hint, or the one it was given. -/
theorem timeoutResponse_hinted {hint : Option UInt32} (hhint : Minute hint) {away : Bool}
    {Q : Log → Except ApiError WaitResponse → Prop}
    (hnone : ∀ newer e, ⟨.getRoom id, none⟩ ∈ newer → Q (newer ++ past) (.error e))
    (hQ : ∀ newer resp, Hinted resp → Q (newer ++ past) (.ok resp)) :
    (timeoutResponse id handle hint away).Upholds (WaitCall cap id inst) past Q := by
  refine .step trivial fun room => ?_
  cases room with
  | none => exact hnone [_] _ List.mem_cons_self
  | some room =>
    have hplain : ∀ newer status, Q (newer ++ ⟨.getRoom id, some room⟩ :: past)
        (.ok (.timeout status none)) := by
      intro newer status
      rw [List.append_cons]
      exact hQ _ _ minute_none
    have hhinted : ∀ newer status, Q (newer ++ ⟨.getRoom id, some room⟩ :: past)
        (.ok (.timeout status hint)) := by
      intro newer status
      rw [List.append_cons]
      exact hQ _ _ hhint
    dsimp only
    split
    · exact hplain [] _
    · refine .bind (looks_closeProposed.parking fun newer closing => ?_)
      cases closing with
      | true => exact hplain newer _
      | false =>
        refine .bind (looks_extendProposed.parking fun newer' extending => ?_)
        rw [← List.append_assoc]
        cases extending with
        | true => exact hplain _ _
        | false =>
          cases away with
          | true => exact hhinted _ _
          | false =>
            refine .bind (looks_counterpartIsStale.parking fun newer'' stale => ?_)
            rw [← List.append_assoc]
            cases stale with
            | true => exact hplain _ _
            | false => exact hhinted _ _

/-! ### The long-poll -/

/-- The rule of a claim in a wait. -/
theorem claimNextUnread_parking {Q : Log → Option Message → Prop}
    (hQ : ∀ newer m, Q (newer ++ past) m) :
    (claimNextUnread id handle).Upholds (WaitCall cap id inst) past Q :=
  claimNextUnread_upholds (fun _ _ => trivial) (fun _ _ _ => trivial) (fun _ _ _ _ => trivial)
    (fun claim _ => hQ claim none) (fun claim m _ => hQ claim (some m))

/-- The rule of the long-poll: each park ends at one and the same deadline. -/
theorem waitForMessageUntil_parking {timeout : ℕ} {yields : Task Bool} {Q : Log → WaitOutcome → Prop}
    (htimeout : timeout ≤ cap) (hfound : FoundAs past id inst handle)
    (hyields : ∀ past, yields.Upholds (WaitCall cap id inst) past fun past' _ => past <:+ past')
    (hQ : ∀ past' outcome, past <:+ past' → Q past' outcome) :
    (waitForMessageUntil id handle timeout yields).Upholds (WaitCall cap id inst) past Q := by
  refine .step trivial fun now => .step (hfound.mono (List.subset_cons_self _ _)) fun _ => ?_
  refine .step trivial fun rx => .step trivial fun start => ?_
  -- every round still shows the clock that was read at the start
  let base : Log := ⟨.instantNow, start⟩ :: ⟨.subscribe id, rx⟩ :: ⟨.touchLastPoll handle now, ()⟩ ::
    ⟨.nowUtc, now⟩ :: past
  have hbase : past <:+ base := ⟨[_, _, _, _], rfl⟩
  refine Prog.upholds_iterate (fun past' _ => base <:+ past') List.suffix_rfl ?_
  intro past' _ hsuf
  refine .bind (claimNextUnread_parking fun newer m => ?_)
  have hsuf₁ : base <:+ newer ++ past' := hsuf.trans (List.suffix_append _ _)
  cases m with
  | some m => exact hQ _ _ (hbase.trans hsuf₁)
  | none =>
    refine .step trivial fun instant => ?_
    have hsuf₂ : base <:+ ⟨.instantNow, instant⟩ :: (newer ++ past') :=
      hsuf₁.trans (List.suffix_cons _ _)
    split
    · exact hQ _ _ (hbase.trans hsuf₂)
    · refine .bind ((hyields _).mono fun past'' b hyield => ?_)
      have hsuf₃ : base <:+ past'' := hsuf₂.trans hyield
      cases b with
      | true => exact hQ _ _ (hbase.trans hsuf₃)
      | false =>
        have hclocked : Clocked cap id inst past'' (start + timeout) :=
          ⟨start, rx, handle, now, past, by omega, hfound, hsuf₃⟩
        refine .step hclocked fun outcome => ?_
        have hsuf₄ : base <:+ ⟨.recv rx (start + timeout), outcome⟩ :: past'' :=
          hsuf₃.trans (List.suffix_cons _ _)
        cases outcome with
        | ping => exact hsuf₄
        | lagged => exact hsuf₄
        | elapsed => exact hQ _ _ (hbase.trans hsuf₄)
        | closed =>
          refine .bind (claimNextUnread_parking fun newer' m => ?_)
          have hsuf₅ := hsuf₄.trans (List.suffix_append newer' _)
          cases m <;> exact hQ _ _ (hbase.trans hsuf₅)

theorem waitRelevantChange_parking (past : Log) :
    (waitRelevantChange id handle).Upholds (WaitCall cap id inst) past fun past' _ => past <:+ past' := by
  refine .step trivial fun room => ?_
  split
  · exact List.suffix_cons _ _
  · refine .bind (looks_closeProposed.parking fun newer closing => ?_)
    have hsuf : past <:+ newer ++ ⟨.getRoom id, room⟩ :: past :=
      (List.suffix_cons _ _).trans (List.suffix_append _ _)
    cases closing with
    | true => exact hsuf
    | false =>
      exact looks_extendProposed.parking fun newer' extending => hsuf.trans (List.suffix_append _ _)

/-- The park is no longer than the wait asked for. -/
theorem parkCap_parking {fullCap : ℕ} {Q : Log → ℕ → Prop}
    (hQ : ∀ newer n, n ≤ fullCap → Q (newer ++ past) n) :
    (parkCap id handle fullCap).Upholds (WaitCall cap id inst) past Q := by
  refine .bind (activeSentinelBackoff_minute fun newer away _ => ?_)
  cases away with
  | some secs => exact hQ newer _ (min_le_left _ _)
  | none =>
    refine .bind (looks_counterpartIsStale.parking fun newer₁ stale => ?_)
    rw [← List.append_assoc]
    cases stale with
    | true => exact hQ _ 0 (Nat.zero_le _)
    | false =>
      refine .bind (looks_closeProposed.parking fun newer₂ closing => ?_)
      rw [← List.append_assoc]
      cases closing with
      | true => exact hQ _ 0 (Nat.zero_le _)
      | false =>
        refine .bind (looks_extendProposed.parking fun newer₃ extending => ?_)
        rw [← List.append_assoc]
        cases extending with
        | true => exact hQ _ 0 (Nat.zero_le _)
        | false => exact hQ _ _ le_rfl

/-! ### The wait -/

theorem Touched.mono {past' : Log} (h : Touched id inst past) (hsub : past ⊆ past') :
    Touched id inst past' := by
  obtain ⟨handle, now, hmem, hfound⟩ := h
  exact ⟨handle, now, hsub hmem, hfound.mono hsub⟩

theorem resolveParticipant_parking {Q : Log → Option Participant → Prop}
    (hnone : ∀ newer : Log, ⟨.getParticipantByInstance id inst, none⟩ ∈ newer ∧
      ⟨.getParticipantByHandle id inst, none⟩ ∈ newer → Q (newer ++ past) none)
    (hsome : ∀ newer (p : Participant), FoundAs newer id inst p.handle → Q (newer ++ past) (some p)) :
    (resolveParticipant id inst).Upholds (WaitCall cap id inst) past Q := by
  refine .step trivial fun byInstance => ?_
  cases byInstance with
  | some p => exact hsome [_] p ⟨p, rfl, .inl List.mem_cons_self⟩
  | none =>
    refine ⟨trivial, fun byHandle => ?_⟩
    cases byHandle with
    | some p => exact hsome [_, _] p ⟨p, rfl, .inr ⟨by simp, by simp⟩⟩
    | none => exact hnone [_, _] ⟨by simp, by simp⟩

theorem Touched.of_found {now : OffsetDateTime}
    (h : FoundAs (⟨.touchLastPoll handle now, ()⟩ :: past) id inst handle) :
    Touched id inst (⟨.touchLastPoll handle now, ()⟩ :: past) :=
  ⟨handle, now, List.mem_cons_self, h⟩

theorem drainHalted_parking {state : RoomState} (hfound : FoundAs past id inst handle)
    (htouched : Touched id inst past) :
    (drainHalted id handle state).Upholds (WaitCall cap id inst) past
      fun past a => WaitDone id inst past (a.map .waited) := by
  refine .bind (waitForMessageUntil_parking (Nat.zero_le cap) hfound
    (fun past => List.suffix_rfl) fun past' outcome hsuf => ?_)
  have htouched' := htouched.mono hsuf.subset
  cases outcome with
  | message m => exact ⟨trivial, htouched'⟩
  | pausedByTimeout => exact ⟨minute_none, htouched'⟩

/-- What a wait answers with after its long-poll. -/
theorem waitAnswer_parking {room : Room} {outcome : WaitOutcome} (htouched : Touched id inst past) :
    (do
      let away ← activeSentinelBackoff id handle
      let retryAfter ← retryHint id handle away
      match outcome with
      | .message m =>
        let consecutive ← perform (.consecutiveMsgCount id m.seq)
        let surfaceToUser := decide ((consecutive : ℤ) = room.config.softCap.toNat - 1)
        return .ok (.message (messageView m) surfaceToUser retryAfter none)
      | .pausedByTimeout => timeoutResponse id handle retryAfter away.isSome :
        Task (Except ApiError WaitResponse)).Upholds (WaitCall cap id inst) past
      fun past a => WaitDone id inst past (a.map .waited) := by
  refine .bind (activeSentinelBackoff_minute fun newer₁ away haway => ?_)
  refine .bind (retryHint_minute haway fun newer₂ hint hhint => ?_)
  have hsub : past ⊆ newer₂ ++ (newer₁ ++ past) := by
    intro x hx
    simp [hx]
  cases outcome with
  | message m =>
    refine .step trivial fun consecutive => ⟨trivial, htouched.mono ?_⟩
    exact fun x hx => List.mem_cons_of_mem _ (hsub hx)
  | pausedByTimeout =>
    refine timeoutResponse_hinted hhint (fun newer e hnone => ?_) fun newer resp hresp => ?_
    · exact .inl (List.mem_append_left _ hnone)
    · refine ⟨hresp, htouched.mono ?_⟩
      exact fun x hx => List.mem_append_right _ (hsub hx)

theorem waitRoom_parking (app : AppState) (id : String) (r : WaitRequest) :
    (waitRoom app id r).Upholds (WaitCall (r.parkCap app) id (effectiveInstance r.toCaller)) []
      fun past a => WaitDone id (effectiveInstance r.toCaller) past (a.map .waited) := by
  refine .step trivial fun room => ?_
  cases room with
  | none => exact .inl List.mem_cons_self
  | some room =>
    refine .bind (resolveParticipant_parking ?_ fun newer p hfound => ?_)
    · intro newer hnobody
      exact .inr ⟨List.mem_append_left _ hnobody.1, List.mem_append_left _ hnobody.2⟩
    · refine .step trivial fun now => .step (hfound.mono ?_) fun _ => ?_
      · exact List.subset_cons_of_subset _ (List.subset_append_left _ _)
      have hfound₁ : FoundAs (⟨.touchLastPoll p.handle now, ()⟩ :: ⟨.nowUtc, now⟩ ::
          (newer ++ [⟨.getRoom id, some room⟩])) id (effectiveInstance r.toCaller) p.handle :=
        hfound.mono fun x hx => by simp [hx]
      have htouched := Touched.of_found hfound₁
      cases hhalted : room.state.halted with
      | true => exact drainHalted_parking hfound₁ htouched
      | false =>
        refine .bind (looks_hasCounterpart.parking fun newer₂ counterpart => ?_)
        cases counterpart with
        | false => exact ⟨minute_none, htouched.mono (List.subset_append_right _ _)⟩
        | true =>
          refine .bind (parkCap_parking fun newer₃ cap hcap => ?_)
          have hsub : ⟨.touchLastPoll p.handle now, ()⟩ :: ⟨.nowUtc, now⟩ ::
              (newer ++ [⟨.getRoom id, some room⟩]) ⊆ newer₃ ++ (newer₂ ++
                ⟨.touchLastPoll p.handle now, ()⟩ :: ⟨.nowUtc, now⟩ ::
                  (newer ++ [⟨.getRoom id, some room⟩])) :=
            List.subset_append_of_subset_right _ (List.subset_append_right _ _)
          have hlong : cap ≤ r.parkCap app := by
            refine hcap.trans ?_
            unfold WaitRequest.parkCap
            cases r.maxWaitSecs with
            | none => exact le_rfl
            | some secs => exact min_le_right _ _
          refine .bind (waitForMessageUntil_parking hlong (hfound₁.mono hsub)
            waitRelevantChange_parking fun past' outcome hsuf => ?_)
          exact waitAnswer_parking (htouched.mono fun x hx => hsuf.subset (hsub hx))

theorem serve_parking (app : AppState) (req : Request) :
    (serve app req).Upholds (WaitDiscipline app req) [] (WaitConclusion req) := by
  by_cases hwait : ∃ id r, req = .waitRoom id r
  · obtain ⟨id, r, rfl⟩ := hwait
    refine Prog.Upholds.imp ?_ ?_ (upholds_answering.mpr (waitRoom_parking app id r))
    · rintro past k hk id' r' heq
      cases heq
      exact hk
    · rintro past a ha id' r' heq
      cases heq
      exact ha
  · refine Prog.upholds_of_forall ?_ ?_
    · exact fun past k id r heq => absurd ⟨id, r, heq⟩ hwait
    · exact fun past a id r heq => absurd ⟨id, r, heq⟩ hwait

/-- **Every wait of a reachable daemon** parks and answers as it did. -/
theorem Reachable.parking {c : Daemon} (h : Reachable app c) :
    System.Upheld (WaitDiscipline app) WaitConclusion c := by
  obtain ⟨utc, instant, hrun⟩ := h
  have hbody : ∀ r, ((daemon app).body r).Upholds (WaitDiscipline app r) [] (WaitConclusion r) :=
    serve_parking app
  exact hrun.upheld hbody

end ChatBotChat
