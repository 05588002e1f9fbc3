/-
What a join does, call by call.

A join that is answered has come by its handle in one of three ways
(`Attached`): it found the participant, it met it in the roster, or it minted
it; and the messages it answers with are the window up to the cursor that this
way gave it.  A join that fails has minted nothing, and has tried often enough
(`JoinAnswered`).  Besides reading, it makes two kinds of calls only: an insert
for its own instance, and a nickname for a participant it has found
(`JoinCall`).
-/
import ChatBotChat.Reach

namespace ChatBotChat

open Interleave

variable {app : AppState} {past : Log} {id inst : String}

/-! ### The log of a join -/

/-- The call minted a participant. -/
def Call.mints : (c : Call) → c.Reply → Bool
  | .createParticipant _, .inserted => true
  | _, _ => false

/-- The call met a unique key. -/
def Call.refused : (c : Call) → c.Reply → Bool
  | .createParticipant _, .uniqueViolation => true
  | _, _ => false

/-- The log shows no participant minted. -/
def Unminted (past : Log) : Prop := ∀ x ∈ past, x.1.mints x.2 = false

/-- How many inserts met a unique key. -/
def failedInserts (past : Log) : ℕ := past.countP fun x => x.1.refused x.2

/-- After every insert that met a unique key, a look under the instance found nobody. -/
def Retried (id inst : String) (past : Log) : Prop := ∀ newer p older,
  past = newer ++ ⟨.createParticipant p, .uniqueViolation⟩ :: older →
    ⟨.getParticipantByInstance id inst, none⟩ ∈ newer

/-- The log shows `p` as the participant under `inst`: by its instance, by its
handle, or in the roster. -/
def FoundIn (past : Log) (id inst : String) (p : Participant) : Prop :=
  ⟨.getParticipantByInstance id inst, some p⟩ ∈ past ∨
    ⟨.getParticipantByHandle id inst, some p⟩ ∈ past ∨
      ∃ roster, ⟨.listParticipants id, roster⟩ ∈ past ∧ p ∈ roster ∧ p.inst = inst

/-- How a join came by its handle and its cursor; the flag is `resumed`. -/
inductive Attached (id inst : String) : String → Bool → ℕ → Log → Prop
  | found {p : Participant} {past : Log} :
      ⟨.getParticipantByInstance id inst, some p⟩ ∈ past ∨
        ⟨.getParticipantByHandle id inst, some p⟩ ∈ past →
      Unminted past → Attached id inst p.handle true p.lastReadSeq past
  | reused {q : Participant} {row : Option Participant} {startSeq : ℕ} {roster : List Participant}
      {newer older : Log} : q ∈ roster → q.inst = inst →
      Unminted (newer ++ ⟨.listParticipants id, roster⟩ :: older) →
      Attached id inst q.handle true ((row.map Participant.lastReadSeq).getD startSeq)
        (⟨.getParticipantByInstance id inst, row⟩ ::
          (newer ++ ⟨.listParticipants id, roster⟩ :: older))
  | minted {p : Participant} {older : Log} : p.roomId = id → p.inst = inst → Unminted older →
      Attached id inst p.handle false p.lastReadSeq (⟨.createParticipant p, .inserted⟩ :: older)

/-- What a join has done when it answers. -/
def JoinAnswered (id inst : String) (past : Log) : Outcome → Prop
  | .ok (.joined response) => ∃ cursor msgs older,
      past = ⟨.recentMessagesUpTo id cursor RECENT_MESSAGE_LIMIT, msgs⟩ :: older ∧
        Attached id inst response.handle response.resumed cursor older ∧
        response.recentMessages = msgs.map messageView
  | .ok _ => False
  | .error e => Unminted past ∧ (⟨.getRoom id, none⟩ ∈ past ∨
      e = uniqueError ∧ MAX_ATTEMPTS ≤ failedInserts past)

/-- The calls a join makes. -/
def JoinCall (id inst : String) (past : Log) : Call → Prop
  | .createParticipant p => p.roomId = id ∧ p.inst = inst ∧ Unminted past ∧ Retried id inst past
  | .setNickname handle _ => ∃ p, p.handle = handle ∧ FoundIn past id inst p
  | c => c.keepsDb = true

/-- What request `j` was answered, if it is a join that was answered with a handle. -/
def joinResponseOf (c : Daemon) (j : ℕ) : Option JoinRoomResponse :=
  match c.threads[j]?.bind Thread.returned with
  | some (.ok (.joined response)) => some response
  | _ => none

theorem joinResponseOf_eq_some {c : Daemon} {j : ℕ} {response : JoinRoomResponse} :
    joinResponseOf c j = some response ↔
      c.threads[j]?.bind Thread.returned = some (.ok (.joined response)) := by
  unfold joinResponseOf
  split
  · rename_i heq
    rw [heq]
    simp
  · rename_i hne
    refine iff_of_false (by simp) fun h => hne _ h

/-- The discipline of a join, as one of all requests. -/
def JoinDiscipline (req : Request) (past : Log) (k : Call) : Prop :=
  ∀ id r, req = .joinRoom id r → JoinCall id (effectiveInstance r.toCaller) past k

/-- What a join has done when it answers, as a conclusion of all requests. -/
def JoinConclusion (req : Request) (past : Log) (a : Outcome) : Prop :=
  ∀ id r, req = .joinRoom id r → JoinAnswered id (effectiveInstance r.toCaller) past a

@[simp] theorem unminted_nil : Unminted [] := by simp [Unminted]

@[simp] theorem unminted_cons {x : Sigma Call.Reply} :
    Unminted (x :: past) ↔ x.1.mints x.2 = false ∧ Unminted past := by
  simp [Unminted]

@[simp] theorem unminted_append {past' : Log} :
    Unminted (past ++ past') ↔ Unminted past ∧ Unminted past' := by
  simp [Unminted, or_imp, forall_and]

/-- A join that resumed has minted nobody. -/
theorem Attached.unminted {handle : String} {cursor : ℕ}
    (h : Attached id inst handle true cursor past) : Unminted past := by
  cases h with
  | found _ hunminted => exact hunminted
  | reused _ _ hunminted => exact unminted_cons.mpr ⟨rfl, hunminted⟩

/-- A join that did not resume has minted. -/
theorem Attached.mints {handle : String} {cursor : ℕ}
    (h : Attached id inst handle false cursor past) :
    ∃ p, ⟨.createParticipant p, .inserted⟩ ∈ past := by
  cases h with
  | minted _ _ _ => exact ⟨_, List.mem_cons_self⟩

theorem failedInserts_cons (x : Sigma Call.Reply) (past : Log) :
    failedInserts (x :: past) = failedInserts past + if x.1.refused x.2 then 1 else 0 :=
  List.countP_cons

/-- Any call but a refused insert may come next. -/
theorem Retried.cons {x : Sigma Call.Reply} (h : Retried id inst past)
    (hx : x.1.refused x.2 = false) : Retried id inst (x :: past) := by
  intro newer p older hsplit
  cases newer with
  | nil =>
    obtain ⟨rfl, -⟩ := List.cons_eq_cons.mp hsplit
    cases hx
  | cons y newer =>
    obtain ⟨-, hrest⟩ := List.cons_eq_cons.mp hsplit
    exact List.mem_cons_of_mem _ (h newer p older hrest)

/-- Once a look has found nobody, all inserts before it are made up for. -/
theorem retried_of_look : Retried id inst (⟨.getParticipantByInstance id inst, none⟩ :: past) := by
  intro newer q older hsplit
  cases newer with
  | nil =>
    obtain ⟨hne, -⟩ := List.cons_eq_cons.mp hsplit
    cases hne
  | cons y newer =>
    obtain ⟨rfl, -⟩ := List.cons_eq_cons.mp hsplit
    exact List.mem_cons_self

/-- A piece of a log that only reads. -/
def Reads (past : Log) : Prop := ∀ x ∈ past, x.1.keepsDb = true

theorem Reads.unminted (h : Reads past) : Unminted past := by
  rintro ⟨c, r⟩ hx
  have hkeeps := h _ hx
  cases c
  case createParticipant => cases hkeeps
  all_goals rfl

theorem Reads.failedInserts (h : Reads past) : failedInserts past = 0 := by
  rw [ChatBotChat.failedInserts, List.countP_eq_zero]
  rintro ⟨c, r⟩ hx hrefused
  have hkeeps := h _ hx
  cases c
  case createParticipant => cases hkeeps
  all_goals cases hrefused

theorem Reads.retried (h : Reads past) : Retried id inst past := by
  rintro newer p older rfl
  have hkeeps := h _ (List.mem_append_right _ List.mem_cons_self)
  cases hkeeps

/-! ### The handler -/

theorem joinCall_of_keepsDb {k : Call} (h : k.keepsDb = true) : JoinCall id inst past k := by
  cases k
  case createParticipant => cases h
  case setNickname => cases h
  all_goals exact h

/-- The rule of a read. -/
theorem Upholds.reading {β : Type} {k : Call} {f : k.Reply → Task β} {Q : Log → β → Prop}
    (hk : k.keepsDb = true)
    (hf : ∀ r, (f r).Upholds (JoinCall id inst) (⟨k, r⟩ :: past) Q) :
    (perform k >>= f).Upholds (JoinCall id inst) past Q :=
  .step (joinCall_of_keepsDb hk) hf

theorem resolveParticipant_joining {Q : Log → Option Participant → Prop}
    (hnone : ∀ newer, Reads newer → Q (newer ++ past) none)
    (hsome : ∀ newer p, Reads newer → (⟨.getParticipantByInstance id inst, some p⟩ ∈ newer ++ past ∨
      ⟨.getParticipantByHandle id inst, some p⟩ ∈ newer ++ past) → Q (newer ++ past) (some p)) :
    (resolveParticipant id inst).Upholds (JoinCall id inst) past Q := by
  refine Upholds.reading rfl fun byInstance => ?_
  cases byInstance with
  | some p => exact hsome [_] p (by simp [Reads, Call.keepsDb]) (.inl List.mem_cons_self)
  | none =>
    refine ⟨rfl, fun byHandle => ?_⟩
    cases byHandle with
    | some p => exact hsome [_, _] p (by simp [Reads, Call.keepsDb]) (.inr List.mem_cons_self)
    | none => exact hnone [_, _] (by simp [Reads, Call.keepsDb])

/-- The nickname is set for a participant that was found. -/
theorem renameIfSupplied_joining {p : Participant} {nickname : Option String}
    {Q : Log → Unit → Prop} (hfound : FoundIn past id inst p)
    (hQ : ∀ newer, Unminted newer → Q (newer ++ past) ()) :
    (renameIfSupplied p.handle nickname).Upholds (JoinCall id inst) past Q := by
  unfold renameIfSupplied
  split
  · exact ⟨⟨p, rfl, hfound⟩, fun _ => hQ [_] (by simp [Call.mints])⟩
  · exact hQ [] unminted_nil

/-- The window up to the cursor is fetched last. -/
theorem window_joining {β : Type} {cursor : ℕ} {f : List MessageView → Task β} {Q : Log → β → Prop}
    (hf : ∀ msgs, (f (msgs.map messageView)).Upholds (JoinCall id inst)
      (⟨.recentMessagesUpTo id cursor RECENT_MESSAGE_LIMIT, msgs⟩ :: past) Q) :
    (recentMessageViewsUpTo id cursor >>= f).Upholds (JoinCall id inst) past Q :=
  .bind (Upholds.reading rfl fun msgs => hf msgs)

/-- Where the rounds of a join stand: nothing minted, each round refused. -/
structure Rounds (id inst : String) (past : Log) (tried : ℕ) : Prop where
  unminted : Unminted past
  retried : Retried id inst past
  refused : failedInserts past = tried

/-- An attempt answers, or is refused and leaves the next one to try. -/
theorem joinAttempt_joining {room : Room} {startSeq : ℕ} {nickname : Option String}
    {ident : JoinIdentity} {tried : ℕ} (hinst : ident.inst = inst) (hrounds : Rounds id inst past tried) :
    (joinAttempt id room startSeq nickname ident tried).Upholds (JoinCall id inst) past
      fun past x => match x with
        | .inl n => Rounds id inst past n
        | .inr a => JoinAnswered id inst past (a.map .joined) := by
  obtain ⟨hunminted, hretried, hrefused⟩ := hrounds
  refine Upholds.reading rfl fun roster => Upholds.reading rfl fun sess => ?_
  cases hderive : deriveHandle ident roster (sess.map sessHex) with
  | reused h =>
    obtain ⟨q, hq, hqinst, rfl⟩ : ∃ q ∈ roster, q.inst = inst ∧ q.handle = h := by
      unfold deriveHandle at hderive
      split at hderive
      · rename_i q hfind
        cases hderive
        have hfound := List.find?_some hfind
        exact ⟨q, List.mem_of_find?_eq_some hfind, by simpa [hinst] using hfound, rfl⟩
      · cases hderive
    have hfound : FoundIn (⟨.randSessCandidates, sess⟩ :: ⟨.listParticipants id, roster⟩ :: past)
        id inst q := .inr (.inr ⟨roster, by simp, hq, hqinst⟩)
    refine .bind (renameIfSupplied_joining hfound fun newer hnewer => ?_)
    refine Upholds.reading rfl fun row => window_joining fun msgs => ?_
    have hsplit : newer ++ ⟨.randSessCandidates, sess⟩ :: ⟨.listParticipants id, roster⟩ :: past =
        (newer ++ [⟨.randSessCandidates, sess⟩]) ++ ⟨.listParticipants id, roster⟩ :: past := by simp
    rw [hinst, hsplit]
    refine ⟨_, msgs, _, rfl, Attached.reused hq hqinst ?_, rfl⟩
    simp [Call.mints, hnewer, hunminted]
  | created handle =>
    refine Upholds.reading rfl fun now => ?_
    have hretried' : Retried id inst (⟨.nowUtc, now⟩ :: ⟨.randSessCandidates, sess⟩ ::
        ⟨.listParticipants id, roster⟩ :: past) := ((hretried.cons rfl).cons rfl).cons rfl
    refine .step ⟨rfl, hinst, by simp [Call.mints, hunminted], hretried'⟩ fun outcome => ?_
    cases outcome with
    | inserted =>
      refine window_joining fun msgs => ⟨_, msgs, _, rfl, Attached.minted (p := ⟨handle, id, ident.repo,
        ident.model, ident.cwd, ident.inst, now, now, startSeq, nickname, none, none⟩) rfl hinst ?_, rfl⟩
      simp [Call.mints, hunminted]
    | uniqueViolation =>
      have hcount : ∀ p : Participant, failedInserts (⟨.createParticipant p, .uniqueViolation⟩ ::
          ⟨.nowUtc, now⟩ :: ⟨.randSessCandidates, sess⟩ :: ⟨.listParticipants id, roster⟩ :: past) =
            tried + 1 := by
        intro p
        simp [failedInserts_cons, Call.refused, hrefused]
      by_cases hlt : tried + 1 < MAX_ATTEMPTS
      · simp only [hlt, ↓reduceIte]
        refine Upholds.reading rfl fun p => ?_
        cases p with
        | some p =>
          refine window_joining fun msgs => ⟨_, msgs, _, rfl, .found (.inl ?_) ?_, rfl⟩
          · rw [hinst]
            exact List.mem_cons_self
          · simp [Call.mints, hunminted]
        | none =>
          refine ⟨by simp [Call.mints, hunminted], hinst ▸ retried_of_look, ?_⟩
          rw [failedInserts_cons, hcount]
          rfl
      · simp only [hlt, ↓reduceIte]
        refine ⟨by simp [Call.mints, hunminted], .inr ⟨rfl, ?_⟩⟩
        rw [hcount]
        omega

theorem joinRoom_joining (id : String) (r : JoinRoomRequest) :
    (joinRoom id r).Upholds (JoinCall id (effectiveInstance r.toCaller)) []
      fun past a => JoinAnswered id (effectiveInstance r.toCaller) past (a.map .joined) := by
  refine Upholds.reading rfl fun room => ?_
  cases room with
  | none => exact ⟨by simp [Call.mints], .inl List.mem_cons_self⟩
  | some room =>
    refine Upholds.reading rfl fun startSeq => .bind (resolveParticipant_joining ?_ ?_)
    · intro newer hnewer
      refine Prog.upholds_iterate (Rounds id (effectiveInstance r.toCaller)) ?_
        fun past tried hrounds => ?_
      · have hreads : Reads (newer ++ [⟨.currentSeq id, startSeq⟩, ⟨.getRoom id, some room⟩]) := by
          intro x hx
          rcases List.mem_append.mp hx with hx | hx
          · exact hnewer x hx
          · rcases List.mem_pair.mp hx with rfl | rfl <;> rfl
        exact ⟨hreads.unminted, hreads.retried, hreads.failedInserts⟩
      · refine Prog.Upholds.mono ?_ (joinAttempt_joining ?_ hrounds)
        · rintro past' (n | a) h
          · exact h
          · exact h
        · rfl
    · intro newer p hnewer hlookup
      have hfound : FoundIn (newer ++ [⟨.currentSeq id, startSeq⟩, ⟨.getRoom id, some room⟩]) id
          (effectiveInstance r.toCaller) p := hlookup.imp_right .inl
      refine .bind (renameIfSupplied_joining hfound fun newer' hnewer' => window_joining ?_)
      intro msgs
      refine ⟨_, msgs, _, rfl, .found ?_ ?_, rfl⟩
      · exact hlookup.imp (List.mem_append_right _) (List.mem_append_right _)
      · simp [Call.mints, hnewer', hnewer.unminted]

theorem serve_joining (app : AppState) (req : Request) :
    (serve app req).Upholds (JoinDiscipline req) [] (JoinConclusion req) := by
  by_cases hjoin : ∃ id r, req = .joinRoom id r
  · obtain ⟨id, r, rfl⟩ := hjoin
    refine Prog.Upholds.imp ?_ ?_ (upholds_answering.mpr (joinRoom_joining id r))
    · rintro past k hk id' r' heq
      cases heq
      exact hk
    · rintro past a ha id' r' heq
      cases heq
      exact ha
  · refine Prog.upholds_of_forall ?_ ?_
    · exact fun past k id r heq => absurd ⟨id, r, heq⟩ hjoin
    · exact fun past a id r heq => absurd ⟨id, r, heq⟩ hjoin

/-- **Every join of a reachable daemon** keeps to its calls and answers as it did. -/
theorem Reachable.joining {c : Daemon} (h : Reachable app c) :
    System.Upheld JoinDiscipline JoinConclusion c := by
  obtain ⟨utc, instant, hrun⟩ := h
  have hbody : ∀ r, ((daemon app).body r).Upholds (JoinDiscipline r) [] (JoinConclusion r) :=
    serve_joining app
  exact hrun.upheld hbody

end ChatBotChat
