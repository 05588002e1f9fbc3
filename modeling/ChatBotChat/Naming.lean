/-
What a join does with the nickname that it was given.

A join that comes by its handle without minting it sets the nickname that it was
given, unless it has lost the race for the instance: then it answers with the row
that won and leaves its nickname out (`gaveWay`).  `NamingCall` says what a join
has found out before it mints or names anybody, and `NamingAnswered` what it has
done by the time it answers.
-/
import ChatBotChat.Joining
import ChatBotChat.Roster

namespace ChatBotChat

open Interleave

variable {app : AppState} {past : Log} {id inst : String} {nickname : Option String}
  {p : Participant} {s s' : Store} {tr : List Step} {j : ℕ}

/-! ### The log of a join -/

/-- The look under the instance that found the row which a refused insert had met. -/
def givesWay : Sigma Call.Reply → Sigma Call.Reply → Bool
  | ⟨.getParticipantByInstance _ _, some _⟩, ⟨.createParticipant _, .uniqueViolation⟩ => true
  | _, _ => false

/-- The join has lost the race for its instance, and answers with the row that won. -/
def gaveWay : Log → Bool
  | x :: y :: past => givesWay x y || gaveWay (y :: past)
  | _ => false

/-- The call sets a nickname. -/
def Call.renames : Call → Bool
  | .setNickname _ _ => true
  | _ => false

/-- The log sets no nickname. -/
def Unnamed (past : Log) : Prop := ∀ x ∈ past, x.1.renames = false

/-- The log shows `p` as the participant that the name stands for: looked up, or met
in the roster. -/
def Met (id inst : String) (p : Participant) (past : Log) : Prop :=
  (∃ found, Identified id inst p found ∧ found ⊆ past) ∨
    ∃ roster, ⟨.listParticipants id, roster⟩ ∈ past ∧ p ∈ roster ∧ p.inst = inst

/-- What a join with this nickname has done before a call. -/
def NamingCall (id inst : String) (nickname : Option String) (past : Log) : Call → Prop
  | .createParticipant p => p.nickname = nickname ∧ stranger id inst ⊆ past
  | .setNickname handle n => n = nickname ∧ n.isSome = true ∧
      ∃ p, p.handle = handle ∧ Met id inst p past
  | _ => True

/-- What a join with this nickname has done when it answers. -/
def NamingAnswered (id inst : String) (nickname : Option String) (past : Log) : Outcome → Prop
  | .ok (.joined response) =>
    if response.resumed then
      (∃ p, p.handle = response.handle ∧ Met id inst p past) ∧
        if gaveWay past then Unnamed past
        else nickname.isSome = true → ∃ handle, ⟨.setNickname handle nickname, ()⟩ ∈ past
    else Unnamed past
  | _ => True

def NamingDiscipline (req : Request) (past : Log) (k : Call) : Prop :=
  ∀ id r, req = .joinRoom id r →
    NamingCall id (effectiveInstance r.toCaller) (normalizeNickname r.nickname) past k

def NamingConclusion (req : Request) (past : Log) (a : Outcome) : Prop :=
  ∀ id r, req = .joinRoom id r →
    NamingAnswered id (effectiveInstance r.toCaller) (normalizeNickname r.nickname) past a

@[simp] theorem unnamed_nil : Unnamed [] := by simp [Unnamed]

@[simp] theorem unnamed_cons {x : Sigma Call.Reply} :
    Unnamed (x :: past) ↔ x.1.renames = false ∧ Unnamed past := by
  simp [Unnamed]

@[simp] theorem unnamed_append {past' : Log} :
    Unnamed (past ++ past') ↔ Unnamed past ∧ Unnamed past' := by
  simp [Unnamed, or_imp, forall_and]

/-- A call that is no look under an instance does not give way. -/
theorem gaveWay_cons {x : Sigma Call.Reply} (hx : ∀ y, givesWay x y = false) :
    gaveWay (x :: past) = gaveWay past := by
  cases past with
  | nil => rfl
  | cons y past => rw [gaveWay, hx y, Bool.false_or]

/-- The start of an attempt leaves it open who wins. -/
theorem gaveWay_attempt {roster : List Participant} {sess : List UInt16} :
    gaveWay (⟨.randSessCandidates, sess⟩ :: ⟨.listParticipants id, roster⟩ :: past) =
      gaveWay past := by
  rw [gaveWay_cons fun _ => rfl, gaveWay_cons fun _ => rfl]

/-- A look after any other call than an insert gives way to nobody. -/
theorem gaveWay_reread {x y : Sigma Call.Reply} (hy : ∀ p r, y ≠ ⟨.createParticipant p, r⟩) :
    gaveWay (x :: y :: past) = gaveWay (y :: past) := by
  have hxy : givesWay x y = false := by
    unfold givesWay
    split
    · exact absurd rfl (hy _ _)
    · rfl
  rw [gaveWay, hxy, Bool.false_or]

theorem Met.mono {p : Participant} {past' : Log} (h : Met id inst p past) (hsub : past ⊆ past') :
    Met id inst p past' := by
  rcases h with ⟨found, hfound, hmem⟩ | ⟨roster, hread, hmem⟩
  · exact .inl ⟨found, hfound, List.Subset.trans hmem hsub⟩
  · exact .inr ⟨roster, hsub hread, hmem⟩

/-- Whomever a log shows was there when it was read. -/
theorem History.met (hist : History app s tr s') (hmet : Met id inst p (pastOf j tr)) :
    ∃ s₁ newer older, newer ⊆ tr ∧ older ⊆ tr ∧ History app s older s₁ ∧ History app s₁ newer s' ∧
      p ∈ s₁.db.participants ∧ p.roomId = id ∧ (p.inst = inst ∨
        p.handle = inst ∧ ⟨.getParticipantByInstance id inst, none⟩ ∈ pastOf j tr) := by
  have hearlier : ∀ {e : Step} {newer older : List Step}, tr = newer ++ e :: older → older ⊆ tr := by
    rintro e newer older rfl
    exact List.subset_append_of_subset_right _ (List.subset_cons_self _ _)
  rcases hmet with ⟨found, hfound, hsub⟩ | ⟨roster, hread, hmem, hpinst⟩
  · cases hfound with
    | byInstance =>
      obtain ⟨before, after, sess, newer, older, hsplit, hexec, hbefore, hafter⟩ :=
        hist.seen (hsub List.mem_cons_self)
      obtain ⟨hfind, rfl⟩ := done_of_read hexec
      obtain ⟨hp, hroom, hinst⟩ := Db.getParticipantByInstance_spec hfind
      exact ⟨after, newer, older, hsplit ▸ List.subset_append_left _ _, hearlier hsplit, hbefore,
        hafter, hp, hroom, .inl hinst⟩
    | byHandle =>
      obtain ⟨before, after, sess, newer, older, hsplit, hexec, hbefore, hafter⟩ :=
        hist.seen (hsub List.mem_cons_self)
      obtain ⟨hfind, rfl⟩ := done_of_read hexec
      obtain ⟨hp, hroom, hhandle⟩ := Db.getParticipantByHandle_spec hfind
      exact ⟨after, newer, older, hsplit ▸ List.subset_append_left _ _, hearlier hsplit, hbefore,
        hafter, hp, hroom, .inr ⟨hhandle, hsub (List.mem_cons_of_mem _ List.mem_cons_self)⟩⟩
  · obtain ⟨before, after, sess, newer, older, hsplit, hexec, hbefore, hafter⟩ := hist.seen hread
    obtain ⟨hlist, rfl⟩ := done_of_read hexec
    rw [← hlist] at hmem
    obtain ⟨hp, hroom⟩ := mem_listParticipants.mp hmem
    exact ⟨after, newer, older, hsplit ▸ List.subset_append_left _ _, hearlier hsplit, hbefore,
      hafter, hp, hroom, .inl hpinst⟩

/-- The rule of setting the nickname if one was supplied. -/
theorem renameIfSupplied_naming {p : Participant} {Q : Log → Unit → Prop}
    (hmet : Met id inst p past)
    (hset : nickname.isSome = true → Q (⟨.setNickname p.handle nickname, ()⟩ :: past) ())
    (hskip : nickname.isSome = false → Q past ()) :
    (renameIfSupplied p.handle nickname).Upholds (NamingCall id inst nickname) past Q := by
  unfold renameIfSupplied
  split
  · rename_i hsome
    exact ⟨⟨rfl, hsome, p, rfl, hmet⟩, fun _ => hset hsome⟩
  · rename_i hsome
    exact hskip (by simpa using hsome)

/-- Where the rounds of a join stand. -/
structure NamingRounds (id inst : String) (past : Log) : Prop where
  unnamed : Unnamed past
  stranger : ChatBotChat.stranger id inst ⊆ past
  notYet : gaveWay past = false

/-- An attempt answers, or is refused and leaves the next one to try. -/
theorem joinAttempt_naming {room : Room} {startSeq : ℕ} {ident : JoinIdentity} {tried : ℕ}
    (hinst : ident.inst = inst) (hrounds : NamingRounds id inst past) :
    (joinAttempt id room startSeq nickname ident tried).Upholds (NamingCall id inst nickname) past
      fun past x => match x with
        | .inl _ => NamingRounds id inst past
        | .inr a => NamingAnswered id inst nickname past (a.map .joined) := by
  obtain ⟨hunnamed, hstranger, hnotYet⟩ := hrounds
  refine .step trivial fun roster => .step trivial fun sess => ?_
  cases hderive : deriveHandle ident roster (sess.map sessHex) with
  | reused h =>
    obtain ⟨q, hq, hqinst, rfl⟩ : ∃ q ∈ roster, q.inst = inst ∧ q.handle = h := by
      unfold deriveHandle at hderive
      split at hderive
      · rename_i q hfind
        cases hderive
        have hfound := List.find?_some hfind
        exact ⟨q, List.mem_of_find?_eq_some hfind, by simpa [hinst] using hfound, rfl⟩
      · cases hderive
    have hmet : Met id inst q (⟨.randSessCandidates, sess⟩ :: ⟨.listParticipants id, roster⟩ ::
        past) := .inr ⟨roster, by simp, hq, hqinst⟩
    refine .bind (renameIfSupplied_naming hmet (fun hsome => ?_) fun hnone => ?_)
    · refine .step trivial fun row => .bind (.step trivial fun msgs => ?_)
      refine ⟨⟨q, rfl, hmet.mono (by intro x hx; simp [hx])⟩, ?_⟩
      rw [gaveWay_cons fun _ => rfl, gaveWay_reread (by simp), gaveWay_cons fun _ => rfl,
        gaveWay_attempt, hnotYet]
      exact fun _ => ⟨q.handle, by simp⟩
    · refine .step trivial fun row => .bind (.step trivial fun msgs => ?_)
      refine ⟨⟨q, rfl, hmet.mono (by intro x hx; simp [hx])⟩, ?_⟩
      rw [gaveWay_cons fun _ => rfl, gaveWay_reread (by simp), gaveWay_attempt, hnotYet]
      exact fun hsome => absurd hsome (by simp [hnone])
  | created handle =>
    refine .step trivial fun now => .step ⟨rfl, ?_⟩ fun outcome => ?_
    · exact List.Subset.trans hstranger (by intro x hx; simp [hx])
    cases outcome with
    | inserted =>
      refine .bind (.step trivial fun msgs => ?_)
      show Unnamed _
      simp [Call.renames, hunnamed]
    | uniqueViolation =>
      by_cases hlt : tried + 1 < MAX_ATTEMPTS
      · simp only [hlt, ↓reduceIte]
        refine .step trivial fun p => ?_
        cases p with
        | some p =>
          refine .bind (.step trivial fun msgs => ?_)
          refine ⟨⟨p, rfl, .inl ⟨_, .byInstance, by simp [hinst]⟩⟩, ?_⟩
          simp [gaveWay, givesWay, Call.renames, hunnamed]
        | none =>
          refine ⟨by simp [Call.renames, hunnamed],
            List.Subset.trans hstranger (by intro x hx; simp [hx]), ?_⟩
          rw [gaveWay, gaveWay_cons fun _ => rfl, gaveWay_cons fun _ => rfl, gaveWay_attempt, hnotYet]
          rfl
      · simp only [hlt, ↓reduceIte]
        exact trivial

/-- A join that was found at once has lost no race. -/
theorem Identified.gaveWay {p : Participant} {found : Log} {startSeq : ℕ} {room : Option Room}
    (h : Identified id inst p found) :
    gaveWay (found ++ [⟨.currentSeq id, startSeq⟩, ⟨.getRoom id, room⟩]) = false := by
  cases h with
  | byInstance => rfl
  | byHandle => rfl

theorem Identified.unnamed {p : Participant} {found : Log} (h : Identified id inst p found) :
    Unnamed found := by
  cases h with
  | byInstance => simp [Call.renames]
  | byHandle => simp [Call.renames]

theorem joinRoom_naming (id : String) (r : JoinRoomRequest) :
    (joinRoom id r).Upholds
      (NamingCall id (effectiveInstance r.toCaller) (normalizeNickname r.nickname)) [] fun past a =>
        NamingAnswered id (effectiveInstance r.toCaller) (normalizeNickname r.nickname) past
          (a.map .joined) := by
  refine .step trivial fun room => ?_
  cases room with
  | none => exact trivial
  | some room =>
    refine .step trivial fun startSeq => .bind (resolveParticipant_identified
      (fun _ => ⟨trivial, trivial⟩) ?_ fun found p hfound => ?_)
    · refine Prog.upholds_iterate (fun past _ => NamingRounds id (effectiveInstance r.toCaller) past)
        ⟨by simp [ChatBotChat.stranger, Call.renames], List.subset_append_left _ _, rfl⟩
        fun past tried hrounds => ?_
      refine Prog.Upholds.mono ?_ (joinAttempt_naming rfl hrounds)
      rintro past' (n | a) h
      · exact h
      · exact h
    · have hmet : Met id (effectiveInstance r.toCaller) p
          (found ++ [⟨.currentSeq id, startSeq⟩, ⟨.getRoom id, some room⟩]) :=
        .inl ⟨found, hfound, List.subset_append_left _ _⟩
      refine .bind (renameIfSupplied_naming hmet (fun hsome => ?_) fun hnone => ?_)
      · refine .bind (.step trivial fun msgs => ?_)
        refine ⟨⟨p, rfl, hmet.mono (by intro x hx; simp at hx ⊢; tauto)⟩, ?_⟩
        rw [gaveWay_cons fun _ => rfl, gaveWay_cons fun _ => rfl, hfound.gaveWay]
        exact fun _ => ⟨p.handle, by simp⟩
      · refine .bind (.step trivial fun msgs => ?_)
        refine ⟨⟨p, rfl, hmet.mono (List.subset_cons_self _ _)⟩, ?_⟩
        rw [gaveWay_cons fun _ => rfl, hfound.gaveWay]
        exact fun hsome => absurd hsome (by simp [hnone])

theorem serve_naming (app : AppState) (req : Request) :
    (serve app req).Upholds (NamingDiscipline req) [] (NamingConclusion req) := by
  by_cases hjoin : ∃ id r, req = .joinRoom id r
  · obtain ⟨id, r, rfl⟩ := hjoin
    refine Prog.Upholds.imp ?_ ?_ (upholds_answering.mpr (joinRoom_naming id r))
    · rintro past k hk id' r' heq
      cases heq
      exact hk
    · rintro past a ha id' r' heq
      cases heq
      exact ha
  · refine Prog.upholds_of_forall ?_ ?_
    · exact fun past k id r heq => absurd ⟨id, r, heq⟩ hjoin
    · exact fun past a id r heq => absurd ⟨id, r, heq⟩ hjoin

/-- **Every join of a reachable daemon** treats its nickname so. -/
theorem Reachable.naming {c : Daemon} (h : Reachable app c) :
    System.Upheld NamingDiscipline NamingConclusion c := by
  obtain ⟨utc, instant, hrun⟩ := h
  have hbody : ∀ r, ((daemon app).body r).Upholds (NamingDiscipline r) [] (NamingConclusion r) :=
    serve_naming app
  exact hrun.upheld hbody

end ChatBotChat
