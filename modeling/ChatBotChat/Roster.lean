/-
Who a name stands for.

A caller gives one string, and it is looked up as an instance first and as a
handle then (`Db.resolve`).  Two reads make one look-up, and other requests run
between them; as long as nobody joins and nobody is pruned, the participants
keep their keys (`History.roster`), and the two reads find what one look-up of
the database at the start would have found (`History.resolve_eq`).
-/
import ChatBotChat.Cursors

namespace ChatBotChat

open Interleave

variable {app : AppState} {s s' s₀ : Store} {sess : List UInt16} {tr : List Step}
  {id inst handle : String} {p q : Participant}

/-! ### One look-up -/

/-- The participant that a name stands for: by instance, else by handle. -/
def Db.resolve (db : Db) (id inst : String) : Option Participant :=
  match db.getParticipantByInstance id inst with
  | some p => some p
  | none => db.getParticipantByHandle id inst

/-- Whoever a name stands for is a participant of the room, under that name. -/
theorem Db.resolve_spec {db : Db} (h : db.resolve id inst = some p) :
    p ∈ db.participants ∧ p.roomId = id ∧ (p.inst = inst ∨ p.handle = inst) := by
  unfold Db.resolve at h
  split at h
  · rename_i q hfind
    obtain rfl := Option.some_inj.mp h
    obtain ⟨hp, hroom, hinst⟩ := Db.getParticipantByInstance_spec hfind
    exact ⟨hp, hroom, .inl hinst⟩
  · obtain ⟨hp, hroom, hhandle⟩ := Db.getParticipantByHandle_spec h
    exact ⟨hp, hroom, .inr hhandle⟩

/-- A participant is whom its instance stands for. -/
theorem Db.resolve_inst {db : Db} (hwf : db.WellFormed) (hp : p ∈ db.participants) :
    db.resolve p.roomId p.inst = some p := by
  rw [Db.resolve, hwf.getParticipantByInstance_eq hp]

/-- A participant is whom its handle stands for, where that is nobody's instance. -/
theorem Db.resolve_handle {db : Db} (hwf : db.WellFormed) (hp : p ∈ db.participants)
    (hnobody : ∀ q ∈ db.participants, q.roomId = p.roomId → q.inst ≠ p.handle) :
    db.resolve p.roomId p.handle = some p := by
  have hnone : db.getParticipantByInstance p.roomId p.handle = none :=
    Db.getParticipantByInstance_eq_none.mpr fun q hq hmatch => hnobody q hq hmatch.1 hmatch.2
  rw [Db.resolve, hnone]
  exact hwf.getParticipantByHandle_eq hp

/-- The log of a caller that was found, by its instance or else by its handle. -/
inductive Identified (id inst : String) (p : Participant) : Log → Prop
  | byInstance : Identified id inst p [⟨.getParticipantByInstance id inst, some p⟩]
  | byHandle : Identified id inst p
      [⟨.getParticipantByHandle id inst, some p⟩, ⟨.getParticipantByInstance id inst, none⟩]

/-- The log of a caller that was not found. -/
def stranger (id inst : String) : Log :=
  [⟨.getParticipantByHandle id inst, none⟩, ⟨.getParticipantByInstance id inst, none⟩]

/-- The rule of looking up the caller. -/
theorem resolveParticipant_identified {Φ : Log → Call → Prop} {past : Log}
    {Q : Log → Option Participant → Prop}
    (hΦ : ∀ past, Φ past (.getParticipantByInstance id inst) ∧ Φ past (.getParticipantByHandle id inst))
    (hnone : Q (stranger id inst ++ past) none)
    (hsome : ∀ found p, Identified id inst p found → Q (found ++ past) (some p)) :
    (resolveParticipant id inst).Upholds Φ past Q := by
  refine .step (hΦ _).1 fun byInstance => ?_
  cases byInstance with
  | some p => exact hsome _ p .byInstance
  | none =>
    refine ⟨(hΦ _).2, fun byHandle => ?_⟩
    cases byHandle with
    | some p => exact hsome _ p .byHandle
    | none => exact hnone

/-! ### Keys -/

/-- What a participant is looked up by. -/
def Participant.key (p : Participant) : String × String × String := (p.roomId, p.inst, p.handle)

/-- The call lets nobody in and removes nobody. -/
def Call.keepsRoster : Call → Bool
  | .createParticipant _ | .pruneStaleParticipants _ _ => false
  | _ => true

theorem Call.key_onParticipant (c : Call) (r : c.Reply) (p : Participant) :
    (c.onParticipant r p).key = p.key := by
  rw [Participant.key, Call.onParticipant_roomId, Call.onParticipant_inst,
    Call.onParticipant_handle, Participant.key]

/-- Such a call rewrites the participants in their places. -/
theorem Effect.roster {c : Call} {r : c.Reply} (h : Effect s c r s') (hc : c.keepsRoster = true) :
    s'.db.participants = s.db.participants.map (c.onParticipant r) := by
  have hprunes : ∀ p, c.prunes p = false := by
    intro p
    cases c
    case pruneStaleParticipants => cases hc
    all_goals rfl
  have hjoined : c.joined r = none := by
    cases c
    case createParticipant => cases hc
    all_goals rfl
  rw [h.participants, hjoined, Option.toList_none, List.append_nil]
  simp [hprunes]

/-- **Where nobody joins and nobody is pruned**, the participants stay in their
places, under their keys. -/
theorem History.roster (hist : History app s tr s') (hwf : s.db.WellFormed)
    (hcalls : ∀ e ∈ tr, e.call.keepsRoster = true) : ∃ f : Participant → Participant,
      (∀ p, (f p).key = p.key) ∧ s'.db.participants = s.db.participants.map f := by
  refine History.induction hwf (P := fun _ s' => ∃ f : Participant → Participant,
    (∀ p, (f p).key = p.key) ∧ s'.db.participants = s.db.participants.map f) ?_ ?_ ?_ hist
    List.suffix_rfl
  · exact ⟨id, fun _ => rfl, (List.map_id _).symm⟩
  · intro tr' s₁ s₂ _ hdb _ _ _ hrows
    rwa [hdb]
  · rintro e tr' sess hsuf hexec _ _ ⟨f, hkey, hrows⟩
    refine ⟨e.call.onParticipant e.reply ∘ f, fun p => ?_, ?_⟩
    · rw [Function.comp_apply, Call.key_onParticipant, hkey]
    · rw [(effect_of_exec hexec).roster (hcalls e (hsuf.mem List.mem_cons_self)), hrows,
        List.map_map]

/-- A participant of the end was one of the start. -/
theorem History.key_before (hist : History app s tr s') (hwf : s.db.WellFormed)
    (hcalls : ∀ e ∈ tr, e.call.keepsRoster = true) (hq : q ∈ s'.db.participants) :
    ∃ p ∈ s.db.participants, q.key = p.key := by
  obtain ⟨f, hkey, hrows⟩ := hist.roster hwf hcalls
  rw [hrows] at hq
  obtain ⟨p, hp, rfl⟩ := List.mem_map.mp hq
  exact ⟨p, hp, hkey p⟩

/-- A participant of the start is one of the end. -/
theorem History.key_after (hist : History app s tr s') (hwf : s.db.WellFormed)
    (hcalls : ∀ e ∈ tr, e.call.keepsRoster = true) (hp : p ∈ s.db.participants) :
    ∃ q ∈ s'.db.participants, q.key = p.key := by
  obtain ⟨f, hkey, hrows⟩ := hist.roster hwf hcalls
  exact ⟨f p, hrows ▸ List.mem_map_of_mem hp, hkey p⟩

/-- A look-up by a key finds the same places before and after. -/
theorem find?_map_key (rows : List Participant) {f : Participant → Participant}
    (test : String × String × String → Bool) (hkey : ∀ p, (f p).key = p.key) :
    ((rows.map f).find? fun p => test p.key).map Participant.key =
      (rows.find? fun p => test p.key).map Participant.key := by
  have htest : (fun p => test p.key) ∘ f = fun p : Participant => test p.key := by
    funext p
    rw [Function.comp_apply, hkey]
  rw [List.find?_map, htest, Option.map_map]
  exact congrArg (fun g => Option.map g _) (funext hkey)

/-- What is read under an instance is read under it throughout. -/
theorem History.byInstance_eq (hist : History app s tr s') (hwf : s.db.WellFormed)
    (hcalls : ∀ e ∈ tr, e.call.keepsRoster = true) :
    (s'.db.getParticipantByInstance id inst).map Participant.key =
      (s.db.getParticipantByInstance id inst).map Participant.key := by
  obtain ⟨f, hkey, hrows⟩ := hist.roster hwf hcalls
  have hfind := find?_map_key s.db.participants (fun key => key.1 = id && key.2.1 = inst) hkey
  rwa [← hrows] at hfind

/-- What is read under a handle is read under it throughout. -/
theorem History.byHandle_eq (hist : History app s tr s') (hwf : s.db.WellFormed)
    (hcalls : ∀ e ∈ tr, e.call.keepsRoster = true) :
    (s'.db.getParticipantByHandle id inst).map Participant.key =
      (s.db.getParticipantByHandle id inst).map Participant.key := by
  obtain ⟨f, hkey, hrows⟩ := hist.roster hwf hcalls
  have hfind := find?_map_key s.db.participants (fun key => key.1 = id && key.2.2 = inst) hkey
  rwa [← hrows] at hfind

theorem Participant.handle_of_key (h : q.key = p.key) : q.handle = p.handle :=
  congrArg (fun key => key.2.2) h

theorem Participant.roomId_of_key (h : q.key = p.key) : q.roomId = p.roomId :=
  congrArg (fun key => key.1) h

/-- A property of a row that every call keeps holds of it in the end. -/
theorem History.row_property (hist : History app s tr s') (hwf : s.db.WellFormed)
    (hcalls : ∀ e ∈ tr, e.call.keepsRoster = true) {R : Participant → Prop}
    (hkeep : ∀ e ∈ tr, ∀ q, q.key = p.key → R q → R (e.call.onParticipant e.reply q))
    (hp : p ∈ s.db.participants) (hR : R p) : ∃ q ∈ s'.db.participants, q.key = p.key ∧ R q := by
  refine History.induction hwf (P := fun _ s => ∃ q ∈ s.db.participants, q.key = p.key ∧ R q)
    ⟨p, hp, rfl, hR⟩ (fun _ hdb _ _ _ hrow => hdb ▸ hrow) ?_ hist List.suffix_rfl
  rintro e tr' sess hsuf hexec _ _ ⟨q, hq, hkey, hRq⟩
  have he : e ∈ tr := hsuf.mem List.mem_cons_self
  refine ⟨e.call.onParticipant e.reply q, ?_, ?_, hkeep e he q hkey hRq⟩
  · rw [(effect_of_exec hexec).roster (hcalls e he)]
    exact List.mem_map_of_mem hq
  · rw [Call.key_onParticipant, hkey]

/-! ### A look-up in two reads -/

/-- What a request read under an instance was there under it from the start. -/
theorem History.seen_byInstance (hist : History app s tr s') (hwf : s.db.WellFormed)
    (hcalls : ∀ e ∈ tr, e.call.keepsRoster = true) {i : ℕ} {found : Option Participant}
    (hread : ⟨.getParticipantByInstance id inst, found⟩ ∈ pastOf i tr) :
    (s.db.getParticipantByInstance id inst).map Participant.key = found.map Participant.key := by
  obtain ⟨before, after, sess, newer, older, rfl, hexec, hbefore, -⟩ := hist.seen hread
  obtain ⟨hfind, rfl⟩ := done_of_read hexec
  rw [← hfind]
  exact (hbefore.byInstance_eq hwf fun e he => hcalls e (by simp [he])).symm

/-- What a request read under a handle was there under it from the start. -/
theorem History.seen_byHandle (hist : History app s tr s') (hwf : s.db.WellFormed)
    (hcalls : ∀ e ∈ tr, e.call.keepsRoster = true) {i : ℕ} {found : Option Participant}
    (hread : ⟨.getParticipantByHandle id inst, found⟩ ∈ pastOf i tr) :
    (s.db.getParticipantByHandle id inst).map Participant.key = found.map Participant.key := by
  obtain ⟨before, after, sess, newer, older, rfl, hexec, hbefore, -⟩ := hist.seen hread
  obtain ⟨hfind, rfl⟩ := done_of_read hexec
  rw [← hfind]
  exact (hbefore.byHandle_eq hwf fun e he => hcalls e (by simp [he])).symm

/-- **A caller that was found is the one that the name stood for at the start.** -/
theorem History.resolve_eq (hist : History app s tr s') (hwf : s.db.WellFormed)
    (hcalls : ∀ e ∈ tr, e.call.keepsRoster = true) {i : ℕ} {found : Log}
    (hfound : Identified id inst p found) (hsub : found ⊆ pastOf i tr) :
    (s.db.resolve id inst).map Participant.key = some p.key := by
  unfold Db.resolve
  cases hfound with
  | byInstance =>
    have hread := hist.seen_byInstance hwf hcalls (hsub List.mem_cons_self)
    cases hfind : s.db.getParticipantByInstance id inst with
    | some q => rwa [hfind] at hread
    | none =>
      rw [hfind] at hread
      cases hread
  | byHandle =>
    have hnone := hist.seen_byInstance hwf hcalls (hsub (List.mem_cons_of_mem _ List.mem_cons_self))
    have hread := hist.seen_byHandle hwf hcalls (hsub List.mem_cons_self)
    rw [Option.map_none, Option.map_eq_none_iff] at hnone
    rw [hnone]
    exact hread

/-- A caller that was not found is nobody's name at the start. -/
theorem History.resolve_none (hist : History app s tr s') (hwf : s.db.WellFormed)
    (hcalls : ∀ e ∈ tr, e.call.keepsRoster = true) {i : ℕ}
    (hsub : stranger id inst ⊆ pastOf i tr) : s.db.resolve id inst = none := by
  have hnone := hist.seen_byInstance hwf hcalls (hsub (List.mem_cons_of_mem _ List.mem_cons_self))
  have hnone' := hist.seen_byHandle hwf hcalls (hsub List.mem_cons_self)
  rw [Option.map_none, Option.map_eq_none_iff] at hnone hnone'
  rw [Db.resolve, hnone]
  exact hnone'

end ChatBotChat
