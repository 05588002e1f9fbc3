/-
What becomes of the nicknames that joins of one instance supply.

* `nickname_kept_iff` — the nickname stored in the end is one that the joins would
  have left one after the other exactly when some join that did not mint has set
  its nickname, or none that did not mint has supplied one, or one has supplied
  the nickname of the join that minted.
-/
import ChatBotChat.Idempotent
import ChatBotChat.Naming

namespace ChatBotChat

open Interleave

variable {app : AppState} {c₀ c : Daemon} {e : Step} {new older tr : List Step} {id inst : String}
  {p q : Participant} {s s' : Store} {start : Option String} {supplied : ℕ → Option String}
  {order : List ℕ} {j : ℕ}

/-! ### One after the other -/

/-- What is stored after joins with these nicknames, one after the other: a join that
supplies none leaves what is stored. -/
def storedAfter (start : Option String) (writes : List (Option String)) : Option String :=
  writes.foldl (fun stored supplied => supplied.or stored) start

theorem storedAfter_of_none (h : ∀ j ∈ order, supplied j = none) :
    storedAfter start (order.map supplied) = start := by
  induction order with
  | nil => rfl
  | cons j order ih =>
    have hj : supplied j = none := h j List.mem_cons_self
    rw [List.map_cons, storedAfter, List.foldl_cons, hj, Option.none_or]
    exact ih fun k hk => h k (List.mem_cons_of_mem _ hk)

theorem storedAfter_concat (h : (supplied j).isSome = true) :
    storedAfter start ((order ++ [j]).map supplied) = supplied j := by
  obtain ⟨name, hname⟩ := Option.isSome_iff_exists.mp h
  rw [List.map_append, storedAfter, List.foldl_append, List.map_singleton, List.foldl_cons,
    List.foldl_nil, hname, Option.some_or]

/-- **The last one that supplies a nickname leaves it.** -/
theorem storedAfter_last (start : Option String) (supplied : ℕ → Option String) (order : List ℕ) :
    (∀ j ∈ order, supplied j = none) ∨ ∃ pre j post,
    order = pre ++ j :: post ∧ (supplied j).isSome = true ∧ (∀ k ∈ post, supplied k = none) ∧
      storedAfter start (order.map supplied) = supplied j := by
  induction order generalizing start with
  | nil => exact .inl (by simp)
  | cons k order ih =>
    rcases ih ((supplied k).or start) with hnone | ⟨pre, j, post, rfl, hj, hpost, hlast⟩
    · cases hk : supplied k with
      | none => exact .inl (by simpa [hk] using hnone)
      | some name =>
        refine .inr ⟨[], k, order, rfl, by rw [hk]; rfl, hnone, ?_⟩
        rw [List.map_cons, storedAfter, List.foldl_cons, hk, Option.some_or, ← storedAfter,
          storedAfter_of_none hnone]
    · exact .inr ⟨k :: pre, j, post, rfl, hj, hpost, hlast⟩

/-- An order in which the one that must be first is. -/
theorem exists_order (L : List ℕ) (first : ℕ → Prop)
    (hone : ∀ j ∈ L, ∀ k ∈ L, first j → first k → j = k) :
    ∃ order : List ℕ, order.Perm L ∧ ∀ k ∈ order, first k → order.head? = some k := by
  by_cases hfirst : ∃ j ∈ L, first j
  · obtain ⟨j, hj, hfirst⟩ := hfirst
    have hperm : (j :: L.erase j).Perm L := (List.perm_cons_erase hj).symm
    refine ⟨j :: L.erase j, hperm, fun k hk hk' => ?_⟩
    rw [hone k (hperm.mem_iff.mp hk) j hj hk' hfirst]
    rfl
  · exact ⟨L, .refl L, fun k hk hk' => absurd ⟨k, hk, hk'⟩ hfirst⟩

/-- Any other may come last. -/
theorem exists_order_last {L : List ℕ} {first : ℕ → Prop}
    (hone : ∀ j ∈ L, ∀ k ∈ L, first j → first k → j = k) (hj : j ∈ L) (hlast : ¬ first j) :
    ∃ order : List ℕ, (order ++ [j]).Perm L ∧ ∀ k ∈ order ++ [j], first k →
      (order ++ [j]).head? = some k := by
  obtain ⟨order, hperm, hhead⟩ := exists_order (L.erase j) first
    fun k hk k' hk' => hone k (List.mem_of_mem_erase hk) k' (List.mem_of_mem_erase hk')
  refine ⟨order, ?_, fun k hk hfirst => ?_⟩
  · refine (List.perm_append_singleton j order).trans ?_
    exact (hperm.cons j).trans (List.perm_cons_erase hj).symm
  · rcases List.mem_append.mp hk with hk | hk
    · rw [List.head?_append, hhead k hk hfirst]
      rfl
    · obtain rfl := List.mem_singleton.mp hk
      exact absurd hfirst hlast

/-! ### Nicknames of a run -/

/-- The nickname that request `j` supplies, if it is a join. -/
def suppliedNickname (c : Daemon) (j : ℕ) : Option String :=
  match c.threads[j]?.map Thread.req with
  | some (.joinRoom _ r) => normalizeNickname r.nickname
  | _ => none

/-- The nickname of the participant that the name stands for. -/
def storedNickname (id inst : String) (db : Db) : Option String :=
  (db.resolve id inst).bind Participant.nickname

/-- Request `j` was answered that it resumed, or that it did not. -/
def resumedOf (c : Daemon) (j : ℕ) : Option Bool :=
  (joinResponseOf c j).map JoinRoomResponse.resumed

/-- The stored nickname is the one that the joins would have left in this order, in
which the join that did not resume comes first. -/
structure InSequence (id inst : String) (c₀ c : Daemon) (order : List ℕ) : Prop where
  all : order.Perm (arrivals c₀ c)
  first : ∀ j ∈ order, resumedOf c j = some false → order.head? = some j
  stored : storedNickname id inst c.shared.db =
    storedAfter (storedNickname id inst c₀.shared.db) (order.map (suppliedNickname c))

/-- Request `j` has minted a participant. -/
def mintedBy (c : Daemon) (j : ℕ) : Bool := (pastOf j c.trace).any fun x => x.1.mints x.2

/-- Request `j` has supplied a nickname for a participant that it did not mint. -/
def Renames (c₀ c : Daemon) (j : ℕ) : Prop :=
  j ∈ arrivals c₀ c ∧ mintedBy c j = false ∧ (suppliedNickname c j).isSome = true

/-- Of the joins with a nickname for a participant that was there, one has not lost
the race for the instance, or has supplied the nickname of the one that won. -/
def NicknameApplied (c₀ c : Daemon) : Prop := (∃ j, Renames c₀ c j) → ∃ j, Renames c₀ c j ∧
  (gaveWay (pastOf j c.trace) = false ∨
    ∃ k ∈ arrivals c₀ c, mintedBy c k = true ∧ suppliedNickname c k = suppliedNickname c j)

/-- Where one join alone supplies a nickname, it is the one that is stored. -/
theorem InSequence.sole (h : InSequence id inst c₀ c order) (hj : j ∈ arrivals c₀ c)
    (hsupplied : (suppliedNickname c j).isSome = true)
    (hsole : ∀ k ∈ arrivals c₀ c, k ≠ j → suppliedNickname c k = none) :
    storedNickname id inst c.shared.db = suppliedNickname c j := by
  rw [h.stored]
  rcases storedAfter_last (storedNickname id inst c₀.shared.db) (suppliedNickname c) order with
    hnone | ⟨pre, k, post, rfl, hk, -, hlast⟩
  · rw [hnone j (h.all.mem_iff.mpr hj)] at hsupplied
    cases hsupplied
  · rw [hlast]
    by_cases hkj : k = j
    · rw [hkj]
    · have hmem : k ∈ arrivals c₀ c := h.all.mem_iff.mp (by simp)
      rw [hsole k hmem hkj] at hk
      cases hk

/-! ### The participant that the name stands for -/

theorem Db.resolve_of_holds {db : Db} (hwf : db.WellFormed) (hp : p ∈ db.participants)
    (hholds : Holds id inst p) : db.resolve id inst = some p := by
  rw [← hholds.1, ← hholds.2, Db.resolve_inst hwf hp]

theorem Db.resolve_of_handle {db : Db} (hwf : db.WellFormed) (hp : p ∈ db.participants)
    (hroom : p.roomId = id) (hhandle : p.handle = inst)
    (hnobody : ∀ q ∈ db.participants, ¬ Holds id inst q) : db.resolve id inst = some p := by
  subst hroom hhandle
  exact Db.resolve_handle hwf hp fun q hq hroom hinst => hnobody q hq ⟨hroom, hinst⟩

/-- A call that names nobody leaves the participants as they are. -/
theorem row_kept (hist : History app s tr s') (hwf : s.db.WellFormed)
    (hjoin : ∀ e ∈ tr, e.call.ofJoin) (hunnamed : ∀ e ∈ tr, e.call.renames = false)
    (hp : p ∈ s.db.participants) : p ∈ s'.db.participants := by
  refine History.induction hwf (P := fun _ s => p ∈ s.db.participants) hp
    (fun _ hdb _ _ _ hrow => hdb ▸ hrow) ?_ hist List.suffix_rfl
  intro e tr' sess hsuf hexec _ _ hrow
  have he : e ∈ tr := hsuf.mem List.mem_cons_self
  refine (effect_of_exec hexec).mem_participants.mpr
    (.inl ⟨p, hrow, (hjoin e he).prunes p, ((hjoin e he).onParticipant e.reply p).2 ?_⟩)
  intro nickname heq
  have hnot := hunnamed e he
  rw [heq] at hnot
  cases hnot

/-- Calls that mint nobody and name nobody leave the participants as they are. -/
theorem rows_kept (hist : History app s tr s') (hwf : s.db.WellFormed)
    (hjoin : ∀ e ∈ tr, e.call.ofJoin) (hunnamed : ∀ e ∈ tr, e.call.renames = false)
    (hunminted : ∀ e ∈ tr, e.call.mints e.reply = false) :
    s'.db.participants = s.db.participants := by
  refine History.induction hwf (P := fun _ s' => s'.db.participants = s.db.participants) rfl
    (fun _ hdb _ _ _ hrows => hdb ▸ hrows) ?_ hist List.suffix_rfl
  intro e tr' sess hsuf hexec _ _ hrows
  have he : e ∈ tr := hsuf.mem List.mem_cons_self
  have hjoined : e.call.joined e.reply = none := by
    have hnot := hunminted e he
    obtain ⟨tid, call, reply, before, after⟩ := e
    cases call
    case createParticipant =>
      cases reply with
      | inserted => cases hnot
      | uniqueViolation => rfl
    all_goals rfl
  rw [(effect_of_exec hexec).participants, ← hrows]
  refine (participants_frame hjoined (hjoin e he).prunes (fun p => ?_) _).symm
  refine ((hjoin e he).onParticipant e.reply p).2 fun nickname heq => ?_
  have hnot := hunnamed e he
  rw [heq] at hnot
  cases hnot

/-- A join that lost the race has met a refusal. -/
theorem refused_of_gaveWay {past : Log} (h : gaveWay past = true) :
    ∃ p, ⟨.createParticipant p, .uniqueViolation⟩ ∈ past := by
  induction past with
  | nil => cases h
  | cons x past ih =>
    cases past with
    | nil => cases h
    | cons y past =>
      rw [gaveWay, Bool.or_eq_true] at h
      rcases h with hnow | hearlier
      · unfold givesWay at hnow
        split at hnow
        · exact ⟨_, List.mem_cons_of_mem _ List.mem_cons_self⟩
        · cases hnow
      · obtain ⟨p, hp⟩ := ih hearlier
        exact ⟨p, List.mem_cons_of_mem _ hp⟩

namespace JoinRun

/-- The calls of a join, as to its nickname. -/
theorem naming (h : JoinRun app id inst c₀ c new) (hsuf : e :: older <:+ new) :
    NamingCall id inst (suppliedNickname c e.tid) (pastOf e.tid older) e.call := by
  obtain ⟨t, ht, ⟨r, hreq, rfl⟩, hdisc⟩ :=
    h.newcomers.event h.start.orderly h.reach.naming hsuf
  have hsupplied : suppliedNickname c e.tid = normalizeNickname r.nickname := by
    rw [suppliedNickname, ht, Option.map_some, hreq]
  rw [hsupplied]
  exact hdisc id r hreq

/-- The answer of a join, as to its nickname. -/
theorem namingAnswered (h : JoinRun app id inst c₀ c new) (hj : c₀.threads.length ≤ j)
    {response : JoinRoomResponse} (hr : joinResponseOf c j = some response) :
    NamingAnswered id inst (suppliedNickname c j) (pastOf j new) (.ok (.joined response)) := by
  obtain ⟨t, ht, ⟨r, hreq, rfl⟩, hconclusion⟩ :=
    h.newcomers.returned h.start.orderly h.reach.naming hj (joinResponseOf_eq_some.mp hr)
  have hsupplied : suppliedNickname c j = normalizeNickname r.nickname := by
    rw [suppliedNickname, ht, Option.map_some, hreq]
  rw [hsupplied]
  exact hconclusion id r hreq

/-- What the log of a join of the run says is all that it did. -/
theorem past (h : JoinRun app id inst c₀ c new) (hj : c₀.threads.length ≤ j) :
    pastOf j c.trace = pastOf j new := by
  rw [h.trace]
  exact System.Newcomers.past h.start.orderly hj new

/-- Where a look under the instance found nobody, there was nobody at the start. -/
theorem start_of_byInstance (h : JoinRun app id inst c₀ c new)
    (hread : ⟨.getParticipantByInstance id inst, none⟩ ∈ pastOf j new) :
    ∀ p ∈ c₀.shared.db.participants, ¬ Holds id inst p := by
  intro p hp hholds
  obtain ⟨before, after, sess, newer, older, hsplit, hexec, hbefore, -⟩ := h.hist.seen hread
  obtain ⟨hnobody, rfl⟩ := done_of_read hexec
  obtain ⟨q, hq, hsame⟩ := renamed_kept hbefore h.start.wellFormed
    (fun e he => h.ofJoin (by simp [hsplit, he])) hp
  exact Db.getParticipantByInstance_eq_none.mp hnobody q hq (hsame.holds hholds)

/-- Where a look under the handle found nobody, there was nobody at the start. -/
theorem start_of_byHandle (h : JoinRun app id inst c₀ c new)
    (hread : ⟨.getParticipantByHandle id inst, none⟩ ∈ pastOf j new) :
    ∀ p ∈ c₀.shared.db.participants, p.roomId = id → p.handle ≠ inst := by
  intro p hp hroom hhandle
  obtain ⟨before, after, sess, newer, older, hsplit, hexec, hbefore, -⟩ := h.hist.seen hread
  obtain ⟨hnobody, rfl⟩ := done_of_read hexec
  obtain ⟨q, hq, hsame⟩ := renamed_kept hbefore h.start.wellFormed
    (fun e he => h.ofJoin (by simp [hsplit, he])) hp
  refine Db.getParticipantByHandle_eq_none.mp hnobody q hq ⟨?_, hsame.handle.trans hhandle⟩
  rw [hsame]
  exact hroom

/-- A join that met a stranger started without the participant. -/
theorem start_of_stranger (h : JoinRun app id inst c₀ c new)
    (hsub : stranger id inst ⊆ pastOf j new) : c₀.shared.db.resolve id inst = none := by
  have hinst := h.start_of_byInstance (hsub (List.mem_cons_of_mem _ List.mem_cons_self))
  have hhandle := h.start_of_byHandle (hsub List.mem_cons_self)
  cases hresolve : c₀.shared.db.resolve id inst with
  | none => rfl
  | some p =>
    obtain ⟨hp, hroom, hname | hname⟩ := Db.resolve_spec hresolve
    · exact absurd ⟨hroom, hname⟩ (hinst p hp)
    · exact absurd hname (hhandle p hp hroom)

/-- What a join mints carries its nickname, and there was nobody at the start. -/
theorem minter (h : JoinRun app id inst c₀ c new) (he : e ∈ new)
    (hcall : e.call = .createParticipant p) :
    Holds id inst p ∧ p.nickname = suppliedNickname c e.tid ∧
      c₀.shared.db.resolve id inst = none := by
  obtain ⟨newer, older, hsplit⟩ := List.append_of_mem he
  have hsuf : e :: older <:+ new := ⟨newer, hsplit.symm⟩
  have hjoin := h.call hsuf
  have hnaming := h.naming hsuf
  rw [hcall] at hjoin hnaming
  refine ⟨⟨hjoin.1, hjoin.2.1⟩, hnaming.1, h.start_of_stranger (j := e.tid) ?_⟩
  exact List.Subset.trans hnaming.2 (pastOf_subset ((List.suffix_cons _ _).trans hsuf))

/-- A row was there at the start, or it is the participant and new. -/
theorem origin (h : JoinRun app id inst c₀ c new) (hist : History app c₀.shared tr s)
    (hsub : tr ⊆ new) (hq : q ∈ s.db.participants) :
    (∃ p ∈ c₀.shared.db.participants, Renamed p q) ∨
      (Holds id inst q ∧ c₀.shared.db.resolve id inst = none) := by
  rcases renamed_origin hist h.start.wellFormed (fun _ he => h.ofJoin (hsub he)) hq with
    hold | ⟨e, he, p, hcall, -, hsame⟩
  · exact .inl hold
  · obtain ⟨hholds, -, hnobody⟩ := h.minter (hsub he) hcall
    exact .inr ⟨hsame.holds hholds, hnobody⟩

/-- The row of the instance is what the name stands for in the end. -/
theorem resolve_of_row (h : JoinRun app id inst c₀ c new) (hist : History app s tr c.shared)
    (hsub : tr ⊆ new) (hwf : s.db.WellFormed) (hp : p ∈ s.db.participants)
    (hholds : Holds id inst p) :
    ∃ q, c.shared.db.resolve id inst = some q ∧ q.handle = p.handle := by
  obtain ⟨q, hq, hsame⟩ := h.kept hist hsub hwf hp
  exact ⟨q, Db.resolve_of_holds h.reach.wellFormed hq (hsame.holds hholds), hsame.handle⟩

/-- **Whomever a join has met** is what the name stands for in the end. -/
theorem resolve_of_met (h : JoinRun app id inst c₀ c new) (hmet : Met id inst p (pastOf j new)) :
    ∃ q, c.shared.db.resolve id inst = some q ∧ q.handle = p.handle := by
  obtain ⟨s, newer, older, hnewer, holder, hbefore, hafter, hp, hroom, hname⟩ :=
    h.hist.met hmet
  have hwf := h.start.wellFormed
  have hwf' := hbefore.wellFormed hwf
  rcases hname with hpinst | ⟨hhandle, hread⟩
  · exact h.resolve_of_row hafter hnewer hwf' hp ⟨hroom, hpinst⟩
  · rcases h.origin hbefore holder hp with ⟨p₀, hp₀, hsame⟩ | ⟨hholds, -⟩
    · -- the participant was there at the start, so that nobody has been minted
      have hnobody := h.start_of_byInstance hread
      have hroom₀ : p₀.roomId = id := by
        rw [hsame] at hroom
        exact hroom
      have hstart : c₀.shared.db.resolve id inst = some p₀ :=
        Db.resolve_of_handle hwf hp₀ hroom₀ (hsame.handle.symm.trans hhandle) hnobody
      obtain ⟨q, hq, hsame'⟩ := h.kept hafter hnewer hwf' hp
      have hqroom : q.roomId = id := by
        rw [hsame']
        exact hroom
      refine ⟨q, Db.resolve_of_handle h.reach.wellFormed hq hqroom
        (hsame'.handle.trans hhandle) fun q' hq' hholds => ?_, hsame'.handle⟩
      rcases h.origin h.hist (List.Subset.refl _) hq' with ⟨p₁, hp₁, hsame₁⟩ | ⟨-, hnone⟩
      · refine hnobody p₁ hp₁ ?_
        rw [Holds, hsame₁] at hholds
        exact hholds
      · rw [hstart] at hnone
        cases hnone
    · exact h.resolve_of_row hafter hnewer hwf' hp hholds

/-- Whomever a join has met is there from then on. -/
theorem row_of_met (h : JoinRun app id inst c₀ c new) (hist : History app c₀.shared tr s)
    (hsub : tr ⊆ new) (hmet : Met id inst p (pastOf j tr)) :
    ∃ q ∈ s.db.participants, q.handle = p.handle := by
  obtain ⟨s', newer, older, hnewer, -, hbefore, hafter, hp, -⟩ := hist.met hmet
  obtain ⟨q, hq, hsame⟩ := renamed_kept hafter (hbefore.wellFormed h.start.wellFormed)
    (fun e he => h.ofJoin (hsub (hnewer he))) hp
  exact ⟨q, hq, hsame.handle⟩

/-- Where a nickname is set, the participant has it. -/
theorem named_row (h : JoinRun app id inst c₀ c new) {newer : List Step}
    (hsplit : new = newer ++ e :: older) (hrenames : e.call.renames = true) :
    (suppliedNickname c e.tid).isSome = true ∧ ∃ p q, c.shared.db.resolve id inst = some q ∧
      q.handle = p.handle ∧ p ∈ e.after.db.participants ∧
        p.nickname = suppliedNickname c e.tid := by
  have hsuf : e :: older <:+ new := ⟨newer, hsplit.symm⟩
  have hnaming := h.naming hsuf
  have hist := h.hist
  rw [hsplit] at hist
  obtain ⟨hbefore, ⟨sess, hexec⟩, -⟩ := System.History.split hist
  have holder : older ⊆ new := by
    rw [hsplit]
    exact List.subset_append_of_subset_right _ (List.subset_cons_self _ _)
  obtain ⟨tid, call, reply, before, after⟩ := e
  cases call
  case setNickname handle nickname =>
    change Store.exec sess (.setNickname handle nickname) before = .done reply after at hexec
    obtain ⟨hnickname, hsome, p, rfl, hmet⟩ := hnaming
    have hmet' : Met id inst p (pastOf tid new) :=
      hmet.mono (pastOf_subset ((List.suffix_cons _ _).trans hsuf))
    obtain ⟨r, hr, hhandle⟩ := h.row_of_met hbefore holder hmet
    obtain ⟨q, hq, hqhandle⟩ := h.resolve_of_met hmet'
    refine ⟨hnickname ▸ hsome, { r with nickname := nickname }, q, hq,
      hqhandle.trans hhandle.symm, ?_, hnickname⟩
    refine (effect_of_exec hexec).mem_participants.mpr (.inl ⟨r, hr, rfl, ?_⟩)
    simp [Call.onParticipant, hhandle]
  all_goals cases hrenames

/-- **Whose nickname is stored**: of the last join that set one, or else of the join
that minted, or else nothing has changed. -/
theorem stored_cases (h : JoinRun app id inst c₀ c new) :
    (∃ e ∈ new, e.call.renames = true ∧ (suppliedNickname c e.tid).isSome = true ∧
      storedNickname id inst c.shared.db = suppliedNickname c e.tid) ∨
    (∀ e ∈ new, e.call.renames = false) ∧
      ((∃ e ∈ new, e.call.mints e.reply = true ∧
        storedNickname id inst c₀.shared.db = none ∧
        storedNickname id inst c.shared.db = suppliedNickname c e.tid) ∨
      (∀ e ∈ new, e.call.mints e.reply = false) ∧
        c.shared.db.resolve id inst = c₀.shared.db.resolve id inst) := by
  have hwf := h.reach.wellFormed
  cases hnamed : new.find? (·.call.renames) with
  | some e =>
    obtain ⟨hrenames, newer, older, hsplit, hnewer⟩ := List.find?_eq_some_iff_append.mp hnamed
    obtain ⟨hsome, p, q, hq, hhandle, hp, hnickname⟩ := h.named_row hsplit hrenames
    have hist := h.hist
    rw [hsplit] at hist
    obtain ⟨hbefore, ⟨sess, hexec⟩, hafter⟩ := System.History.split hist
    have hwf' := (History.wellFormed hbefore h.start.wellFormed).exec hexec
    have hkept : p ∈ c.shared.db.participants :=
      row_kept hafter hwf' (fun x hx => h.ofJoin (by simp [hsplit, hx]))
        (fun x hx => by simpa using hnewer x hx) hp
    obtain rfl := hwf.participant_unique (Db.resolve_spec hq).1 hkept hhandle
    refine .inl ⟨e, by simp [hsplit], hrenames, hsome, ?_⟩
    rw [storedNickname, hq, Option.bind_some, hnickname]
  | none =>
    have hunnamed : ∀ e ∈ new, e.call.renames = false := by
      simpa using List.find?_eq_none.mp hnamed
    refine .inr ⟨hunnamed, ?_⟩
    by_cases hminted : ∃ e ∈ new, e.call.mints e.reply = true
    · obtain ⟨e, he, hmints⟩ := hminted
      obtain ⟨p, hentry⟩ := Call.eq_of_mints (x := ⟨e.call, e.reply⟩) hmints
      obtain ⟨hholds, hnickname, hnone⟩ := h.minter he (congrArg Sigma.fst hentry)
      obtain ⟨newer, older, hsplit⟩ := List.append_of_mem he
      have hist := h.hist
      rw [hsplit] at hist
      obtain ⟨hbefore, ⟨sess, hexec⟩, hafter⟩ := System.History.split hist
      have hwf' := (History.wellFormed hbefore h.start.wellFormed).exec hexec
      have hrow : p ∈ e.after.db.participants :=
        (effect_of_exec hexec).mem_participants.mpr
          (.inr (congrArg (fun x : Sigma Call.Reply => x.1.joined x.2) hentry))
      have hkept : p ∈ c.shared.db.participants :=
        row_kept hafter hwf' (fun x hx => h.ofJoin (by simp [hsplit, hx]))
          (fun x hx => hunnamed x (by simp [hsplit, hx])) hrow
      refine .inl ⟨e, he, hmints, by rw [storedNickname, hnone, Option.bind_none], ?_⟩
      rw [storedNickname, Db.resolve_of_holds hwf hkept hholds, Option.bind_some, hnickname]
    · have hunminted : ∀ e ∈ new, e.call.mints e.reply = false := by
        simpa using hminted
      have hrows := rows_kept h.hist h.start.wellFormed (fun _ => h.ofJoin) hunnamed hunminted
      refine .inr ⟨hunminted, ?_⟩
      rw [Db.resolve, Db.resolve, Db.getParticipantByInstance, Db.getParticipantByHandle, hrows]
      rfl

theorem mem_arrivals_of_event (h : JoinRun app id inst c₀ c new) (he : e ∈ new) :
    e.tid ∈ arrivals c₀ c :=
  mem_arrivals.mpr
    ⟨h.tids e he, h.reach.orderly.tid_lt (h.trace ▸ List.mem_append_left _ he)⟩

/-- A join that minted did so in the run. -/
theorem minted_event (h : JoinRun app id inst c₀ c new) (hj : c₀.threads.length ≤ j)
    (hminted : mintedBy c j = true) : ∃ e ∈ new, e.tid = j ∧ e.call.mints e.reply = true := by
  obtain ⟨x, hx, hmints⟩ := List.any_eq_true.mp hminted
  rw [h.past hj] at hx
  obtain ⟨e, he, htid, rfl⟩ := mem_pastOf.mp hx
  exact ⟨e, he, htid, hmints⟩

theorem mintedBy_of_event (h : JoinRun app id inst c₀ c new) (he : e ∈ new)
    (hmints : e.call.mints e.reply = true) : mintedBy c e.tid = true :=
  List.any_eq_true.mpr ⟨⟨e.call, e.reply⟩,
    mem_pastOf.mpr ⟨e, h.trace ▸ List.mem_append_left _ he, rfl, rfl⟩, hmints⟩

/-- A join answers that it resumed exactly where it minted nobody. -/
theorem resumed_eq (h : JoinRun app id inst c₀ c new) (hj : c₀.threads.length ≤ j)
    {response : JoinRoomResponse} (hr : joinResponseOf c j = some response) :
    response.resumed = !mintedBy c j := by
  obtain ⟨cursor, msgs, older, hpast, hattached, -⟩ :=
    h.answered hj (joinResponseOf_eq_some.mp hr)
  rw [mintedBy, h.past hj, hpast, List.any_cons, show Call.mints _ _ = false from rfl,
    Bool.false_or]
  cases hresumed : response.resumed with
  | true =>
    rw [hresumed] at hattached
    have hnone : (older.any fun x => x.1.mints x.2) = false :=
      List.any_eq_false.mpr fun x hx => Bool.not_eq_true _ ▸ hattached.unminted x hx
    rw [hnone]
    rfl
  | false =>
    rw [hresumed] at hattached
    obtain ⟨p, hp⟩ := hattached.mints
    rw [List.any_eq_true.mpr ⟨_, hp, rfl⟩]
    rfl

/-- A join that set a nickname did not mint, and did not give way. -/
theorem renames_of_event (h : JoinRun app id inst c₀ c new)
    (hanswered : ∀ j ∈ arrivals c₀ c, (joinResponseOf c j).isSome = true) (he : e ∈ new)
    (hrenames : e.call.renames = true) (hsome : (suppliedNickname c e.tid).isSome = true) :
    Renames c₀ c e.tid ∧ gaveWay (pastOf e.tid c.trace) = false := by
  have hj := h.tids e he
  have hmem := h.mem_arrivals_of_event he
  obtain ⟨response, hr⟩ := Option.isSome_iff_exists.mp (hanswered _ hmem)
  have hnaming := h.namingAnswered hj hr
  have hresumed := h.resumed_eq hj hr
  have hnamed : ¬ Unnamed (pastOf e.tid new) := by
    intro hunnamed
    rw [hunnamed ⟨e.call, e.reply⟩ (mem_pastOf.mpr ⟨e, he, rfl, rfl⟩)] at hrenames
    cases hrenames
  rw [h.past hj]
  cases hflag : response.resumed with
  | false =>
    simp only [NamingAnswered, hflag, Bool.false_eq_true, ↓reduceIte] at hnaming
    exact absurd hnaming hnamed
  | true =>
    have hminted : mintedBy c e.tid = false := by
      simpa [hflag] using hresumed.symm
    simp only [NamingAnswered, hflag, ↓reduceIte] at hnaming
    refine ⟨⟨hmem, hminted, hsome⟩, Bool.eq_false_iff.mpr fun hgave => hnamed ?_⟩
    rw [if_pos hgave] at hnaming
    exact hnaming.2

/-- A join that supplied a nickname without minting has set it, or has given way. -/
theorem event_of_renames (h : JoinRun app id inst c₀ c new)
    (hanswered : ∀ j ∈ arrivals c₀ c, (joinResponseOf c j).isSome = true)
    (hrenames : Renames c₀ c j) (hkept : gaveWay (pastOf j c.trace) = false) :
    ∃ e ∈ new, e.call.renames = true := by
  obtain ⟨hmem, hminted, hsome⟩ := hrenames
  have hj := (mem_arrivals.mp hmem).1
  obtain ⟨response, hr⟩ := Option.isSome_iff_exists.mp (hanswered _ hmem)
  have hnaming := h.namingAnswered hj hr
  have hresumed := h.resumed_eq hj hr
  rw [hminted, Bool.not_false] at hresumed
  rw [h.past hj] at hkept
  simp only [NamingAnswered, hresumed, hkept, ↓reduceIte, Bool.false_eq_true] at hnaming
  obtain ⟨handle, hset⟩ := hnaming.2 hsome
  obtain ⟨e, he, -, heq⟩ := mem_pastOf.mp hset
  exact ⟨e, he, congrArg (fun x : Sigma Call.Reply => x.1.renames) heq⟩

/-- Where a join gave way, somebody has been minted. -/
theorem minted_of_gaveWay (h : JoinRun app id inst c₀ c new)
    (hanswered : ∀ j ∈ arrivals c₀ c, (joinResponseOf c j).isSome = true)
    (hrenames : Renames c₀ c j) (hgave : gaveWay (pastOf j c.trace) = true) :
    c.shared.db.resolve id inst ≠ c₀.shared.db.resolve id inst := by
  obtain ⟨hmem, hminted, -⟩ := hrenames
  have hj := (mem_arrivals.mp hmem).1
  obtain ⟨response, hr⟩ := Option.isSome_iff_exists.mp (hanswered _ hmem)
  have hnaming := h.namingAnswered hj hr
  have hresumed := h.resumed_eq hj hr
  rw [hminted, Bool.not_false] at hresumed
  rw [h.past hj] at hgave
  simp only [NamingAnswered, hresumed, hgave, ↓reduceIte] at hnaming
  obtain ⟨⟨p, -, hmet⟩, -⟩ := hnaming
  obtain ⟨q, hq, -⟩ := h.resolve_of_met hmet
  obtain ⟨p', hrefused⟩ := refused_of_gaveWay hgave
  obtain ⟨e, he, -, heq⟩ := mem_pastOf.mp hrefused
  obtain ⟨-, -, hnone⟩ := h.minter he (congrArg Sigma.fst heq)
  rw [hq, hnone]
  exact Option.some_ne_none q

/-- One join at most mints. -/
theorem minted_one (h : JoinRun app id inst c₀ c new) : ∀ j ∈ arrivals c₀ c, ∀ k ∈ arrivals c₀ c,
    mintedBy c j = true → mintedBy c k = true → j = k := by
  intro j hj k hk hminted hminted'
  obtain ⟨e, he, rfl, hmints⟩ := h.minted_event (mem_arrivals.mp hj).1 hminted
  obtain ⟨e', he', rfl, hmints'⟩ := h.minted_event (mem_arrivals.mp hk).1 hminted'
  exact h.minted_once he he' hmints hmints'

/-! ### The two directions -/

section
variable (h : JoinRun app id inst c₀ c new)
  (hanswered : ∀ j ∈ arrivals c₀ c, (joinResponseOf c j).isSome = true)

include h hanswered

theorem fresh_iff (hj : j ∈ arrivals c₀ c) :
    resumedOf c j = some false ↔ mintedBy c j = true := by
  obtain ⟨response, hr⟩ := Option.isSome_iff_exists.mp (hanswered j hj)
  rw [resumedOf, hr, Option.map_some, h.resumed_eq (mem_arrivals.mp hj).1 hr, Option.some_inj,
    Bool.not_eq_false']

/-- A nickname that is stored may have been supplied last, unless by the join that minted. -/
theorem inSequence_last (hrenames : Renames c₀ c j)
    (hstored : storedNickname id inst c.shared.db = suppliedNickname c j) :
    ∃ order, InSequence id inst c₀ c order := by
  obtain ⟨hmem, hminted, hsome⟩ := hrenames
  obtain ⟨order, hperm, hhead⟩ :=
    exists_order_last h.minted_one hmem (by rw [hminted]; exact Bool.false_ne_true)
  refine ⟨order ++ [j], hperm, fun k hk hresumed => hhead k hk ?_, ?_⟩
  · exact (h.fresh_iff hanswered (hperm.mem_iff.mp hk)).mp hresumed
  · rw [storedAfter_concat hsome, hstored]

/-- In sequence, the last nickname is not that of the join that minted. -/
theorem renames_last {pre post : List ℕ} (hseq : InSequence id inst c₀ c (pre ++ j :: post))
    (hsome : (suppliedNickname c j).isSome = true)
    (hpost : ∀ k ∈ post, suppliedNickname c k = none) {i : ℕ} (hi : Renames c₀ c i) :
    Renames c₀ c j := by
  obtain ⟨hall, hhead, -⟩ := hseq
  have hmem : j ∈ arrivals c₀ c := hall.mem_iff.mp (by simp)
  refine ⟨hmem, Bool.eq_false_iff.mpr fun hminted => ?_, hsome⟩
  have hj := hhead j (by simp) ((h.fresh_iff hanswered hmem).mpr hminted)
  cases pre with
  | nil =>
    rcases List.mem_cons.mp (hall.mem_iff.mpr hi.1) with rfl | hlater
    · rw [hi.2.1] at hminted
      cases hminted
    · have hi' := hi.2.2
      rw [hpost i hlater] at hi'
      cases hi'
  | cons k pre =>
    have hnodup := hall.nodup_iff.mpr (nodup_arrivals _ _)
    obtain rfl : k = j := by simpa using hj
    simp at hnodup

theorem applied_of_inSequence (hseq : InSequence id inst c₀ c order) : NicknameApplied c₀ c := by
  rintro ⟨i, hi⟩
  rcases storedAfter_last (storedNickname id inst c₀.shared.db) (suppliedNickname c) order with
    hnone | ⟨pre, j, post, rfl, hsome, hpost, hlast⟩
  · have hi' := hi.2.2
    rw [hnone i (hseq.all.mem_iff.mpr hi.1)] at hi'
    cases hi'
  · have hrenames := h.renames_last hanswered hseq hsome hpost hi
    cases hgave : gaveWay (pastOf j c.trace) with
    | false => exact ⟨j, hrenames, .inl hgave⟩
    | true =>
      rcases h.stored_cases with
        ⟨e, he, hnamed, hsome', -⟩ | ⟨-, ⟨e, he, hmints, -, hstored⟩ | ⟨-, hsame⟩⟩
      · obtain ⟨hrenames', hkept⟩ := h.renames_of_event hanswered he hnamed hsome'
        exact ⟨e.tid, hrenames', .inl hkept⟩
      · refine ⟨j, hrenames, .inr ⟨e.tid, h.mem_arrivals_of_event he, ?_, ?_⟩⟩
        · exact h.mintedBy_of_event he hmints
        · rw [← hstored, hseq.stored, hlast]
      · exact absurd hsame (h.minted_of_gaveWay hanswered hrenames hgave)

/-- Where no nickname was set, every join that supplied one has given way. -/
theorem gaveWay_of_unnamed (hunnamed : ∀ e ∈ new, e.call.renames = false)
    (hrenames : Renames c₀ c j) : gaveWay (pastOf j c.trace) ≠ false := by
  intro hkept
  obtain ⟨e, he, hnamed⟩ := h.event_of_renames hanswered hrenames hkept
  rw [hunnamed e he] at hnamed
  cases hnamed

/-- Where none but the join that minted has supplied a nickname, any order will do
that it is the first of. -/
theorem inSequence_of_quiet (hquiet : ¬ ∃ j, Renames c₀ c j)
    (hstored : (∃ e ∈ new, e.call.mints e.reply = true ∧
        storedNickname id inst c₀.shared.db = none ∧
        storedNickname id inst c.shared.db = suppliedNickname c e.tid) ∨
      (∀ e ∈ new, e.call.mints e.reply = false) ∧
        c.shared.db.resolve id inst = c₀.shared.db.resolve id inst) :
    ∃ order, InSequence id inst c₀ c order := by
  have hnone : ∀ j ∈ arrivals c₀ c, mintedBy c j = false → suppliedNickname c j = none := by
    intro j hmem hminted
    rw [← Option.not_isSome_iff_eq_none]
    exact fun hsome => hquiet ⟨j, hmem, hminted, hsome⟩
  obtain ⟨order, hperm, hhead⟩ := exists_order _ _ h.minted_one
  refine ⟨order, hperm, fun j hj hresumed => hhead j hj ?_, ?_⟩
  · exact (h.fresh_iff hanswered (hperm.mem_iff.mp hj)).mp hresumed
  rcases hstored with ⟨e, he, hmints, hstart, hstored⟩ | ⟨hunminted, hsame⟩
  · have hminted := h.mintedBy_of_event he hmints
    have hmem := h.mem_arrivals_of_event he
    obtain ⟨rest, rfl⟩ := List.head?_eq_some_iff.mp (hhead e.tid (hperm.mem_iff.mpr hmem) hminted)
    have hnodup : (e.tid :: rest).Nodup := hperm.nodup_iff.mpr (nodup_arrivals _ _)
    rw [hstored, hstart, List.map_cons, storedAfter, List.foldl_cons, Option.or_none,
      ← storedAfter, storedAfter_of_none fun j hj => ?_]
    have hmem' : j ∈ arrivals c₀ c := hperm.mem_iff.mp (List.mem_cons_of_mem _ hj)
    refine hnone j hmem' (Bool.eq_false_iff.mpr fun hminted' => ?_)
    obtain rfl := h.minted_one j hmem' _ hmem hminted' hminted
    exact (List.nodup_cons.mp hnodup).1 hj
  · rw [storedNickname, hsame, ← storedNickname, storedAfter_of_none fun j hj => ?_]
    have hmem := hperm.mem_iff.mp hj
    refine hnone j hmem (Bool.eq_false_iff.mpr fun hminted => ?_)
    obtain ⟨e, he, -, hmints⟩ := h.minted_event (mem_arrivals.mp hmem).1 hminted
    rw [hunminted e he] at hmints
    cases hmints

theorem inSequence_of_applied (happlied : NicknameApplied c₀ c) :
    ∃ order, InSequence id inst c₀ c order := by
  rcases h.stored_cases with ⟨e, he, hnamed, hsome, hstored⟩ | ⟨hunnamed, hcases⟩
  · exact h.inSequence_last hanswered (h.renames_of_event hanswered he hnamed hsome).1 hstored
  · by_cases hsomebody : ∃ j, Renames c₀ c j
    · -- then all have given way, and the join that won supplied the same nickname
      obtain ⟨j, hrenames, hkept | ⟨k, hk, hminted, hsame⟩⟩ := happlied hsomebody
      · exact absurd hkept (h.gaveWay_of_unnamed hanswered hunnamed hrenames)
      · obtain ⟨e', he', rfl, hmints'⟩ := h.minted_event (mem_arrivals.mp hk).1 hminted
        rcases hcases with ⟨e, he, hmints, -, hstored⟩ | ⟨hunminted, -⟩
        · rw [h.minted_once he he' hmints hmints'] at hstored
          exact h.inSequence_last hanswered hrenames (hstored.trans hsame)
        · rw [hunminted e' he'] at hmints'
          cases hmints'
    · exact h.inSequence_of_quiet hanswered hsomebody hcases

end

end JoinRun

/-- **When a supplied nickname is kept**: what is stored in the end is what the joins
would have left one after the other, the one that did not resume first, exactly when
none of the others has supplied a nickname, or one has that did not lose the race for
the instance, or one has supplied the nickname of the join that won it. -/
theorem nickname_kept_iff (h₀ : Reachable app c₀)
    (hrun : (daemon app).RunWith (OnlyJoins id inst c₀.threads.length) c₀ c)
    (hanswered : ∀ j ∈ arrivals c₀ c, (joinResponseOf c j).isSome = true) :
    (∃ order, InSequence id inst c₀ c order) ↔ NicknameApplied c₀ c := by
  obtain ⟨new, hnew, -⟩ := hrun.history
  have h := joinRun_of_onlyJoins h₀ hrun new hnew
  constructor
  · rintro ⟨order, hseq⟩
    exact h.applied_of_inSequence hanswered hseq
  · exact h.inSequence_of_applied hanswered

/-! ### A lost race -/

/-- The request is a join of the instance into the room, as a test. -/
def Request.joins (id inst : String) : Request → Bool
  | .joinRoom id' r => id' = id && effectiveInstance r.toCaller = inst
  | _ => false

theorem Request.joins_iff {req : Request} : req.joins id inst = true ↔ IsJoin id inst req := by
  constructor
  · intro hjoins
    cases req
    case joinRoom id' r =>
      rw [joins, Bool.and_eq_true, decide_eq_true_eq, decide_eq_true_eq] at hjoins
      exact ⟨r, by rw [hjoins.1], hjoins.2⟩
    all_goals cases hjoins
  · rintro ⟨r, rfl, hinst⟩
    simp [joins, hinst]

instance : DecidablePred (IsJoin id inst) := fun _ => decidable_of_iff _ Request.joins_iff

/-- Moves of joins that arrive among them. -/
theorem runWith_onlyJoins {moves : List Action}
    (hmoves : ∀ a ∈ moves, System.Only (IsJoin id inst) c.threads.length c a) :
    (daemon app).RunWith (OnlyJoins id inst c.threads.length) c (play app moves c) := by
  refine (runWith_only hmoves).mono fun _ a hok => ?_
  cases a <;> exact hok

/-- An empty room. -/
def emptyRoom : Daemon := demo [.openRoom ⟨"demo", none, none, none⟩]

/-- Alice joins with a nickname and finds nobody; she joins once more without one and
is answered; then the first join goes on. -/
def lostNickname : List Action :=
  .start (.joinRoom demoRoom ⟨alice, some "Neo"⟩) :: (steps 1 7 ++
    .start (.joinRoom demoRoom ⟨alice, none⟩) :: (steps 2 20 ++ steps 1 20))

/-- Then she joins a third time, with a nickname. -/
def mendedNickname : List Action :=
  lostNickname ++ .start (.joinRoom demoRoom ⟨alice, some "Trinity"⟩) :: steps 3 20

/-- A nickname that was lost does no harm to one that is supplied later. -/
theorem nickname_kept_iff_mended : ∃ order, InSequence demoRoom "alice" emptyRoom
    (play .default mendedNickname emptyRoom) order := by
  have hdemo :
      (∀ a ∈ mendedNickname,
        System.Only (IsJoin demoRoom "alice") emptyRoom.threads.length emptyRoom a) ∧
      (∀ j ∈ arrivals emptyRoom (play .default mendedNickname emptyRoom),
        (joinResponseOf (play .default mendedNickname emptyRoom) j).isSome = true) ∧
      3 ∈ arrivals emptyRoom (play .default mendedNickname emptyRoom) ∧
      mintedBy (play .default mendedNickname emptyRoom) 3 = false ∧
      (suppliedNickname (play .default mendedNickname emptyRoom) 3).isSome = true ∧
      gaveWay (pastOf 3 (play .default mendedNickname emptyRoom).trace) = false := by
    decide +kernel
  obtain ⟨hmoves, hanswered, hmem, hminted, hsome, hkept⟩ := hdemo
  refine (nickname_kept_iff (reachable_demo _) (runWith_onlyJoins hmoves) hanswered).mpr ?_
  exact fun _ => ⟨3, ⟨hmem, hminted, hsome⟩, .inl hkept⟩

/-- The one nickname that was supplied is not stored. -/
theorem not_nickname_kept :
    ¬ ∀ (app : AppState) (id inst : String) (c₀ c : Daemon), Reachable app c₀ →
      (daemon app).RunWith (OnlyJoins id inst c₀.threads.length) c₀ c →
      (∀ j ∈ arrivals c₀ c, (joinResponseOf c j).isSome = true) →
      ∃ order, InSequence id inst c₀ c order := by
  intro h
  have hdemo :
      (∀ a ∈ lostNickname,
        System.Only (IsJoin demoRoom "alice") emptyRoom.threads.length emptyRoom a) ∧
      (∀ j ∈ arrivals emptyRoom (play .default lostNickname emptyRoom),
        (joinResponseOf (play .default lostNickname emptyRoom) j).isSome = true) ∧
      1 ∈ arrivals emptyRoom (play .default lostNickname emptyRoom) ∧
      suppliedNickname (play .default lostNickname emptyRoom) 1 = some "Neo" ∧
      (∀ k ∈ arrivals emptyRoom (play .default lostNickname emptyRoom), k ≠ 1 →
        suppliedNickname (play .default lostNickname emptyRoom) k = none) ∧
      storedNickname demoRoom "alice" (play .default lostNickname emptyRoom).shared.db = none := by
    decide +kernel
  obtain ⟨hmoves, hanswered, hmem, hsupplied, hsole, hstored⟩ := hdemo
  obtain ⟨order, hseq⟩ := h .default demoRoom "alice" emptyRoom _ (reachable_demo _)
    (runWith_onlyJoins hmoves) hanswered
  have hkept := hseq.sole hmem (by rw [hsupplied]; rfl) hsole
  rw [hstored, hsupplied] at hkept
  cases hkept

end ChatBotChat
