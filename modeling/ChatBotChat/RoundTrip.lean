/-
Whether a handle leads back to its participant.

A name is looked up as an instance first and as a handle then, and nothing keeps an
instance from being called like the handle of another.  The first to come under a
name that is nobody's handle yet has it as its instance, and a handle that is derived
afterwards may be that very name.

* `handle_round_trips_iff` — the handle of `p` leads to `p`, and whoever comes under
  it acts as `p`, exactly when no other participant of the room has it as its
  instance.
-/
import ChatBotChat.Acting
import ChatBotChat.Delivery
import ChatBotChat.Interleave.Alone

namespace ChatBotChat

open Interleave

variable {app : AppState} {c c' : Daemon} {new older tr : List Step} {e : Step} {s s' : Store}
  {p q : Participant} {j : ℕ}

/-! ### Namesakes -/

/-- No participant of the room but `p` has the handle of `p` as its instance. -/
def NoNamesake (p : Participant) (db : Db) : Prop :=
  ∀ q ∈ db.participants, q.roomId = p.roomId → q.inst = p.handle → q.handle = p.handle

/-- The call lets another participant into the room, with the handle of `p` as its
instance. -/
def MintsNamesake (p : Participant) (e : Step) : Prop :=
  ∃ q, e.call.joined e.reply = some q ∧ q.roomId = p.roomId ∧ q.inst = p.handle ∧
    q.handle ≠ p.handle

/-- Everything that request `j` did for a participant it did as `p`: it was recognised,
it has let nobody in, and a join was answered with the handle of `p`. -/
structure ActedAs (p : Participant) (j : ℕ) (new : List Step) (c : Daemon) : Prop where
  recognised : ⟨.getParticipantByHandle p.roomId p.handle, none⟩ ∉ pastOf j new
  calls : ∀ e ∈ new, e.tid = j → e.call.ActsAs p.handle
  rejoined : ∀ r response, c.threads[j]?.map Thread.req = some (.joinRoom p.roomId r) →
    joinResponseOf c j = some response → response.handle = p.handle ∧ response.resumed = true

/-- The handle of `p` leads to `p`; and as long as `p` is not pruned and no namesake is
let in, whoever comes under it acts as `p`. -/
structure RoundTrips (app : AppState) (p : Participant) (c : Daemon) : Prop where
  resolves : ∀ choice, execute Store.exec choice 2 (resolveParticipant p.roomId p.handle) c.shared =
    some (some p, c.shared)
  acts : ∀ c' new, (daemon app).Run c c' → c'.trace = new ++ c.trace → NotPruned new p.handle →
    (∀ e ∈ new, ¬ MintsNamesake p e) → ∀ j ∈ arrivals c c', ∀ req,
      c'.threads[j]?.map Thread.req = some req → req.ComesAs p.roomId p.handle →
        ActedAs p j new c'

/-! ### One look-up -/

/-- The two reads of a look-up by itself are one look-up. -/
theorem resolveParticipant_executes (choice : List UInt16) (id inst : String) (s : Store) :
    execute Store.exec choice 2 (resolveParticipant id inst) s =
      some (s.db.resolve id inst, s) := by
  cases hfind : s.db.getParticipantByInstance id inst with
  | some q =>
    simp [execute, resolveParticipant, Prog.perform, Store.exec, Store.read, hfind, Bind.bind,
      Prog.bind, pure, Db.resolve]
  | none =>
    simp [execute, resolveParticipant, Prog.perform, Store.exec, Store.read, hfind, Bind.bind,
      Prog.bind, Db.resolve]

/-- **The handle stands for its participant** exactly when it is no other's instance. -/
theorem Db.resolve_eq_iff {db : Db} (hwf : db.WellFormed) (hp : p ∈ db.participants) :
    db.resolve p.roomId p.handle = some p ↔ NoNamesake p db := by
  constructor
  · intro hresolve q hq hroom hinst
    have hfound : db.resolve p.roomId p.handle = some q := by
      rw [← hroom, ← hinst, Db.resolve_inst hwf hq]
    rw [hresolve] at hfound
    rw [Option.some_inj.mp hfound]
  · intro hno
    by_cases hnamed : ∃ q ∈ db.participants, q.roomId = p.roomId ∧ q.inst = p.handle
    · obtain ⟨q, hq, hroom, hinst⟩ := hnamed
      obtain rfl := hwf.participant_unique hq hp (hno q hq hroom hinst)
      have hfound := Db.resolve_inst hwf hq
      rwa [hinst] at hfound
    · exact Db.resolve_handle hwf hp fun q hq hroom hinst => hnamed ⟨q, hq, hroom, hinst⟩

/-! ### Along a run -/

/-- A call that lets no namesake in leaves none. -/
theorem Effect.noNamesake (h : Effect e.before e.call e.reply e.after)
    (hno : NoNamesake p e.before.db) (hmints : ¬ MintsNamesake p e) :
    NoNamesake p e.after.db := by
  intro q hq hroom hinst
  rcases h.mem_participants.mp hq with ⟨q₀, hq₀, -, rfl⟩ | hjoined
  · rw [Call.onParticipant_roomId] at hroom
    rw [Call.onParticipant_inst] at hinst
    rw [Call.onParticipant_handle]
    exact hno q₀ hq₀ hroom hinst
  · by_contra hne
    exact hmints ⟨q, hjoined, hroom, hinst, hne⟩

/-- Where no namesake is let in, there is none in the end. -/
theorem History.noNamesake (hist : History app s tr s') (hwf : s.db.WellFormed)
    (hno : NoNamesake p s.db) (hmints : ∀ e ∈ tr, ¬ MintsNamesake p e) : NoNamesake p s'.db := by
  refine History.induction hwf (P := fun _ s => NoNamesake p s.db) hno
    (fun _ hdb _ _ _ h => hdb ▸ h) ?_ hist List.suffix_rfl
  intro e tr' sess hsuf hexec _ _ h
  exact (effect_of_exec hexec).noNamesake h (hmints e (hsuf.mem List.mem_cons_self))

/-- Whomever a log shows the handle to stand for is `p`. -/
theorem History.met_handle (hist : History app s tr s') (hwf : s.db.WellFormed)
    (hno : NoNamesake p s.db) (hmints : ∀ e ∈ tr, ¬ MintsNamesake p e)
    (hmet : Met p.roomId p.handle q (pastOf j tr)) : q.handle = p.handle := by
  obtain ⟨s₁, newer, older, -, holder, hbefore, -, hq, hroom, hinst | ⟨hhandle, -⟩⟩ := hist.met hmet
  · exact hbefore.noNamesake hwf hno (fun e he => hmints e (holder he)) q hq hroom hinst
  · exact hhandle

/-- As long as `p` is not pruned, the handle is somebody's. -/
theorem History.recognised (hist : History app s tr s') (hwf : s.db.WellFormed)
    (hp : p ∈ s.db.participants) (hkept : NotPruned tr p.handle) :
    ⟨.getParticipantByHandle p.roomId p.handle, none⟩ ∉ pastOf j tr := by
  intro hread
  obtain ⟨before, after, sess, newer, older, rfl, hexec, hbefore, -⟩ := hist.seen hread
  obtain ⟨hnobody, rfl⟩ := done_of_read hexec
  obtain ⟨q, hq, hsame⟩ := hbefore.row_kept hwf hp fun e he => hkept e (by simp [he])
  exact Db.getParticipantByHandle_eq_none.mp hnobody q hq ⟨hsame.roomId, hsame.handle⟩

/-- A call of a request that has come under the handle of `p` since. -/
theorem Reachable.acts (h : Reachable app c) (hrun : (daemon app).Run c c')
    (htrace : c'.trace = new ++ c.trace) (hp : p ∈ c.shared.db.participants)
    (hno : NoNamesake p c.shared.db) (hkept : NotPruned new p.handle)
    (hmints : ∀ e ∈ new, ¬ MintsNamesake p e) (hsuf : e :: older <:+ new)
    (hj : c.threads.length ≤ e.tid) {req : Request}
    (hreq : c'.threads[e.tid]?.map Thread.req = some req)
    (hcomes : req.ComesAs p.roomId p.handle) : e.call.ActsAs p.handle := by
  have hsub : older ⊆ new := ((List.suffix_cons _ _).trans hsuf).subset
  have hbefore : History app c.shared older e.before := by
    have hist := hrun.history_of_eq htrace
    obtain ⟨newer, rfl⟩ := hsuf
    exact (System.History.split hist).1
  have hsuf' : e :: (older ++ c.trace) <:+ c'.trace := by
    obtain ⟨newer, rfl⟩ := hsuf
    exact ⟨newer, by rw [htrace, List.append_assoc, List.cons_append]⟩
  obtain ⟨t, ht, hacting⟩ := (h.run hrun).acting.event hsuf'
  rw [System.Newcomers.past h.orderly hj] at hacting
  rw [ht, Option.map_some, Option.some_inj] at hreq
  subst hreq
  rcases hacting _ _ hcomes with hidle | ⟨q, hmet, hq⟩ | ⟨-, hstranger⟩
  · exact hidle p.handle
  · rwa [hbefore.met_handle h.wellFormed hno (fun e he => hmints e (hsub he)) hmet] at hq
  · exact absurd (hstranger List.mem_cons_self)
      (hbefore.recognised h.wellFormed hp fun e he => hkept e (hsub he))

/-- **Whoever comes under the handle of `p` acts as `p`**, as long as there is no
namesake. -/
theorem Reachable.actedAs (h : Reachable app c) (hrun : (daemon app).Run c c')
    (htrace : c'.trace = new ++ c.trace) (hp : p ∈ c.shared.db.participants)
    (hno : NoNamesake p c.shared.db) (hkept : NotPruned new p.handle)
    (hmints : ∀ e ∈ new, ¬ MintsNamesake p e) (hj : c.threads.length ≤ j) {req : Request}
    (hreq : c'.threads[j]?.map Thread.req = some req)
    (hcomes : req.ComesAs p.roomId p.handle) : ActedAs p j new c' := by
  have hist : History app c.shared new c'.shared := hrun.history_of_eq htrace
  have hcalls : ∀ e ∈ new, e.tid = j → e.call.ActsAs p.handle := by
    rintro e he rfl
    obtain ⟨newer, older, hsplit⟩ := List.append_of_mem he
    exact h.acts hrun htrace hp hno hkept hmints ⟨newer, hsplit.symm⟩ hj hreq hcomes
  refine ⟨hist.recognised h.wellFormed hp hkept, hcalls, fun r response hjoin hresponse => ?_⟩
  have hpast : pastOf j c'.trace = pastOf j new := by
    rw [htrace, System.Newcomers.past h.orderly hj]
  obtain rfl := Option.some_inj.mp (hreq.symm.trans hjoin)
  obtain ⟨t, ht, hreturned⟩ := Option.bind_eq_some_iff.mp (joinResponseOf_eq_some.mp hresponse)
  have htreq : t.req = .joinRoom p.roomId r := by
    rwa [ht, Option.map_some, Option.some_inj] at hjoin
  have hname : effectiveInstance r.toCaller = p.handle := Option.some_inj.mp hcomes.2
  have hnaming := (h.run hrun).naming.returned ht hreturned p.roomId r htreq
  have hanswered := (h.run hrun).joining.returned ht hreturned p.roomId r htreq
  rw [hpast, hname] at hnaming hanswered
  obtain ⟨handle, resumed, state, recent⟩ := response
  cases resumed with
  | true =>
    obtain ⟨⟨q, hhandle, hmet⟩, -⟩ := hnaming
    exact ⟨hhandle.symm.trans (hist.met_handle h.wellFormed hno hmints hmet), rfl⟩
  | false =>
    -- a join that did not resume has let somebody in
    obtain ⟨cursor, msgs, past, hlog, hattached, -⟩ := hanswered
    obtain ⟨q, hq⟩ := hattached.mints
    have hmem : ⟨.createParticipant q, .inserted⟩ ∈ pastOf j new := by
      rw [hlog]
      exact List.mem_cons_of_mem _ hq
    obtain ⟨e, he, htid, heq⟩ := mem_pastOf.mp hmem
    have hcall : e.call = .createParticipant q := congrArg Sigma.fst heq
    have hacts := hcalls e he htid
    rw [hcall] at hacts
    exact hacts.elim

/-! ### The claim about handles -/

/-- **A handle leads back to its participant** exactly when no other participant of the
room has it as its instance. -/
theorem handle_round_trips_iff (h : Reachable app c) (hp : p ∈ c.shared.db.participants) :
    RoundTrips app p c ↔ NoNamesake p c.shared.db := by
  constructor
  · intro htrips
    have hfound := htrips.resolves []
    rw [resolveParticipant_executes, Option.some_inj, Prod.mk.injEq] at hfound
    exact (Db.resolve_eq_iff h.wellFormed hp).mp hfound.1
  · intro hno
    refine ⟨fun choice => ?_, ?_⟩
    · rw [resolveParticipant_executes, (Db.resolve_eq_iff h.wellFormed hp).mpr hno]
    · intro c' new hrun htrace hkept hmints j hj req hreq hcomes
      exact h.actedAs hrun htrace hp hno hkept hmints (mem_arrivals.mp hj).1 hreq hcomes

/-- Nobody has taken bob's handle for an instance, so that it leads to bob. -/
theorem handle_round_trips_iff_bob :
    NoNamesake bobJoined (demo (gather none [alice, bob])).shared.db ∧
      RoundTrips .default bobJoined (demo (gather none [alice, bob])) := by
  have hno : NoNamesake bobJoined (demo (gather none [alice, bob])).shared.db := by
    unfold NoNamesake
    decide +kernel
  exact ⟨hno, (handle_round_trips_iff (reachable_demo _) (by decide +kernel)).mpr hno⟩

/-- A session in another repository whose instance is the handle that alice gets. -/
def squatter : Caller := ⟨"web", "opus", "/web", "api-opus-0002"⟩

/-- Alice's row, once she has joined after that session. -/
def aliceSquatted : Participant :=
  ⟨"api-opus-0002", demoRoom, "api", "opus", "/api", "alice", 0, 0, 0, none, none, none⟩

/-- The handle that alice was shown leads to the other session. -/
theorem not_handle_round_trips : ¬ ∀ (app : AppState) (c : Daemon) (p : Participant),
    Reachable app c → p ∈ c.shared.db.participants → RoundTrips app p c := by
  intro h
  have hresolves := (h .default (demo (gather none [squatter, alice])) aliceSquatted
    (reachable_demo _) (by decide +kernel)).resolves []
  rw [resolveParticipant_executes, Option.some_inj, Prod.mk.injEq] at hresolves
  have hother : ((demo (gather none [squatter, alice])).shared.db.resolve aliceSquatted.roomId
      aliceSquatted.handle).map Participant.handle = some "web-opus-0001" := by decide +kernel
  rw [hresolves.1] at hother
  revert hother
  decide

end ChatBotChat
