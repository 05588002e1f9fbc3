/-
The presence registry of a running daemon.

A wait enters the registry once it has refreshed its participant, and leaves it however
it ends: answered, failed, or dropped with its client.  `Served` are the configurations of
the daemon together with what has been done with the registry.

* `Served.registered` — the guards that are held for a handle are its waits in flight;
* `Served.isLive_iff` — the registry is live for a handle exactly if a wait of it is in
  flight, or one has ended within the grace window.
-/
import ChatBotChat.Interleave.Settled
import ChatBotChat.Presence
import ChatBotChat.Reach

namespace ChatBotChat

open Interleave Relation

variable {app : AppState} {grace : ℕ} {handle : String} {c c' : Daemon} {a : Action} {i : ℕ}

/-! ### Who is parked -/

/-- The participant that the log has refreshed first. -/
def firstTouch : Log → Option String
  | [] => none
  | ⟨.touchLastPoll handle _, _⟩ :: older => (firstTouch older).getD handle
  | _ :: older => firstTouch older

/-- The participant whose guard the thread holds: it is a wait that has refreshed it and
has calls to make. -/
def parkedFor (c : Daemon) (i : ℕ) : Option String :=
  match c.threads[i]? with
  | some ⟨.waitRoom id req, st⟩ =>
    if (⟨.waitRoom id req, st⟩ : Thread Call Call.Reply Request Outcome).settled then none
    else firstTouch (pastOf i c.trace)
  | _ => none

/-- The waits of a participant that are in flight. -/
def parked (handle : String) (c : Daemon) : List ℕ :=
  (List.range c.threads.length).filter fun i => parkedFor c i = some handle

/-- What a move does to the registry: `enter` behind the refresh, and a drop of the guard
when the wait ends. -/
def parkEvents (a : Action) (c c' : Daemon) : List Presence.Event :=
  match a.tid with
  | none => []
  | some i =>
    match parkedFor c i, parkedFor c' i with
    | none, some handle => [⟨.enter handle, c'.shared.instant⟩]
    | some handle, none => [⟨.drop handle, c'.shared.instant⟩]
    | _, _ => []

/-- The daemon, and what has been done with its registry, newest first. -/
structure Serving : Type 1 where
  daemon : Daemon
  parks : List Presence.Event

/-- `DEFAULT_GRACE`, 10 seconds. -/
def DEFAULT_GRACE : ℕ := 10 * 1000000000

/-- The registry under a grace window. -/
def Serving.registry (w : Serving) (grace : ℕ) : Presence.Parks := Presence.replay grace w.parks

/-- The registry has been asked whether a handle is live. -/
def Serving.asked (w : Serving) (handle : String) : Serving :=
  ⟨w.daemon, ⟨.isLive handle, w.daemon.shared.instant⟩ :: w.parks⟩

/-- One move of the daemon, or a question to its registry. -/
inductive Onward (app : AppState) : Serving → Serving → Prop
  | move {w : Serving} {a : Action} {c' : Daemon} : (daemon app).apply a w.daemon = some c' →
      Onward app w ⟨c', parkEvents a w.daemon c' ++ w.parks⟩
  | isLive {w : Serving} (handle : String) : Onward app w (w.asked handle)

/-- `w'` is a later configuration than `w`. -/
abbrev Leads (app : AppState) : Serving → Serving → Prop := ReflTransGen (Onward app)

/-- The configurations that a daemon reaches. -/
def Served (app : AppState) (w : Serving) : Prop :=
  ∃ utc instant, Leads app ⟨boot utc instant, []⟩ w

variable {w w' w₁ w₂ : Serving}

theorem Served.leads (h : Served app w) (hleads : Leads app w w') : Served app w' := by
  obtain ⟨utc, instant, hboot⟩ := h
  exact ⟨utc, instant, hboot.trans hleads⟩

/-- What a daemon with a registry does, a daemon does. -/
theorem Leads.run (h : Leads app w w') : (daemon app).Run w.daemon w'.daemon := by
  induction h with
  | refl => exact .refl
  | tail _ hstep ih =>
    cases hstep with
    | move hmove => exact .move ih trivial hmove
    | isLive handle => exact ih

theorem Leads.parks (h : Leads app w w') : w.parks <:+ w'.parks := by
  induction h with
  | refl => exact List.suffix_rfl
  | tail _ hstep ih =>
    cases hstep with
    | move => exact ih.trans (List.suffix_append _ _)
    | isLive handle => exact ih.trans (List.suffix_cons _ _)

theorem Leads.later (h : Leads app w w') : Later w.daemon.shared w'.daemon.shared := by
  obtain ⟨new, -, hist⟩ := h.run.history
  exact History.later hist

theorem Served.reachable (h : Served app w) : Reachable app w.daemon := by
  obtain ⟨utc, instant, hboot⟩ := h
  exact ⟨utc, instant, hboot.run⟩

/-! ### What a move does to the guards -/

theorem firstTouch_append {older : Log} (h : firstTouch older = some handle) :
    ∀ newer : Log, firstTouch (newer ++ older) = some handle := by
  intro newer
  induction newer with
  | nil => exact h
  | cons x newer ih =>
    obtain ⟨call, reply⟩ := x
    cases call
    case touchLastPoll => rw [List.cons_append, firstTouch, ih, Option.getD_some]
    all_goals exact ih

theorem parkedFor_spec (h : parkedFor c i = some handle) :
    i < c.threads.length ∧ firstTouch (pastOf i c.trace) = some handle := by
  unfold parkedFor at h
  split at h
  · rename_i ht
    refine ⟨(List.getElem?_eq_some_iff.mp ht).choose, ?_⟩
    split at h
    · cases h
    · exact h
  · cases h

theorem parkedFor_congr (hthread : c'.threads[i]? = c.threads[i]?)
    (hpast : pastOf i c'.trace = pastOf i c.trace) : parkedFor c' i = parkedFor c i := by
  unfold parkedFor
  rw [hthread, hpast]

/-- A thread that has just arrived holds no guard. -/
theorem Reachable.parkedFor_of_le (h : Reachable app c) (happly : (daemon app).apply a c = some c')
    (ha : a.tid = none) (hi : c.threads.length ≤ i) : parkedFor c' i = none := by
  rw [Option.eq_none_iff_forall_ne_some]
  intro handle hparked
  have htouch := (parkedFor_spec hparked).2
  rw [(System.apply_foreign happly ha).1, h.orderly.pastOf_eq_nil hi] at htouch
  cases htouch

/-- A list that is filtered by two predicates which differ at one element. -/
theorem length_filter_of_agree {l : List ℕ} (hnodup : l.Nodup) (hi : i ∈ l) {p q : ℕ → Bool}
    (hagree : ∀ j ∈ l, j ≠ i → p j = q j) :
    (l.filter p).length + (q i).toNat = (l.filter q).length + (p i).toNat := by
  induction l with
  | nil => cases hi
  | cons j l ih =>
    rw [List.nodup_cons] at hnodup
    rcases List.mem_cons.mp hi with rfl | hmem
    · have hrest : l.filter p = l.filter q := List.filter_congr fun k hk =>
        hagree k (List.mem_cons_of_mem _ hk) fun heq => hnodup.1 (heq ▸ hk)
      rw [List.filter_cons, List.filter_cons, hrest]
      cases p i <;> cases q i <;> simp
    · have hne : j ≠ i := fun heq => hnodup.1 (heq ▸ hmem)
      have hrest := ih hnodup.2 hmem fun k hk => hagree k (List.mem_cons_of_mem _ hk)
      rw [List.filter_cons, List.filter_cons, hagree j List.mem_cons_self hne]
      cases q j <;> simp <;> omega

/-- **A move of one thread changes the waits in flight by that thread.** -/
theorem length_parked_own (happly : (daemon app).apply a c = some c') (ha : a.tid = some i)
    (handle : String) : (parked handle c').length + (decide (parkedFor c i = some handle)).toNat =
      (parked handle c).length + (decide (parkedFor c' i = some handle)).toNat := by
  obtain ⟨hi, st, new, hthreads, -, -⟩ := System.apply_own happly ha
  have hlen : c'.threads.length = c.threads.length := by rw [hthreads, Config.setStatus_length]
  rw [parked, parked, hlen]
  refine length_filter_of_agree (p := fun j => parkedFor c' j = some handle)
    (q := fun j => parkedFor c j = some handle) List.nodup_range (List.mem_range.mpr hi) ?_
  intro j hj hne
  obtain ⟨hthread, hpast⟩ := System.apply_others happly
    (fun heq => hne (Option.some_inj.mp (ha.symm.trans heq)).symm) (List.mem_range.mp hj)
  rw [parkedFor_congr hthread hpast]

/-- An arrival and a tick leave the waits in flight. -/
theorem Reachable.parked_foreign (h : Reachable app c) (happly : (daemon app).apply a c = some c')
    (ha : a.tid = none) (handle : String) : parked handle c' = parked handle c := by
  have hold : ∀ j ∈ List.range c.threads.length,
      decide (parkedFor c' j = some handle) = decide (parkedFor c j = some handle) := by
    intro j hj
    obtain ⟨hthread, hpast⟩ := System.apply_others happly (ha ▸ nofun) (List.mem_range.mp hj)
    rw [parkedFor_congr hthread hpast]
  obtain ⟨-, hthreads | ⟨r, hthreads⟩⟩ := System.apply_foreign happly ha
  · rw [parked, parked, hthreads]
    exact List.filter_congr hold
  · have hlen : c'.threads.length = c.threads.length + 1 := by rw [hthreads, List.length_append]; rfl
    rw [parked, parked, hlen, List.range_succ, List.filter_append, List.filter_congr hold,
      List.filter_singleton, h.parkedFor_of_le happly ha le_rfl]
    exact List.append_nil _

/-- The guard that a thread holds stays for the same participant. -/
theorem parkedFor_stays (happly : (daemon app).apply a c = some c') {handle' : String}
    (h : parkedFor c i = some handle) (h' : parkedFor c' i = some handle') : handle' = handle := by
  obtain ⟨newer, hpast⟩ := System.apply_past happly i
  have htouch := firstTouch_append (parkedFor_spec h).2 newer
  rw [hpast, (parkedFor_spec h').2] at htouch
  exact Option.some_inj.mp htouch

/-- What a move of the daemon does to its registry. -/
inductive ParkMove (handle : String) (c c' : Daemon) : List Presence.Event → Prop
  | same {events : List Presence.Event} : (∀ e ∈ events, e.op ≠ .enter handle ∧ e.op ≠ .drop handle) →
      (parked handle c').length = (parked handle c).length → ParkMove handle c c' events
  | enters : (parked handle c').length = (parked handle c).length + 1 →
      ParkMove handle c c' [⟨.enter handle, c'.shared.instant⟩]
  | ends {i : ℕ} : parkedFor c i = some handle → parkedFor c' i = none →
      (parked handle c').length + 1 = (parked handle c).length →
      ParkMove handle c c' [⟨.drop handle, c'.shared.instant⟩]

/-- **One move**: a guard more for a wait that enters, a guard less for one that ends. -/
theorem Reachable.parkMove (h : Reachable app c) (happly : (daemon app).apply a c = some c')
    (handle : String) : ParkMove handle c c' (parkEvents a c c') := by
  unfold parkEvents
  split
  · rename_i ha
    exact .same (by simp) (by rw [h.parked_foreign happly ha])
  · rename_i i ha
    have hcount := length_parked_own happly ha handle
    split
    · rename_i handle' hbefore hafter
      rw [hbefore, hafter] at hcount
      by_cases heq : handle' = handle
      · subst heq
        exact .enters (by simpa using hcount)
      · exact .same (by simp [heq]) (by simpa [heq] using hcount)
    · rename_i handle' hbefore hafter
      have hends := hcount
      rw [hbefore, hafter] at hcount
      by_cases heq : handle' = handle
      · subst heq
        exact .ends hbefore hafter (by simpa using hcount)
      · exact .same (by simp [heq]) (by simpa [heq] using hcount)
    · rename_i hnone hsome
      refine .same (by simp) ?_
      cases hbefore : parkedFor c i with
      | none =>
        cases hafter : parkedFor c' i with
        | none => simpa [hbefore, hafter] using hcount
        | some handle' => exact absurd hafter (hnone handle' hbefore)
      | some handle' =>
        cases hafter : parkedFor c' i with
        | none => exact absurd hafter (hsome handle' hbefore)
        | some handle'' =>
          obtain rfl := parkedFor_stays happly hbefore hafter
          simpa [hbefore, hafter] using hcount


/-! ### The registry tells the truth -/

/-- What has been done with the registry is a history of it, and the guards that are held
are the waits in flight. -/
structure Registered (w : Serving) : Prop where
  clock : ∀ e ∈ w.parks, e.now ≤ w.daemon.shared.instant
  valid : Presence.Valid w.parks
  guards : ∀ handle, Presence.guards handle w.parks = (parked handle w.daemon).length

/-- One more operation at the instant there is. -/
theorem Registered.valid_cons (h : Registered w) {op : Presence.Op} {now : ℕ}
    (hnow : w.daemon.shared.instant ≤ now)
    (hguard : ∀ handle, op = .drop handle → 0 < Presence.guards handle w.parks) :
    Presence.Valid (⟨op, now⟩ :: w.parks) :=
  .cons h.valid (fun e he => (h.clock e he).trans hnow) hguard

theorem guards_of_same {events parks : List Presence.Event}
    (hother : ∀ e ∈ events, e.op ≠ .enter handle ∧ e.op ≠ .drop handle) :
    Presence.guards handle (events ++ parks) = Presence.guards handle parks := by
  induction events with
  | nil => rfl
  | cons e events ih =>
    rw [List.forall_mem_cons] at hother
    obtain ⟨op, now⟩ := e
    rw [List.cons_append]
    cases op with
    | enter handle' =>
      have hne : handle' ≠ handle := fun heq => hother.1.1 (congrArg Presence.Op.enter heq)
      rw [Presence.guards, if_neg hne, ih hother.2, Nat.add_zero]
    | drop handle' =>
      have hne : handle' ≠ handle := fun heq => hother.1.2 (congrArg Presence.Op.drop heq)
      rw [Presence.guards, if_neg hne, ih hother.2, Nat.sub_zero]
    | isLive handle' => exact ih hother.2

/-- A move does at most one thing to the registry, at the instant it ends at. -/
theorem parkEvents_cases (a : Action) (c c' : Daemon) : parkEvents a c c' = [] ∨
    ∃ op, parkEvents a c c' = [⟨op, c'.shared.instant⟩] ∧
      ∀ handle, op = .drop handle → ∃ i, parkedFor c i = some handle := by
  unfold parkEvents
  split
  · exact .inl rfl
  · rename_i i _
    split
    · exact .inr ⟨_, rfl, nofun⟩
    · rename_i handle hbefore _
      refine .inr ⟨_, rfl, fun handle' heq => ⟨i, ?_⟩⟩
      rw [hbefore, Presence.Op.drop.inj heq]
    · exact .inl rfl

theorem parked_pos (h : parkedFor c i = some handle) : 0 < (parked handle c).length :=
  List.length_pos_of_mem (List.mem_filter.mpr
    ⟨List.mem_range.mpr (parkedFor_spec h).1, decide_eq_true h⟩)

theorem Registered.move (h : Registered w) (hreach : Reachable app w.daemon)
    (happly : (daemon app).apply a w.daemon = some c') :
    Registered ⟨c', parkEvents a w.daemon c' ++ w.parks⟩ := by
  have hlater : w.daemon.shared.instant ≤ c'.shared.instant := by
    obtain ⟨new, -, hist⟩ := (System.RunWith.move .refl trivial happly :
      (daemon app).Run w.daemon c').history
    exact (History.later hist).instant
  constructor
  case clock =>
    intro e he
    rcases List.mem_append.mp he with he | he
    · rcases parkEvents_cases a w.daemon c' with hnone | ⟨op, hone, -⟩
      · rw [hnone] at he
        cases he
      · rw [hone, List.mem_singleton] at he
        rw [he]
    · exact (h.clock e he).trans hlater
  case valid =>
    rcases parkEvents_cases a w.daemon c' with hnone | ⟨op, hone, hdrop⟩
    · rw [hnone]
      exact h.valid
    · rw [hone]
      refine h.valid_cons hlater fun handle heq => ?_
      obtain ⟨i, hparked⟩ := hdrop handle heq
      rw [h.guards]
      exact parked_pos hparked
  case guards =>
    intro handle
    have hbefore := h.guards handle
    change Presence.guards handle (parkEvents a w.daemon c' ++ w.parks) = (parked handle c').length
    have hmove := hreach.parkMove happly handle
    generalize parkEvents a w.daemon c' = events at hmove ⊢
    cases hmove with
    | same hother hsame => rw [guards_of_same hother, hsame, hbefore]
    | enters hmore => rw [List.singleton_append, Presence.guards, if_pos rfl, hmore, hbefore]
    | ends _ _ hless =>
      rw [List.singleton_append, Presence.guards, if_pos rfl, hbefore]
      omega

theorem Registered.asked (h : Registered w) (handle : String) : Registered (w.asked handle) where
  clock := by
    intro e he
    rcases List.mem_cons.mp he with rfl | he
    · exact le_rfl
    · exact h.clock e he
  valid := h.valid_cons le_rfl nofun
  guards := h.guards

/-- **The guards that are held are the waits in flight**, in every reachable configuration. -/
theorem Served.registered (h : Served app w) : Registered w := by
  obtain ⟨utc, instant, hleads⟩ := h
  induction hleads with
  | refl =>
    constructor
    · exact nofun
    · exact .nil
    · exact fun _ => rfl
  | tail hleads hstep ih =>
    cases hstep with
    | move happly => exact ih.move (Served.reachable ⟨utc, instant, hleads⟩) happly
    | isLive handle => exact ih.asked handle

theorem lastDrop_append {events parks : List Presence.Event}
    (hother : ∀ e ∈ events, e.op ≠ .drop handle) :
    Presence.lastDrop handle (events ++ parks) = Presence.lastDrop handle parks := by
  have hnone : events.find? (fun e => e.op = .drop handle) = none := by
    rw [List.find?_eq_none]
    exact fun e he hop => hother e he (of_decide_eq_true hop)
  rw [Presence.lastDrop, List.find?_append, hnone, Option.none_or]
  rfl

/-- The latest drop of a handle is the end of one of its waits. -/
theorem Leads.of_lastDrop (hstart : Served app w) (hboot : w.parks = []) (hleads : Leads app w w')
    {t : ℕ} (hdrop : Presence.lastDrop handle w'.parks = some t) :
    ∃ w₁ w₂ i, Served app w₁ ∧ Onward app w₁ w₂ ∧ Leads app w₂ w' ∧
      parkedFor w₁.daemon i = some handle ∧ parkedFor w₂.daemon i = none ∧
        w₂.daemon.shared.instant = t := by
  induction hleads with
  | refl =>
    rw [hboot] at hdrop
    cases hdrop
  | @tail w₁ w₂ hleads hstep ih =>
    have hold : Presence.lastDrop handle w₁.parks = some t → ∃ w₃ w₄ i, Served app w₃ ∧
        Onward app w₃ w₄ ∧ Leads app w₄ w₂ ∧ parkedFor w₃.daemon i = some handle ∧
          parkedFor w₄.daemon i = none ∧ w₄.daemon.shared.instant = t := by
      intro hdrop
      obtain ⟨w₃, w₄, i, hserved, hmove, hrest, hends⟩ := ih hdrop
      exact ⟨w₃, w₄, i, hserved, hmove, hrest.tail hstep, hends⟩
    have honward := hstep
    cases hstep with
    | isLive handle' =>
      refine hold ?_
      rwa [Serving.asked, Presence.lastDrop_isLive] at hdrop
    | @move a c' happly =>
      have hmove := (hstart.leads hleads).reachable.parkMove happly handle
      generalize parkEvents a w₁.daemon c' = events at hmove hdrop hold honward ⊢
      cases hmove with
      | same hother _ => exact hold (by rwa [lastDrop_append fun e he => (hother e he).2] at hdrop)
      | enters _ => exact hold (by rwa [List.singleton_append, Presence.lastDrop_enter] at hdrop)
      | @ends i hbefore hafter _ =>
        rw [List.singleton_append, Presence.lastDrop_cons_self] at hdrop
        exact ⟨w₁, _, i, hstart.leads hleads, honward, .refl, hbefore, hafter, Option.some_inj.mp hdrop⟩

/-- The end of a wait is a drop of its guard. -/
theorem Onward.drop (hmove : Onward app w₁ w₂) (hbefore : parkedFor w₁.daemon i = some handle)
    (hafter : parkedFor w₂.daemon i = none) :
    (⟨.drop handle, w₂.daemon.shared.instant⟩ : Presence.Event) ∈ w₂.parks := by
  cases hmove with
  | isLive handle' =>
    rw [Serving.asked, hbefore] at hafter
    cases hafter
  | @move a c' happly =>
    have ha : a.tid = some i := by
      by_contra hne
      obtain ⟨hthread, hpast⟩ := System.apply_others happly hne (parkedFor_spec hbefore).1
      rw [parkedFor_congr hthread hpast, hbefore] at hafter
      cases hafter
    refine List.mem_append_left _ ?_
    simp [parkEvents, ha, hbefore, hafter]

/-- The latest drop is at or after every drop. -/
theorem Presence.Valid.lastDrop_le {events : List Presence.Event} (h : Presence.Valid events)
    {t : ℕ} (hdrop : ⟨.drop handle, t⟩ ∈ events) :
    ∃ t', Presence.lastDrop handle events = some t' ∧ t ≤ t' := by
  induction h with
  | nil => cases hdrop
  | @cons op now events _ hclock _ ih =>
    by_cases heq : op = .drop handle
    · subst heq
      refine ⟨now, Presence.lastDrop_cons_self _ _ _, ?_⟩
      rcases List.mem_cons.mp hdrop with hnow | hold
      · exact (Presence.Event.mk.inj hnow).2.le
      · exact hclock _ hold
    · rw [Presence.lastDrop_cons_of_ne heq]
      rcases List.mem_cons.mp hdrop with hnow | hold
      · exact absurd (Presence.Event.mk.inj hnow).1.symm heq
      · exact ih hold

/-- A wait of the handle has ended within the window. -/
def EndedWithin (app : AppState) (grace : ℕ) (handle : String) (w : Serving) : Prop :=
  ∃ w₁ w₂ i, Served app w₁ ∧ Onward app w₁ w₂ ∧ Leads app w₂ w ∧
    parkedFor w₁.daemon i = some handle ∧ parkedFor w₂.daemon i = none ∧
      w.daemon.shared.instant - w₂.daemon.shared.instant ≤ grace

/-- **The registry is live for a handle** exactly if a wait of it is in flight, or one has
ended within the grace window. -/
theorem Served.isLive_iff (h : Served app w) (grace : ℕ) (handle : String) :
    (Presence.isLive (w.registry grace) grace handle w.daemon.shared.instant).1 = true ↔
      parked handle w.daemon ≠ [] ∨ EndedWithin app grace handle w := by
  have hreg := h.registered
  have hentry := Presence.entry_of_valid grace hreg.valid handle hreg.clock
  rw [(Presence.isLive_self _ _ _ _).1, Presence.retainLive_apply]
  refine hentry.retained.trans (or_congr ?_ ?_)
  · rw [hreg.guards, List.length_pos_iff]
  · constructor
    · rintro ⟨t, hdrop, hle⟩
      obtain ⟨utc, instant, hleads⟩ := h
      obtain ⟨w₁, w₂, i, hserved, hmove, hrest, hbefore, hafter, rfl⟩ := hleads.of_lastDrop
        ⟨utc, instant, .refl⟩ rfl hdrop
      exact ⟨w₁, w₂, i, hserved, hmove, hrest, hbefore, hafter, hle⟩
    · rintro ⟨w₁, w₂, i, -, hmove, hrest, hbefore, hafter, hle⟩
      obtain ⟨t, hdrop, ht⟩ := hreg.valid.lastDrop_le
        (hrest.parks.subset (hmove.drop hbefore hafter))
      exact ⟨t, hdrop, by omega⟩

/-! ### Playing moves -/

/-- Make the moves that can be made, with what they do to the registry. -/
def attend (app : AppState) (moves : List Action) (w : Serving) : Serving :=
  moves.foldl (fun w a => match (daemon app).apply a w.daemon with
    | none => w
    | some c' => ⟨c', parkEvents a w.daemon c' ++ w.parks⟩) w

theorem Served.attend : ∀ (moves : List Action) {w : Serving}, Served app w →
    Served app (attend app moves w) := by
  intro moves
  induction moves with
  | nil => exact fun h => h
  | cons a moves ih =>
    intro w h
    refine ih ?_
    dsimp only
    split
    · exact h
    · rename_i happly
      exact h.leads (.single (.move happly))

/-- A daemon that has served the requests one after the other. -/
def attended (rs : List Request) : Serving := attend .default (inTurn 0 rs) ⟨boot 0 0, []⟩

theorem served_attended (rs : List Request) : Served .default (attended rs) :=
  Served.attend _ ⟨0, 0, .refl⟩

end ChatBotChat
