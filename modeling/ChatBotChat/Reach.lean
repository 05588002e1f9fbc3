/-
Invariants of reachable configurations.

* `Reachable.orderly` — every call made, every call about to be made and every
  answer respects the discipline of its request;
* `Reachable.induction` — a fact about the trace and the store holds at every
  point of a run if boot has it, time keeps it, and every executed call that
  respects its discipline does.
-/
import ChatBotChat.Interleave.Newcomers
import ChatBotChat.Database
import ChatBotChat.Waiting

namespace ChatBotChat

open Interleave

variable {app : AppState}

/-- What every configuration of the daemon respects. -/
abbrev Orderly (c : Daemon) : Prop := System.Upheld Discipline Conclusion c

/-- **Every reachable configuration is orderly.** -/
theorem Reachable.orderly {c : Daemon} (h : Reachable app c) : Orderly c := by
  obtain ⟨utc, instant, hrun⟩ := h
  have hbody : ∀ r, ((daemon app).body r).Upholds (Discipline r) [] (Conclusion r) :=
    serve_upholds app
  exact hrun.upheld hbody

/-- A call recorded in a reachable trace, right after the calls `older`. -/
structure Recorded (app : AppState) (c : Daemon) (e : Step) (older : List Step) : Prop where
  suffix : e :: older <:+ c.trace
  exec : ∃ sess, Store.exec sess e.call e.before = .done e.reply e.after
  history : ∃ s₀, Booting s₀ ∧ History app s₀ older e.before
  later : Later e.after c.shared
  disciplined : ∃ t, c.threads[e.tid]? = some t ∧ Discipline t.req (pastOf e.tid older) e.call

theorem Reachable.recorded {c : Daemon} (h : Reachable app c) {e : Step} {older : List Step}
    (hsuf : e :: older <:+ c.trace) : Recorded app c e older := by
  obtain ⟨s₀, hboot, hist⟩ := h.history
  obtain ⟨newer, htr⟩ := hsuf
  rw [← htr] at hist
  obtain ⟨hbefore, hexec, hafter⟩ := System.History.split hist
  have hsuf' : e :: older <:+ c.trace := ⟨newer, htr⟩
  exact ⟨hsuf', hexec, ⟨s₀, hboot, hbefore⟩, History.later hafter, h.orderly.event hsuf'⟩

theorem Reachable.recorded_of_mem {c : Daemon} (h : Reachable app c) {e : Step}
    (he : e ∈ c.trace) : ∃ older, Recorded app c e older := by
  obtain ⟨newer, older, htr⟩ := List.append_of_mem he
  exact ⟨older, h.recorded ⟨newer, htr.symm⟩⟩

namespace Recorded

variable {c : Daemon} {e : Step} {older : List Step}

theorem effect (h : Recorded app c e older) : Effect e.before e.call e.reply e.after := by
  obtain ⟨sess, hexec⟩ := h.exec
  exact effect_of_exec hexec

theorem wellFormed_before (h : Recorded app c e older) : e.before.db.WellFormed := by
  obtain ⟨s₀, hboot, hist⟩ := h.history
  exact hist.wellFormed (hboot.1 ▸ Db.wellFormed_empty)

theorem wellFormed_after (h : Recorded app c e older) : e.after.db.WellFormed := by
  obtain ⟨sess, hexec⟩ := h.exec
  exact h.wellFormed_before.exec hexec

/-- A clock that was read is at or before the clock there is now. -/
theorem utc_read_le (h : Recorded app c e older) {i : ℕ} {now : OffsetDateTime}
    (hmem : ⟨.nowUtc, now⟩ ∈ pastOf i older) : now ≤ e.before.utc := by
  obtain ⟨s₀, -, hist⟩ := h.history
  obtain ⟨before, after, sess, newer, older', -, hexec, -, hafter⟩ := hist.seen hmem
  obtain ⟨rfl, rfl⟩ := done_of_read hexec
  exact hafter.later.utc

end Recorded

/-- What holds at every point of a reachable run. -/
structure Throughout (c : Daemon) (P : List Step → Store → Prop) : Prop where
  now : P c.trace c.shared
  before : ∀ {e older}, e :: older <:+ c.trace → P older e.before
  after : ∀ {e older}, e :: older <:+ c.trace → P (e :: older) e.after

/-- **Induction along a reachable run.** -/
theorem Reachable.induction {c : Daemon} (h : Reachable app c) {P : List Step → Store → Prop}
    (hboot : ∀ s, Booting s → P [] s)
    (htick : ∀ {tr s₁ s₂}, s₂.db = s₁.db → s₂.hub = s₁.hub → s₁.utc ≤ s₂.utc →
      s₁.instant ≤ s₂.instant → P tr s₁ → P tr s₂)
    (hcall : ∀ {e tr}, Recorded app c e tr → P tr e.before → P (e :: tr) e.after) :
    Throughout c P := by
  obtain ⟨s₀, hbooting, hist⟩ := h.history
  have hat : ∀ {tr s}, History app s₀ tr s → tr <:+ c.trace → P tr s :=
    History.induction (hbooting.1 ▸ Db.wellFormed_empty) (hboot s₀ hbooting)
      (fun _ hdb hhub hutc hinstant => htick hdb hhub hutc hinstant)
      fun hsuf _ _ _ => hcall (h.recorded hsuf)
  have hbefore : ∀ {e older}, e :: older <:+ c.trace → P older e.before := by
    rintro e older ⟨newer, htr⟩
    rw [← htr] at hist
    exact hat (System.History.split hist).1 ((List.suffix_cons _ _).trans ⟨newer, htr⟩)
  exact ⟨hat hist List.suffix_rfl, hbefore, fun hsuf => hcall (h.recorded hsuf) (hbefore hsuf)⟩

/-! ### Playing moves -/

/-- Make the moves that can be made, skip the others. -/
def play (app : AppState) (moves : List Action) (c : Daemon) : Daemon :=
  moves.foldl (fun c a => ((daemon app).apply a c).getD c) c

theorem runWith_play {ok : Daemon → Action → Prop} : ∀ (moves : List Action) (c : Daemon),
    (∀ a ∈ moves, ∀ c, ok c a) → (daemon app).RunWith ok c (play app moves c) := by
  intro moves
  induction moves with
  | nil => exact fun c _ => .refl
  | cons a moves ih =>
    intro c hok
    have hone : (daemon app).RunWith ok c (((daemon app).apply a c).getD c) := by
      cases h : (daemon app).apply a c with
      | none => exact .refl
      | some c' => exact .move .refl (hok a List.mem_cons_self c) h
    exact hone.trans (ih _ fun a ha => hok a (List.mem_cons_of_mem _ ha))

/-- Moves of requests that arrive among them. -/
theorem runWith_only {P : Request → Prop} {moves : List Action} {c : Daemon}
    (hmoves : ∀ a ∈ moves, System.Only P c.threads.length c a) :
    (daemon app).RunWith (System.Only P c.threads.length) c (play app moves c) :=
  runWith_play moves c fun a ha _ => hmoves a ha

theorem run_play (moves : List Action) (c : Daemon) : (daemon app).Run c (play app moves c) :=
  runWith_play moves c fun _ _ _ => trivial

theorem reachable_boot (utc : OffsetDateTime) (instant : ℕ) : Reachable app (boot utc instant) :=
  ⟨utc, instant, .refl⟩

theorem Reachable.play {c : Daemon} (h : Reachable app c) (moves : List Action) :
    Reachable app (play app moves c) := h.run (run_play moves c)

/-- Let request `i` make up to `n` moves, drawing its own number as the random
suffix. -/
def steps (i n : ℕ) : List Action := List.replicate n (.step i [UInt16.ofNat i])

/-- Serve the requests one after the other; the first of them is request `i`. -/
def inTurn (i : ℕ) : List Request → List Action
  | [] => []
  | r :: rs => .start r :: (steps i 40 ++ inTurn (i + 1) rs)

def alice : Caller := ⟨"api", "opus", "/api", "alice"⟩
def bob : Caller := ⟨"web", "opus", "/web", "bob"⟩

/-- The room in which the examples take place: the id of the subject `demo`. -/
def demoRoom : String := "cbc-demo-19700101-0000"

/-- Open the room with this hard cap and let the callers join it. -/
def gather (hardCap : Option UInt32) (callers : List Caller) : List Request :=
  .openRoom ⟨"demo", hardCap, none, none⟩ ::
    callers.map fun caller => .joinRoom demoRoom ⟨caller, none⟩

/-- A daemon that has served the requests one after the other. -/
def demo (rs : List Request) : Daemon := play .default (inTurn 0 rs) (boot 0 0)

theorem inTurn_append (i : ℕ) (rs rs' : List Request) :
    inTurn i (rs ++ rs') = inTurn i rs ++ inTurn (i + rs.length) rs' := by
  induction rs generalizing i with
  | nil => rfl
  | cons r rs ih =>
    rw [List.cons_append, inTurn, inTurn, ih, List.cons_append, List.append_assoc,
      List.length_cons, Nat.add_right_comm, Nat.add_assoc]

/-- Serving more requests goes on from where the others ended. -/
theorem run_demo_append (rs rs' : List Request) :
    (daemon .default).Run (demo rs) (demo (rs ++ rs')) := by
  have hplay : demo (rs ++ rs') = play .default (inTurn (0 + rs.length) rs') (demo rs) := by
    rw [demo, inTurn_append, play, List.foldl_append]
    rfl
  rw [hplay]
  exact run_play _ _

theorem reachable_demo (rs : List Request) : Reachable .default (demo rs) :=
  (reachable_boot 0 0).play _

end ChatBotChat
