/-
Programs that ask a world which moves on its own.

The questions of such a program are answered by the states that the world passes
through, one after the other: `Learns goes tells p w₀ a w` says that `p`, begun in `w₀`,
has returned `a` by the time of `w`.

* `learns_step_iff`, `learns_bind_iff` — such a program is run question by question,
  with moves of the world before each of them;
* `Learns.leads` — the world has only moved on meanwhile, if a question is a move of it;
* `learns_of_still` — one of the answers is that of a world which stands still.
-/
import ChatBotChat.Interleave.Logs
import Mathlib.Logic.Relation

namespace Interleave

open Relation

universe u

variable {W : Type u} {L : Type} {A : L → Type} {α β : Type} {goes : W → W → Prop}
  {tells : (l : L) → W → Option (A l × W)} {w₀ w w' : W} {log : Past L A}

/-- The world has come from `w₀` to `w`, and has answered the questions of the log on its
way, newest first. -/
inductive Asked (goes : W → W → Prop) (tells : (l : L) → W → Option (A l × W)) (w₀ : W) :
    Past L A → W → Prop
  | start : Asked goes tells w₀ [] w₀
  | move {log : Past L A} {w w' : W} : Asked goes tells w₀ log w → goes w w' →
      Asked goes tells w₀ log w'
  | ask {log : Past L A} {w w' : W} {l : L} {r : A l} : Asked goes tells w₀ log w →
      tells l w = some (r, w') → Asked goes tells w₀ (⟨l, r⟩ :: log) w'

/-- The program has asked its questions on the way from `w₀` to `w`, and returned `a`. -/
def Learns (goes : W → W → Prop) (tells : (l : L) → W → Option (A l × W)) (p : Prog L A α)
    (w₀ : W) (a : α) (w : W) : Prop :=
  ∃ log, Asked goes tells w₀ log w ∧ p.Gives log a

/-! ### Questions in their order -/

theorem Asked.leads (h : Asked goes tells w₀ log w) (hmoves : ReflTransGen goes w w') :
    Asked goes tells w₀ log w' := by
  induction hmoves with
  | refl => exact h
  | tail _ hstep ih => exact ih.move hstep

theorem asked_nil_iff : Asked goes tells w₀ [] w ↔ ReflTransGen goes w₀ w := by
  constructor
  · generalize hlog : ([] : Past L A) = log
    intro h
    induction h with
    | start => exact .refl
    | move _ hstep ih => exact (ih hlog).tail hstep
    | ask => cases hlog
  · exact fun h => Asked.start.leads h

/-- The newest question, and what came before it and after it. -/
theorem asked_cons_iff {l : L} {r : A l} : Asked goes tells w₀ (⟨l, r⟩ :: log) w ↔
    ∃ w₁ w₂, Asked goes tells w₀ log w₁ ∧ tells l w₁ = some (r, w₂) ∧ ReflTransGen goes w₂ w := by
  constructor
  · generalize hnew : (⟨l, r⟩ :: log : Past L A) = log'
    intro h
    induction h with
    | start => cases hnew
    | move _ hstep ih =>
      obtain ⟨w₁, w₂, hbefore, hask, hafter⟩ := ih hnew
      exact ⟨w₁, w₂, hbefore, hask, hafter.tail hstep⟩
    | ask hbefore hask =>
      cases hnew
      exact ⟨_, _, hbefore, hask, .refl⟩
  · rintro ⟨w₁, w₂, hbefore, hask, hafter⟩
    exact (hbefore.ask hask).leads hafter

/-- **A log is cut at a state of the world.** -/
theorem asked_append_iff {newer older : Past L A} : Asked goes tells w₀ (newer ++ older) w ↔
    ∃ w₁, Asked goes tells w₀ older w₁ ∧ Asked goes tells w₁ newer w := by
  induction newer generalizing w with
  | nil =>
    refine ⟨fun h => ⟨w, h, .start⟩, ?_⟩
    rintro ⟨w₁, holder, hnewer⟩
    exact holder.leads (asked_nil_iff.mp hnewer)
  | cons x newer ih =>
    obtain ⟨l, r⟩ := x
    simp only [List.cons_append, asked_cons_iff, ih]
    constructor
    · rintro ⟨w₂, w₃, ⟨w₁, holder, hnewer⟩, hask, hafter⟩
      exact ⟨w₁, holder, w₂, w₃, hnewer, hask, hafter⟩
    · rintro ⟨w₁, holder, w₂, w₃, hnewer, hask, hafter⟩
      exact ⟨w₂, w₃, ⟨w₁, holder, hnewer⟩, hask, hafter⟩

/-! ### Rules -/

/-- A program that asks nothing more. -/
theorem learns_pure_iff {a b : α} :
    Learns goes tells (pure a : Prog L A α) w₀ b w ↔ b = a ∧ ReflTransGen goes w₀ w := by
  simp only [Learns, Prog.gives_pure_iff]
  constructor
  · rintro ⟨_, hasked, rfl, rfl⟩
    exact ⟨rfl, asked_nil_iff.mp hasked⟩
  · rintro ⟨rfl, hmoves⟩
    exact ⟨[], asked_nil_iff.mpr hmoves, rfl, rfl⟩

/-- The rule of sequencing. -/
theorem learns_bind_iff {p : Prog L A α} {f : α → Prog L A β} {b : β} :
    Learns goes tells (p >>= f) w₀ b w ↔
      ∃ a w₁, Learns goes tells p w₀ a w₁ ∧ Learns goes tells (f a) w₁ b w := by
  simp only [Learns, Prog.gives_bind_iff]
  constructor
  · rintro ⟨_, hasked, a, first, rest, rfl, hfirst, hrest⟩
    obtain ⟨w₁, hbefore, hafter⟩ := asked_append_iff.mp hasked
    exact ⟨a, w₁, ⟨first, hbefore, hfirst⟩, rest, hafter, hrest⟩
  · rintro ⟨a, w₁, ⟨first, hbefore, hfirst⟩, rest, hafter, hrest⟩
    exact ⟨_, asked_append_iff.mpr ⟨w₁, hbefore, hafter⟩, a, first, rest, rfl, hfirst, hrest⟩

/-- The rule of one question: the world moves on, and answers it. -/
theorem learns_step_iff {l : L} {k : A l → Prog L A β} {b : β} :
    Learns goes tells (Prog.perform l >>= k) w₀ b w ↔
      ∃ w₁ r w₂, ReflTransGen goes w₀ w₁ ∧ tells l w₁ = some (r, w₂) ∧
        Learns goes tells (k r) w₂ b w := by
  simp only [Learns, Prog.gives_step_iff]
  constructor
  · rintro ⟨_, hasked, r, rest, rfl, hrest⟩
    obtain ⟨w₃, hfirst, hafter⟩ := asked_append_iff.mp hasked
    obtain ⟨w₁, w₂, hbefore, hask, hmoves⟩ := asked_cons_iff.mp hfirst
    refine ⟨w₁, r, w₂, asked_nil_iff.mp hbefore, hask, rest, ?_, hrest⟩
    have hall := asked_append_iff.mpr ⟨w₃, asked_nil_iff.mpr hmoves, hafter⟩
    rwa [List.append_nil] at hall
  · rintro ⟨w₁, r, w₂, hmoves, hask, rest, hafter, hrest⟩
    refine ⟨_, asked_append_iff.mpr ⟨w₂, ?_, hafter⟩, r, rest, rfl, hrest⟩
    exact (asked_nil_iff.mpr hmoves).ask hask

/-- The world has moved on meanwhile, if its answers do not move it or are moves of it. -/
theorem Learns.leads {p : Prog L A α} {a : α} (h : Learns goes tells p w₀ a w)
    (htells : ∀ {l w r w'}, tells l w = some (r, w') → ReflTransGen goes w w') :
    ReflTransGen goes w₀ w := by
  obtain ⟨log, hasked, -⟩ := h
  induction hasked with
  | start => exact .refl
  | move _ hstep ih => exact ih.tail hstep
  | ask _ hanswer ih => exact ih.trans (htells hanswer)

/-- What a program without loops learns from a world that stands still. -/
def Prog.still (tells : (l : L) → W → Option (A l × W)) : {α : Type} → Prog L A α → W →
    Option (α × W)
  | _, .ret a, w => some (a, w)
  | _, .call l k, w => (tells l w).bind fun x => still tells (k x.1) x.2
  | _, .loop _ _ _, _ => none

/-- A world may stand still. -/
theorem learns_of_still {p : Prog L A α} : ∀ {w₀ : W} {a : α},
    p.still tells w₀ = some (a, w) → Learns goes tells p w₀ a w := by
  induction p with
  | ret b =>
    intro w₀ a h
    obtain ⟨rfl, rfl⟩ := Prod.mk.inj (Option.some_inj.mp h)
    exact ⟨[], .start, .ret⟩
  | call l k ih =>
    intro w₀ a h
    obtain ⟨⟨r, w₁⟩, htells, hrest⟩ := Option.bind_eq_some_iff.mp h
    exact learns_step_iff.mpr ⟨w₀, r, w₁, .refl, htells, ih r hrest⟩
  | loop body s k => exact fun h => by cases h

end Interleave
