/-
Keep the first of each kind.

`cull q l` leaves of the elements of `l` that `q` holds of the first alone, and
`cullAll` does so for one kind after the other.  Where no element is of two kinds the
order of the kinds and their repetitions do not matter: what is left is what is surplus
in no kind of the list as it was (`cullAll_eq`), at most one of each kind
(`length_filter_cullAll`).
-/
import Mathlib.Data.List.Basic
import Mathlib.Data.List.Nodup

namespace Culling

variable {α κ : Type*} {q q' : α → Bool} {p : κ → α → Bool} {l : List α} {ks ks' : List κ}
  {k : κ} {x : α}

/-- The elements of the kind behind the first. -/
def surplus (q : α → Bool) (l : List α) : List α := (l.filter q).tail

theorem of_mem_surplus (h : x ∈ surplus q l) : q x = true :=
  (List.mem_filter.mp (List.mem_of_mem_tail h)).2

variable [DecidableEq α]

/-- The list without its surplus of the kind. -/
def cull (q : α → Bool) (l : List α) : List α := l.filter fun x => x ∉ surplus q l

/-- One kind after the other. -/
def cullAll (p : κ → α → Bool) (ks : List κ) (l : List α) : List α :=
  ks.foldl (fun l k => cull (p k) l) l

/-- Without the rest of it, a list is its first element. -/
theorem filter_notMem_tail (h : l.Nodup) : (l.filter fun x => x ∉ l.tail) = l.take 1 := by
  cases l with
  | nil => rfl
  | cons a l =>
    obtain ⟨hnot, -⟩ := List.nodup_cons.mp h
    have hrest : (l.filter fun x => x ∉ l) = [] :=
      List.filter_eq_nil_iff.mpr fun x hx => by simp [hx]
    rw [List.tail_cons, List.filter_cons_of_pos (by simpa using hnot), hrest]
    rfl

/-- Of the kind itself, the first is left. -/
theorem filter_cull (h : (l.filter q).Nodup) : (cull q l).filter q = (l.filter q).take 1 := by
  rw [← filter_notMem_tail h, cull, List.filter_comm]
  rfl

/-- Of another kind, all are left. -/
theorem filter_cull_of_disjoint (h : ∀ x, q x = true → q' x = true → False) :
    (cull q l).filter q' = l.filter q' := by
  rw [cull, List.filter_filter]
  refine List.filter_congr fun x _ => ?_
  cases hkind : q' x with
  | false => rfl
  | true =>
    have hnot : x ∉ surplus q l := fun hmem => h x (of_mem_surplus hmem) hkind
    simp [hnot]

theorem cull_sublist (q : α → Bool) (l : List α) : (cull q l).Sublist l := List.filter_sublist

/-- **What is left** is what is surplus in no kind of the list as it was. -/
theorem cullAll_eq (hdisjoint : ∀ k k' x, p k x = true → p k' x = true → k = k')
    (hnodup : ∀ k, (l.filter (p k)).Nodup) (ks : List κ) :
    cullAll p ks l = l.filter fun x => ∀ k ∈ ks, x ∉ surplus (p k) l := by
  -- one cull leaves what is surplus of the other kinds
  induction ks generalizing l with
  | nil => simp [cullAll]
  | cons k ks ih =>
    have hnodup' : ∀ k', ((cull (p k) l).filter (p k')).Nodup := fun k' =>
      (hnodup k').sublist ((cull_sublist (p k) l).filter _)
    rw [cullAll, List.foldl_cons, ← cullAll, ih hnodup', cull, List.filter_filter, ← cull]
    refine List.filter_congr fun x _ => ?_
    rw [← Bool.decide_and, decide_eq_decide, List.forall_mem_cons, and_comm]
    refine and_congr_right fun hkept => forall₂_congr fun k' hk' => ?_
    by_cases hsame : k' = k
    · -- a kind that has been culled has no surplus
      subst hsame
      have hnone : surplus (p k') (cull (p k') l) = [] := by
        rw [surplus, filter_cull (hnodup k')]
        cases l.filter (p k') <;> rfl
      rw [hnone]
      exact iff_of_true List.not_mem_nil hkept
    · have hsurplus : surplus (p k') (cull (p k) l) = surplus (p k') l := by
        rw [surplus, surplus, filter_cull_of_disjoint]
        exact fun x hk hk' => hsame (hdisjoint k' k x hk' hk)
      rw [hsurplus]

/-- Of each kind that was culled, one is left where there were any. -/
theorem length_filter_cullAll (hdisjoint : ∀ k k' x, p k x = true → p k' x = true → k = k')
    (hnodup : ∀ k, (l.filter (p k)).Nodup) (hk : k ∈ ks) :
    ((cullAll p ks l).filter (p k)).length = min (l.filter (p k)).length 1 := by
  have hleft : (cullAll p ks l).filter (p k) = (l.filter (p k)).take 1 := by
    rw [cullAll_eq hdisjoint hnodup, ← filter_notMem_tail (hnodup k), List.filter_comm,
      List.filter_congr]
    intro x hx
    obtain ⟨-, hkind⟩ := List.mem_filter.mp hx
    rw [decide_eq_decide]
    refine ⟨fun h => h k hk, fun h k' _ hmem => ?_⟩
    obtain rfl := hdisjoint k' k x (of_mem_surplus hmem) hkind
    exact h hmem
  rw [hleft, List.length_take, Nat.min_comm]

/-- Neither the order of the kinds nor a repetition matters. -/
theorem cullAll_congr (hdisjoint : ∀ k k' x, p k x = true → p k' x = true → k = k')
    (hnodup : ∀ k, (l.filter (p k)).Nodup) (h : ∀ k, k ∈ ks ↔ k ∈ ks') :
    cullAll p ks l = cullAll p ks' l := by
  rw [cullAll_eq hdisjoint hnodup, cullAll_eq hdisjoint hnodup]
  simp only [h]

/-- Kinds of which there is no surplus need not be culled. -/
theorem cullAll_filter (hdisjoint : ∀ k k' x, p k x = true → p k' x = true → k = k')
    (hnodup : ∀ k, (l.filter (p k)).Nodup) {needed : κ → Bool}
    (h : ∀ k ∈ ks, needed k = false → surplus (p k) l = []) :
    cullAll p (ks.filter needed) l = cullAll p ks l := by
  rw [cullAll_eq hdisjoint hnodup, cullAll_eq hdisjoint hnodup]
  refine List.filter_congr fun x _ => ?_
  rw [decide_eq_decide]
  refine ⟨fun hall k hk hmem => ?_, fun hall k hk => hall k (List.mem_filter.mp hk).1⟩
  cases hneeded : needed k with
  | true => exact hall k (List.mem_filter.mpr ⟨hk, hneeded⟩) hmem
  | false =>
    rw [h k hk hneeded] at hmem
    cases hmem

end Culling
