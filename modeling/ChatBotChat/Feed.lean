/-
Reading an append-only feed by a cursor.

The entries of a feed carry increasing keys; a reader that wants some of them
remembers the key of the last one it took.  `next` is the entry after a cursor,
`unread` all of them, `taken` those between two cursors.

* `taken_prefix` — what has been taken is always a prefix of what there was to
  read;
* `taken_next` — moving the cursor to the next entry takes exactly that entry;
* `next_append` — appending to the feed never changes an entry already found;
* `getElem?_iff_countP` — the place of an entry is the number of keys up to its own.
-/
import Mathlib.Data.List.Infix
import Mathlib.Data.List.Sort

namespace Feed

variable {α : Type} {key : α → ℕ} {want : α → Bool} {k k' : ℕ} {feed newer : List α} {a : α}

/-- The entries after `k` that the reader wants. -/
def unread (key : α → ℕ) (want : α → Bool) (k : ℕ) (feed : List α) : List α :=
  feed.filter fun a => k < key a && want a

/-- The first of them. -/
def next (key : α → ℕ) (want : α → Bool) (k : ℕ) (feed : List α) : Option α :=
  feed.find? fun a => k < key a && want a

/-- What a reader has taken whose cursor went from `k` to `k'`. -/
def taken (key : α → ℕ) (want : α → Bool) (k k' : ℕ) (feed : List α) : List α :=
  (unread key want k feed).filter fun a => key a ≤ k'

theorem mem_unread : a ∈ unread key want k feed ↔ a ∈ feed ∧ k < key a ∧ want a = true := by
  simp [unread]

theorem mem_taken :
    a ∈ taken key want k k' feed ↔ a ∈ feed ∧ k < key a ∧ want a = true ∧ key a ≤ k' := by
  simp [taken, mem_unread, and_assoc]

theorem next_spec (h : next key want k feed = some a) : a ∈ feed ∧ k < key a ∧ want a = true := by
  have hmem : a ∈ feed := List.mem_of_find?_eq_some h
  have hwant := List.find?_some h
  rw [Bool.and_eq_true, decide_eq_true_eq] at hwant
  exact ⟨hmem, hwant⟩

theorem next_eq_none : next key want k feed = none ↔ unread key want k feed = [] := by
  rw [next, unread, List.find?_eq_none, List.filter_eq_nil_iff]

/-- An entry that has been found stays the next one. -/
theorem next_append (h : next key want k feed = some a) :
    next key want k (feed ++ newer) = some a := by
  rw [next, List.find?_append]
  change (next key want k feed).or _ = _
  rw [h]
  rfl

/-- The next entry is the first of those that are wanted. -/
theorem next_least {b : α} (hsorted : (feed.map key).Pairwise (· < ·))
    (h : next key want k feed = some a) (hb : b ∈ feed) (hlt : k < key b) (hwant : want b = true) :
    key a ≤ key b := by
  obtain ⟨-, before, behind, rfl, hbefore⟩ := List.find?_eq_some_iff_append.mp h
  rcases List.mem_append.mp hb with hb | hb
  · have hnot := hbefore b hb
    simp [hlt, hwant] at hnot
  · rw [List.map_append, List.map_cons, List.pairwise_append, List.pairwise_cons] at hsorted
    rcases List.mem_cons.mp hb with rfl | hb
    · exact le_rfl
    · exact (hsorted.2.1.1 _ (List.mem_map_of_mem hb)).le

/-- Nothing is taken by a cursor that has not moved. -/
theorem taken_self : taken key want k k feed = [] := by
  rw [taken, List.filter_eq_nil_iff]
  intro a ha
  have hlt := (mem_unread.mp ha).2.1
  rw [decide_eq_true_eq]
  omega

/-- What lands beyond the cursor has not been taken. -/
theorem taken_append (h : ∀ a ∈ newer, k' < key a) :
    taken key want k k' (feed ++ newer) = taken key want k k' feed := by
  have hnone : (unread key want k newer).filter (fun a => key a ≤ k') = [] := by
    rw [List.filter_eq_nil_iff]
    intro a ha
    have hlt := h a (mem_unread.mp ha).1
    rw [decide_eq_true_eq]
    omega
  rw [taken, unread, List.filter_append, List.filter_append]
  change _ ++ (unread key want k newer).filter _ = _
  rw [hnone, List.append_nil]
  rfl

/-- In a list of increasing keys, those up to a bound come first. -/
theorem filter_le_prefix : ∀ {l : List α}, (l.map key).Pairwise (· < ·) →
    l.filter (fun a => key a ≤ k') <+: l := by
  intro l
  induction l with
  | nil => exact fun _ => List.prefix_refl _
  | cons a l ih =>
    intro h
    rw [List.map_cons, List.pairwise_cons] at h
    by_cases ha : key a ≤ k'
    · rw [List.filter_cons_of_pos (by simpa using ha), List.cons_prefix_cons]
      exact ⟨rfl, ih h.2⟩
    · -- all the keys behind `a` are larger still
      have hnone : l.filter (fun a => key a ≤ k') = [] := by
        rw [List.filter_eq_nil_iff]
        intro b hb
        have hlt := h.1 (key b) (List.mem_map_of_mem hb)
        rw [decide_eq_true_eq]
        omega
      rw [List.filter_cons_of_neg (by simpa using ha), hnone]
      exact List.nil_prefix

theorem sorted_unread (h : (feed.map key).Pairwise (· < ·)) :
    ((unread key want k feed).map key).Pairwise (· < ·) :=
  h.sublist (List.Sublist.map _ List.filter_sublist)

theorem sorted_taken (want : α → Bool) (k k' : ℕ) (h : (feed.map key).Pairwise (· < ·)) :
    ((taken key want k k' feed).map key).Pairwise (· < ·) :=
  (sorted_unread h).sublist (List.Sublist.map _ List.filter_sublist)

/-- **What has been taken is a prefix of what there was to read.** -/
theorem taken_prefix (h : (feed.map key).Pairwise (· < ·)) :
    taken key want k k' feed <+: unread key want k feed :=
  filter_le_prefix (sorted_unread h)

/-- In a list of increasing keys, an entry has as many entries up to its key as its
place says. -/
theorem getElem?_iff_countP : ∀ {l : List α} {n : ℕ}, (l.map key).Pairwise (· < ·) →
    (l[n]? = some a ↔ a ∈ l ∧ l.countP (fun b => key b ≤ key a) = n + 1) := by
  intro l
  induction l with
  | nil => simp
  | cons b l ih =>
    intro n h
    rw [List.map_cons, List.pairwise_cons] at h
    have hlater : ∀ c ∈ l, key b < key c := fun c hc => h.1 _ (List.mem_map_of_mem hc)
    -- up to the key of `b` there is only `b`
    have hfirst : (b :: l).countP (fun c => key c ≤ key b) = 1 := by
      rw [List.countP_cons, if_pos (decide_eq_true le_rfl), Nat.add_eq_right, List.countP_eq_zero]
      intro c hc
      have hlt := hlater c hc
      rw [decide_eq_true_eq]
      omega
    -- up to a later key there is `b`, and what `l` has
    have hmore : a ∈ l → (b :: l).countP (fun c => key c ≤ key a) =
        l.countP (fun c => key c ≤ key a) + 1 := by
      intro ha
      have hlt := hlater a ha
      exact List.countP_cons_of_pos (decide_eq_true (by omega))
    cases n with
    | zero =>
      rw [List.getElem?_cons_zero, Option.some_inj]
      constructor
      · rintro rfl
        exact ⟨List.mem_cons_self, hfirst⟩
      · rintro ⟨ha, hcount⟩
        rcases List.mem_cons.mp ha with rfl | ha
        · rfl
        · have hpos : 0 < l.countP (fun c => key c ≤ key a) :=
            List.countP_pos_iff.mpr ⟨a, ha, decide_eq_true le_rfl⟩
          rw [hmore ha] at hcount
          omega
    | succ n =>
      rw [List.getElem?_cons_succ, ih h.2]
      constructor
      · rintro ⟨ha, hcount⟩
        refine ⟨List.mem_cons_of_mem _ ha, ?_⟩
        rw [hmore ha, hcount]
      · rintro ⟨ha, hcount⟩
        rcases List.mem_cons.mp ha with rfl | ha
        · rw [hfirst] at hcount
          omega
        · rw [hmore ha] at hcount
          exact ⟨ha, by omega⟩

/-- **Moving the cursor to the next entry takes exactly that entry.** -/
theorem taken_next (h : (feed.map key).Pairwise (· < ·)) (hk : k ≤ k')
    (hnext : next key want k' feed = some a) :
    taken key want k (key a) feed = taken key want k k' feed ++ [a] := by
  obtain ⟨ha, older, later, rfl, holder⟩ := List.find?_eq_some_iff_append.mp hnext
  rw [Bool.and_eq_true, decide_eq_true_eq] at ha
  rw [List.map_append, List.map_cons, List.pairwise_append, List.pairwise_cons] at h
  obtain ⟨-, ⟨hlater, -⟩, hbefore⟩ := h
  -- in front of `a` the reader wants nothing beyond `k'`
  have hfront : taken key want k (key a) older = taken key want k k' older := by
    refine List.filter_congr fun b hb => ?_
    obtain ⟨hmem, -, hwant⟩ := mem_unread.mp hb
    have hpassed := holder b hmem
    rw [hwant, Bool.and_true, Bool.not_eq_true', decide_eq_false_iff_not] at hpassed
    have hlt := hbefore (key b) (List.mem_map_of_mem hmem) (key a) List.mem_cons_self
    rw [decide_eq_decide]
    omega
  have hback : ∀ b ∈ later, key a < key b := fun b hb => hlater _ (List.mem_map_of_mem hb)
  have hself : taken key want k (key a) [a] = [a] := by
    have hlt : k < key a := by omega
    simp [taken, unread, hlt, ha.2]
  have hskip : taken key want k k' (older ++ a :: later) = taken key want k k' older := by
    refine taken_append fun b hb => ?_
    rcases List.mem_cons.mp hb with rfl | hb
    · exact ha.1
    · exact ha.1.trans (hback b hb)
  have hcut : taken key want k (key a) (older ++ [a]) =
      taken key want k (key a) older ++ taken key want k (key a) [a] := by
    simp only [taken, unread, List.filter_append]
  calc taken key want k (key a) (older ++ a :: later)
      = taken key want k (key a) ((older ++ [a]) ++ later) := by
        rw [List.append_assoc, List.singleton_append]
    _ = taken key want k (key a) (older ++ [a]) := taken_append hback
    _ = taken key want k k' older ++ [a] := by rw [hcut, hfront, hself]
    _ = taken key want k k' (older ++ a :: later) ++ [a] := by rw [hskip]

end Feed
