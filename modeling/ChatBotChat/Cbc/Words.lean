/-
Words of a list: its maximal runs without a separator, as `split_whitespace`
gives them for a text.

What a command line is read back by: splitting respects a separator between two
parts (`words_append_cons`), leaves a word alone (`IsWord.words`), and gives
words only (`isWord_of_mem`); a list without a separator too many is its words,
joined (`Tidy.intercalate_words`).  `after a l` is the element that follows the first
`a` of `l`, the value of a flag among the words of a line.
-/
import Mathlib.Data.List.Basic
import Mathlib.Data.List.Chain
import Mathlib.Data.List.DropRight
import Mathlib.Logic.Basic

namespace Words

variable {α : Type*} {sep : α → Bool} {l w : List α} {x : α}

/-! ### Words -/

/-- The non-empty pieces of `l` between its separators. -/
def words (sep : α → Bool) (l : List α) : List (List α) :=
  (l.splitOnP sep).filter fun w => !w.isEmpty

/-- Not empty, and free of separators. -/
def IsWord (sep : α → Bool) (w : List α) : Prop := w ≠ [] ∧ ∀ x ∈ w, sep x = false

instance : Decidable (IsWord sep w) := inferInstanceAs (Decidable (_ ∧ _))

@[simp] theorem words_nil : words sep [] = [] := rfl

theorem words_append_cons (hx : sep x = true) (l r : List α) :
    words sep (l ++ x :: r) = words sep l ++ words sep r := by
  rw [words, List.splitOnP_append_cons l r hx, List.filter_append, words, words]

theorem IsWord.words (h : IsWord sep w) : words sep w = [w] := by
  rw [Words.words, List.splitOnP_eq_singleton h.2]
  have hne : w.isEmpty = false := List.isEmpty_eq_false_iff.mpr h.1
  simp [hne]

theorem words_cons_of_sep (hx : sep x = true) (l : List α) : words sep (x :: l) = words sep l :=
  words_append_cons hx [] l

/-- Separators in front make no word. -/
theorem words_append_of_seps {g : List α} (hg : ∀ x ∈ g, sep x = true) (l : List α) :
    words sep (g ++ l) = words sep l := by
  induction g with
  | nil => rfl
  | cons x g ih =>
    rw [List.cons_append, words_cons_of_sep (hg x List.mem_cons_self)]
    exact ih fun y hy => hg y (List.mem_cons_of_mem _ hy)

theorem words_seps {g : List α} (hg : ∀ x ∈ g, sep x = true) : words sep g = [] := by
  have hwords := words_append_of_seps hg []
  rwa [List.append_nil] at hwords

/-- A gap ends a word. -/
theorem IsWord.words_append (h : IsWord sep w) {g : List α} (hg : ∀ x ∈ g, sep x = true)
    (hne : g ≠ []) (l : List α) : Words.words sep (w ++ (g ++ l)) = w :: Words.words sep l := by
  obtain ⟨x, g, rfl⟩ := List.exists_cons_of_ne_nil hne
  rw [List.cons_append, words_append_cons (hg x List.mem_cons_self), h.words,
    words_append_of_seps fun y hy => hg y (List.mem_cons_of_mem _ hy)]
  rfl

/-- The words, each behind its gap; `n` counts them. -/
def spaced (gap : ℕ → List α) : ℕ → List (List α) → List α
  | _, [] => []
  | n, w :: ws => gap n ++ (w ++ spaced gap (n + 1) ws)

/-- Words with a gap in front of each are read back. -/
theorem words_spaced {gap : ℕ → List α} {trail : List α} (hgap : ∀ n, ∀ x ∈ gap n, sep x = true)
    (hne : ∀ n, gap n ≠ []) (htrail : ∀ x ∈ trail, sep x = true) {ws : List (List α)}
    (h : ∀ w ∈ ws, IsWord sep w) (n : ℕ) : words sep (spaced gap n ws ++ trail) = ws := by
  induction ws generalizing n with
  | nil => exact words_seps htrail
  | cons w ws ih =>
    have hrest := ih (fun w hw => h w (List.mem_cons_of_mem _ hw)) (n + 1)
    have hw := h w List.mem_cons_self
    rw [spaced, List.append_assoc, List.append_assoc, words_append_of_seps (hgap n)]
    cases ws with
    | nil =>
      cases trail with
      | nil => simpa [spaced] using hw.words
      | cons x trail =>
        have hend := hw.words_append htrail (List.cons_ne_nil x trail) []
        rwa [List.append_nil] at hend
    | cons v ws =>
      rw [spaced, List.append_assoc, words_append_of_seps (hgap (n + 1))] at hrest
      rw [spaced, List.append_assoc, hw.words_append (hgap (n + 1)) (hne (n + 1)), hrest]

theorem words_dropWhile (l : List α) : words sep (l.dropWhile sep) = words sep l := by
  induction l with
  | nil => rfl
  | cons x l ih =>
    by_cases hx : sep x = true
    · rw [List.dropWhile_cons_of_pos hx, ih, words_cons_of_sep hx]
    · rw [List.dropWhile_cons_of_neg hx]

theorem words_rdropWhile (l : List α) : words sep (l.rdropWhile sep) = words sep l := by
  induction l using List.reverseRecOn with
  | nil => rfl
  | append_singleton l x ih =>
    by_cases hx : sep x = true
    · rw [List.rdropWhile_concat_pos _ _ _ hx, ih, words_append_cons hx]
      exact (List.append_nil _).symm
    · rw [List.rdropWhile_concat_neg _ _ _ hx]

theorem words_congr {sep' : α → Bool} (h : ∀ x ∈ l, sep x = sep' x) : words sep l = words sep' l := by
  have hpieces : l.splitOnP sep = l.splitOnP sep' := by
    induction l with
    | nil => rfl
    | cons x l ih =>
      rw [List.splitOnP_cons_eq_if_modifyHead, List.splitOnP_cons_eq_if_modifyHead,
        h x List.mem_cons_self, ih fun y hy => h y (List.mem_cons_of_mem _ hy)]
  rw [words, words, hpieces]

/-- The first word goes as far as there is no separator. -/
theorem words_cons_of_not_sep (hx : sep x = false) (l : List α) :
    words sep (x :: l) = (x :: l.takeWhile (!sep ·)) :: words sep (l.dropWhile (!sep ·)) := by
  have hword : IsWord sep (x :: l.takeWhile (!sep ·)) := by
    refine ⟨List.cons_ne_nil _ _, fun y hy => ?_⟩
    rcases List.mem_cons.mp hy with rfl | hy
    · exact hx
    · simpa using List.mem_takeWhile_imp hy
  have hsplit : x :: l = (x :: l.takeWhile (!sep ·)) ++ l.dropWhile (!sep ·) := by
    rw [List.cons_append, List.takeWhile_append_dropWhile]
  rw [hsplit]
  cases hrest : l.dropWhile (!sep ·) with
  | nil => rw [List.append_nil, hword.words, words_nil]
  | cons y rest =>
    have hy : sep y = true := by
      have hhead := List.head_dropWhile_not (!sep ·) (l := l) (by simp [hrest])
      simpa [hrest] using hhead
    rw [words_append_cons hy, hword.words, words_cons_of_sep hy]
    rfl

/-- Between separators there is none. -/
theorem no_sep_of_mem_splitOnP (hw : w ∈ l.splitOnP sep) : ∀ x ∈ w, sep x = false := by
  induction l generalizing w with
  | nil =>
    rw [List.splitOnP_nil, List.mem_singleton] at hw
    simp [hw]
  | cons a l ih =>
    rw [List.splitOnP_cons_eq_if_modifyHead] at hw
    by_cases ha : sep a = true
    · rw [if_pos ha, List.mem_cons] at hw
      rcases hw with rfl | hw
      · simp
      · exact ih hw
    · rw [if_neg ha] at hw
      obtain ⟨head, tail, hsplit⟩ := List.exists_cons_of_ne_nil (List.splitOnP_ne_nil sep l)
      rw [hsplit, List.modifyHead_cons, List.mem_cons] at hw
      rcases hw with rfl | hw
      · intro x hx
        rcases List.mem_cons.mp hx with rfl | hx
        · exact Bool.eq_false_iff.mpr ha
        · exact ih (hsplit ▸ List.mem_cons_self) x hx
      · exact ih (hsplit ▸ List.mem_cons_of_mem _ hw)

theorem isWord_of_mem (hw : w ∈ words sep l) : IsWord sep w := by
  obtain ⟨hmem, hne⟩ := List.mem_filter.mp hw
  refine ⟨?_, no_sep_of_mem_splitOnP hmem⟩
  rintro rfl
  cases hne

/-- A text is its own first word exactly when it is a word. -/
theorem head_words_iff : (words sep l).head? = some l ↔ IsWord sep l := by
  refine ⟨fun h => isWord_of_mem (List.mem_of_head? h), fun h => ?_⟩
  rw [h.words]
  rfl

/-- A non-empty start of a word is a word. -/
theorem IsWord.of_prefix (h : IsWord sep w) {v : List α} (hv : v <+: w) (hne : v ≠ []) :
    IsWord sep v := ⟨hne, fun x hx => h.2 x (hv.subset hx)⟩

/-! ### Joined words -/

/-- No two separators stand side by side. -/
def Single (sep : α → Bool) (l : List α) : Prop := l.IsChain fun x y => sep x = false ∨ sep y = false

/-- Nor does one stand in front or behind. -/
structure Tidy (sep : α → Bool) (l : List α) : Prop where
  single : Single sep l
  first : ∀ x ∈ l.head?, sep x = false
  last : ∀ x ∈ l.getLast?, sep x = false

theorem Single.tidy (h : Single sep l) : Tidy sep ((l.dropWhile sep).rdropWhile sep) := by
  have hfront := List.rdropWhile_prefix sep (l.dropWhile sep)
  refine ⟨?_, fun x hx => ?_, fun x hx => ?_⟩
  · exact List.IsChain.infix h (hfront.isInfix.trans (List.dropWhile_suffix sep).isInfix)
  · obtain ⟨rest, hrest⟩ := List.head?_eq_some_iff.mp hx
    obtain ⟨more, hmore⟩ := hfront
    have hfirst := List.head?_dropWhile_not sep l
    rw [← hmore, hrest] at hfirst
    exact hfirst
  · have hne : (l.dropWhile sep).rdropWhile sep ≠ [] := by
      rintro hnil
      rw [hnil] at hx
      cases hx
    have hlast := List.rdropWhile_last_not sep (l.dropWhile sep) hne
    rw [List.getLast?_eq_some_getLast hne] at hx
    rw [← Option.some_inj.mp hx]
    exact Bool.eq_false_iff.mpr hlast

/-- Where no separators stand side by side or behind, no piece is empty but the first. -/
theorem Single.pieces (h : Single sep l) (hlast : ∀ x ∈ l.getLast?, sep x = false) :
    (∀ w ∈ (l.splitOnP sep).tail, w ≠ []) ∧
      ((l.splitOnP sep).head? = some [] → ∀ x ∈ l.head?, sep x = true) := by
  induction l with
  | nil => simp
  | cons x l ih =>
    have hrest : Single sep l := List.IsChain.right_of_append (show Single sep ([x] ++ l) from h)
    have hlast' : ∀ y ∈ l.getLast?, sep y = false := by
      intro y hy
      refine hlast y ?_
      rw [List.getLast?_cons, Option.mem_def.mp hy]
      rfl
    obtain ⟨htail, hhead⟩ := ih hrest hlast'
    obtain ⟨piece, pieces, hpieces⟩ := List.exists_cons_of_ne_nil (List.splitOnP_ne_nil sep l)
    rw [List.splitOnP_cons_eq_if_modifyHead]
    cases hx : sep x with
    | false =>
      rw [hpieces] at htail ⊢
      exact ⟨htail, by simp⟩
    | true =>
      refine ⟨fun w hw => ?_, fun _ y hy => ?_⟩
      · rw [if_pos rfl, List.tail_cons, hpieces] at hw
        rcases List.mem_cons.mp hw with rfl | hw
        · rintro rfl
          rw [hpieces] at hhead
          cases l with
          | nil =>
            rw [hlast x rfl] at hx
            cases hx
          | cons y l =>
            have hy := hhead rfl y rfl
            rcases (List.isChain_cons_cons.mp h).1 with hno | hno
            · rw [hx] at hno
              cases hno
            · rw [hy] at hno
              cases hno
        · exact htail w (by rw [hpieces]; exact hw)
      · obtain rfl : x = y := by simpa using hy
        exact hx

/-- **A tidy list is its words**, joined. -/
theorem Tidy.intercalate_words [DecidableEq α] {x : α} (h : Tidy (· = x) l) :
    [x].intercalate (words (· = x) l) = l := by
  cases l with
  | nil => rfl
  | cons y l =>
    obtain ⟨htail, hhead⟩ := h.single.pieces h.last
    have hall : ∀ w ∈ (y :: l).splitOnP (· = x), w ≠ [] := by
      obtain ⟨piece, pieces, hpieces⟩ :=
        List.exists_cons_of_ne_nil (List.splitOnP_ne_nil (· = x) (y :: l))
      rw [hpieces] at htail hhead ⊢
      intro w hw
      rcases List.mem_cons.mp hw with rfl | hw
      · rintro rfl
        have hy := hhead rfl y rfl
        rw [h.first y rfl] at hy
        cases hy
      · exact htail w hw
    have hwords : words (· = x) (y :: l) = (y :: l).splitOnP (· = x) :=
      List.filter_eq_self.mpr fun w hw => by simpa using hall w hw
    rw [hwords]
    exact List.intercalate_splitOn x

/-! ### What a separator parts -/

/-- What stands before a separator it does not contain is determined by the whole. -/
theorem append_cons_inj {a : α} {y y' z z' : List α} (hy : a ∉ y) (hy' : a ∉ y')
    (h : y ++ a :: z = y' ++ a :: z') : y = y' ∧ z = z' := by
  induction y generalizing y' with
  | nil =>
    cases y' with
    | nil => exact ⟨rfl, (List.cons_eq_cons.mp h).2⟩
    | cons b y' =>
      obtain ⟨rfl, -⟩ := List.cons_eq_cons.mp h
      exact absurd List.mem_cons_self hy'
  | cons b y ih =>
    cases y' with
    | nil =>
      obtain ⟨rfl, -⟩ := List.cons_eq_cons.mp h
      exact absurd List.mem_cons_self hy
    | cons c y' =>
      obtain ⟨rfl, htail⟩ := List.cons_eq_cons.mp h
      rw [List.mem_cons, not_or] at hy hy'
      obtain ⟨rfl, hz⟩ := ih hy.2 hy'.2 htail
      exact ⟨rfl, hz⟩

/-- So is what stands behind one. -/
theorem append_cons_inj_last {a : α} {y y' z z' : List α} (hz : a ∉ z) (hz' : a ∉ z')
    (h : y ++ a :: z = y' ++ a :: z') : y = y' ∧ z = z' := by
  have hreverse : z.reverse ++ a :: y.reverse = z'.reverse ++ a :: y'.reverse := by
    simpa using congrArg List.reverse h
  obtain ⟨hlast, hfirst⟩ := append_cons_inj (by simpa using hz) (by simpa using hz') hreverse
  exact ⟨List.reverse_injective hfirst, List.reverse_injective hlast⟩

/-! ### The element after a flag -/

variable [DecidableEq α] {a b : α} {r : List α}

/-- The element that follows the first `a` of the list. -/
def after (a : α) (l : List α) : Option α := (l.idxOf? a).bind fun i => l[i + 1]?

@[simp] theorem after_nil : after a [] = none := rfl

theorem after_cons_self : after a (a :: l) = l.head? := by
  rw [after, List.idxOf?_cons]
  simp [List.head?_eq_getElem?]

theorem after_cons_of_ne (h : b ≠ a) : after a (b :: l) = after a l := by
  have hne : (b == a) = false := beq_eq_false_iff_ne.mpr h
  rw [after, List.idxOf?_cons, hne, after]
  cases List.idxOf? a l <;> rfl

theorem after_append_of_notMem (h : a ∉ l) : after a (l ++ r) = after a r := by
  induction l with
  | nil => rfl
  | cons b l ih =>
    rw [List.mem_cons, not_or] at h
    rw [List.cons_append, after_cons_of_ne (Ne.symm h.1), ih h.2]

/-- Past its first `a`, a list decides what follows it, unless the `a` is its
last element. -/
theorem after_append_of_mem (h : a ∈ l) : after a (l ++ r) = (after a l).or r.head? := by
  induction l with
  | nil => cases h
  | cons b l ih =>
    rw [List.cons_append]
    by_cases hb : b = a
    · subst hb
      rw [after_cons_self, after_cons_self]
      cases l <;> rfl
    · rw [after_cons_of_ne hb, after_cons_of_ne hb]
      exact ih (List.mem_of_ne_of_mem (Ne.symm hb) h)

theorem mem_of_after (h : after a l = some b) : b ∈ l := by
  obtain ⟨i, -, hi⟩ := Option.bind_eq_some_iff.mp h
  exact List.mem_of_getElem? hi

end Words
