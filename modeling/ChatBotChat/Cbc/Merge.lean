/-
What a merge makes of a settings document.

All that a merge depends on is the array that stands, or would be created, at its place
(`Site.found`): there is none where a type on the way is wrong, and a level that is
created never is.

* `settings_merges` — a merge that fails has changed nothing, one that succeeds has added
  its element or found it, and nothing else; the two hook merges commute; and nothing is
  written where one fails, or where there is nothing to add.
-/
import ChatBotChat.Cbc.Settings

namespace ChatBotChat

namespace Settings

open JsonValue

variable {s t : Site} {v : Value} {m : Object} {xs : List Value}

/-! ### The place of a merge -/

/-- The object under a key; a missing one is empty. -/
def objectAt (key : Key) (m : Object) : Option Object :=
  match (lookup key m).getD (.object []) with
  | .object o => some o
  | _ => none

/-- The array under a key; a missing one is empty. -/
def arrayAt (key : Key) (m : Object) : Option (List Value) :=
  match (lookup key m).getD (.array []) with
  | .array xs => some xs
  | _ => none

/-- The array that the merge finds at its place. -/
def Site.found (s : Site) : Value → Option (List Value)
  | .object m => (objectAt s.outer m).bind (arrayAt s.inner)
  | _ => none

theorem objectAt_eq_some {key : Key} {o : Object} (h : objectAt key m = some o) :
    (lookup key m).getD (.object []) = .object o := by
  unfold objectAt at h
  split at h
  · next heq => exact heq.trans (congrArg Value.object (Option.some_inj.mp h))
  · cases h

theorem arrayAt_eq_some {key : Key} (h : arrayAt key m = some xs) :
    (lookup key m).getD (.array []) = .array xs := by
  unfold arrayAt at h
  split at h
  · next heq => exact heq.trans (congrArg Value.array (Option.some_inj.mp h))
  · cases h

/-- What stands where an object is missing is no object. -/
theorem inObject_of_none {key : Key} {error : Text} {change : Object → Object × Except Text Bool}
    (h : objectAt key m = none) : ∃ w, lookup key m = some w ∧
      inObject error change w = (w, .error error) := by
  unfold objectAt at h
  cases hw : lookup key m with
  | none =>
    rw [hw] at h
    cases h
  | some w =>
    rw [hw] at h
    refine ⟨w, rfl, ?_⟩
    cases w with
    | object o => cases h
    | _ => rfl

theorem inArray_of_none {key : Key} {error : Text}
    {change : List Value → List Value × Except Text Bool} (h : arrayAt key m = none) :
    ∃ w, lookup key m = some w ∧ inArray error change w = (w, .error error) := by
  unfold arrayAt at h
  cases hw : lookup key m with
  | none =>
    rw [hw] at h
    cases h
  | some w =>
    rw [hw] at h
    refine ⟨w, rfl, ?_⟩
    cases w with
    | array xs => cases h
    | _ => rfl

/-- An object that has a member stands where it was found. -/
theorem lookup_of_objectAt {key k : Key} {o : Object} {w : Value} (h : objectAt key m = some o)
    (hw : lookup k o = some w) : lookup key m = some (.object o) := by
  have hobject := objectAt_eq_some h
  cases hm : lookup key m with
  | none =>
    rw [hm] at hobject
    obtain rfl : [] = o := Value.object.inj hobject
    cases hw
  | some u =>
    rw [hm] at hobject
    exact congrArg some hobject

/-- The change of the object in which the array stands. -/
def Site.change (s : Site) : Value → Value × Except Text Bool :=
  inObject s.outerError (atEntry s.inner (.array []) (inArray s.innerError s.push))

theorem Site.ensure_object (s : Site) (m : Object) : s.ensure (.object m) =
    (.object (atEntry s.outer (.object []) s.change m).1,
      (atEntry s.outer (.object []) s.change m).2) := rfl

/-- A change that leaves the inner value as it is leaves the document as it is. -/
theorem Site.ensure_of_unchanged {o : Object} {w : Value} {r : Except Text Bool}
    (ho : objectAt s.outer m = some o) (hw : lookup s.inner o = some w)
    (hsame : inArray s.innerError s.push w = (w, r)) : s.ensure (.object m) = (.object m, r) := by
  have hinner : s.change (.object o) = (.object o, r) := by
    show (Value.object (atEntry s.inner (.array []) _ o).1, _) = _
    rw [atEntry_of_unchanged hw hsame]
  rw [s.ensure_object, atEntry_of_unchanged (lookup_of_objectAt ho hw) hinner]

/-- **An error has changed nothing.** -/
theorem Site.ensure_of_none (h : s.found v = none) : ∃ e, s.ensure v = (v, .error e) := by
  cases v with
  | object m =>
    cases hobject : objectAt s.outer m with
    | none =>
      obtain ⟨w, hw, hchange⟩ : ∃ w, lookup s.outer m = some w ∧
          s.change w = (w, .error s.outerError) := inObject_of_none hobject
      refine ⟨s.outerError, ?_⟩
      rw [s.ensure_object, atEntry_of_unchanged hw hchange]
    | some o =>
      have harray : arrayAt s.inner o = none := by
        rw [Site.found, hobject] at h
        exact h
      obtain ⟨w, hw, herror⟩ : ∃ w, lookup s.inner o = some w ∧
          inArray s.innerError s.push w = (w, .error s.innerError) := inArray_of_none harray
      exact ⟨s.innerError, Site.ensure_of_unchanged hobject hw herror⟩
  | _ => exact ⟨_, rfl⟩

/-- An element that is there is not added again. -/
theorem Site.ensure_of_present (h : s.found v = some xs) (hpresent : s.present xs = true) :
    s.ensure v = (v, .ok false) := by
  cases v with
  | object m =>
    obtain ⟨o, ho, harray⟩ := Option.bind_eq_some_iff.mp h
    have hxs := arrayAt_eq_some harray
    have hw : lookup s.inner o = some (.array xs) := by
      cases hlookup : lookup s.inner o with
      | none =>
        rw [hlookup] at hxs
        obtain rfl : [] = xs := Value.array.inj hxs
        rw [s.absent_nil] at hpresent
        cases hpresent
      | some w =>
        rw [hlookup] at hxs
        exact congrArg some hxs
    refine Site.ensure_of_unchanged ho hw ?_
    show (Value.array (s.push xs).1, (s.push xs).2) = _
    rw [Site.push, if_pos hpresent]
  | _ => cases h

/-- What a merge leaves: its array, and all else as it was. -/
structure Placed (s : Site) (m o : Object) (xs : List Value) (m' o' : Object) : Prop where
  others : ∀ k, k ≠ s.outer → lookup k m' = lookup k m
  outer : lookup s.outer m' = some (.object o')
  insiders : ∀ k, k ≠ s.inner → lookup k o' = lookup k o
  inner : lookup s.inner o' = some (.array xs)

theorem Site.ensure_of_found {o : Object} (ho : objectAt s.outer m = some o)
    (hxs : arrayAt s.inner o = some xs) : ∃ m' o', s.ensure (.object m) = (.object m', (s.push xs).2) ∧
      Placed s m o (s.push xs).1 m' o' := by
  have houter : s.change ((lookup s.outer m).getD (.object [])) =
      (.object (atEntry s.inner (.array []) (inArray s.innerError s.push) o).1,
        (atEntry s.inner (.array []) (inArray s.innerError s.push) o).2) := by
    rw [objectAt_eq_some ho]
    rfl
  have hinner : inArray s.innerError s.push ((lookup s.inner o).getD (.array [])) =
      (.array (s.push xs).1, (s.push xs).2) := by
    rw [arrayAt_eq_some hxs]
    rfl
  refine ⟨(atEntry s.outer (.object []) s.change m).1,
    (atEntry s.inner (.array []) (inArray s.innerError s.push) o).1, ?_, ?_⟩
  · rw [s.ensure_object]
    refine Prod.ext rfl ?_
    show (atEntry s.outer _ s.change m).2 = _
    rw [atEntry_snd, houter]
    show (atEntry s.inner _ _ o).2 = _
    rw [atEntry_snd, hinner]
  · refine ⟨fun k hk => lookup_atEntry_of_ne hk, ?_, fun k hk => lookup_atEntry_of_ne hk, ?_⟩
    · rw [lookup_atEntry_self, houter]
    · rw [lookup_atEntry_self, hinner]

theorem objectAt_of_lookup {key : Key} {o : Object} (h : lookup key m = some (.object o)) :
    objectAt key m = some o := by
  rw [objectAt, h]
  rfl

theorem arrayAt_of_lookup {key : Key} (h : lookup key m = some (.array xs)) :
    arrayAt key m = some xs := by
  rw [arrayAt, h]
  rfl

theorem Placed.found {o m' o' : Object} (h : Placed s m o xs m' o') :
    s.found (.object m') = some xs := by
  rw [Site.found, objectAt_of_lookup h.outer]
  exact arrayAt_of_lookup h.inner

/-- A merge into another array of the same object finds it as it was. -/
theorem Placed.found_other {o m' o' : Object} (h : Placed s m o xs m' o')
    (ho : objectAt s.outer m = some o) (houter : t.outer = s.outer) (hinner : t.inner ≠ s.inner) :
    t.found (.object m') = t.found (.object m) := by
  rw [Site.found, Site.found, houter, objectAt_of_lookup h.outer, ho]
  show arrayAt t.inner o' = arrayAt t.inner o
  rw [arrayAt, arrayAt, h.insiders t.inner hinner]

/-! ### One merge -/

/-- The members of the document after a merge into `outer`, `inner`: the array there has
all its elements in order, and what it should have, and the rest is as it was. -/
structure Merged (outer inner : Key) (has : List Value → Prop) (m m' : Object) : Prop where
  others : ∀ k, k ≠ outer → lookup k m' = lookup k m
  inside : ∃ o o', objectAt outer m = some o ∧ lookup outer m' = some (.object o') ∧
    (∀ k, k ≠ inner → lookup k o' = lookup k o) ∧ ∃ xs xs', arrayAt inner o = some xs ∧
      lookup inner o' = some (.array xs') ∧ xs <+: xs' ∧ has xs'

/-- A merge does what it says, on every document. -/
structure Exact (merge : Value → Value × Except Text Bool) (outer inner : Key)
    (has : List Value → Prop) (v : Value) : Prop where
  error : ∀ e, (merge v).2 = .error e → (merge v).1 = v
  ok : ∀ changed, (merge v).2 = .ok changed →
    (∃ m m', v = .object m ∧ (merge v).1 = .object m' ∧ Merged outer inner has m m') ∧
      (changed = true ↔ (merge v).1 ≠ v) ∧ merge (merge v).1 = ((merge v).1, .ok false)

theorem Site.prefix_push (s : Site) (xs : List Value) : xs <+: (s.push xs).1 := by
  unfold Site.push
  split_ifs
  · exact List.prefix_rfl
  · exact List.prefix_append _ _

theorem Site.present_push (s : Site) (xs : List Value) : s.present (s.push xs).1 = true := by
  unfold Site.push
  split_ifs with hpresent
  · exact hpresent
  · exact s.present_append xs

theorem Site.push_snd (s : Site) (xs : List Value) : (s.push xs).2 = .ok (!s.present xs) := by
  unfold Site.push
  split_ifs with hpresent
  · rw [hpresent]
    rfl
  · rw [Bool.eq_false_iff.mpr hpresent]
    rfl

/-- **Every merge is exact.** -/
theorem Site.exact (s : Site) {has : List Value → Prop} (hhas : ∀ xs, s.present xs = true → has xs)
    (v : Value) : Exact s.ensure s.outer s.inner has v := by
  -- a merge fails exactly where its array is not found
  cases hfound : s.found v with
  | none =>
    obtain ⟨e, herror⟩ := Site.ensure_of_none hfound
    refine ⟨fun _ _ => by rw [herror], fun changed hok => ?_⟩
    rw [herror] at hok
    cases hok
  | some xs =>
    cases v with
    | object m =>
      obtain ⟨o, ho, hxs⟩ := Option.bind_eq_some_iff.mp hfound
      obtain ⟨m', o', hensure, hplaced⟩ := Site.ensure_of_found ho hxs
      rw [s.push_snd] at hensure
      refine ⟨fun e herror => ?_, fun changed hok => ?_⟩
      · rw [hensure] at herror
        cases herror
      · have hpresent := s.present_push xs
        have hagain := Site.ensure_of_present hplaced.found hpresent
        rw [hensure] at hok ⊢
        obtain rfl : (!s.present xs) = changed := Except.ok.inj hok
        refine ⟨⟨m, m', rfl, rfl, hplaced.others, o, o', ho, hplaced.outer, hplaced.insiders, xs, _,
          hxs, hplaced.inner, s.prefix_push xs, hhas _ hpresent⟩, ?_, hagain⟩
        cases hthere : s.present xs with
        | true =>
          have hsame := hensure.symm.trans (Site.ensure_of_present hfound hthere)
          exact iff_of_false (by simp) (not_not_intro (Prod.mk.inj hsame).1)
        | false =>
          refine iff_of_true rfl fun heq => ?_
          -- the array found afterwards is longer
          have hdocument : Value.object m' = .object m := heq
          have hlonger := hplaced.found
          rw [hdocument, hfound, Site.push, hthere, if_neg (by simp)] at hlonger
          have hlength := congrArg List.length (Option.some_inj.mp hlonger)
          rw [List.length_append, List.length_singleton] at hlength
          omega
    | _ => cases hfound

theorem Site.ensure_ok_iff (s : Site) (v : Value) (b : Bool) :
    (s.ensure v).2 = .ok b ↔ ∃ xs, s.found v = some xs ∧ b = !s.present xs := by
  cases hfound : s.found v with
  | none =>
    obtain ⟨e, herror⟩ := Site.ensure_of_none hfound
    simp [herror]
  | some xs =>
    cases v with
    | object m =>
      obtain ⟨o, ho, hxs⟩ := Option.bind_eq_some_iff.mp hfound
      obtain ⟨m', o', hensure, -⟩ := Site.ensure_of_found ho hxs
      rw [hensure, s.push_snd]
      simp [eq_comm]
    | _ => cases hfound

/-! ### Two merges -/

/-- What a merge finds does not depend on one into another array of the same object. -/
theorem Site.found_ensure (houter : t.outer = s.outer) (hinner : t.inner ≠ s.inner) (v : Value) :
    t.found (s.ensure v).1 = t.found v := by
  cases hfound : s.found v with
  | none =>
    obtain ⟨e, herror⟩ := Site.ensure_of_none hfound
    rw [herror]
  | some xs =>
    cases v with
    | object m =>
      obtain ⟨o, ho, hxs⟩ := Option.bind_eq_some_iff.mp hfound
      obtain ⟨m', o', hensure, hplaced⟩ := Site.ensure_of_found ho hxs
      rw [hensure]
      exact hplaced.found_other ho houter hinner
    | _ => cases hfound

/-- Both orders give one document, up to the order of its members. -/
theorem Site.ensure_comm (houter : t.outer = s.outer) (hinner : t.inner ≠ s.inner)
    {ys : List Value} (hs : s.found v = some xs) (ht : t.found v = some ys) :
    Same (t.ensure (s.ensure v).1).1 (s.ensure (t.ensure v).1).1 := by
  cases v with
  | object m =>
    obtain ⟨o, ho, hxs⟩ := Option.bind_eq_some_iff.mp hs
    obtain ⟨o₂, ho₂, hys⟩ := Option.bind_eq_some_iff.mp ht
    obtain ⟨m₁, o₁, hensure₁, h₁⟩ := Site.ensure_of_found ho hxs
    obtain ⟨m₂, o₂', hensure₂, h₂⟩ := Site.ensure_of_found ho₂ hys
    obtain rfl : o = o₂ := Option.some_inj.mp (ho.symm.trans (houter ▸ ho₂))
    -- the second merge of either order
    have hobject₁ : objectAt t.outer m₁ = some o₁ := by
      rw [houter]
      exact objectAt_of_lookup h₁.outer
    have hobject₂ : objectAt s.outer m₂ = some o₂' := by
      rw [← houter]
      exact objectAt_of_lookup h₂.outer
    have hys₁ : arrayAt t.inner o₁ = some ys := by
      rw [arrayAt, h₁.insiders t.inner hinner]
      exact hys
    have hxs₂ : arrayAt s.inner o₂' = some xs := by
      rw [arrayAt, h₂.insiders s.inner hinner.symm]
      exact hxs
    obtain ⟨m₁₂, o₁₂, hensure₁₂, h₁₂⟩ := Site.ensure_of_found hobject₁ hys₁
    obtain ⟨m₂₁, o₂₁, hensure₂₁, h₂₁⟩ := Site.ensure_of_found hobject₂ hxs₂
    rw [hensure₁, hensure₂, hensure₁₂, hensure₂₁]
    -- the two arrays are each merged into once, in either order
    have hinside : ∀ k, lookup k o₁₂ = lookup k o₂₁ := by
      intro k
      by_cases hks : k = s.inner
      · rw [hks, h₁₂.insiders _ hinner.symm, h₁.inner, h₂₁.inner]
      · rw [h₂₁.insiders k hks]
        by_cases hkt : k = t.inner
        · rw [hkt, h₁₂.inner, h₂.inner]
        · rw [h₁₂.insiders k hkt, h₁.insiders k hks, h₂.insiders k hkt]
    have houter₁₂ : lookup s.outer m₁₂ = some (.object o₁₂) := houter ▸ h₁₂.outer
    have hothers : ∀ k, k ≠ s.outer → lookup k m₁₂ = lookup k m₂₁ := by
      intro k hk
      have hk' : k ≠ t.outer := houter ▸ hk
      rw [h₁₂.others k hk', h₁.others k hk, h₂₁.others k hk, h₂.others k hk']
    refine .object (fun k => ?_) fun k v v' hv hv' => ?_
    · by_cases hk : k = s.outer
      · rw [hk, houter₁₂, h₂₁.outer]
        rfl
      · rw [hothers k hk]
    · by_cases hk : k = s.outer
      · rw [hk, houter₁₂, Option.some_inj] at hv
        rw [hk, h₂₁.outer, Option.some_inj] at hv'
        rw [← hv, ← hv']
        exact same_of_lookup hinside
      · rw [hothers k hk, hv', Option.some_inj] at hv
        rw [hv]
        exact .refl v
  | _ => cases hs

/-- Either merge succeeds behind the other exactly if it does on its own. -/
theorem Site.ensure_ensure_snd (houter : t.outer = s.outer) (hinner : t.inner ≠ s.inner) (v : Value)
    (b : Bool) : (t.ensure (s.ensure v).1).2 = .ok b ↔ (t.ensure v).2 = .ok b := by
  rw [t.ensure_ok_iff, t.ensure_ok_iff, Site.found_ensure houter hinner]

/-! ### The merges of the program -/

/-- A wrapper of the array has an entry with the command. -/
def HasHook (command : Text) (wrappers : List Value) : Prop :=
  ∃ wrapper ∈ wrappers, ∃ inner, wrapper.get "hooks".toList = some (.array inner) ∧
    ∃ entry ∈ inner, entry.get "command".toList = some (.string command)

theorem hasHook_of_present {command : Text} (h : xs.any (hasCommand command) = true) :
    HasHook command xs := by
  obtain ⟨wrapper, hwrapper, hcommand⟩ := List.any_eq_true.mp h
  obtain ⟨inner, hinner, hentry⟩ := (Option.any_eq_true _ _).mp hcommand
  obtain ⟨hooks, hhooks, harray⟩ := Option.bind_eq_some_iff.mp hinner
  obtain ⟨entry, hmem, htext⟩ := List.any_eq_true.mp hentry
  obtain ⟨text, hget, hstr⟩ := Option.bind_eq_some_iff.mp (of_decide_eq_true htext)
  have hhooks' : hooks = .array inner := by
    cases hooks with
    | array xs => exact congrArg Value.array (Option.some_inj.mp harray)
    | _ => cases harray
  have htext' : text = .string command := by
    cases text with
    | string t => exact congrArg Value.string (Option.some_inj.mp hstr)
    | _ => cases hstr
  exact ⟨wrapper, hwrapper, inner, hhooks' ▸ hhooks, entry, hmem, htext' ▸ hget⟩

/-- One of the hook merges fails, or neither has anything to add. -/
def NothingToStore (settings : Value) : Prop :=
  (∃ e, (ensureSessionStartHook settings).2 = .error e) ∨
    (∃ e, (ensureStopHook settings).2 = .error e) ∨
      ((ensureSessionStartHook settings).2 = .ok false ∧ (ensureStopHook settings).2 = .ok false)

def sessionStartSite : Site := hookSite "SessionStart".toList "cbc hook session-start".toList

def stopSite : Site := hookSite "Stop".toList "cbc hook stop".toList

/-- The second merge decides on the document as it was read. -/
theorem ensureStopHook_iff (v : Value) (b : Bool) :
    (ensureStopHook (ensureSessionStartHook v).1).2 = .ok b ↔ (ensureStopHook v).2 = .ok b :=
  Site.ensure_ensure_snd (s := sessionStartSite) (t := stopSite) rfl (by decide) v b

theorem ensureSessionStartHook_iff (v : Value) (b : Bool) :
    (ensureSessionStartHook (ensureStopHook v).1).2 = .ok b ↔
      (ensureSessionStartHook v).2 = .ok b :=
  Site.ensure_ensure_snd (s := stopSite) (t := sessionStartSite) rfl (by decide) v b

theorem ensureHooks_of_nothing (h : NothingToStore v) :
    (∃ e, (ensureHooks v).2 = .error e) ∨ (ensureHooks v).2 = .ok false := by
  unfold ensureHooks
  cases hstart : ensureSessionStartHook v with
  | mk v₁ r =>
    cases r with
    | error e => exact .inl ⟨e, rfl⟩
    | ok a =>
      have hstop := ensureStopHook_iff v
      rw [hstart] at hstop
      cases hsecond : ensureStopHook v₁ with
      | mk v₂ r₂ =>
        cases r₂ with
        | error e => exact .inl ⟨e, by simp [hsecond]⟩
        | ok b =>
          have hb := (hstop b).mp (by rw [hsecond])
          rcases h with ⟨e, herror⟩ | ⟨e, herror⟩ | ⟨hfalse, hfalse'⟩
          · rw [hstart] at herror
            cases herror
          · rw [hb] at herror
            cases herror
          · rw [hstart] at hfalse
            rw [hb] at hfalse'
            obtain rfl : a = false := Except.ok.inj hfalse
            obtain rfl : b = false := Except.ok.inj hfalse'
            exact .inr (by simp [hsecond])

/-- **Settings merges are exact**: each on every document, the two hook merges in either
order, and the file they are for is left alone where there is nothing to store. -/
theorem settings_merges :
    (∀ v rule, Exact (fun v => ensureAllowRule v rule) "permissions".toList "allow".toList
      (fun xs => .string rule ∈ xs) v) ∧
    (∀ v event command, Exact (fun v => ensureCommandHook v event command) "hooks".toList event
      (HasHook command) v) ∧
    (∀ v a b, (ensureSessionStartHook v).2 = .ok a → (ensureStopHook v).2 = .ok b →
      (ensureStopHook (ensureSessionStartHook v).1).2 = .ok b ∧
      (ensureSessionStartHook (ensureStopHook v).1).2 = .ok a ∧
      Same (ensureStopHook (ensureSessionStartHook v).1).1
        (ensureSessionStartHook (ensureStopHook v).1).1) ∧
    ∀ env original settings, load env = .ok (original, settings) → NothingToStore settings →
      (applyHookRule env).1 = [] := by
  refine ⟨fun v rule => ?_, fun v event command => ?_, fun v a b ha hb => ⟨?_, ?_, ?_⟩,
    fun env original settings hload hnothing => ?_⟩
  · exact (allowSite rule).exact (fun xs => string_mem_iff.mp) v
  · exact (hookSite event command).exact (fun xs => hasHook_of_present) v
  · exact (ensureStopHook_iff v b).mpr hb
  · exact (ensureSessionStartHook_iff v a).mpr ha
  · obtain ⟨xs, hxs, -⟩ := (sessionStartSite.ensure_ok_iff v a).mp ha
    obtain ⟨ys, hys, -⟩ := (stopSite.ensure_ok_iff v b).mp hb
    exact Site.ensure_comm (s := sessionStartSite) (t := stopSite) rfl (by decide) hxs hys
  · rw [applyHookRule, applyRule, hload]
    rcases ensureHooks_of_nothing hnothing with ⟨e, herror⟩ | hfalse
    · cases hmerge : ensureHooks settings with
      | mk v r =>
        rw [hmerge] at herror
        obtain rfl : r = .error e := herror
        simp only [hmerge]
    · cases hmerge : ensureHooks settings with
      | mk v r =>
        rw [hmerge] at hfalse
        obtain rfl : r = .ok false := hfalse
        simp only [hmerge]

theorem load_of_parse {env : Env} {text : Text} (hexisted : env.existed = true)
    (hcontent : env.content = some text) (hblank : Hook.trim text ≠ [])
    (hparse : env.parse text = some v) : load env = .ok (text, v) := by
  simp only [load, hexisted, hcontent, ↓reduceIte, bind, Except.bind, hblank, hparse]
  rfl

/-- A settings file in which both hooks stand, as text. -/
def hookedText : Text :=
  ("\x7b\"hooks\":\x7b\"SessionStart\":[\x7b\"hooks\":[\x7b\"type\":\"command\"," ++
    "\"command\":\"cbc hook session-start\"\x7d]\x7d],\"Stop\":[\x7b\"hooks\":[\x7b\"type\":" ++
    "\"command\",\"command\":\"cbc hook stop\"\x7d]\x7d]\x7d\x7d").toList

/-- And what it is parsed to. -/
def hookedSettings : Value :=
  .object [("hooks".toList, .object [
    ("SessionStart".toList, .array [commandHook "cbc hook session-start".toList]),
    ("Stop".toList, .array [commandHook "cbc hook stop".toList])])]

def hookedEnv : Env where
  path := "settings.json".toList
  parent := none
  existed := true
  content := some hookedText
  parse _ := some hookedSettings
  render _ := some hookedText
  succeeds _ := true

theorem settings_merges_hooked :
    Same (ensureStopHook (ensureSessionStartHook (.object [])).1).1
      (ensureSessionStartHook (ensureStopHook (.object [])).1).1 ∧
    (applyHookRule hookedEnv).1 = [] := by
  obtain ⟨-, -, hcomm, hwrites⟩ := settings_merges
  have hstart : (ensureSessionStartHook (.object [])).2 = .ok true := by decide +kernel
  have hstop : (ensureStopHook (.object [])).2 = .ok true := by decide +kernel
  have hload : load hookedEnv = .ok (hookedText, hookedSettings) :=
    load_of_parse rfl rfl (by decide +kernel) rfl
  have hnothing : NothingToStore hookedSettings := .inr (.inr ⟨by decide +kernel, by decide +kernel⟩)
  refine ⟨(hcomm (.object []) true true hstart hstop).2.2, ?_⟩
  exact hwrites hookedEnv hookedText hookedSettings hload hnothing

end Settings

end ChatBotChat
