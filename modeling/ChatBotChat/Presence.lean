/-
The presence registry of `presence.rs`: which participants have a long-poll parked right
now, or had one a moment ago.

The map is collected in two places: `enter` drops every dead entry, `is_live` the one it
was asked for.  Against the history of the guards, an entry that has been collected and
opened anew has forgotten its last release; but it has an active park then, and the
release it has forgotten was past the grace window.

* `presence_truthful` — after any valid history the registry is live for a handle exactly
  if a guard of the handle is undropped or the latest drop lies within the window.
-/
import Mathlib.Logic.Function.Basic
import Mathlib.Data.List.Basic
import Mathlib.Order.Lattice

namespace ChatBotChat

namespace Presence

/-! ### The registry -/

structure ParkState where
  active : ℕ
  lastRelease : Option ℕ
deriving DecidableEq

abbrev Parks : Type := String → Option ParkState

/-- `saturating_duration_since` of the last release, within the window. -/
def ParkState.recent (st : ParkState) (grace now : ℕ) : Bool :=
  st.lastRelease.any fun t => now - t ≤ grace

/-- Drop the entries without an active park that are past the window. -/
def retainLive (map : Parks) (grace now : ℕ) : Parks := fun handle =>
  (map handle).filter fun st => 0 < st.active || st.recent grace now

/-- Register a park; the caller holds its guard. -/
def enter (map : Parks) (grace : ℕ) (handle : String) (now : ℕ) : Parks :=
  let map := retainLive map grace now
  let st := (map handle).getD ⟨0, none⟩
  Function.update map handle (some { st with active := st.active + 1 })

/-- Whether a park is live; a dead entry is forgotten. -/
def isLive (map : Parks) (grace : ℕ) (handle : String) (now : ℕ) : Bool × Parks :=
  match map handle with
  | none => (false, map)
  | some st =>
    if 0 < st.active then (true, map)
    else if st.recent grace now then (true, map)
    else (false, Function.update map handle none)

/-- A guard is dropped. -/
def release (map : Parks) (handle : String) (now : ℕ) : Parks :=
  match map handle with
  | none => map
  -- the subtraction saturates
  | some st => Function.update map handle (some ⟨st.active - 1, some now⟩)

/-! ### Histories -/

inductive Op where
  | enter (handle : String)
  | drop (handle : String)
  | isLive (handle : String)
deriving DecidableEq

/-- A call, and what the clock reads. -/
structure Event where
  op : Op
  now : ℕ
deriving DecidableEq

/-- The registry after a history, latest call first. -/
def replay (grace : ℕ) : List Event → Parks
  | [] => fun _ => none
  | ⟨.enter handle, now⟩ :: events => enter (replay grace events) grace handle now
  | ⟨.drop handle, now⟩ :: events => release (replay grace events) handle now
  | ⟨.isLive handle, now⟩ :: events => (isLive (replay grace events) grace handle now).2

/-- The guards of the handle that have not been dropped. -/
def guards (handle : String) : List Event → ℕ
  | [] => 0
  | ⟨.enter handle', _⟩ :: events => guards handle events + if handle' = handle then 1 else 0
  | ⟨.drop handle', _⟩ :: events => guards handle events - if handle' = handle then 1 else 0
  | ⟨.isLive _, _⟩ :: events => guards handle events

/-- When a guard of the handle was dropped last. -/
def lastDrop (handle : String) (events : List Event) : Option ℕ :=
  (events.find? fun e => e.op = .drop handle).map Event.now

/-- The clock does not go back, and a guard is dropped once at most. -/
inductive Valid : List Event → Prop
  | nil : Valid []
  | cons {op : Op} {now : ℕ} {events : List Event} : Valid events → (∀ e ∈ events, e.now ≤ now) →
      (∀ handle, op = .drop handle → 0 < guards handle events) → Valid (⟨op, now⟩ :: events)

/-- A guard of the handle is undropped, or the latest drop is within the window. -/
def Parked (grace : ℕ) (handle : String) (now : ℕ) (events : List Event) : Prop :=
  0 < guards handle events ∨ ∃ t, lastDrop handle events = some t ∧ now - t ≤ grace

/-- What the registry tells after a history. -/
structure Truthful (grace : ℕ) (events : List Event) : Prop where
  live : ∀ handle now, (∀ e ∈ events, e.now ≤ now) →
    ((isLive (replay grace events) grace handle now).1 = true ↔ Parked grace handle now events)
  counted : ∀ handle, (replay grace events handle).elim 0 ParkState.active = guards handle events
  -- a drop finds its guard counted
  unsaturated : ∀ handle, 0 < guards handle events →
    ∃ st, replay grace events handle = some st ∧ 0 < st.active
  -- neither collector takes an entry with an undropped guard
  kept : ∀ handle, 0 < guards handle events → ∀ now asked,
    retainLive (replay grace events) grace now handle = replay grace events handle ∧
      (isLive (replay grace events) grace asked now).2 handle = replay grace events handle
  swept : ∀ entered now older, events = ⟨.enter entered, now⟩ :: older →
    ∀ handle, replay grace events handle ≠ none → Parked grace handle now events

/-! ### The entry of a handle -/

variable {grace now : ℕ} {handle handle' : String} {events : List Event} {map : Parks}

/-- What the entry of a handle says at `now`, where `active` guards are undropped and
`last` is the latest drop. -/
inductive Entry (grace now active : ℕ) (last : Option ℕ) : Option ParkState → Prop
  | absent : active = 0 → (∀ t, last = some t → grace < now - t) → Entry grace now active last none
  | present : Entry grace now active last (some ⟨active, last⟩)
  -- collected and opened anew
  | reopened : 0 < active → (∀ t, last = some t → grace < now - t) →
      Entry grace now active last (some ⟨active, none⟩)

variable {active : ℕ} {last : Option ℕ} {entry : Option ParkState}

/-- Time passes. -/
theorem Entry.later (h : Entry grace now active last entry) {now' : ℕ} (hle : now ≤ now') :
    Entry grace now' active last entry := by
  cases h with
  | absent hnone hpast =>
    refine .absent hnone fun t ht => ?_
    have hgrace := hpast t ht
    omega
  | present => exact .present
  | reopened hpos hpast =>
    refine .reopened hpos fun t ht => ?_
    have hgrace := hpast t ht
    omega

theorem Entry.active_eq (h : Entry grace now active last entry) :
    entry.elim 0 ParkState.active = active := by
  cases h with
  | absent hnone _ => exact hnone.symm
  | present => rfl
  | reopened _ _ => rfl

theorem Entry.some_of_pos (h : Entry grace now active last entry) (hpos : 0 < active) :
    ∃ st, entry = some st ∧ 0 < st.active := by
  cases h with
  | absent hnone _ => exact absurd hnone (Nat.ne_of_gt hpos)
  | present => exact ⟨_, rfl, hpos⟩
  | reopened _ _ => exact ⟨_, rfl, hpos⟩

/-- What is retained is live, and what is live is retained. -/
theorem Entry.retained (h : Entry grace now active last entry) :
    (entry.filter fun st => 0 < st.active || st.recent grace now) ≠ none ↔
      0 < active ∨ ∃ t, last = some t ∧ now - t ≤ grace := by
  cases h with
  | absent hnone hpast =>
    refine iff_of_false (fun hne => hne rfl) ?_
    rintro (hpos | ⟨t, ht, hle⟩)
    · omega
    · have hgrace := hpast t ht
      omega
  | present =>
    cases last with
    | none => simp [ParkState.recent, Nat.pos_iff_ne_zero]
    | some t =>
      simp [ParkState.recent, Nat.pos_iff_ne_zero]
      omega
  | reopened hpos hpast => simp [ParkState.recent, hpos, Nat.ne_of_gt hpos]

/-- The collectors keep the entry true. -/
theorem Entry.collected (h : Entry grace now active last entry) :
    Entry grace now active last (entry.filter fun st => 0 < st.active || st.recent grace now) := by
  by_cases hlive : 0 < active ∨ ∃ t, last = some t ∧ now - t ≤ grace
  · obtain ⟨st, hst⟩ := Option.ne_none_iff_exists'.mp (h.retained.mpr hlive)
    have hsame := hst
    rw [Option.filter_eq_some_iff] at hsame
    rw [hst, ← hsame.1]
    exact h
  · have hnone := not_not.mp (mt h.retained.mp hlive)
    rw [hnone]
    rw [not_or, not_exists] at hlive
    refine .absent (Nat.eq_zero_of_not_pos hlive.1) fun t ht => ?_
    have hgrace := hlive.2 t
    rw [not_and] at hgrace
    exact Nat.lt_of_not_le (hgrace ht)

/-- A park is entered. -/
theorem Entry.entered (h : Entry grace now active last entry) :
    Entry grace now (active + 1) last
      (some { entry.getD ⟨0, none⟩ with active := (entry.getD ⟨0, none⟩).active + 1 }) := by
  cases h with
  | absent hnone hpast =>
    subst hnone
    exact .reopened Nat.one_pos hpast
  | present => exact .present
  | reopened _ hpast => exact .reopened (Nat.succ_pos _) hpast

/-- A guard is dropped. -/
theorem Entry.dropped (h : Entry grace now active last entry) (hpos : 0 < active) :
    Entry grace now (active - 1) (some now)
      (entry.map fun st => ⟨st.active - 1, some now⟩) := by
  cases h with
  | absent hnone _ => exact absurd hnone (Nat.ne_of_gt hpos)
  | present => exact .present
  | reopened _ _ => exact .present

/-! ### The registry over a history -/

theorem retainLive_apply (map : Parks) (grace now : ℕ) (handle : String) :
    retainLive map grace now handle =
      (map handle).filter fun st => 0 < st.active || st.recent grace now := rfl

theorem enter_self (map : Parks) (grace : ℕ) (handle : String) (now : ℕ) :
    enter map grace handle now handle = some
      { (retainLive map grace now handle).getD ⟨0, none⟩ with
        active := ((retainLive map grace now handle).getD ⟨0, none⟩).active + 1 } := by
  rw [enter, Function.update_self]

theorem enter_of_ne (h : handle' ≠ handle) :
    enter map grace handle now handle' = retainLive map grace now handle' := by
  rw [enter, Function.update_of_ne h]

theorem release_self (map : Parks) (handle : String) (now : ℕ) :
    release map handle now handle = (map handle).map fun st => ⟨st.active - 1, some now⟩ := by
  unfold release
  cases hst : map handle with
  | none => exact hst
  | some st => exact Function.update_self _ _ _

theorem release_of_ne (h : handle' ≠ handle) : release map handle now handle' = map handle' := by
  unfold release
  cases map handle with
  | none => rfl
  | some st => exact Function.update_of_ne h _ _

/-- A query answers whether the entry would be retained, and collects it if not. -/
theorem isLive_self (map : Parks) (grace : ℕ) (handle : String) (now : ℕ) :
    ((isLive map grace handle now).1 = true ↔ retainLive map grace now handle ≠ none) ∧
      (isLive map grace handle now).2 handle = retainLive map grace now handle := by
  rw [retainLive_apply]
  unfold isLive
  cases hst : map handle with
  | none => simp [hst]
  | some st =>
    rw [Option.filter_some]
    by_cases hactive : 0 < st.active
    · simp [hst, hactive]
    · by_cases hrecent : st.recent grace now = true
      · simp [hst, hactive, hrecent]
      · simp [hactive, hrecent]

theorem isLive_of_ne (h : handle' ≠ handle) :
    (isLive map grace handle now).2 handle' = map handle' := by
  unfold isLive
  cases map handle with
  | none => rfl
  | some st =>
    dsimp only
    split_ifs
    · rfl
    · rfl
    · exact Function.update_of_ne h _ _

theorem lastDrop_cons_self (handle : String) (now : ℕ) (events : List Event) :
    lastDrop handle (⟨.drop handle, now⟩ :: events) = some now := by
  simp [lastDrop]

theorem lastDrop_cons_of_ne {op : Op} (h : op ≠ .drop handle) :
    lastDrop handle (⟨op, now⟩ :: events) = lastDrop handle events := by
  simp [lastDrop, h]

theorem lastDrop_enter (entered : String) :
    lastDrop handle (⟨.enter entered, now⟩ :: events) = lastDrop handle events :=
  lastDrop_cons_of_ne nofun

theorem lastDrop_isLive (asked : String) :
    lastDrop handle (⟨.isLive asked, now⟩ :: events) = lastDrop handle events :=
  lastDrop_cons_of_ne nofun

/-- **Every entry is true to the history.** -/
theorem entry_of_valid (grace : ℕ) (h : Valid events) (handle : String) (hnow : ∀ e ∈ events, e.now ≤ now) :
    Entry grace now (guards handle events) (lastDrop handle events) (replay grace events handle) := by
  induction h generalizing now with
  | nil => exact .absent rfl nofun
  | @cons op then_ events _ hclock hguard ih =>
    have hthen : then_ ≤ now := hnow ⟨op, then_⟩ List.mem_cons_self
    refine Entry.later ?_ hthen
    have hentry := ih hclock
    cases op with
    | enter entered =>
      rw [lastDrop_enter, replay, guards]
      by_cases hsame : entered = handle
      · subst hsame
        rw [if_pos rfl, enter_self]
        exact hentry.collected.entered
      · rw [if_neg hsame, enter_of_ne (Ne.symm hsame)]
        exact hentry.collected
    | drop dropped =>
      rw [replay, guards]
      by_cases hsame : dropped = handle
      · subst hsame
        rw [if_pos rfl, lastDrop_cons_self, release_self]
        exact hentry.dropped (hguard dropped rfl)
      · rw [if_neg hsame, lastDrop_cons_of_ne fun heq => hsame (Op.drop.inj heq),
          release_of_ne (Ne.symm hsame)]
        exact hentry
    | isLive asked =>
      rw [lastDrop_isLive, replay, guards]
      by_cases hsame : asked = handle
      · subst hsame
        rw [(isLive_self _ _ _ _).2]
        exact hentry.collected
      · rw [isLive_of_ne (Ne.symm hsame)]
        exact hentry

/-- The clock is bounded by some instant. -/
theorem exists_now (events : List Event) : ∃ now, ∀ e ∈ events, e.now ≤ now := by
  induction events with
  | nil => exact ⟨0, nofun⟩
  | cons e events ih =>
    obtain ⟨now, hnow⟩ := ih
    refine ⟨max e.now now, fun e' he' => ?_⟩
    rcases List.mem_cons.mp he' with rfl | he'
    · exact le_max_left _ _
    · exact (hnow e' he').trans (le_max_right _ _)

/-- **The presence registry tells the truth**, after any valid history. -/
theorem presence_truthful (grace : ℕ) (events : List Event) (h : Valid events) :
    Truthful grace events := by
  obtain ⟨last, hlast⟩ := exists_now events
  have hentry := fun handle => entry_of_valid grace h handle hlast
  have hpos : ∀ handle, 0 < guards handle events →
      ∃ st, replay grace events handle = some st ∧ 0 < st.active :=
    fun handle => (hentry handle).some_of_pos
  constructor
  case live =>
    intro handle now hnow
    rw [(isLive_self _ _ _ _).1, retainLive_apply]
    exact (entry_of_valid grace h handle hnow).retained
  case counted => exact fun handle => (hentry handle).active_eq
  case unsaturated => exact hpos
  case kept =>
    intro handle hguards now asked
    obtain ⟨st, hst, hactive⟩ := hpos handle hguards
    have hretained : retainLive (replay grace events) grace now handle = replay grace events handle := by
      rw [retainLive_apply, hst]
      simp [hactive]
    refine ⟨hretained, ?_⟩
    by_cases hsame : asked = handle
    · subst hsame
      rw [(isLive_self _ _ _ _).2, hretained]
    · exact isLive_of_ne (Ne.symm hsame)
  case swept =>
    rintro entered now older rfl handle hmem
    cases h with
    | cons holder hclock _ =>
      have holderEntry := entry_of_valid grace holder handle hclock
      rw [Parked, lastDrop_enter]
      by_cases hsame : entered = handle
      · refine .inl ?_
        rw [guards, if_pos hsame]
        exact Nat.succ_pos _
      · rw [replay, enter_of_ne (Ne.symm hsame)] at hmem
        rw [guards, if_neg hsame]
        exact holderEntry.retained.mp hmem

/-- Two parks that overlap, and a query after the grace of the first. -/
def overlapping : List Event :=
  [⟨.isLive "h1", 30⟩, ⟨.drop "h1", 12⟩, ⟨.enter "h1", 11⟩, ⟨.enter "h1", 10⟩]

theorem presence_truthful_overlapping : Truthful 10 overlapping := by
  refine presence_truthful 10 overlapping ?_
  refine .cons (.cons (.cons (.cons .nil ?_ ?_) ?_ ?_) ?_ ?_) ?_ ?_
  case refine_6 =>
    intro handle heq
    obtain rfl := Op.drop.inj heq
    decide
  all_goals first | decide | nofun

end Presence

end ChatBotChat
