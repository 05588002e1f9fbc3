/-
The liveness markers of `hook.rs`: a bounded poll leaves a file under `.poll-alive`,
named after its room and its label, and the Stop hook takes a fresh one for a beat that
covers the room.

The name is the room, two underscores and the label, each character that is not safe in
a file name read as an underscore.  Neither step can be undone.

* `marker_scoped_iff` — a beat on one connection is never taken for one on another
  exactly if the two do not differ in unsafe characters alone, and an underscore at their
  seam can be read in one way only.
-/
import ChatBotChat.Cbc.Hook
import Mathlib.Data.List.Basic

namespace ChatBotChat

namespace Hook

variable {room id room' id' a b mid : Text}

/-! ### The marker -/

/-- The character as it stands in a file name. -/
def fsSafe (c : Char) : Char :=
  if c.isAlphanum || c = '.' || c = '_' || c = '-' then c else '_'

/-- The file name of a room and an identity. -/
def pollAliveKey (room : Text) (identity : Option Text) : Text :=
  let raw := match identity with
    | some id => room ++ "__".toList ++ id
    | none => room ++ "__".toList
  raw.map fsSafe

/-- Only a bounded poll leaves a marker. -/
def shouldMarkAlive (maxPolls : UInt32) : Bool := maxPolls ≠ 0

/-- The path of the marker, component by component. -/
def pollAliveMarker (cbcDir : List Text) (room : Text) (identity : Option Text) :
    List Text :=
  cbcDir ++ [".poll-alive".toList, pollAliveKey room identity]

/-- When each file was written last. -/
abbrev Mtimes : Type := List Text → Option ℤ

/-- The touch; `written` says whether the directory and the file could be written, and a
failure is swallowed. -/
def touchPollAlive (files : Mtimes) (cbcDir : List Text) (room : Text)
    (identity : Option Text) (now : ℤ) (written : Bool) : Mtimes :=
  if written then Function.update files (pollAliveMarker cbcDir room identity) (some now) else files

/-- A marker within the window; one from the future is none. -/
def recentlyPolled (files : Mtimes) (cbcDir : List Text) (room : Text)
    (identity : Option Text) (window now : ℤ) : Bool :=
  match files (pollAliveMarker cbcDir room identity) with
  | none => false
  | some mtime => mtime ≤ now && now - mtime ≤ window

/-- What `cbc poll` leaves when it starts. -/
def markPoll (files : Mtimes) (cbcDir : List Text) (maxPolls : UInt32) (room : Text)
    (identity : Option Text) (now : ℤ) (written : Bool) : Mtimes :=
  if shouldMarkAlive maxPolls then touchPollAlive files cbcDir room identity now written else files

/-- A poll of the first connection never makes the second look polled. -/
def Scoped (room id room' id' : Text) : Prop :=
  ∀ (files : Mtimes) (cbcDir : List Text) (maxPolls : UInt32) (started now window : ℤ)
    (written : Bool),
    recentlyPolled (markPoll files cbcDir maxPolls room (some id) started written) cbcDir room'
      (some id') window now = recentlyPolled files cbcDir room' (some id') window now

/-! ### When two names are one -/

/-- The same text, but for characters that stand for an underscore. -/
def Alike (a b : Text) : Prop := a.map fsSafe = b.map fsSafe

instance : Decidable (Alike a b) := inferInstanceAs (Decidable (_ = _))

/-- The second room takes in part of the seam, and what is left over stands in front of
the first label. -/
def Shifted (room id room' id' : Text) : Prop :=
  (Alike room' (room ++ "_".toList) ∧ Alike id ("_".toList ++ id')) ∨
    ∃ mid, Alike room' (room ++ "__".toList ++ mid) ∧ Alike id (mid ++ "__".toList ++ id')

/-- The two connections have one marker. -/
def Collide (room id room' id' : Text) : Prop :=
  (Alike room room' ∧ Alike id id') ∨ Shifted room id room' id' ∨ Shifted room' id' room id

theorem pollAliveKey_some (room id : Text) :
    pollAliveKey room (some id) = room.map fsSafe ++ '_' :: '_' :: id.map fsSafe := by
  show (room ++ "__".toList ++ id).map fsSafe = _
  rw [List.map_append, List.map_append, List.append_assoc]
  rfl

theorem Alike.symm (h : Alike a b) : Alike b a := Eq.symm h

/-- A piece that the longer room takes from the seam. -/
theorem shifted_of_split {extra : Text} (hroom : room'.map fsSafe = room.map fsSafe ++ extra)
    (hid : '_' :: '_' :: id.map fsSafe = extra ++ '_' :: '_' :: id'.map fsSafe) :
    (Alike room room' ∧ Alike id id') ∨ Shifted room id room' id' := by
  obtain ⟨front, rest, rfl, hfront, hrest⟩ := List.map_eq_append_iff.mp hroom
  match rest, hrest with
  | [], hrest =>
    subst hrest
    simp only [List.append_nil, List.map_nil, List.nil_append, List.cons.injEq, true_and] at hid ⊢
    exact .inl ⟨hfront.symm, hid⟩
  | [c], hrest =>
    subst hrest
    simp only [List.map_cons, List.map_nil, List.cons_append, List.nil_append, List.cons.injEq,
      true_and] at hid
    refine .inr (.inl ⟨?_, ?_⟩)
    · rw [Alike, List.map_append, List.map_append, hfront, List.map_cons, List.map_nil, ← hid.1]
      rfl
    · rw [Alike, hid.2]
      rfl
  | c :: d :: mid, hrest =>
    subst hrest
    simp only [List.map_cons, List.cons_append, List.cons.injEq] at hid
    obtain ⟨hc, hd, hid⟩ := hid
    refine .inr (.inr ⟨mid, ?_, ?_⟩)
    · rw [Alike, List.map_append, List.map_append, List.map_append, hfront, List.append_assoc,
        List.map_cons, List.map_cons, ← hc, ← hd]
      rfl
    · rw [Alike, hid, List.map_append, List.map_append, List.append_assoc]
      rfl

theorem key_eq_of_shifted (h : Shifted room id room' id') :
    pollAliveKey room (some id) = pollAliveKey room' (some id') := by
  rw [pollAliveKey_some, pollAliveKey_some]
  rcases h with ⟨hroom, hid⟩ | ⟨mid, hroom, hid⟩
  · rw [hroom, hid, List.map_append, List.map_append, List.append_assoc]
    rfl
  · rw [hroom, hid, List.map_append, List.map_append, List.map_append, List.map_append,
      List.append_assoc, List.append_assoc, List.append_assoc]
    rfl

/-- **Two connections share a marker exactly if they collide.** -/
theorem pollAliveKey_eq_iff (room id room' id' : Text) :
    pollAliveKey room (some id) = pollAliveKey room' (some id') ↔ Collide room id room' id' := by
  constructor
  · intro h
    rw [pollAliveKey_some, pollAliveKey_some, List.append_eq_append_iff] at h
    rcases h with ⟨extra, hroom, hid⟩ | ⟨extra, hroom, hid⟩
    · rcases shifted_of_split hroom hid with hsame | hshifted
      · exact .inl hsame
      · exact .inr (.inl hshifted)
    · rcases shifted_of_split hroom hid with ⟨halike, halike'⟩ | hshifted
      · exact .inl ⟨halike.symm, halike'.symm⟩
      · exact .inr (.inr hshifted)
  · rintro (⟨hroom, hid⟩ | hshifted | hshifted)
    · rw [pollAliveKey_some, pollAliveKey_some, hroom, hid]
    · exact key_eq_of_shifted hshifted
    · exact (key_eq_of_shifted hshifted).symm

/-- A beat on the one connection is taken for one on the other where they share the key. -/
theorem not_scoped_of_key_eq (h : pollAliveKey room (some id) = pollAliveKey room' (some id')) :
    ¬ Scoped room id room' id' := by
  intro hscoped
  -- a beat, a moment ago, where there was no marker
  have hmarked := hscoped (fun _ => none) [] 1 0 0 0 true
  rw [recentlyPolled, markPoll, if_pos (by decide), touchPollAlive, if_pos rfl, pollAliveMarker,
    pollAliveMarker, h, Function.update_self] at hmarked
  cases hmarked

/-- **A marker speaks for one connection**, exactly if the two do not collide. -/
theorem marker_scoped_iff (room id room' id' : Text) :
    Scoped room id room' id' ↔ ¬ Collide room id room' id' := by
  rw [← pollAliveKey_eq_iff]
  constructor
  · intro hscoped hkey
    exact not_scoped_of_key_eq hkey hscoped
  · intro hkey files cbcDir maxPolls started now window written
    have hother : pollAliveMarker cbcDir room' (some id') ≠ pollAliveMarker cbcDir room (some id) := by
      intro heq
      have htail := List.append_cancel_left heq
      exact hkey (List.cons.inj (List.cons.inj htail).2).1.symm
    unfold recentlyPolled markPoll touchPollAlive
    split_ifs
    · rw [Function.update_of_ne hother]
    · rfl
    · rfl

/-- A label with a slash, and one with an underscore in its place. -/
theorem not_marker_scoped : ¬ ∀ room id room' id' : Text, room ≠ [] → id ≠ [] → room' ≠ [] →
    id' ≠ [] → (room, id) ≠ (room', id') → Scoped room id room' id' := by
  intro h
  have hscoped := h "cbc-demo-20260625-1000".toList "web/worker".toList
    "cbc-demo-20260625-1000".toList "web_worker".toList (by decide) (by decide) (by decide)
    (by decide) (by decide)
  refine not_scoped_of_key_eq ?_ hscoped
  decide

end Hook

end ChatBotChat
