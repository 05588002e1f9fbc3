/-
Records with members that may be missing.

A form says how a part of a record is written and read.  Forms are put together member by
member, in the order of the record; one that stands for the whole record is a codec.  A
reader finds the members of an object under their keys and those of an array by their
places.

* `Form.and` — a part and then another is read back if each of them is;
* `RecordForm.decode_encodeOlder` — a record from which members were left out that have a
  default is read with their defaults.
-/
import ChatBotChat.JsonCodec

namespace JsonCodec

open JsonValue

variable {σ α β : Type}

theorem without_nil (m : Object) : without [] m = m := List.filter_eq_self.mpr fun _ _ => rfl

/-! ### Lists -/

def Codec.list (c : Codec α) : Codec (List α) where
  encode as := .array (as.map c.encode)
  decode
    | .array vs => vs.mapM c.decode
    | _ => none
  decode_encode as := by
    show (as.map c.encode).mapM c.decode = some as
    induction as with
    | nil => rfl
    | cons a as ih =>
      rw [List.map_cons, List.mapM_cons, c.decode_encode, ih]
      rfl
  encode_ne_null _ := nofun

/-! ### Forms -/

/-- How a part `α` of a record `σ` is written and read. -/
structure Form (σ α : Type) where
  get : σ → α
  keys : List Key
  slots : σ → List Slot
  /-- The keys of the members that the part is not read without. -/
  required : List Key
  /-- The part, with the defaults of the members that were left out. -/
  defaulted : List Key → σ → α
  readMembers : Object → Option α
  /-- Read the part from the place in an array where its first member is. -/
  readElements : ℕ → List Value → Option α
  keys_slots : ∀ s, (slots s).map Slot.key = keys
  defaulted_nil : ∀ s, defaulted [] s = get s
  readMembers_without : ∀ {s : σ} {all : List Slot} {omitted : List Key},
    (all.map Slot.key).Nodup → slots s ⊆ all → (∀ key ∈ required, key ∉ omitted) →
      readMembers (without omitted (record all)) = some (defaulted omitted s)

namespace Form

/-- A part without members. -/
def pure (a : α) : Form σ α where
  get _ := a
  keys := []
  slots _ := []
  required := []
  defaulted _ _ := a
  readMembers _ := some a
  readElements _ _ := some a
  keys_slots _ := rfl
  defaulted_nil _ := rfl
  readMembers_without _ _ _ := rfl

/-- A part and then another. -/
def and (f : Form σ (α → β)) (g : Form σ α) : Form σ β where
  get s := f.get s (g.get s)
  keys := f.keys ++ g.keys
  slots s := f.slots s ++ g.slots s
  required := f.required ++ g.required
  defaulted omitted s := f.defaulted omitted s (g.defaulted omitted s)
  readMembers m := do
    let build ← f.readMembers m
    let a ← g.readMembers m
    return build a
  readElements i vs := do
    let build ← f.readElements i vs
    let a ← g.readElements (i + f.keys.length) vs
    return build a
  keys_slots s := by rw [List.map_append, f.keys_slots, g.keys_slots]
  defaulted_nil s := by rw [f.defaulted_nil, g.defaulted_nil]
  readMembers_without hnodup hslots hrequired := by
    obtain ⟨hf, hg⟩ := List.append_subset.mp hslots
    rw [f.readMembers_without hnodup hf fun key hkey => hrequired key (List.mem_append_left _ hkey),
      g.readMembers_without hnodup hg fun key hkey => hrequired key (List.mem_append_right _ hkey)]
    rfl

/-- One member.  A missing one is read as `missing` from an object, and as `missingElement`
from an array. -/
def member (key : Key) (write : α → Option Value) (read : Value → Option α)
    (missing missingElement : Option α) (hread : ∀ a, (write a).elim missing read = some a)
    (get : σ → α) : Form σ α where
  get := get
  keys := [key]
  slots s := [⟨key, write (get s)⟩]
  required := if missing.isNone then [key] else []
  defaulted omitted s := if omitted.contains key then missing.getD (get s) else get s
  readMembers := field key missing read
  readElements i := element i missingElement read
  keys_slots _ := rfl
  defaulted_nil _ := rfl
  readMembers_without {s all omitted} hnodup hslots hrequired := by
    have hmem : (⟨key, write (get s)⟩ : Slot) ∈ all := hslots List.mem_cons_self
    rw [field_without]
    by_cases hkey : key ∈ omitted
    · rw [if_pos hkey, if_pos (List.contains_iff_mem.mpr hkey)]
      cases missing with
      | none => exact absurd hkey (hrequired key List.mem_cons_self)
      | some a => rfl
    · rw [if_neg hkey, if_neg (mt List.contains_iff_mem.mp hkey), ← hread (get s)]
      exact field_record hnodup hmem missing read

/-- A member that is always there. -/
def always (key : Key) (c : Codec α) (get : σ → α) : Form σ α :=
  member key (fun a => some (c.encode a)) c.decode none none c.decode_encode get

theorem defaulted_and (f : Form σ (α → β)) (g : Form σ α) (omitted : List Key) (s : σ) :
    (f.and g).defaulted omitted s = f.defaulted omitted s (g.defaulted omitted s) := rfl

theorem defaulted_always {key : Key} {c : Codec α} {get : σ → α} (omitted : List Key) (s : σ) :
    (always key c get).defaulted omitted s = get s := ite_self _

/-- A member with a default. -/
def orDefault (key : Key) (c : Codec α) (default : α) (get : σ → α) : Form σ α :=
  member key (fun a => some (c.encode a)) c.decode (some default) (some default) c.decode_encode get

/-- A member that is `null` for nothing, and nothing by default. -/
def nullableOrDefault (key : Key) (c : Codec α) (get : σ → Option α) : Form σ (Option α) :=
  member key (fun a => some (c.encodeOption a)) c.decodeOption (some none) (some none)
    c.decodeOption_encodeOption get

/-- A member that is left out for nothing. -/
def skipped (key : Key) (c : Codec α) (get : σ → Option α) : Form σ (Option α) :=
  member key (Option.map c.encode) c.decodeOption (some none) (some none)
    (fun a => by
      cases a with
      | none => rfl
      | some a => exact c.decodeOption_encode a) get

end Form

/-! ### Records -/

/-- A form of the whole record. -/
structure RecordForm (σ : Type) where
  form : Form σ σ
  nodup : form.keys.Nodup
  whole : ∀ s, form.get s = s

namespace RecordForm

variable (r : RecordForm σ) {omitted : List Key}

def encode (s : σ) : Value := .object (record (r.form.slots s))

/-- A record as one writes it who leaves members out. -/
def encodeOlder (omitted : List Key) (s : σ) : Value :=
  .object (without omitted (record (r.form.slots s)))

def decode : Value → Option σ
  | .object m => r.form.readMembers m
  | .array vs => if vs.length ≤ r.form.keys.length then r.form.readElements 0 vs else none
  | _ => none

theorem readMembers_without (s : σ) (h : ∀ key ∈ r.form.required, key ∉ omitted) :
    r.form.readMembers (without omitted (record (r.form.slots s))) =
      some (r.form.defaulted omitted s) := by
  refine r.form.readMembers_without ?_ (List.Subset.refl _) h
  rw [r.form.keys_slots]
  exact r.nodup

/-- **A record is read with the defaults of what was left out.** -/
theorem decode_encodeOlder (s : σ) (h : ∀ key ∈ r.form.required, key ∉ omitted) :
    r.decode (r.encodeOlder omitted s) = some (r.form.defaulted omitted s) :=
  r.readMembers_without s h

theorem encodeOlder_nil (s : σ) : r.encodeOlder [] s = r.encode s := by
  rw [encodeOlder, without_nil, encode]

theorem defaulted_nil (s : σ) : r.form.defaulted [] s = s := by
  rw [r.form.defaulted_nil, r.whole]

def codec : Codec σ where
  encode := r.encode
  decode := r.decode
  decode_encode s := by
    have hnone : ∀ key ∈ r.form.required, key ∉ ([] : List Key) := fun _ _ => List.not_mem_nil
    have hback := r.decode_encodeOlder s hnone
    rwa [encodeOlder_nil, defaulted_nil] at hback
  encode_ne_null _ := nofun

end RecordForm

/-! ### Numbers and flags in a text -/

/-- The number that a text of digits stands for, with or without a plus. -/
def unsigned? : List Char → Option ℕ
  | '+' :: digits => if digits ≠ [] ∧ digits.all Char.isDigit then
      some (Nat.ofDigitChars 10 digits 0) else none
  | digits => if digits ≠ [] ∧ digits.all Char.isDigit then
      some (Nat.ofDigitChars 10 digits 0) else none

theorem unsigned?_toDigits (n : ℕ) : unsigned? (Nat.toDigits 10 n) = some n := by
  have hdigits : ∀ c ∈ Nat.toDigits 10 n, c.isDigit = true :=
    fun c hc => Nat.isDigit_of_mem_toDigits (by decide) (by decide) hc
  have hne : Nat.toDigits 10 n ≠ [] := Nat.toDigits_ne_nil
  unfold unsigned?
  split
  · rename_i digits heq
    cases hdigits '+' (heq ▸ List.mem_cons_self)
  · rw [if_pos ⟨hne, List.all_eq_true.mpr hdigits⟩, Nat.ofDigitChars_toDigits (by decide) (by decide)]

def uint32Text : Codec UInt32 where
  encode n := .string (Nat.toDigits 10 n.toNat)
  decode
    | .string digits => (unsigned? digits).bind fun n =>
      if n < UInt32.size then some (UInt32.ofNat n) else none
    | _ => none
  decode_encode n := by
    show (unsigned? (Nat.toDigits 10 n.toNat)).bind _ = _
    rw [unsigned?_toDigits, Option.bind_some, if_pos n.toNat_lt_size, UInt32.ofNat_toNat]
  encode_ne_null _ := nofun

def flagText : Codec Bool where
  encode b := .string (if b then "true".toList else "false".toList)
  decode
    | .string s => if s = "true".toList then some true else
      if s = "false".toList then some false else none
    | _ => none
  decode_encode b := by cases b <;> rfl
  encode_ne_null _ := nofun

end JsonCodec
