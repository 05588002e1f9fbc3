/-
JSON forms that are read back.

A record is written member by member, and a member without a value is left out.  A reader
gives nothing for what it refuses.  The reader of a member says what it takes a missing one
for, refuses one that is there twice, and does not look at the others.

* `integer?_decimal` — the literal of an integer stands for it;
* `field_record` — under its key a member is read as it was written, or as missing;
* `field_without` — a reader does not see that other members are left out.
-/
import ChatBotChat.JsonValue
import Mathlib.Algebra.Order.Group.Int
import Mathlib.Data.List.Nodup

namespace JsonCodec

open JsonValue

variable {α : Type} {key : Key} {keys : List Key} {m : Object}

/-! ### Integers -/

/-- The literal of an integer. -/
def decimal (n : ℤ) : List Char :=
  if n < 0 then '-' :: Nat.toDigits 10 n.natAbs else Nat.toDigits 10 n.natAbs

/-- The number whose digits these are, without a zero in front. -/
def natural? (literal : List Char) : Option ℕ :=
  let n := Nat.ofDigitChars 10 literal 0
  if Nat.toDigits 10 n = literal then some n else none

/-- The integer a literal stands for; a fraction, an exponent and `-0` are none. -/
def integer? : List Char → Option ℤ
  | '-' :: digits => (natural? digits).bind fun n => if n = 0 then none else some (-n)
  | digits => (natural? digits).map Nat.cast

theorem natural?_toDigits (n : ℕ) : natural? (Nat.toDigits 10 n) = some n := by
  simp [natural?]

theorem integer?_of_head_ne {literal : List Char} (h : literal.head? ≠ some '-') :
    integer? literal = (natural? literal).map Nat.cast := by
  unfold integer?
  split
  · exact absurd rfl h
  · rfl

theorem head?_toDigits_ne (n : ℕ) : (Nat.toDigits 10 n).head? ≠ some '-' := by
  intro hhead
  cases Nat.isDigit_of_mem_toDigits (by decide) (by decide) (List.mem_of_head? hhead)

/-- **An integer is read back from its literal.** -/
theorem integer?_decimal (n : ℤ) : integer? (decimal n) = some n := by
  by_cases hneg : n < 0
  · have hzero : n.natAbs ≠ 0 := by omega
    have hvalue : -(n.natAbs : ℤ) = n := by omega
    rw [decimal, if_pos hneg, integer?, natural?_toDigits, Option.bind_some, if_neg hzero, hvalue]
  · have hvalue : (n.natAbs : ℤ) = n := by omega
    rw [decimal, if_neg hneg, integer?_of_head_ne (head?_toDigits_ne _), natural?_toDigits,
      Option.map_some, hvalue]

/-! ### Codecs -/

/-- A type with a JSON form. -/
structure Codec (α : Type) where
  encode : α → Value
  decode : Value → Option α
  decode_encode : ∀ a, decode (encode a) = some a
  encode_ne_null : ∀ a, encode a ≠ .null

def text : Codec String where
  encode s := .string s.toList
  decode
    | .string s => some (String.ofList s)
    | _ => none
  decode_encode _ := congrArg some String.ofList_toList
  encode_ne_null _ := nofun

def flag : Codec Bool where
  encode := .bool
  decode
    | .bool b => some b
    | _ => none
  decode_encode _ := rfl
  encode_ne_null _ := nofun

def int64 : Codec Int64 where
  encode n := .number (decimal n.toInt)
  decode
    | .number literal => (integer? literal).bind fun n =>
      if -2 ^ 63 ≤ n ∧ n < 2 ^ 63 then some (Int64.ofInt n) else none
    | _ => none
  decode_encode n := by
    show (integer? (decimal n.toInt)).bind _ = _
    rw [integer?_decimal, Option.bind_some, if_pos ⟨n.le_toInt, n.toInt_lt⟩, Int64.ofInt_toInt]
  encode_ne_null _ := nofun

def uint32 : Codec UInt32 where
  encode n := .number (decimal n.toNat)
  decode
    | .number literal => (integer? literal).bind fun n =>
      if 0 ≤ n ∧ n < 2 ^ 32 then some (UInt32.ofNat n.toNat) else none
    | _ => none
  decode_encode n := by
    show (integer? (decimal n.toNat)).bind _ = _
    have hlt : (n.toNat : ℤ) < 2 ^ 32 := by exact_mod_cast n.toNat_lt
    rw [integer?_decimal, Option.bind_some, if_pos ⟨Int.natCast_nonneg _, hlt⟩, Int.toNat_natCast,
      UInt32.ofNat_toNat]
  encode_ne_null _ := nofun

namespace Codec

variable (c : Codec α)

/-- `null` for nothing. -/
def encodeOption : Option α → Value
  | none => .null
  | some a => c.encode a

def decodeOption : Value → Option (Option α)
  | .null => some none
  | v => (c.decode v).map some

theorem decodeOption_encodeOption (a : Option α) : c.decodeOption (c.encodeOption a) = some a := by
  cases a with
  | none => rfl
  | some a =>
    rw [encodeOption, decodeOption, c.decode_encode]
    · rfl
    · exact c.encode_ne_null a

theorem decodeOption_encode (a : α) : c.decodeOption (c.encode a) = some (some a) :=
  c.decodeOption_encodeOption (some a)

end Codec

/-! ### Members -/

/-- The values under a key. -/
def valuesOf (key : Key) (m : Object) : List Value := (m.filter (·.1 = key)).map Prod.snd

/-- Read the member under a key. -/
def field (key : Key) (missing : Option α) (read : Value → Option α) (m : Object) : Option α :=
  match valuesOf key m with
  | [] => missing
  | [v] => read v
  | _ :: _ :: _ => none

/-- A member that is written if it has a value. -/
structure Slot where
  key : Key
  value : Option Value

def record (slots : List Slot) : Object := slots.filterMap fun s => s.value.map (s.key, ·)

/-- The members with other keys. -/
def without (keys : List Key) (m : Object) : Object := m.filter fun p => keys.all (· ≠ p.1)

theorem record_cons (s : Slot) (slots : List Slot) :
    record (s :: slots) = (s.value.map (s.key, ·)).toList ++ record slots := by
  rw [record, List.filterMap_cons]
  cases s.value with
  | none => rfl
  | some v => rfl

theorem mem_keys_record {slots : List Slot} : key ∈ (record slots).map Prod.fst ↔
    ∃ s ∈ slots, s.key = key ∧ s.value.isSome = true := by
  simp only [record, List.mem_map, List.mem_filterMap, Option.map_eq_some_iff,
    Option.isSome_iff_exists]
  constructor
  · rintro ⟨-, ⟨s, hs, v, hv, rfl⟩, rfl⟩
    exact ⟨s, hs, rfl, v, hv⟩
  · rintro ⟨s, hs, rfl, v, hv⟩
    exact ⟨_, ⟨s, hs, v, hv, rfl⟩, rfl⟩

theorem valuesOf_eq_nil (h : key ∉ m.map Prod.fst) : valuesOf key m = [] := by
  rw [valuesOf, List.map_eq_nil_iff, List.filter_eq_nil_iff]
  intro p hp hkey
  exact h (List.mem_map.mpr ⟨p, hp, of_decide_eq_true hkey⟩)

theorem valuesOf_append (key : Key) (m m' : Object) :
    valuesOf key (m ++ m') = valuesOf key m ++ valuesOf key m' := by
  rw [valuesOf, List.filter_append, List.map_append, valuesOf, valuesOf]

theorem valuesOf_slot (s : Slot) : valuesOf s.key (s.value.map (s.key, ·)).toList = s.value.toList := by
  cases hv : s.value <;> simp [valuesOf]

/-- Keys that differ keep their members apart. -/
theorem valuesOf_record {slots : List Slot} (hnodup : (slots.map Slot.key).Nodup) {s : Slot}
    (hs : s ∈ slots) : valuesOf s.key (record slots) = s.value.toList := by
  induction slots with
  | nil => cases hs
  | cons t slots ih =>
    obtain ⟨hfresh, hnodup'⟩ := List.nodup_cons.mp hnodup
    rw [record_cons, valuesOf_append]
    rcases List.mem_cons.mp hs with rfl | hs'
    · have hrest : s.key ∉ (record slots).map Prod.fst := by
        intro hmem
        obtain ⟨u, hu, hkey, -⟩ := mem_keys_record.mp hmem
        exact hfresh (List.mem_map.mpr ⟨u, hu, hkey⟩)
      rw [valuesOf_slot, valuesOf_eq_nil hrest, List.append_nil]
    · have hne : s.key ∉ ((t.value.map (t.key, ·)).toList).map Prod.fst := by
        intro hmem
        obtain ⟨p, hp, hkey⟩ := List.mem_map.mp hmem
        obtain ⟨v, -, rfl⟩ := Option.map_eq_some_iff.mp (Option.mem_toList.mp hp)
        exact hfresh (List.mem_map.mpr ⟨s, hs', hkey.symm⟩)
      rw [valuesOf_eq_nil hne, ih hnodup' hs', List.nil_append]

/-- **A member is read as it was written**, or as missing. -/
theorem field_record {slots : List Slot} (hnodup : (slots.map Slot.key).Nodup) {s : Slot}
    (hs : s ∈ slots) (missing : Option α) (read : Value → Option α) :
    field s.key missing read (record slots) = s.value.elim missing read := by
  rw [field, valuesOf_record hnodup hs]
  cases s.value <;> rfl

theorem field_of_notMem (h : key ∉ m.map Prod.fst) (missing : Option α)
    (read : Value → Option α) : field key missing read m = missing := by
  rw [field, valuesOf_eq_nil h]

/-- **What other members there are does not matter.** -/
theorem field_without (missing : Option α) (read : Value → Option α) (m : Object) :
    field key missing read (without keys m) =
      if key ∈ keys then missing else field key missing read m := by
  by_cases hkey : key ∈ keys
  · rw [if_pos hkey]
    refine field_of_notMem (fun hmem => ?_) missing read
    obtain ⟨p, hp, rfl⟩ := List.mem_map.mp hmem
    have hall := List.all_eq_true.mp (List.mem_filter.mp hp).2 p.1 hkey
    exact of_decide_eq_true hall rfl
  · have hvalues : valuesOf key (without keys m) = valuesOf key m := by
      rw [valuesOf, without, List.filter_filter, valuesOf]
      congr 1
      refine List.filter_congr fun p _ => ?_
      by_cases hp : p.1 = key
      · subst hp
        have hall : keys.all (· ≠ p.1) = true := by
          refine List.all_eq_true.mpr fun k hk => decide_eq_true ?_
          rintro rfl
          exact hkey hk
        rw [hall, Bool.and_true]
      · simp [hp]
    rw [if_neg hkey, field, hvalues, field]

/-! ### Elements -/

/-- Read the element of an array at a place. -/
def element (i : ℕ) (missing : Option α) (read : Value → Option α) (xs : List Value) : Option α :=
  xs[i]?.elim missing read

end JsonCodec
