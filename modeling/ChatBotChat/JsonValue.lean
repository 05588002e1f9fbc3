/-
JSON documents that are changed in place.

An object keeps its members in the order they were inserted, and two values are the same
when they agree up to that order.  A change is written as in a language with mutable
references: it goes down through objects and an array, creates what is missing on its way,
and gives the document as it is afterwards together with its result, an error included.
-/
import Mathlib.Data.List.Basic
import Mathlib.Logic.Basic

namespace JsonValue

abbrev Key : Type := List Char

inductive Value where
  | null
  | bool (b : Bool)
  /-- A number, as it is written. -/
  | number (literal : List Char)
  | string (text : List Char)
  | array (elements : List Value)
  | object (members : List (Key × Value))

abbrev Object : Type := List (Key × Value)

variable {ε R : Type*} {m m' : Object} {key k : Key} {v : Value} {default : Value}

/-- The value under a key. -/
def lookup (key : Key) : Object → Option Value
  | [] => none
  | (k, v) :: m => if k = key then some v else lookup key m

/-- The value under a key, of any value. -/
def Value.get (key : Key) : Value → Option Value
  | .object m => lookup key m
  | _ => none

def Value.asStr : Value → Option (List Char)
  | .string text => some text
  | _ => none

def Value.asArray : Value → Option (List Value)
  | .array elements => some elements
  | _ => none

/-- Equal up to the order of the members. -/
inductive Same : Value → Value → Prop
  | refl (v : Value) : Same v v
  | array {xs ys : List Value} (hlength : xs.length = ys.length)
      (h : ∀ (i : ℕ) (x y : Value), xs[i]? = some x → ys[i]? = some y → Same x y) : Same (.array xs) (.array ys)
  | object {m m' : Object} (hkeys : ∀ k, (lookup k m).isSome = (lookup k m').isSome)
      (h : ∀ k v v', lookup k m = some v → lookup k m' = some v' → Same v v') :
      Same (.object m) (.object m')

/-! ### Changes -/

/-- A change of the value under a key, where `default` is inserted if there is none. -/
def atEntry (key : Key) (default : Value) (change : Value → Value × R) : Object → Object × R
  | [] => ([(key, (change default).1)], (change default).2)
  | (k, v) :: m =>
    if k = key then ((k, (change v).1) :: m, (change v).2)
    else ((k, v) :: (atEntry key default change m).1, (atEntry key default change m).2)

/-- A change of an object; another value is refused. -/
def inObject (error : ε) (change : Object → Object × Except ε R) : Value → Value × Except ε R
  | .object m => (.object (change m).1, (change m).2)
  | v => (v, .error error)

/-- A change of an array; another value is refused. -/
def inArray (error : ε) (change : List Value → List Value × Except ε R) :
    Value → Value × Except ε R
  | .array xs => (.array (change xs).1, (change xs).2)
  | v => (v, .error error)

section

variable {change : Value → Value × R}

theorem atEntry_snd : (atEntry key default change m).2 = (change ((lookup key m).getD default)).2 := by
  induction m with
  | nil => rfl
  | cons p m ih =>
    obtain ⟨k, v⟩ := p
    by_cases hk : k = key
    · rw [atEntry, if_pos hk, lookup, if_pos hk]
      rfl
    · rw [atEntry, if_neg hk, lookup, if_neg hk, ← ih]

theorem lookup_atEntry_self : lookup key (atEntry key default change m).1 =
    some (change ((lookup key m).getD default)).1 := by
  induction m with
  | nil => exact if_pos rfl
  | cons p m ih =>
    obtain ⟨k, v⟩ := p
    by_cases hk : k = key
    · rw [atEntry, if_pos hk, lookup, if_pos hk, lookup, if_pos hk]
      rfl
    · rw [atEntry, if_neg hk, lookup, if_neg hk, lookup, if_neg hk, ih]

theorem lookup_atEntry_of_ne (h : k ≠ key) :
    lookup k (atEntry key default change m).1 = lookup k m := by
  induction m with
  | nil => exact if_neg h.symm
  | cons p m ih =>
    obtain ⟨k', v⟩ := p
    by_cases hk : k' = key
    · subst hk
      rw [atEntry, if_pos rfl, lookup, if_neg h.symm, lookup, if_neg h.symm]
    · rw [atEntry, if_neg hk, lookup, lookup, ih]

/-- A value that is there and stays the same leaves the object as it was. -/
theorem atEntry_eq_self (hv : lookup key m = some v) (h : (change v).1 = v) :
    (atEntry key default change m).1 = m := by
  induction m with
  | nil => cases hv
  | cons p m ih =>
    obtain ⟨k, w⟩ := p
    by_cases hk : k = key
    · rw [lookup, if_pos hk, Option.some_inj] at hv
      rw [atEntry, if_pos hk, hv, h]
    · rw [lookup, if_neg hk] at hv
      rw [atEntry, if_neg hk, ih hv]

theorem atEntry_of_unchanged {r : R} (hv : lookup key m = some v) (h : change v = (v, r)) :
    atEntry key default change m = (m, r) := by
  refine Prod.ext (atEntry_eq_self hv (by rw [h])) ?_
  rw [atEntry_snd, hv, Option.getD_some, h]

end

/-- Objects that agree at every key are the same. -/
theorem same_of_lookup (h : ∀ k, lookup k m = lookup k m') : Same (.object m) (.object m') := by
  refine .object (fun k => by rw [h k]) fun k v v' hv hv' => ?_
  rw [h k, hv', Option.some_inj] at hv
  rw [hv]
  exact .refl v

end JsonValue
