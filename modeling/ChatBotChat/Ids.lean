/-
Room ids and participant handles, as `ids.rs` and `identity.rs` derive them.
-/
import ChatBotChat.Room
import Mathlib.Algebra.Group.Nat.Defs

namespace ChatBotChat

/-! ### Room ids -/

/-- The loop of `kebab`; the flag is `prev_dash`. -/
def kebabLoop : Bool → List Char → List Char
  | _, [] => []
  | prevDash, ch :: chars =>
    if ch.isAlphanum then ch.toLower :: kebabLoop false chars
    else if prevDash then kebabLoop true chars
    else '-' :: kebabLoop true chars

/-- `trim_matches` of a string's characters. -/
def trimMatches (p : Char → Bool) (chars : List Char) : List Char :=
  (chars.dropWhile p).rdropWhile p

/-- The characters `str::trim` removes. -/
def isWhitespace (c : Char) : Bool :=
  (9 ≤ c.toNat && c.toNat ≤ 13) || c.toNat = 32 || c.toNat = 133 || c.toNat = 160 ||
    c.toNat = 5760 || (8192 ≤ c.toNat && c.toNat ≤ 8202) || c.toNat = 8232 || c.toNat = 8233 ||
    c.toNat = 8239 || c.toNat = 8287 || c.toNat = 12288

/-- Lowercase, collapse non-alphanumeric runs to a single `-`, trim dashes. -/
def kebab (input : String) : String :=
  String.ofList (trimMatches (· = '-') (kebabLoop false input.toList))

/-- `YYYYMMDD-HHMM` of an instant. -/
def stamp (now : OffsetDateTime) : String :=
  let d := now.date
  let sod := Rfc3339.secondOfDay now.second
  String.ofList (Rfc3339.padDigits 4 d.year.toNat ++ Rfc3339.padDigits 2 d.month ++
    Rfc3339.padDigits 2 d.day.toNat ++ '-' :: (Rfc3339.padDigits 2 (sod / 3600) ++
      Rfc3339.padDigits 2 (sod / 60 % 60)))

/-- `cbc-<subject-kebab>-<YYYYMMDD-HHMM>`. -/
def roomId (subject : String) (now : OffsetDateTime) : String :=
  let slug := if kebab subject = "" then "room" else kebab subject
  "cbc-" ++ slug ++ "-" ++ stamp now

/-- The line a user pastes into another agent's session. -/
def shareLine (roomId : String) : String := "Join CBC room " ++ roomId

/-! ### Handles -/

/-- The identity a caller presents on join. -/
structure JoinIdentity where
  repo : String
  model : String
  cwd : String
  inst : String
deriving DecidableEq

inductive HandleOutcome where
  | reused (handle : String)
  | created (handle : String)
deriving DecidableEq

/-- The first candidate that is not taken; `last` keeps the loop total on a
finite stream. -/
def firstFree (stem : String) (taken : List String) : Option String → List String → Option String
  | last, [] => last
  | _, sess :: candidates =>
    let candidate := stem ++ "-" ++ sess
    if candidate ∈ taken then firstFree stem taken (some candidate) candidates
    else some candidate

/-- Resolve the handle for a join. -/
def deriveHandle (ident : JoinIdentity) (existing : List Participant)
    (sessCandidates : List String) : HandleOutcome :=
  match existing.find? (·.inst = ident.inst) with
  | some p => .reused p.handle
  | none =>
    let stem := kebab ident.repo ++ "-" ++ kebab ident.model
    let taken := existing.map Participant.handle
    .created ((firstFree stem taken none sessCandidates).getD stem)

/-- `format!("…:04x")` of a random suffix. -/
def sessHex (n : UInt16) : String :=
  let digit := fun k => Nat.digitChar (n.toNat / 16 ^ k % 16)
  String.ofList [digit 3, digit 2, digit 1, digit 0]

example : roomId "  Per-position slider labels?! " 0 =
    "cbc-per-position-slider-labels-19700101-0000" := by decide

end ChatBotChat
