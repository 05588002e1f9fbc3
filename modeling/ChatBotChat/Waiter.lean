/-
Long-poll waiting (`waiter.rs`) and the optimistic claim it rests on
(`claim_next_unread` of `storage.rs`).
-/
import ChatBotChat.Interleave.Prog
import ChatBotChat.Calls
import ChatBotChat.Protocol

namespace ChatBotChat

open Interleave

/-- A piece of a handler: a program over the daemon's calls. -/
abbrev Task (α : Type) : Type 1 := Prog Call Call.Reply α

/-- Make one call of the daemon. -/
abbrev perform (c : Call) : Task c.Reply := Prog.perform c

/-- Outcome of a long-poll. -/
inductive WaitOutcome where
  | message (m : Message)
  | pausedByTimeout
deriving DecidableEq

/-- Claim the next message addressed to `handle`: read the cursor, look for the
next unread message, and advance the cursor from the value read.  A claim that
lost the race for the cursor starts over. -/
def claimNextUnread (roomId handle : String) : Task (Option Message) :=
  Prog.iterate (fun _ : Unit => do
    let some cursor ← perform (.readCursor handle) | return .inr none
    let some m ← perform (.nextUnread roomId handle cursor) | return .inr none
    let claimed ← perform (.advanceCursor m.seq handle cursor)
    if claimed then return .inr (some m) else return .inl ()) ()

/-- Long-poll for the next message.  On a wake that delivered no message
`shouldYield` may end the park early. -/
def waitForMessageUntil (roomId handle : String) (timeout : ℕ) (shouldYield : Task Bool) :
    Task WaitOutcome := do
  let now ← perform .nowUtc
  perform (.touchLastPoll handle now)
  let rx ← perform (.subscribe roomId)
  let start ← perform .instantNow
  let deadline := start + timeout
  Prog.iterate (fun _ : Unit => do
    if let some m ← claimNextUnread roomId handle then return .inr (.message m)
    let instant ← perform .instantNow
    -- `saturating_duration_since`: no time left
    if deadline ≤ instant then return .inr .pausedByTimeout
    if ← shouldYield then return .inr .pausedByTimeout
    match ← perform (.recv rx deadline) with
    | .ping => return .inl ()
    | .lagged => return .inl ()
    | .closed =>
      if let some m ← claimNextUnread roomId handle then return .inr (.message m)
      return .inr .pausedByTimeout
    | .elapsed => return .inr .pausedByTimeout) ()

/-- The long-poll without an early end. -/
def waitForMessage (roomId handle : String) (timeout : ℕ) : Task WaitOutcome :=
  waitForMessageUntil roomId handle timeout (pure false)

/-- An `i64` cast to `i32`. -/
def castI32 (n : ℤ) : ℤ := n.bmod 4294967296

/-- `base · 1.5^n`, rounded half up. -/
def scaleBackoff (base : ℕ) (n : ℤ) : ℕ :=
  if 0 ≤ n then (2 * (base * 3 ^ n.toNat) + 2 ^ n.toNat) / (2 * 2 ^ n.toNat)
  else (2 * (base * 2 ^ (-n).toNat) + 3 ^ (-n).toNat) / (2 * 3 ^ (-n).toNat)

/-- Seconds a wait should park behind an active `waiting_user` sentinel. -/
def backoffSecs (severity : Severity) (elapsedSecs : ℤ) : UInt32 :=
  let base := match severity with
    | .low => 10
    | .med => 20
    | .high => 45
  let n := max (elapsedSecs - 300) 0 / 60
  UInt32.ofNat (min (min (scaleBackoff base (castI32 n)) 4294967295) 60)

end ChatBotChat
