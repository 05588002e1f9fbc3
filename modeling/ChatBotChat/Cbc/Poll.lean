/-
The poll loop of `cbc poll` (`main.rs`): its knobs, its counters, and the
decision it takes on each answer of the daemon.

* `pollDecision_wait` — with the default backoffs, and whatever the daemon hints,
  a poll that goes on sleeps between a second and a minute.
-/
import ChatBotChat.Daemon

namespace ChatBotChat

namespace Poll

/-- The largest window for a counterpart to join: an hour. -/
def SAFE_JOIN_WAIT_CAP_SECS : UInt64 := 3600
/-- After this much quiet the poll slows down. -/
def QUIET_ESCALATE_AFTER_SECS : UInt64 := 1800
/-- The cadence it slows down to. -/
def QUIET_BACKOFF_CAP_SECS : UInt64 := 60
/-- Floor between two waits. -/
def MIN_REPOLL_SLEEP_SECS : UInt64 := 1
/-- Floor of the join and stale backoffs. -/
def MIN_BACKOFF_SECS : UInt64 := 1
def MAX_CONSECUTIVE_ERRORS : UInt32 := 5

/-- `0` and any over-large value stand for the largest window. -/
def effectiveMaxJoinWait (secs : UInt64) : UInt64 :=
  if secs = 0 ∨ SAFE_JOIN_WAIT_CAP_SECS < secs then SAFE_JOIN_WAIT_CAP_SECS else secs

/-- The cadence of a quiet hold. -/
def quietBackoff (base elapsedQuietSecs : UInt64) : UInt64 :=
  let secs := if elapsedQuietSecs < QUIET_ESCALATE_AFTER_SECS then base
    else max base QUIET_BACKOFF_CAP_SECS
  max secs MIN_BACKOFF_SECS

/-- The knobs and the counters of the loop. -/
structure PollState where
  maxPolls : UInt32
  joinBackoffSecs : UInt64
  maxJoinWaitSecs : UInt64
  staleBackoffSecs : UInt64
  maxStaleWaitSecs : UInt64
  emptyPolls : UInt32
  joinWaitSecs : UInt64
  staleWaitSecs : UInt64
  staleAnnounced : Bool
deriving DecidableEq

def PollState.new (maxPolls : UInt32)
    (joinBackoffSecs maxJoinWaitSecs staleBackoffSecs maxStaleWaitSecs : UInt64) : PollState :=
  ⟨maxPolls, max joinBackoffSecs MIN_BACKOFF_SECS, maxJoinWaitSecs,
    max staleBackoffSecs MIN_BACKOFF_SECS, maxStaleWaitSecs, 0, 0, 0, false⟩

/-- The counterpart is no longer dark. -/
def PollState.clearStale (st : PollState) : PollState :=
  { st with staleWaitSecs := 0, staleAnnounced := false }

/-- What to do with one answer. -/
inductive PollAction where
  | deliver
  | exitStatus
  | giveUpEmpty
  | giveUpJoin
  | giveUpStale
  | wait (secs : UInt64) (announceStale : Bool)
deriving DecidableEq

/-- Decide the next step, and count. -/
def pollDecision (resp : WaitResponse) (st : PollState) : PollAction × PollState :=
  match resp with
  | .message .. => (.deliver, st.clearStale)
  | .timeout status retryAfter =>
    match WaitStatus.fromWire status with
    | .pausedByTimeout =>
      -- a whole window without a message, but the counterpart was there
      let st := st.clearStale
      let st := { st with emptyPolls := st.emptyPolls + 1 }
      if st.maxPolls ≠ 0 ∧ st.maxPolls ≤ st.emptyPolls then (.giveUpEmpty, st)
      else (.wait (max ((retryAfter.map UInt32.toUInt64).getD 0) MIN_REPOLL_SLEEP_SECS) false, st)
    | .awaitingCounterpart =>
      -- the window is looked at before a sleep, so the last sleep may pass it
      if st.maxJoinWaitSecs ≠ 0 ∧ st.maxJoinWaitSecs ≤ st.joinWaitSecs then (.giveUpJoin, st)
      else
        let secs := quietBackoff st.joinBackoffSecs st.joinWaitSecs
        (.wait secs false, { st with joinWaitSecs := st.joinWaitSecs + secs })
    | .counterpartStale =>
      if st.maxStaleWaitSecs ≠ 0 ∧ st.maxStaleWaitSecs ≤ st.staleWaitSecs then (.giveUpStale, st)
      else
        let secs := quietBackoff st.staleBackoffSecs st.staleWaitSecs
        -- the first silence of a spell is announced
        (.wait secs (!st.staleAnnounced),
          { st with staleAnnounced := true, staleWaitSecs := st.staleWaitSecs + secs })
    | .closeProposed | .extendProposed | .paused | .closed | .archived | .unknown _ =>
      (.exitStatus, st)

/-! ### The loop -/

/-- The arguments of `cbc poll`, and the identity it detected. -/
structure PollArgs where
  roomId : String
  caller : Caller
  pollCapSecs : UInt32
  maxPolls : UInt32
  errorBackoffSecs : UInt64
  joinBackoffSecs : UInt64
  maxJoinWaitSecs : UInt64
  staleBackoffSecs : UInt64
  maxStaleWaitSecs : UInt64

/-- `clamp(1, 590)`. -/
def PollArgs.clampedCapSecs (args : PollArgs) : UInt32 := max 1 (min args.pollCapSecs 590)

theorem clampedCapSecs_le (args : PollArgs) : args.clampedCapSecs.toNat ≤ 590 := by
  show (if 1 ≤ (if args.pollCapSecs ≤ 590 then args.pollCapSecs else 590) then
    (if args.pollCapSecs ≤ 590 then args.pollCapSecs else 590) else 1 : UInt32).toNat ≤ 590
  split_ifs with hcap
  · exact UInt32.le_iff_toNat_le.mp hcap
  all_goals decide

/-- The wait each round makes. -/
def PollArgs.waitRequest (args : PollArgs) : WaitRequest :=
  ⟨args.caller, some args.clampedCapSecs⟩

/-- The variables of the loop. -/
structure Loop where
  st : PollState
  consecutiveErrors : UInt32
deriving DecidableEq

def PollArgs.loop (args : PollArgs) : Loop :=
  ⟨.new args.maxPolls args.joinBackoffSecs (effectiveMaxJoinWait args.maxJoinWaitSecs)
    args.staleBackoffSecs args.maxStaleWaitSecs, 0⟩

/-- Where a poll is: waiting for the answer to request `i`, sleeping, or over. -/
inductive Client where
  | asking (i : ℕ) (loop : Loop)
  | sleeping (until_ : ℕ) (loop : Loop)
  | ended
deriving DecidableEq

/-- What the loop does with an answer that arrives at `instant`. -/
def PollArgs.next (args : PollArgs) (loop : Loop) (instant : ℕ) : Outcome → Client
  | .ok (.waited resp) =>
    match pollDecision resp loop.st with
    | (.wait secs _, st) => .sleeping (instant + secs.toNat * 1000000000) ⟨st, 0⟩
    | _ => .ended
  | _ =>
    let consecutiveErrors := loop.consecutiveErrors + 1
    if MAX_CONSECUTIVE_ERRORS ≤ consecutiveErrors then .ended
    else .sleeping (instant + args.errorBackoffSecs.toNat * 1000000000) ⟨loop.st, consecutiveErrors⟩

/-! ### How long it sleeps -/

/-- The backoffs of the loop are a minute at most. -/
def PollState.Brisk (st : PollState) : Prop :=
  st.joinBackoffSecs.toNat ≤ 60 ∧ st.staleBackoffSecs.toNat ≤ 60

theorem toNat_max (a b : UInt64) : (max a b).toNat = max a.toNat b.toNat := by
  show (if a ≤ b then b else a).toNat = _
  split
  · rename_i hle
    rw [UInt64.le_iff_toNat_le] at hle
    omega
  · rename_i hle
    rw [UInt64.le_iff_toNat_le] at hle
    omega

/-- A quiet hold never spins. -/
theorem one_le_quietBackoff (base elapsed : UInt64) : 1 ≤ (quietBackoff base elapsed).toNat := by
  rw [quietBackoff, toNat_max]
  exact le_max_right _ _

theorem quietBackoff_le {base : UInt64} (h : base.toNat ≤ 60) (elapsed : UInt64) :
    (quietBackoff base elapsed).toNat ≤ 60 := by
  have hcap : QUIET_BACKOFF_CAP_SECS.toNat = 60 := rfl
  have hmin : MIN_BACKOFF_SECS.toNat = 1 := rfl
  rw [quietBackoff, toNat_max, hmin]
  split
  · omega
  · rw [toNat_max, hcap]
    omega

/-- What a poll that goes on has counted, and how long it sleeps. -/
inductive Waited (st : PollState) : WaitResponse → UInt64 → PollState → Prop
  | empty {status : String} {hint : Option UInt32} :
      ¬ (st.maxPolls ≠ 0 ∧ st.maxPolls ≤ st.emptyPolls + 1) →
      Waited st (.timeout status hint) (max ((hint.map UInt32.toUInt64).getD 0) MIN_REPOLL_SLEEP_SECS)
        { st.clearStale with emptyPolls := st.emptyPolls + 1 }
  | joining {status : String} {hint : Option UInt32} :
      ¬ (st.maxJoinWaitSecs ≠ 0 ∧ st.maxJoinWaitSecs ≤ st.joinWaitSecs) →
      Waited st (.timeout status hint) (quietBackoff st.joinBackoffSecs st.joinWaitSecs)
        { st with joinWaitSecs := st.joinWaitSecs + quietBackoff st.joinBackoffSecs st.joinWaitSecs }
  | stale {status : String} {hint : Option UInt32} :
      ¬ (st.maxStaleWaitSecs ≠ 0 ∧ st.maxStaleWaitSecs ≤ st.staleWaitSecs) →
      Waited st (.timeout status hint) (quietBackoff st.staleBackoffSecs st.staleWaitSecs)
        { st with staleAnnounced := true, staleWaitSecs :=
            st.staleWaitSecs + quietBackoff st.staleBackoffSecs st.staleWaitSecs }

/-- **A poll goes on in three ways.** -/
theorem waited_of_pollDecision {resp : WaitResponse} {st st' : PollState} {secs : UInt64}
    {announce : Bool} (h : pollDecision resp st = (.wait secs announce, st')) :
    Waited st resp secs st' := by
  cases resp with
  | message => cases h
  | timeout status retryAfter =>
    rw [pollDecision] at h
    split at h
    · dsimp only at h
      split at h
      · cases h
      · rename_i hmore
        cases h
        exact .empty hmore
    · split at h
      · cases h
      · rename_i hmore
        cases h
        exact .joining hmore
    · split at h
      · cases h
      · rename_i hmore
        cases h
        exact .stale hmore
    all_goals cases h

/-- Whatever the knobs, a poll that goes on sleeps at least a second. -/
theorem Waited.one_le {resp : WaitResponse} {st st' : PollState} {secs : UInt64}
    (h : Waited st resp secs st') : 1 ≤ secs.toNat := by
  cases h with
  | empty =>
    rw [toNat_max]
    exact le_max_right _ _
  | joining => exact one_le_quietBackoff _ _
  | stale => exact one_le_quietBackoff _ _

/-- The hint of an answer, if it has one, is a minute at most. -/
def Hinted : WaitResponse → Prop
  | .message .. => True
  | .timeout _ retryAfter => ∀ secs, retryAfter = some secs → secs.toNat ≤ 60

/-- **A poll that goes on sleeps between a second and a minute.** -/
theorem pollDecision_wait {resp : WaitResponse} {st st' : PollState} {secs : UInt64} {announce : Bool}
    (hbrisk : st.Brisk) (hhinted : Hinted resp)
    (h : pollDecision resp st = (.wait secs announce, st')) :
    1 ≤ secs.toNat ∧ secs.toNat ≤ 60 ∧ st'.Brisk := by
  have hwaited := waited_of_pollDecision h
  refine ⟨hwaited.one_le, ?_⟩
  cases hwaited with
  | @empty status hint _ =>
    -- the hint of the daemon, or a second
    have hmin : MIN_REPOLL_SLEEP_SECS.toNat = 1 := rfl
    rw [toNat_max, hmin]
    refine ⟨max_le ?_ (by decide), hbrisk⟩
    cases hint with
    | none => exact Nat.zero_le _
    | some secs => exact hhinted secs rfl
  | joining => exact ⟨quietBackoff_le hbrisk.1 _, hbrisk⟩
  | stale => exact ⟨quietBackoff_le hbrisk.2 _, hbrisk⟩

end Poll

end ChatBotChat
