/-
A bounded poll ends.

Each round of `cbc poll` lowers a rank made of all its counters: the empty polls
that are left, what is left of the join window and of the stale window, and the
errors in a row.  The stale counter alone is begun anew by other answers, and it
alone can run over the end of its 64 bits; where it does, the window may never be
reached.

* `bounded_poll_terminates_iff` — a bounded poll ends on every stream of answers
  exactly if the stale counter reaches its window.
-/
import ChatBotChat.Cbc.Poll
import ChatBotChat.Ranking

namespace ChatBotChat

namespace Poll

variable {args : PollArgs} {loop loop' : Loop} {resp : WaitResponse} {st st' : PollState}
  {secs : UInt64} {k n : ℕ}

/-- One round of the loop: an answer and the instant it arrives at. -/
def PollArgs.round (args : PollArgs) (loop : Loop) (result : ℕ × Outcome) : Option Loop :=
  match args.next loop result.1 result.2 with
  | .sleeping _ loop' => some loop'
  | _ => none

/-- The most answers a bounded poll takes. -/
def PollArgs.roundBound (args : PollArgs) : ℕ :=
  MAX_CONSECUTIVE_ERRORS.toNat * (args.maxPolls.toNat +
    (effectiveMaxJoinWait args.maxJoinWaitSecs).toNat +
      args.maxPolls.toNat * args.maxStaleWaitSecs.toNat)

/-- The poll ends within its bound on every stream of answers, and every wait it takes
meanwhile is at least a second. -/
def PollArgs.Bounded (args : PollArgs) : Prop :=
  (∀ results : ℕ → ℕ × Outcome, Ranking.after args.round args.loop results args.roundBound = none) ∧
    ∀ resp st secs announce st', pollDecision resp st = (.wait secs announce, st') → 1 ≤ secs.toNat

/-- The poll ends on every stream of answers, each in its own time. -/
def PollArgs.Ends (args : PollArgs) : Prop :=
  ∀ results : ℕ → ℕ × Outcome, ∃ n, Ranking.after args.round args.loop results n = none

/-- The stale counter behind one more answer, in 64 bits. -/
def PollArgs.hold (args : PollArgs) (held : UInt64) : UInt64 :=
  held + quietBackoff (max args.staleBackoffSecs MIN_BACKOFF_SECS) held

/-- Behind some number of stale answers in a row, the stale counter is at its window. -/
def PollArgs.WindowReached (args : PollArgs) : Prop :=
  ∃ k, args.maxStaleWaitSecs ≤ args.hold^[k] 0

/-! ### The knobs -/

/-- The loop still has the knobs it began with. -/
structure Knobs (args : PollArgs) (st : PollState) : Prop where
  maxPolls : st.maxPolls = args.maxPolls
  joinBackoff : st.joinBackoffSecs = max args.joinBackoffSecs MIN_BACKOFF_SECS
  maxJoin : st.maxJoinWaitSecs = effectiveMaxJoinWait args.maxJoinWaitSecs
  staleBackoff : st.staleBackoffSecs = max args.staleBackoffSecs MIN_BACKOFF_SECS
  maxStale : st.maxStaleWaitSecs = args.maxStaleWaitSecs

theorem knobs_loop (args : PollArgs) : Knobs args args.loop.st := ⟨rfl, rfl, rfl, rfl, rfl⟩

theorem Knobs.waited (h : Knobs args st) (hwaited : Waited st resp secs st') : Knobs args st' := by
  obtain ⟨hpolls, hjoin, hmaxJoin, hstale, hmaxStale⟩ := h
  cases hwaited <;> exact ⟨hpolls, hjoin, hmaxJoin, hstale, hmaxStale⟩

theorem effectiveMaxJoinWait_spec (secs : UInt64) :
    1 ≤ (effectiveMaxJoinWait secs).toNat ∧ (effectiveMaxJoinWait secs).toNat ≤ 3600 := by
  have hcap : SAFE_JOIN_WAIT_CAP_SECS.toNat = 3600 := rfl
  rw [effectiveMaxJoinWait]
  split
  · omega
  · rename_i hin
    rw [not_or, UInt64.not_lt, UInt64.le_iff_toNat_le, hcap] at hin
    refine ⟨Nat.one_le_iff_ne_zero.mpr fun hzero => hin.1 ?_, hin.2⟩
    exact UInt64.toNat_inj.mp hzero

/-- Each way to go on, in numbers. -/
theorem round_cases {result : ℕ × Outcome} (h : args.round loop result = some loop') :
    (∃ resp secs, Waited loop.st resp secs loop'.st ∧ loop'.consecutiveErrors = 0) ∨
      (loop'.st = loop.st ∧ loop'.consecutiveErrors = loop.consecutiveErrors + 1 ∧
        ¬ MAX_CONSECUTIVE_ERRORS ≤ loop.consecutiveErrors + 1) := by
  unfold PollArgs.round PollArgs.next at h
  split at h
  · rename_i hnext
    cases h
    split at hnext
    · rename_i resp _
      split at hnext
      · rename_i secs announce st' hdecision
        cases hnext
        exact .inl ⟨resp, secs, waited_of_pollDecision hdecision, rfl⟩
      · cases hnext
    · dsimp only at hnext
      split at hnext
      · cases hnext
      · rename_i hmore
        cases hnext
        exact .inr ⟨rfl, rfl, hmore⟩
  · cases h

/-! ### The rank -/

/-- What is left to the loop when the stale counter reaches its window behind `k` stale
answers in a row: `n` is the rank. -/
structure Rank (args : PollArgs) (k : ℕ) (loop : Loop) (n : ℕ) : Prop where
  knobs : Knobs args loop.st
  empty : loop.st.emptyPolls.toNat < args.maxPolls.toNat
  join : loop.st.joinWaitSecs = 0 ∨ loop.st.joinBackoffSecs.toNat ≤ loop.st.joinWaitSecs.toNat
  errors : loop.consecutiveErrors.toNat < 5
  rank : ∃ j ≤ k, loop.st.staleWaitSecs = args.hold^[j] 0 ∧
    n = 5 * ((args.maxPolls.toNat - 1 - loop.st.emptyPolls.toNat) *
        (args.maxStaleWaitSecs.toNat + 1) +
      ((effectiveMaxJoinWait args.maxJoinWaitSecs).toNat - loop.st.joinWaitSecs.toNat) + (k - j)) +
        (4 - loop.consecutiveErrors.toNat)

/-- The window is reached behind `k` stale answers and not before. -/
structure ReachedBy (args : PollArgs) (k : ℕ) : Prop where
  reached : args.maxStaleWaitSecs ≤ args.hold^[k] 0
  first : ∀ j < k, args.hold^[j] 0 < args.maxStaleWaitSecs

theorem PollArgs.WindowReached.first (h : args.WindowReached) : ∃ k, ReachedBy args k := by
  classical
  refine ⟨Nat.find h, Nat.find_spec h, fun j hj => ?_⟩
  exact UInt64.not_le.mp (Nat.find_min h hj)

/-- The window is reached behind no more answers than it has seconds. -/
theorem ReachedBy.le (h : ReachedBy args k) : k ≤ args.maxStaleWaitSecs.toNat :=
  Ranking.hit_le (v := UInt64.toNat) (fun _ _ => UInt64.toNat_inj.mp)
    (fun j hj => UInt64.lt_iff_toNat_lt.mp (h.first j hj)) (UInt64.le_iff_toNat_le.mp h.reached)

theorem rank_loop (hk : ReachedBy args k) (hpolls : 1 ≤ args.maxPolls) :
    ∃ n, n + 1 ≤ args.roundBound ∧ Rank args k args.loop n := by
  have hpos : 1 ≤ args.maxPolls.toNat := UInt32.le_iff_toNat_le.mp hpolls
  refine ⟨_, ?_, knobs_loop args, ?_, .inl rfl, ?_, 0, Nat.zero_le _, rfl, rfl⟩
  · have hle := hk.le
    have hfive : MAX_CONSECUTIVE_ERRORS.toNat = 5 := rfl
    obtain ⟨polls, hpolls'⟩ := Nat.exists_eq_add_of_le hpos
    show 5 * ((args.maxPolls.toNat - 1 - 0) * (args.maxStaleWaitSecs.toNat + 1) +
      ((effectiveMaxJoinWait args.maxJoinWaitSecs).toNat - 0) + (k - 0)) + (4 - 0) + 1 ≤ _
    rw [PollArgs.roundBound, hfive, hpolls', Nat.add_sub_cancel_left, Nat.add_mul, Nat.one_mul,
      Nat.sub_zero, Nat.mul_succ]
    omega
  · exact hpos
  · show (0 : UInt32).toNat < 5
    decide

theorem toNat_succ {u bound : UInt32} (h : u.toNat < bound.toNat) : (u + 1).toNat = u.toNat + 1 := by
  have hlt := bound.toNat_lt
  rw [UInt32.toNat_add]
  exact Nat.mod_eq_of_lt (by show u.toNat + 1 < 2 ^ 32; omega)

/-- A join counter inside its window does not run over. -/
theorem join_counts {base joined bound : UInt64} (hbase : 1 ≤ base.toNat) (hbound : bound.toNat ≤ 3600)
    (hjoined : joined = 0 ∨ base.toNat ≤ joined.toNat) (hlt : joined.toNat < bound.toNat) :
    joined.toNat + 1 ≤ (joined + quietBackoff base joined).toNat ∧
      base.toNat ≤ (joined + quietBackoff base joined).toNat := by
  have hone := one_le_quietBackoff base joined
  rcases hjoined with rfl | hjoined
  · have hquiet : (quietBackoff base 0).toNat = base.toNat := by
      rw [quietBackoff, if_pos (by decide), toNat_max]
      exact max_eq_left hbase
    rw [UInt64.zero_add, hquiet]
    exact ⟨hbase, le_rfl⟩
  · have hquiet : (quietBackoff base joined).toNat ≤ 3600 := by
      have hcap : QUIET_BACKOFF_CAP_SECS.toNat = 60 := rfl
      have hmin : MIN_BACKOFF_SECS.toNat = 1 := rfl
      rw [quietBackoff, toNat_max, hmin]
      split
      · omega
      · rw [toNat_max, hcap]
        omega
    have hsum : (joined + quietBackoff base joined).toNat =
        joined.toNat + (quietBackoff base joined).toNat := by
      rw [UInt64.toNat_add]
      exact Nat.mod_eq_of_lt (by show _ < 2 ^ 64; omega)
    omega

/-- **Every round lowers the rank.** -/
theorem Rank.round (hk : ReachedBy args k) (hstale : 1 ≤ args.maxStaleWaitSecs)
    (h : Rank args k loop n) {result : ℕ × Outcome} (hround : args.round loop result = some loop') :
    ∃ n' < n, Rank args k loop' n' := by
  obtain ⟨hknobs, hempty, hjoin, herrors, j, hj, hheld, rfl⟩ := h
  have hjoinBound := effectiveMaxJoinWait_spec args.maxJoinWaitSecs
  obtain ⟨st, errors⟩ := loop
  obtain ⟨st', errors'⟩ := loop'
  rcases round_cases hround with ⟨resp, secs, hwaited, hzero⟩ | ⟨hst, hmore, hfew⟩
  · dsimp only at hknobs hempty hjoin herrors hheld hwaited hzero ⊢
    subst hzero
    have hknobs' := hknobs.waited hwaited
    have hzero : (0 : UInt32).toNat < 5 := by decide
    cases hwaited with
    | empty hmore =>
      -- one empty poll less, and the stale window begins anew
      have hnext := toNat_succ hempty
      have hpolls : args.maxPolls ≠ 0 := by
        rintro hnone
        rw [hnone] at hempty
        exact Nat.not_lt_zero _ hempty
      rw [hknobs.maxPolls, not_and, UInt32.le_iff_toNat_le, hnext] at hmore
      have hlt := hmore hpolls
      refine ⟨_, ?_, hknobs', ?_, hjoin, hzero, 0, Nat.zero_le _, rfl, rfl⟩
      · have hle := hk.le
        obtain ⟨left, hleft⟩ : ∃ left, args.maxPolls.toNat - 1 - st.emptyPolls.toNat = left + 1 :=
          ⟨args.maxPolls.toNat - 2 - st.emptyPolls.toNat, by omega⟩
        have hleft' : args.maxPolls.toNat - 1 - (st.emptyPolls + 1).toNat = left := by omega
        show 5 * ((args.maxPolls.toNat - 1 - (st.emptyPolls + 1).toNat) * _ +
          ((effectiveMaxJoinWait args.maxJoinWaitSecs).toNat - st.joinWaitSecs.toNat) + (k - 0)) + 4 < _
        rw [hleft, hleft', Nat.add_mul, Nat.one_mul]
        omega
      · show (st.emptyPolls + 1).toNat < _
        omega
    | joining hmore =>
      rw [hknobs.maxJoin, not_and, UInt64.le_iff_toNat_le] at hmore
      have hlt : st.joinWaitSecs.toNat < (effectiveMaxJoinWait args.maxJoinWaitSecs).toNat := by
        refine Nat.lt_of_not_le (hmore ?_)
        rintro hnone
        rw [hnone] at hjoinBound
        exact absurd hjoinBound.1 (by decide)
      have hbase : 1 ≤ st.joinBackoffSecs.toNat := by
        rw [hknobs.joinBackoff, toNat_max]
        exact le_max_right _ _
      obtain ⟨hgrown, hbase'⟩ := join_counts hbase hjoinBound.2 hjoin hlt
      refine ⟨_, ?_, hknobs', hempty, .inr hbase', hzero, j, hj, hheld, rfl⟩
      dsimp only
      have hnone : (0 : UInt32).toNat = 0 := rfl
      omega
    | stale hmore =>
      rw [hknobs.maxStale, not_and, UInt64.not_le] at hmore
      have hlt := hmore (by
        rintro hnone
        rw [hnone] at hstale
        exact absurd hstale (by decide))
      -- the window is still ahead
      have hjk : j ≠ k := by
        rintro rfl
        rw [hheld] at hlt
        exact absurd hk.reached (UInt64.not_le.mpr hlt)
      refine ⟨_, ?_, hknobs', hempty, hjoin, hzero, j + 1, by omega, ?_, rfl⟩
      · dsimp only
        have hnone : (0 : UInt32).toNat = 0 := rfl
        omega
      · dsimp only
        rw [Function.iterate_succ_apply', ← hheld, hknobs.staleBackoff]
        rfl
  · dsimp only at hknobs hempty hjoin herrors hheld hst hmore hfew ⊢
    subst hst hmore
    have hmore : (errors + 1).toNat = errors.toNat + 1 := toNat_succ (show errors.toNat < (5 : UInt32).toNat from herrors)
    rw [UInt32.le_iff_toNat_le, hmore] at hfew
    have hfive : MAX_CONSECUTIVE_ERRORS.toNat = 5 := rfl
    refine ⟨_, ?_, hknobs, hempty, hjoin, ?_, j, hj, hheld, rfl⟩
    · dsimp only
      omega
    · dsimp only
      omega

/-! ### A stale counterpart that never comes back -/

/-- An answer of a daemon whose counterpart has gone silent. -/
def stillStale : ℕ × Outcome := (0, .ok (.waited (.timeout "counterpart_stale" none)))

/-- While the window is not reached, a stale answer goes on. -/
theorem after_stale (hnever : ∀ k, args.hold^[k] 0 < args.maxStaleWaitSecs) : ∀ n, ∃ loop,
      Ranking.after args.round args.loop (fun _ => stillStale) n = some loop ∧
        Knobs args loop.st ∧ loop.st.staleWaitSecs = args.hold^[n] 0 := by
  intro n
  induction n with
  | zero => exact ⟨args.loop, rfl, knobs_loop args, rfl⟩
  | succ n ih =>
    obtain ⟨loop, hloop, hknobs, hheld⟩ := ih
    have hlt := hnever n
    rw [← hheld, ← hknobs.maxStale] at hlt
    have hgoes : ¬ (loop.st.maxStaleWaitSecs ≠ 0 ∧
        loop.st.maxStaleWaitSecs ≤ loop.st.staleWaitSecs) := fun hover =>
      UInt64.not_le.mpr hlt hover.2
    have hround : args.round loop stillStale = some ⟨{ loop.st with
        staleAnnounced := true,
        staleWaitSecs := loop.st.staleWaitSecs +
          quietBackoff loop.st.staleBackoffSecs loop.st.staleWaitSecs }, 0⟩ := by
      have hwire : WaitStatus.fromWire "counterpart_stale" = .counterpartStale := by decide
      unfold PollArgs.round PollArgs.next stillStale
      simp only [pollDecision, hwire, if_neg hgoes]
    have hafter : Ranking.after args.round args.loop (fun _ => stillStale) (n + 1) =
        args.round loop stillStale := by
      rw [Ranking.after, hloop, Option.bind_some]
    refine ⟨_, hafter.trans hround, ⟨hknobs.maxPolls, hknobs.joinBackoff, hknobs.maxJoin,
      hknobs.staleBackoff, hknobs.maxStale⟩, ?_⟩
    rw [Function.iterate_succ_apply', ← hheld, PollArgs.hold, ← hknobs.staleBackoff]

/-- A window is reached if the stale counter cannot run over before it. -/
theorem windowReached_of_le
    (h : args.maxStaleWaitSecs.toNat + max args.staleBackoffSecs.toNat 60 ≤ 2 ^ 64) :
    args.WindowReached := by
  by_contra hnever
  have hbelow : ∀ k, (args.hold^[k] 0).toNat < args.maxStaleWaitSecs.toNat := by
    intro k
    exact UInt64.lt_iff_toNat_lt.mp (UInt64.not_le.mp fun hreached => hnever ⟨k, hreached⟩)
  -- each stale answer adds a second at least
  have hgrows : ∀ k, k ≤ (args.hold^[k] 0).toNat := by
    intro k
    induction k with
    | zero => exact Nat.zero_le _
    | succ k ih =>
      have hlt := hbelow k
      rw [Function.iterate_succ_apply', PollArgs.hold]
      generalize args.hold^[k] 0 = held at ih hlt
      have hone := one_le_quietBackoff (max args.staleBackoffSecs MIN_BACKOFF_SECS) held
      have hle : (quietBackoff (max args.staleBackoffSecs MIN_BACKOFF_SECS) held).toNat ≤
          max args.staleBackoffSecs.toNat 60 := by
        have hcap : QUIET_BACKOFF_CAP_SECS.toNat = 60 := rfl
        have hmin : MIN_BACKOFF_SECS.toNat = 1 := rfl
        rw [quietBackoff, toNat_max, hmin]
        split
        · rw [toNat_max, hmin]
          omega
        · rw [toNat_max, toNat_max, hmin, hcap]
          omega
      rw [UInt64.toNat_add, Nat.mod_eq_of_lt (by omega)]
      omega
  have hall := hgrows args.maxStaleWaitSecs.toNat
  have hlast := hbelow args.maxStaleWaitSecs.toNat
  omega

/-- Where the stale window is never reached, stale answers keep the poll going. -/
theorem windowReached_of_ends (hends : args.Ends) : args.WindowReached := by
  by_contra hnever
  have hbelow : ∀ k, args.hold^[k] 0 < args.maxStaleWaitSecs := fun k =>
    UInt64.not_le.mp fun hreached => hnever ⟨k, hreached⟩
  obtain ⟨n, hn⟩ := hends fun _ => stillStale
  obtain ⟨loop, hloop, -⟩ := after_stale hbelow n
  rw [hn] at hloop
  cases hloop

/-- **A bounded poll ends exactly if its stale window can be reached**: on every stream
of answers within `roundBound`, and with at least a second in each wait; and where it
cannot, there is a stream on which it does not end at all. -/
theorem bounded_poll_terminates_iff (args : PollArgs) (hpolls : 1 ≤ args.maxPolls)
    (hstale : 1 ≤ args.maxStaleWaitSecs) :
    (args.Bounded ↔ args.WindowReached) ∧ (args.Ends ↔ args.WindowReached) := by
  have hbounded : args.WindowReached → args.Bounded := by
    intro hreached
    obtain ⟨k, hk⟩ := hreached.first
    obtain ⟨n, hn, hrank⟩ := rank_loop hk hpolls
    refine ⟨fun results => ?_, fun resp st secs announce st' h => (waited_of_pollDecision h).one_le⟩
    exact Ranking.after_mono hn (Ranking.after_eq_none
      (fun loop result loop' m hm hround => hm.round hk hstale hround) hrank results)
  have hends : args.Bounded → args.Ends := fun hbound results => ⟨_, hbound.1 results⟩
  exact ⟨⟨fun h => windowReached_of_ends (hends h), hbounded⟩,
    windowReached_of_ends, fun h => hends (hbounded h)⟩

/-- The defaults of `cbc poll`, bounded to `maxPolls` and with this stale hold. -/
def pollWith (maxPolls : UInt32) (staleBackoffSecs maxStaleWaitSecs : UInt64) : PollArgs :=
  ⟨"room", ⟨"web", "opus", "/web", "bob"⟩, 50, maxPolls, 2, 5, 3600, staleBackoffSecs,
    maxStaleWaitSecs⟩

/-- With the default hold, a poll of three rounds ends. -/
theorem bounded_poll_terminates_iff_defaults : (pollWith 3 30 3600).Bounded :=
  (bounded_poll_terminates_iff (pollWith 3 30 3600) (by decide) (by decide)).1.mpr
    (windowReached_of_le (by decide))

/-- A hold of all 64 bits with a backoff of half of them. -/
def runsOver : PollArgs := pollWith 1 9223372036854775808 18446744073709551615

/-- Its stale counter goes to and fro between 0 and the backoff. -/
theorem runsOver_hold (k : ℕ) :
    runsOver.hold^[k] 0 = 0 ∨ runsOver.hold^[k] 0 = 9223372036854775808 := by
  induction k with
  | zero => exact .inl rfl
  | succ k ih =>
    rw [Function.iterate_succ_apply']
    rcases ih with hzero | hhalf
    · rw [hzero]
      exact .inr (by decide)
    · rw [hhalf]
      exact .inl (by decide)

/-- A poll whose stale counter runs over may never end. -/
theorem not_bounded_poll_terminates : ¬ ∀ args : PollArgs, 1 ≤ args.maxPolls →
    1 ≤ args.maxStaleWaitSecs → args.Ends := by
  intro h
  obtain ⟨k, hreached⟩ := windowReached_of_ends (h runsOver (by decide) (by decide))
  revert hreached
  rcases runsOver_hold k with hzero | hhalf
  · rw [hzero]
    decide
  · rw [hhalf]
    decide

end Poll

end ChatBotChat
