/-
What a poll has held.

Two counters of `poll_decision` add up sleeps: the one of a counterpart that has not
joined runs from the start, the one of a counterpart that has gone silent begins anew
with each message and each empty poll.  Both grow by a cadence that they decide
themselves (`Held.hold`), and both end the poll when they reach their window.

* `hold_accounting` — as long as no counter runs over its 64 bits, the counters are the
  sums of what was slept, a window ends the poll exactly when its sum has reached it
  (and then the sum is less than a sleep beyond), each silent spell is announced once,
  and its sleeps never get shorter.
-/
import Mathlib.Algebra.GroupWithZero.Nat
import ChatBotChat.Cbc.Poll

namespace ChatBotChat

namespace Poll

variable {st st' : PollState} {resp : WaitResponse} {action : PollAction}
  {base bound held held' : UInt64} {sleeps : List ℕ}

/-! ### Turns -/

/-- An answer of the daemon, and what was decided on it. -/
structure Turn where
  resp : WaitResponse
  action : PollAction

variable {t : Turn} {older turns : List Turn}

/-- The decisions on a sequence of answers, latest first. -/
def PollState.feed (st : PollState) : List WaitResponse → PollState × List Turn
  | [] => (st, [])
  | resp :: earlier =>
    let (st', turns) := st.feed earlier
    let (action, st'') := pollDecision resp st'
    (st'', ⟨resp, action⟩ :: turns)

/-- The status of an answer, if it is no message. -/
def statusOf : WaitResponse → Option WaitStatus
  | .message .. => none
  | .timeout status _ => some (.fromWire status)

/-- The answer ends a silent spell. -/
def endsSpell (resp : WaitResponse) : Bool :=
  statusOf resp = none || statusOf resp = some .pausedByTimeout

/-- The turns since the last message or empty poll. -/
def spell (turns : List Turn) : List Turn := turns.takeWhile fun t => !endsSpell t.resp

/-- What was slept on a status. -/
def sleepsOn (status : WaitStatus) (turns : List Turn) : List ℕ :=
  turns.filterMap fun t => match t.action with
    | .wait secs _ => if statusOf t.resp = some status then some secs.toNat else none
    | _ => none

/-- The seconds slept on a silent counterpart since the last message or empty poll. -/
def staleSlept (turns : List Turn) : ℕ := (sleepsOn .counterpartStale (spell turns)).sum

/-- The seconds slept on a counterpart that has not joined. -/
def joinSlept (turns : List Turn) : ℕ := (sleepsOn .awaitingCounterpart turns).sum

def isStale (t : Turn) : Bool := statusOf t.resp = some .counterpartStale

/-- The turn prints the heads-up. -/
def announces (t : Turn) : Bool :=
  match t.action with
  | .wait _ announceStale => announceStale
  | _ => false

/-- The sums have always fitted into 64 bits. -/
def NoOverflow (turns : List Turn) : Prop :=
  ∀ recent, recent <:+ turns → staleSlept recent < 2 ^ 64 ∧ joinSlept recent < 2 ^ 64

/-- What the poll has counted when the turns lie behind it. -/
structure HoldAccounting (st₀ st : PollState) (turns : List Turn) : Prop where
  staleSum : st.staleWaitSecs.toNat = staleSlept turns
  joinSum : st.joinWaitSecs.toNat = joinSlept turns
  givesUpStale : ∀ t older, turns = t :: older → (t.action = .giveUpStale ↔
    statusOf t.resp = some .counterpartStale ∧ st₀.maxStaleWaitSecs ≠ 0 ∧
      st₀.maxStaleWaitSecs.toNat ≤ staleSlept older)
  givesUpJoin : ∀ t older, turns = t :: older → (t.action = .giveUpJoin ↔
    statusOf t.resp = some .awaitingCounterpart ∧ st₀.maxJoinWaitSecs ≠ 0 ∧
      st₀.maxJoinWaitSecs.toNat ≤ joinSlept older)
  staleTotal : ∀ t older, turns = t :: older → t.action = .giveUpStale →
    st₀.maxStaleWaitSecs.toNat ≤ staleSlept older ∧
      staleSlept older < st₀.maxStaleWaitSecs.toNat + max st₀.staleBackoffSecs.toNat 60
  joinTotal : ∀ t older, turns = t :: older → t.action = .giveUpJoin →
    st₀.maxJoinWaitSecs.toNat ≤ joinSlept older ∧
      joinSlept older < st₀.maxJoinWaitSecs.toNat + max st₀.joinBackoffSecs.toNat 60
  announcedOnce : (spell turns).countP announces = if (spell turns).any isStale then 1 else 0
  staleSlows : (sleepsOn .counterpartStale (spell turns)).Pairwise fun later earlier => earlier ≤ later
  joinSlows : (sleepsOn .awaitingCounterpart turns).Pairwise fun later earlier => earlier ≤ later
  handsBack : ∀ t older, turns = t :: older → (statusOf t.resp = some .awaitingCounterpart ∨
    statusOf t.resp = some .counterpartStale) → t.action ≠ .exitStatus

/-! ### A window -/

/-- The cadence only slows down. -/
theorem quietBackoff_mono (base : UInt64) (h : held.toNat ≤ held'.toNat) :
    (quietBackoff base held).toNat ≤ (quietBackoff base held').toNat := by
  have hcap : QUIET_BACKOFF_CAP_SECS.toNat = 60 := rfl
  have hmin : MIN_BACKOFF_SECS.toNat = 1 := rfl
  simp only [quietBackoff, toNat_max, hmin, UInt64.lt_iff_toNat_lt]
  split_ifs
  · exact le_rfl
  · rw [toNat_max]
    omega
  · omega
  · exact le_rfl

theorem quietBackoff_le_max (base held : UInt64) :
    (quietBackoff base held).toNat ≤ max base.toNat 60 := by
  have hcap : QUIET_BACKOFF_CAP_SECS.toNat = 60 := rfl
  have hmin : MIN_BACKOFF_SECS.toNat = 1 := rfl
  rw [quietBackoff, toNat_max, hmin]
  split
  · omega
  · rw [toNat_max, hcap]
    omega

/-- A counter over the sleeps it adds up, latest first: they get longer, and the next is
the longest. -/
structure Held (base bound held : UInt64) (sleeps : List ℕ) : Prop where
  sum : held.toNat = sleeps.sum
  slows : sleeps.Pairwise fun later earlier => earlier ≤ later
  next : ∀ secs ∈ sleeps, secs ≤ (quietBackoff base held).toNat
  within : bound ≠ 0 → held.toNat < bound.toNat + max base.toNat 60

theorem Held.start (base bound : UInt64) : Held base bound 0 [] := by
  refine ⟨rfl, .nil, nofun, fun _ => ?_⟩
  show 0 < _
  omega

/-- **One more sleep**, while the window is not reached. -/
theorem Held.hold (h : Held base bound held sleeps) (hmore : ¬ (bound ≠ 0 ∧ bound ≤ held))
    (hfits : ((quietBackoff base held).toNat :: sleeps).sum < 2 ^ 64) :
    Held base bound (held + quietBackoff base held) ((quietBackoff base held).toNat :: sleeps) := by
  obtain ⟨hsum, hslows, hnext, hwithin⟩ := h
  rw [List.sum_cons, ← hsum] at hfits
  have hadd : (held + quietBackoff base held).toNat = held.toNat + (quietBackoff base held).toNat := by
    rw [UInt64.toNat_add]
    exact Nat.mod_eq_of_lt (by omega)
  have hmono : (quietBackoff base held).toNat ≤
      (quietBackoff base (held + quietBackoff base held)).toNat :=
    quietBackoff_mono base (by omega)
  constructor
  case sum =>
    rw [hadd, List.sum_cons, ← hsum]
    omega
  case slows => exact List.pairwise_cons.mpr ⟨hnext, hslows⟩
  case next =>
    intro secs hsecs
    rcases List.mem_cons.mp hsecs with rfl | hsecs
    · exact hmono
    · exact (hnext secs hsecs).trans hmono
  case within =>
    intro hbound
    rw [not_and, UInt64.le_iff_toNat_le] at hmore
    have hlt := hmore hbound
    have hle := quietBackoff_le_max base held
    omega

/-! ### One decision -/

/-- The decisions, one by one. -/
inductive Decided (st : PollState) (resp : WaitResponse) : PollAction → PollState → Prop
  | delivered : statusOf resp = none → Decided st resp .deliver st.clearStale
  | emptied {action : PollAction} {empty : UInt32} :
      statusOf resp = some .pausedByTimeout →
      action = .giveUpEmpty ∨ (∃ secs, action = .wait secs false) →
      Decided st resp action { st.clearStale with emptyPolls := empty }
  | joinOver : statusOf resp = some .awaitingCounterpart →
      (st.maxJoinWaitSecs ≠ 0 ∧ st.maxJoinWaitSecs ≤ st.joinWaitSecs) →
      Decided st resp .giveUpJoin st
  | joining : statusOf resp = some .awaitingCounterpart →
      ¬ (st.maxJoinWaitSecs ≠ 0 ∧ st.maxJoinWaitSecs ≤ st.joinWaitSecs) →
      Decided st resp (.wait (quietBackoff st.joinBackoffSecs st.joinWaitSecs) false)
        { st with joinWaitSecs := st.joinWaitSecs + quietBackoff st.joinBackoffSecs st.joinWaitSecs }
  | staleOver : statusOf resp = some .counterpartStale →
      (st.maxStaleWaitSecs ≠ 0 ∧ st.maxStaleWaitSecs ≤ st.staleWaitSecs) →
      Decided st resp .giveUpStale st
  | stale : statusOf resp = some .counterpartStale →
      ¬ (st.maxStaleWaitSecs ≠ 0 ∧ st.maxStaleWaitSecs ≤ st.staleWaitSecs) →
      Decided st resp (.wait (quietBackoff st.staleBackoffSecs st.staleWaitSecs) !st.staleAnnounced)
        { st with staleAnnounced := true, staleWaitSecs :=
            st.staleWaitSecs + quietBackoff st.staleBackoffSecs st.staleWaitSecs }
  | handed {status : WaitStatus} : statusOf resp = some status →
      status ≠ .pausedByTimeout → status ≠ .awaitingCounterpart → status ≠ .counterpartStale →
      Decided st resp .exitStatus st

theorem decided (resp : WaitResponse) (st : PollState) :
    Decided st resp (pollDecision resp st).1 (pollDecision resp st).2 := by
  cases resp with
  | message => exact .delivered rfl
  | timeout status retryAfter =>
    rw [pollDecision]
    split
    case h_1 hstatus =>
      dsimp only
      split
      · exact .emptied (congrArg some hstatus) (.inl rfl)
      · exact .emptied (congrArg some hstatus) (.inr ⟨_, rfl⟩)
    case h_2 hstatus =>
      split
      · rename_i hover
        exact .joinOver (congrArg some hstatus) hover
      · rename_i hmore
        exact .joining (congrArg some hstatus) hmore
    case h_3 hstatus =>
      split
      · rename_i hover
        exact .staleOver (congrArg some hstatus) hover
      · rename_i hmore
        exact .stale (congrArg some hstatus) hmore
    all_goals
      rename_i hstatus
      exact .handed (congrArg some hstatus) (by simp) (by simp) (by simp)

/-- A silent counterpart is given up when its window is reached, and for no other reason. -/
theorem Decided.giveUpStale_iff (h : Decided st resp action st') : action = .giveUpStale ↔
    statusOf resp = some .counterpartStale ∧ st.maxStaleWaitSecs ≠ 0 ∧
      st.maxStaleWaitSecs ≤ st.staleWaitSecs := by
  cases h with
  | staleOver hstatus hover => exact iff_of_true rfl ⟨hstatus, hover⟩
  | stale hstatus hmore => exact iff_of_false (by simp) fun hover => hmore hover.2
  | delivered hstatus => simp [hstatus]
  | emptied hstatus haction => rcases haction with rfl | ⟨secs, rfl⟩ <;> simp [hstatus]
  | joinOver hstatus => simp [hstatus]
  | joining hstatus => simp [hstatus]
  | handed hstatus _ _ hne => simp [hstatus, hne]

/-- So is a counterpart that has not joined. -/
theorem Decided.giveUpJoin_iff (h : Decided st resp action st') : action = .giveUpJoin ↔
    statusOf resp = some .awaitingCounterpart ∧ st.maxJoinWaitSecs ≠ 0 ∧
      st.maxJoinWaitSecs ≤ st.joinWaitSecs := by
  cases h with
  | joinOver hstatus hover => exact iff_of_true rfl ⟨hstatus, hover⟩
  | joining hstatus hmore => exact iff_of_false (by simp) fun hover => hmore hover.2
  | delivered hstatus => simp [hstatus]
  | emptied hstatus haction => rcases haction with rfl | ⟨secs, rfl⟩ <;> simp [hstatus]
  | staleOver hstatus => simp [hstatus]
  | stale hstatus => simp [hstatus]
  | handed hstatus _ hne => simp [hstatus, hne]

/-- Neither of the two hands the turn back with its status. -/
theorem Decided.not_exitStatus (h : Decided st resp action st')
    (hstatus : statusOf resp = some .awaitingCounterpart ∨ statusOf resp = some .counterpartStale) :
    action ≠ .exitStatus := by
  cases h with
  | emptied _ haction => rcases haction with rfl | ⟨secs, rfl⟩ <;> simp
  | handed hother _ hjoin hstale =>
    rw [hother, Option.some_inj, Option.some_inj] at hstatus
    rcases hstatus with hstatus | hstatus
    · exact absurd hstatus hjoin
    · exact absurd hstatus hstale
  | _ => simp

/-! ### The run -/

/-- What is true of the counters and of the turns behind them. -/
structure Accounts (st₀ st : PollState) (turns : List Turn) : Prop where
  staleKnobs : st.staleBackoffSecs = st₀.staleBackoffSecs ∧ st.maxStaleWaitSecs = st₀.maxStaleWaitSecs
  joinKnobs : st.joinBackoffSecs = st₀.joinBackoffSecs ∧ st.maxJoinWaitSecs = st₀.maxJoinWaitSecs
  stale : Held st₀.staleBackoffSecs st₀.maxStaleWaitSecs st.staleWaitSecs
    (sleepsOn .counterpartStale (spell turns))
  join : Held st₀.joinBackoffSecs st₀.maxJoinWaitSecs st.joinWaitSecs
    (sleepsOn .awaitingCounterpart turns)
  flag : st.staleAnnounced = (spell turns).any isStale
  once : (spell turns).countP announces = if st.staleAnnounced then 1 else 0
  -- a spell that has not been announced has not been slept in
  fresh : st.staleAnnounced = false → st.staleWaitSecs = 0

theorem spell_cons_of_ends (h : endsSpell resp = true) : spell (⟨resp, action⟩ :: older) = [] := by
  simp [spell, h]

theorem spell_cons_of_not (h : endsSpell resp = false) :
    spell (⟨resp, action⟩ :: older) = ⟨resp, action⟩ :: spell older := by
  simp [spell, h]

theorem sleepsOn_cons_of_ne {status status' : WaitStatus} (h : statusOf t.resp = some status')
    (hne : status' ≠ status) : sleepsOn status (t :: older) = sleepsOn status older := by
  have hnone : statusOf t.resp ≠ some status := by
    rw [h]
    exact fun hsome => hne (Option.some_inj.mp hsome)
  unfold sleepsOn
  rw [List.filterMap_cons]
  cases t.action <;> simp [hnone]

theorem sleepsOn_cons_message {status : WaitStatus} (h : statusOf t.resp = none) :
    sleepsOn status (t :: older) = sleepsOn status older := by
  unfold sleepsOn
  rw [List.filterMap_cons]
  cases t.action <;> simp [h]

theorem sleepsOn_cons_idle {status : WaitStatus} (h : ∀ secs a, t.action ≠ .wait secs a) :
    sleepsOn status (t :: older) = sleepsOn status older := by
  unfold sleepsOn
  rw [List.filterMap_cons]
  cases haction : t.action with
  | wait secs a => exact absurd haction (h secs a)
  | _ => simp

theorem sleepsOn_cons_wait {status : WaitStatus} {secs : UInt64} {announce : Bool}
    (h : statusOf resp = some status) : sleepsOn status (⟨resp, .wait secs announce⟩ :: older) =
      secs.toNat :: sleepsOn status older := by
  simp [sleepsOn, h]

theorem Accounts.start (st : PollState) (hstale : st.staleWaitSecs = 0) (hjoin : st.joinWaitSecs = 0)
    (hflag : st.staleAnnounced = false) : Accounts st st [] := by
  refine ⟨⟨rfl, rfl⟩, ⟨rfl, rfl⟩, ?_, ?_, hflag, ?_, fun _ => hstale⟩
  · rw [hstale]
    exact .start _ _
  · rw [hjoin]
    exact .start _ _
  · rw [hflag]
    rfl

/-- An answer that ends the spell clears its accounts. -/
theorem Accounts.ends {st₀ : PollState} (h : Accounts st₀ st older) (hends : endsSpell resp = true)
    (hjoin : sleepsOn .awaitingCounterpart (⟨resp, action⟩ :: older) =
      sleepsOn .awaitingCounterpart older) (empty : UInt32) :
    Accounts st₀ { st.clearStale with emptyPolls := empty } (⟨resp, action⟩ :: older) := by
  have hspell : spell (⟨resp, action⟩ :: older) = [] := spell_cons_of_ends hends
  refine ⟨h.staleKnobs, h.joinKnobs, ?_, ?_, ?_, ?_, fun _ => rfl⟩
  · rw [hspell]
    exact .start _ _
  · rw [hjoin]
    exact h.join
  · rw [hspell]
    rfl
  · rw [hspell]
    rfl

/-- A decision that does not sleep leaves the accounts of a spell that goes on. -/
theorem Accounts.idle {st₀ : PollState} (h : Accounts st₀ st older) (hgoes : endsSpell resp = false)
    (hidle : ∀ secs announce, action ≠ .wait secs announce)
    (hset : statusOf resp = some .counterpartStale → st.staleAnnounced = true) :
    Accounts st₀ st (⟨resp, action⟩ :: older) := by
  have hspell : spell (⟨resp, action⟩ :: older) = ⟨resp, action⟩ :: spell older :=
    spell_cons_of_not hgoes
  have hquiet : announces ⟨resp, action⟩ = false := by
    cases action with
    | wait secs announce => exact absurd rfl (hidle secs announce)
    | _ => rfl
  refine ⟨h.staleKnobs, h.joinKnobs, ?_, ?_, ?_, ?_, h.fresh⟩
  · rw [hspell, sleepsOn_cons_idle hidle]
    exact h.stale
  · rw [sleepsOn_cons_idle hidle]
    exact h.join
  · rw [hspell, List.any_cons, ← h.flag]
    by_cases hstatus : statusOf resp = some .counterpartStale
    · rw [hset hstatus, Bool.or_true]
    · simp [isStale, hstatus]
  · rw [hspell, List.countP_cons_of_neg (by simp [hquiet])]
    exact h.once

/-- **Every decision keeps the accounts.** -/
theorem Accounts.turn {st₀ : PollState} (h : Accounts st₀ st older) (hdecided : Decided st resp action st')
    (hfits : NoOverflow (⟨resp, action⟩ :: older)) : Accounts st₀ st' (⟨resp, action⟩ :: older) := by
  obtain ⟨hstale, hjoin⟩ := hfits _ List.suffix_rfl
  cases hdecided with
  | delivered hstatus =>
    have hends : endsSpell resp = true := by simp [endsSpell, hstatus]
    exact h.ends hends (sleepsOn_cons_message hstatus) st.clearStale.emptyPolls
  | emptied hstatus _ =>
    have hends : endsSpell resp = true := by simp [endsSpell, hstatus]
    exact h.ends hends (sleepsOn_cons_of_ne hstatus (by decide)) _
  | joinOver hstatus hover =>
    have hgoes : endsSpell resp = false := by simp [endsSpell, hstatus]
    exact h.idle hgoes (by simp) (by simp [hstatus])
  | joining hstatus hmore =>
    have hgoes : endsSpell resp = false := by simp [endsSpell, hstatus]
    have hspell : ∀ action, spell (⟨resp, action⟩ :: older) = ⟨resp, action⟩ :: spell older :=
      fun _ => spell_cons_of_not hgoes
    rw [joinSlept, sleepsOn_cons_wait hstatus] at hjoin
    refine ⟨h.staleKnobs, h.joinKnobs, ?_, ?_, ?_, ?_, h.fresh⟩
    · rw [hspell, sleepsOn_cons_of_ne hstatus (by decide)]
      exact h.stale
    · rw [sleepsOn_cons_wait hstatus]
      rw [h.joinKnobs.1] at hjoin ⊢
      rw [h.joinKnobs.2] at hmore
      exact h.join.hold hmore hjoin
    · rw [hspell, List.any_cons, ← h.flag]
      simp [isStale, hstatus]
    · rw [hspell, List.countP_cons_of_neg (by simp [announces])]
      exact h.once
  | staleOver hstatus hover =>
    have hgoes : endsSpell resp = false := by simp [endsSpell, hstatus]
    refine h.idle hgoes (by simp) fun _ => ?_
    -- the window is not empty, so that the spell has been slept in and announced
    by_contra hnot
    have hzero := h.fresh (Bool.eq_false_iff.mpr hnot)
    rw [hzero] at hover
    exact hover.1 (UInt64.le_zero_iff.mp hover.2)
  | stale hstatus hmore =>
    have hgoes : endsSpell resp = false := by simp [endsSpell, hstatus]
    have hspell : ∀ action, spell (⟨resp, action⟩ :: older) = ⟨resp, action⟩ :: spell older :=
      fun _ => spell_cons_of_not hgoes
    rw [staleSlept, hspell, sleepsOn_cons_wait hstatus] at hstale
    refine ⟨h.staleKnobs, h.joinKnobs, ?_, ?_, ?_, ?_, by simp⟩
    · rw [hspell, sleepsOn_cons_wait hstatus]
      rw [h.staleKnobs.1] at hstale ⊢
      rw [h.staleKnobs.2] at hmore
      exact h.stale.hold hmore hstale
    · rw [sleepsOn_cons_of_ne hstatus (by decide)]
      exact h.join
    · rw [hspell]
      simp [isStale, hstatus]
    · -- announced now, or before
      have honce := h.once
      rw [hspell]
      cases hset : st.staleAnnounced with
      | true =>
        rw [hset] at honce
        rw [List.countP_cons_of_neg (by simp [announces])]
        exact honce
      | false =>
        rw [hset] at honce
        rw [List.countP_cons_of_pos (by simp [announces]), honce]
        rfl
  | handed hstatus hpaused hnotJoin hnotStale =>
    have hgoes : endsSpell resp = false := by simp [endsSpell, hstatus, hpaused]
    exact h.idle hgoes (by simp) (by simp [hstatus, hnotStale])

theorem NoOverflow.tail (h : NoOverflow (t :: older)) : NoOverflow older :=
  fun recent hrecent => h recent (hrecent.trans (List.suffix_cons _ _))

theorem feed_cons (st : PollState) (resp : WaitResponse) (earlier : List WaitResponse) :
    st.feed (resp :: earlier) = ((pollDecision resp (st.feed earlier).1).2,
      ⟨resp, (pollDecision resp (st.feed earlier).1).1⟩ :: (st.feed earlier).2) := rfl

theorem accounts_feed {st₀ : PollState} (hstart : Accounts st₀ st₀ []) (resps : List WaitResponse)
    (hfits : NoOverflow (st₀.feed resps).2) : Accounts st₀ (st₀.feed resps).1 (st₀.feed resps).2 := by
  induction resps with
  | nil => exact hstart
  | cons resp earlier ih =>
    rw [feed_cons] at hfits ⊢
    exact (ih hfits.tail).turn (decided _ _) hfits

/-- **Hold accounting.** -/
theorem hold_accounting (maxPolls : UInt32)
    (joinBackoffSecs maxJoinWaitSecs staleBackoffSecs maxStaleWaitSecs : UInt64)
    (resps : List WaitResponse) :
    let st₀ := PollState.new maxPolls joinBackoffSecs maxJoinWaitSecs staleBackoffSecs maxStaleWaitSecs
    NoOverflow (st₀.feed resps).2 → HoldAccounting st₀ (st₀.feed resps).1 (st₀.feed resps).2 := by
  intro st₀ hfits
  have hstart : Accounts st₀ st₀ [] := .start st₀ rfl rfl rfl
  have haccounts := accounts_feed hstart resps hfits
  -- the decision on the latest answer, from the accounts before it
  have hlatest : ∀ t older, (st₀.feed resps).2 = t :: older → ∃ st st',
      Accounts st₀ st older ∧ Decided st t.resp t.action st' := by
    intro t older heq
    cases resps with
    | nil => cases heq
    | cons resp earlier =>
      rw [feed_cons] at heq hfits
      obtain ⟨rfl, rfl⟩ := List.cons.inj heq
      exact ⟨_, _, accounts_feed hstart earlier hfits.tail, decided _ _⟩
  have hstaleIff : ∀ t older, (st₀.feed resps).2 = t :: older → (t.action = .giveUpStale ↔
      statusOf t.resp = some .counterpartStale ∧ st₀.maxStaleWaitSecs ≠ 0 ∧
        st₀.maxStaleWaitSecs.toNat ≤ staleSlept older) := by
    intro t older heq
    obtain ⟨st, st', hst, hdecided⟩ := hlatest t older heq
    rw [staleSlept, ← hst.stale.sum, ← UInt64.le_iff_toNat_le, ← hst.staleKnobs.2]
    exact hdecided.giveUpStale_iff
  have hjoinIff : ∀ t older, (st₀.feed resps).2 = t :: older → (t.action = .giveUpJoin ↔
      statusOf t.resp = some .awaitingCounterpart ∧ st₀.maxJoinWaitSecs ≠ 0 ∧
        st₀.maxJoinWaitSecs.toNat ≤ joinSlept older) := by
    intro t older heq
    obtain ⟨st, st', hst, hdecided⟩ := hlatest t older heq
    rw [joinSlept, ← hst.join.sum, ← UInt64.le_iff_toNat_le, ← hst.joinKnobs.2]
    exact hdecided.giveUpJoin_iff
  constructor
  case staleSum => exact haccounts.stale.sum
  case joinSum => exact haccounts.join.sum
  case givesUpStale => exact hstaleIff
  case givesUpJoin => exact hjoinIff
  case staleTotal =>
    intro t older heq haction
    obtain ⟨-, hbound, hreached⟩ := (hstaleIff t older heq).mp haction
    obtain ⟨st, st', hst, -⟩ := hlatest t older heq
    have hwithin := hst.stale.within hbound
    rw [hst.stale.sum] at hwithin
    exact ⟨hreached, hwithin⟩
  case joinTotal =>
    intro t older heq haction
    obtain ⟨-, hbound, hreached⟩ := (hjoinIff t older heq).mp haction
    obtain ⟨st, st', hst, -⟩ := hlatest t older heq
    have hwithin := hst.join.within hbound
    rw [hst.join.sum] at hwithin
    exact ⟨hreached, hwithin⟩
  case announcedOnce => rw [haccounts.once, haccounts.flag]
  case staleSlows => exact haccounts.stale.slows
  case joinSlows => exact haccounts.join.slows
  case handsBack =>
    intro t older heq hstatus
    obtain ⟨st, st', -, hdecided⟩ := hlatest t older heq
    exact hdecided.not_exitStatus hstatus

/-- A counterpart that joins late, and goes silent. -/
def silentSpell : List WaitResponse :=
  [.timeout "counterpart_stale" none, .timeout "counterpart_stale" none,
    .timeout "paused_by_timeout" (some 20), .timeout "awaiting_counterpart" none]

theorem hold_accounting_silentSpell :
    HoldAccounting (.new 0 5 3600 30 3600) ((PollState.new 0 5 3600 30 3600).feed silentSpell).1
      ((PollState.new 0 5 3600 30 3600).feed silentSpell).2 := by
  refine hold_accounting 0 5 3600 30 3600 silentSpell fun recent hrecent => ?_
  have hall : ∀ recent ∈ ((PollState.new 0 5 3600 30 3600).feed silentSpell).2.tails,
      staleSlept recent < 2 ^ 64 ∧ joinSlept recent < 2 ^ 64 := by decide +kernel
  exact hall recent ((List.mem_tails _ _).mpr hrecent)

end Poll

end ChatBotChat
