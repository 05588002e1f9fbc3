/-
Who is live: two statements of the database compare texts, two handlers compare
instants.

* `one_liveness_iff` — the four tests agree on a participant, and the order of
  two texts is the order of their instants, exactly where neither of the two
  timestamps is the other with its fraction cut off behind some digit.
-/
import ChatBotChat.Http
import ChatBotChat.Rfc3339.Order

namespace ChatBotChat

open Lifecycle

/-- The four tests agree whether `p` is live at `now`: the count of an extend, the
prune, the count of a close, and the sweep. -/
def OneLiveness (now : OffsetDateTime) (p : Participant) : Prop :=
  Db.livePoll p.roomId (now - GHOST_AFTER) p = livePoller now p ∧
    (!Db.prunable p.roomId (now - GHOST_AFTER) p) = livePoller now p ∧
    (!noLivePoller [p.lastPollAt] now) = livePoller now p

instance (now : OffsetDateTime) (p : Participant) : Decidable (OneLiveness now p) :=
  inferInstanceAs (Decidable (_ ∧ _ ∧ _))

/-- Neither timestamp is the other with its fraction cut off. -/
def Comparable (a b : OffsetDateTime) : Prop := ¬ Rfc3339.IsCut a b ∧ ¬ Rfc3339.IsCut b a

instance (a b : OffsetDateTime) : Decidable (Comparable a b) :=
  inferInstanceAs (Decidable (_ ∧ _))

/-- A handler takes for live who has polled since the cutoff. -/
theorem livePoller_eq (now : OffsetDateTime) (p : Participant) :
    livePoller now p = !decide (p.lastPollAt < now - GHOST_AFTER) := by
  have hiff : now - p.lastPollAt ≤ GHOST_AFTER ↔ ¬ p.lastPollAt < now - GHOST_AFTER := by
    rw [not_lt, sub_le_comm]
  rw [livePoller, ← decide_not]
  exact decide_eq_decide.mpr hiff

/-- The sweep asks the same question. -/
theorem noLivePoller_singleton (now : OffsetDateTime) (p : Participant) :
    (!noLivePoller [p.lastPollAt] now) = livePoller now p := by
  have hiff : now - p.lastPollAt > GHOST_AFTER ↔ ¬ now - p.lastPollAt ≤ GHOST_AFTER :=
    not_le.symm
  rw [noLivePoller, livePoller, List.all_cons, List.all_nil, Bool.and_true, ← decide_not]
  exact decide_eq_decide.mpr (not_iff_comm.mp hiff.symm)

/-- The two statements of the database ask one question, of the texts. -/
theorem livePoll_eq_not_prunable (cutoff : OffsetDateTime) (p : Participant) :
    Db.livePoll p.roomId cutoff p = (!textLt p.lastPollAt cutoff) ∧
      (!Db.prunable p.roomId cutoff p) = (!textLt p.lastPollAt cutoff) := by
  simp [Db.livePoll, Db.prunable, textLe, textLt]

theorem textLt_iff {a b : OffsetDateTime} : textLt a b = true ↔ Rfc3339.format a < Rfc3339.format b :=
  decide_eq_true_iff

/-- **One definition of live, where no fraction is a cut of the other**: for
timestamps of four-digit years, the order of two texts is the order of their
instants, and the four tests agree on a participant, exactly where neither of
the two timestamps is the other cut off behind some digit of its fraction. -/
theorem one_liveness_iff (a b : OffsetDateTime) (ha : a.FourDigitYear) (hb : b.FourDigitYear) :
    ((textLt a b = true ↔ a < b) ↔ Comparable a b) ∧
    ∀ (now : OffsetDateTime) (p : Participant), p.lastPollAt = a → now - GHOST_AFTER = b →
      (OneLiveness now p ↔ Comparable a b) := by
  have hiff : (textLt a b = true ↔ a < b) ↔ Comparable a b := by
    rw [textLt_iff]
    exact Rfc3339.format_lt_iff_lt_iff ha hb
  refine ⟨hiff, fun now p hpoll hcutoff => ?_⟩
  obtain ⟨hlive, hkept⟩ := livePoll_eq_not_prunable (now - GHOST_AFTER) p
  rw [← hiff, ← hpoll, ← hcutoff, OneLiveness, hlive, hkept, noLivePoller_singleton,
    livePoller_eq, Bool.not_inj_iff, Bool.eq_iff_iff, decide_eq_true_iff]
  simp

/-- Half a second after a cutoff on a whole second. -/
def halfSecondLate : Participant :=
  ⟨"api-opus-0001", "cbc-demo-19700101-0000", "api", "opus", "/api", "alice", 0, 500000000, 0, none,
    none, none⟩

theorem one_liveness_iff_halfSecondLate :
    ¬ OneLiveness (Rfc3339.Duration.minutes 15) halfSecondLate := by
  rw [(one_liveness_iff 500000000 0 (by decide) (by decide)).2 _ halfSecondLate rfl (by decide)]
  decide

/-- A participant that polled half a second inside the window is live for a close
and for the sweep, and yet is pruned and does not count for an extend. -/
theorem not_one_liveness : ¬ ∀ (now : OffsetDateTime) (p : Participant),
    (now - GHOST_AFTER).FourDigitYear → p.lastPollAt.FourDigitYear → OneLiveness now p := by
  intro h
  have hlive := h (Rfc3339.Duration.minutes 15) halfSecondLate (by decide) (by decide)
  revert hlive
  decide

end ChatBotChat
