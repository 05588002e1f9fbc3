/-
The room-lifecycle state machine of `lifecycle.rs`: the transition table, and
the time-based event the sweeper derives for a room.
-/
import ChatBotChat.Room

namespace ChatBotChat

/-- What may drive a room from one state to another. -/
inductive LifecycleEvent where
  | message
  | pause
  | wake
  | close
  | idle
  | stale
  | archive
  | ghostAllStale
deriving DecidableEq

/-- The event's name as `{event:?}` prints it. -/
def LifecycleEvent.debug : LifecycleEvent → String
  | .message => "Message"
  | .pause => "Pause"
  | .wake => "Wake"
  | .close => "Close"
  | .idle => "Idle"
  | .stale => "Stale"
  | .archive => "Archive"
  | .ghostAllStale => "GhostAllStale"

namespace Lifecycle

/-- The transition table; `none` is `IllegalTransition`. -/
def transition : RoomState → LifecycleEvent → Option RoomState
  | .active, .message => some .active
  | .active, .pause => some .paused
  | .active, .close => some .closed
  | .active, .idle => some .idle
  | .active, .ghostAllStale => some .idle
  | .idle, .message => some .active
  | .idle, .pause => some .paused
  | .idle, .wake => some .active
  | .idle, .close => some .closed
  | .idle, .stale => some .stale
  | .paused, .wake => some .active
  | .paused, .close => some .closed
  | .stale, .message => some .active
  | .stale, .close => some .closed
  | .stale, .archive => some .archived
  | .closed, .archive => some .archived
  | _, _ => none

/-- How long with no activity before `active` becomes `idle`. -/
def IDLE_AFTER : Duration := Rfc3339.Duration.hours 24
/-- Total inactivity before `idle` becomes `stale`. -/
def STALE_AFTER : Duration := Rfc3339.Duration.days 7
/-- How long in `stale` or `closed` before `archived`. -/
def ARCHIVE_AFTER : Duration := Rfc3339.Duration.days 14
/-- A participant that has not polled within this window is a ghost. -/
def GHOST_AFTER : Duration := Rfc3339.Duration.minutes 15

/-- True if every participant is a ghost. -/
def noLivePoller (participantsLastPoll : List OffsetDateTime) (now : OffsetDateTime) : Bool :=
  participantsLastPoll.all fun last => decide (now - last > GHOST_AFTER)

/-- The single time-based event implied by elapsed time and poller liveness. -/
def computeTimeEvent (state : RoomState) (lastActivityAt stateChangedAt : OffsetDateTime)
    (participantsLastPoll : List OffsetDateTime) (now : OffsetDateTime) :
    Option LifecycleEvent :=
  match state with
  | .active =>
    if now - lastActivityAt ≥ IDLE_AFTER then some .idle
    else if !participantsLastPoll.isEmpty && noLivePoller participantsLastPoll now then
      some .ghostAllStale
    else none
  | .idle =>
    if now - lastActivityAt ≥ STALE_AFTER ∧ noLivePoller participantsLastPoll now then some .stale
    else none
  | .stale | .closed =>
    if now - stateChangedAt ≥ ARCHIVE_AFTER then some .archive else none
  | .paused | .archived => none

/-- Whether some event takes `a` to `b`. -/
def Edge (a b : RoomState) : Prop := ∃ e, transition a e = some b

/-- No event leads into the active state from itself except a message; the
edges the daemon writes leave their state. -/
theorem transition_ne {a b : RoomState} {e : LifecycleEvent} (he : e ≠ .message)
    (h : transition a e = some b) : a ≠ b := by
  cases a <;> cases e <;> simp_all [transition] <;> subst h <;> decide

/-- A closed room can only become archived. -/
theorem edge_closed {b : RoomState} (h : Edge .closed b) : b = .archived := by
  obtain ⟨e, he⟩ := h
  cases e <;> simp_all [transition]

/-- An archived room is left by no event. -/
theorem not_edge_archived {b : RoomState} : ¬ Edge .archived b := by
  rintro ⟨e, he⟩
  cases e <;> simp [transition] at he

/-- The sweeper's event is always legal where it is computed. -/
theorem transition_computeTimeEvent {state : RoomState} {la sc now : OffsetDateTime}
    {polls : List OffsetDateTime} {e : LifecycleEvent}
    (h : computeTimeEvent state la sc polls now = some e) :
    ∃ b, transition state e = some b ∧ e ≠ .message := by
  cases state <;> simp only [computeTimeEvent] at h
  case active =>
    split_ifs at h
    · obtain rfl := Option.some_inj.mp h
      exact ⟨.idle, rfl, by decide⟩
    · obtain rfl := Option.some_inj.mp h
      exact ⟨.idle, rfl, by decide⟩
  case idle =>
    split_ifs at h
    obtain rfl := Option.some_inj.mp h
    exact ⟨.stale, rfl, by decide⟩
  case stale =>
    split_ifs at h
    obtain rfl := Option.some_inj.mp h
    exact ⟨.archived, rfl, by decide⟩
  case closed =>
    split_ifs at h
    obtain rfl := Option.some_inj.mp h
    exact ⟨.archived, rfl, by decide⟩
  case paused => cases h
  case archived => cases h

end Lifecycle

end ChatBotChat
