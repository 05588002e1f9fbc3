/-
The daemon: every request it serves and the sweep it runs, interleaved call by
call over one store.

A request that fails in a statement is answered with a 500 and does nothing
more; a request whose client goes away is dropped where it stands.  Both are
moves that a run may take at any of its calls.  `claimNextUnread` on its own is
served too: it is the storage call that `waitRoom` makes.
-/
import ChatBotChat.Interleave.Runs
import ChatBotChat.Http

namespace ChatBotChat

open Interleave

inductive Request where
  | openRoom (req : OpenRoomRequest)
  | listRooms (state : Option RoomState) (all : Bool)
  | joinRoom (id : String) (req : JoinRoomRequest)
  | sendMessage (id : String) (req : SendMessageRequest)
  | signalRoom (id : String) (req : SignalRequest)
  | waitRoom (id : String) (req : WaitRequest)
  | closeRoom (id : String) (req : LifecycleRequest)
  | extendRoom (id : String) (req : Caller)
  | pauseRoom (id : String) (req : LifecycleRequest)
  | wakeRoom (id : String) (req : LifecycleRequest)
  | pruneRoom (id : String)
  | sweep
  | claimNextUnread (roomId handle : String)
deriving DecidableEq

inductive Answer where
  | opened (response : OpenRoomResponse)
  | rooms (summaries : List RoomSummary)
  | joined (response : JoinRoomResponse)
  | sent (seq : ℕ)
  | signalled (seq : ℕ)
  | waited (response : WaitResponse)
  | closed (response : LifecycleResponse)
  | extended (response : ExtendResponse)
  | transitioned (response : LifecycleResponse)
  | pruned (response : PruneResponse)
  | swept (outcomes : List SweepOutcome)
  | claimed (message : Option Message)
deriving DecidableEq

/-- What a request ends with: its response, or an error. -/
abbrev Outcome : Type := Except ApiError Answer

/-- Hand a handler's result on as an answer. -/
def answering {α : Type} (f : α → Answer) (handler : Task (Except ApiError α)) : Task Outcome := do
  let result ← handler
  return result.map f

/-- The program that serves a request. -/
def serve (app : AppState) : Request → Task Outcome
  | .openRoom req => answering .opened (openRoom req)
  | .listRooms state all => answering .rooms (listRooms state all)
  | .joinRoom id req => answering .joined (joinRoom id req)
  | .sendMessage id req => answering .sent (sendMessage id req)
  | .signalRoom id req => answering .signalled (signalRoom id req)
  | .waitRoom id req => answering .waited (waitRoom app id req)
  | .closeRoom id req => answering .closed (closeRoom id req)
  | .extendRoom id req => answering .extended (extendRoom id req)
  | .pauseRoom id req => answering .transitioned (pauseRoom id req)
  | .wakeRoom id req => answering .transitioned (wakeRoom id req)
  | .pruneRoom id => answering .pruned (pruneRoom id)
  | .sweep => do return .ok (.swept (← sweepTick))
  | .claimNextUnread roomId handle => do
    return .ok (.claimed (← ChatBotChat.claimNextUnread roomId handle))

/-- The daemon as a system of interleaved requests. -/
def daemon (app : AppState) :
    System Call Call.Reply Store Request Outcome (List UInt16) (OffsetDateTime × ℕ) where
  body := serve app
  exec := Store.exec
  tick := Store.tick

/-- A configuration of the daemon. -/
abbrev Daemon : Type 1 := Config Call Call.Reply Store Request Outcome

/-- One executed call. -/
abbrev Step : Type := Interleave.Event Call Call.Reply Store

/-- The calls one request has made, with their replies, newest first. -/
abbrev Log : Type := Past Call Call.Reply

/-- What a run of the daemon does next. -/
abbrev Action : Type := Interleave.Action Request (List UInt16) (OffsetDateTime × ℕ)

/-- The room, the receiver and the deadline of a wait that is in `recv`. -/
def receiving : Thread Call Call.Reply Request Outcome → Option (String × ℕ × ℕ)
  | ⟨.waitRoom id _, .running (.call (.recv rx deadline) _)⟩ => some (id, rx, deadline)
  | _ => none

theorem receiving_spec {t : Thread Call Call.Reply Request Outcome} {id : String}
    {rx deadline : ℕ}
    (h : receiving t = some (id, rx, deadline)) :
    ∃ r f, t = ⟨.waitRoom id r, .running (.call (.recv rx deadline) f)⟩ := by
  unfold receiving at h
  split at h
  · cases h
    exact ⟨_, _, rfl⟩
  · cases h

/-- The request, and the call its program waits for. -/
def waitingAt : Thread Call Call.Reply Request Outcome → Option (Request × Call)
  | ⟨req, .running (.call k _)⟩ => some (req, k)
  | _ => none

theorem waitingAt_spec {t : Thread Call Call.Reply Request Outcome} {req : Request} {k : Call}
    (h : waitingAt t = some (req, k)) : ∃ f, t = ⟨req, .running (.call k f)⟩ := by
  unfold waitingAt at h
  split at h
  · cases h
    exact ⟨_, rfl⟩
  · cases h

/-- The request has been stopped: by a failed call, or because its client went away. -/
def hasStopped (t : Thread Call Call.Reply Request Outcome) : Bool :=
  match t.status with
  | .failed | .dropped => true
  | .running _ => false

theorem not_running_of_stopped {t : Thread Call Call.Reply Request Outcome}
    (h : hasStopped t = true) (p : Task Outcome) : t.status ≠ .running p := by
  intro hp
  rw [hasStopped, hp] at h
  cases h

/-- The configuration in which one more request has arrived. -/
def arrived (app : AppState) (req : Request) (c : Daemon) : Daemon :=
  { c with threads := c.threads ++ [⟨req, .running (serve app req)⟩] }

@[simp] theorem arrived_trace (app : AppState) (req : Request) (c : Daemon) :
    (arrived app req c).trace = c.trace := rfl

@[simp] theorem arrived_shared (app : AppState) (req : Request) (c : Daemon) :
    (arrived app req c).shared = c.shared := rfl

/-- A daemon that has just started on an empty database. -/
def boot (utc : OffsetDateTime) (instant : ℕ) : Daemon :=
  .initial ⟨.empty, ⟨[]⟩, utc, instant⟩

/-- The configurations some run of the daemon reaches. -/
def Reachable (app : AppState) (c : Daemon) : Prop :=
  ∃ utc instant, (daemon app).Run (boot utc instant) c

/-- Reached by a run all of whose moves meet `ok`. -/
def ReachableWith (app : AppState) (ok : Daemon → Action → Prop) (c : Daemon) : Prop :=
  ∃ utc instant, (daemon app).RunWith ok (boot utc instant) c

theorem ReachableWith.reachable {app : AppState} {ok : Daemon → Action → Prop} {c : Daemon}
    (h : ReachableWith app ok c) : Reachable app c := by
  obtain ⟨utc, instant, hrun⟩ := h
  exact ⟨utc, instant, hrun.run⟩

theorem run_arrived (app : AppState) (req : Request) (c : Daemon) :
    (daemon app).Run c (arrived app req c) := .move .refl trivial (a := .start req) rfl

theorem Reachable.run {app : AppState} {c c' : Daemon} (h : Reachable app c)
    (hrun : (daemon app).Run c c') : Reachable app c' := by
  obtain ⟨utc, instant, h⟩ := h
  exact ⟨utc, instant, h.trans hrun⟩

end ChatBotChat
