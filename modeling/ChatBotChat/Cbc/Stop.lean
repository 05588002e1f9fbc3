/-
`cbc hook stop`: the reconcile of the declared connections against the polls that
run, as `hook.rs` plans it and `main.rs` reads and reaps the process table.

The process table is what `ps -axww -o pid=,command=` prints, a row for each process.
A signalled process leaves it.
-/
import ChatBotChat.Cbc.Marker

namespace ChatBotChat

namespace Hook

/-! ### The plan -/

inductive ReconcileAction where
  | ok
  | killExtras
  | adviseRelaunch
deriving DecidableEq

/-- The decision over the number of live polls, and the hint that one is at work unseen. -/
def reconcileAction (n : ℕ) (pollHint : Bool) : ReconcileAction :=
  match n with
  | 1 => .ok
  | 0 => if pollHint then .ok else .adviseRelaunch
  | _ => .killExtras

structure KillOrder where
  roomId : Text
  identity : Option Text
deriving DecidableEq

/-- The arguments of a `poll_command` that is advised. -/
structure Relaunch where
  roomId : Text
  model : Text
  identity : Option Text
deriving DecidableEq

structure StopPlan where
  kills : List KillOrder
  relaunch : List Relaunch

/-- The loop of `plan_stop` for one connection. -/
def StopPlan.connection (count : Text → Option Text → ℕ)
    (launched recentlyPolled : Text → Option Text → Bool) (plan : StopPlan)
    (c : DeclaredConnection) : StopPlan :=
  let n := count c.roomId c.identity
  let pollHint := launched c.roomId c.identity || recentlyPolled c.roomId c.identity
  match reconcileAction n pollHint with
  | .ok => plan
  | .killExtras => { plan with kills := plan.kills ++ [⟨c.roomId, c.identity⟩] }
  | .adviseRelaunch =>
    { plan with relaunch := plan.relaunch ++ [⟨c.roomId, c.model, c.identity⟩] }

def planStop (conns : List DeclaredConnection) (count : Text → Option Text → ℕ)
    (launched recentlyPolled : Text → Option Text → Bool) : StopPlan :=
  conns.foldl (StopPlan.connection count launched recentlyPolled) ⟨[], []⟩

/-! ### The process table -/

/-- The number that the digits write. -/
def parseDigits (digits : Text) : Option ℕ :=
  if digits = [] ∨ digits.any fun c => !c.isDigit then none
  else some (digits.foldl (fun n c => 10 * n + (c.toNat - '0'.toNat)) 0)

/-- `str::parse` of an unsigned type. -/
def parseUnsigned (bits : ℕ) (text : Text) : Option ℕ :=
  (parseDigits ((['+'].isPrefixOf? text).getD text)).filter fun n => n < 2 ^ bits

/-- The pid and the command of a line, as `select_poll_pids` takes it apart. -/
def process (line : Text) : Option (ℕ × Text) :=
  let line := line.dropWhile isWhitespace
  match line.dropWhile fun c => !isWhitespace c with
  | [] => none
  | _ :: cmd =>
    (parseUnsigned 32 (line.takeWhile fun c => !isWhitespace c)).map fun pid =>
      (pid, cmd.dropWhile isWhitespace)

/-- The pids of the polls among the lines. -/
def selectPollPids (psOutput room : Text) (identity : Option Text) : List ℕ :=
  (lines psOutput).filterMap fun line => (process line).bind fun (pid, cmd) =>
    if pollMatches cmd room identity then some pid else none

/-- The pid of a row of the table. -/
def rowPid (row : Text) : Option ℕ := (process (stripCr row)).map Prod.fst

/-- The rows that `ps` prints; a pid is that of one process. -/
structure ProcTable where
  rows : List Text
  oneLine : ∀ row ∈ rows, '\n' ∉ row
  distinct : (rows.filterMap rowPid).Nodup

namespace ProcTable

/-- The text that `ps` prints. -/
def psOutput (table : ProcTable) : Text := table.rows.flatMap fun row => row ++ ['\n']

def matchingPollPids (table : ProcTable) (room : Text) (identity : Option Text) : List ℕ :=
  selectPollPids table.psOutput room identity

def countPolls (table : ProcTable) (room : Text) (identity : Option Text) : ℕ :=
  (table.matchingPollPids room identity).length

/-- The process that is signalled leaves the table. -/
def killPid (table : ProcTable) (pid : ℕ) : ProcTable where
  rows := table.rows.filter fun row => rowPid row ≠ some pid
  oneLine row hrow := table.oneLine row (List.mem_filter.mp hrow).1
  distinct := table.distinct.sublist (List.filter_sublist.filterMap rowPid)

/-- Reduce the polls of the connection to one, on the table as it is now. -/
def killSurplusPolls (table : ProcTable) (room : Text) (identity : Option Text) : ProcTable :=
  ((table.matchingPollPids room identity).drop 1).foldl killPid table

end ProcTable

/-! ### The handler -/

/-- The fields of the payload, absent where the payload is malformed or without them. -/
structure StopPayload where
  stopHookActive : Option Bool
  cwd : Option Text
  sessionId : Option Text

/-- What the handler leaves of the table, and the relaunches it advises. -/
structure StopOutcome where
  table : ProcTable
  advised : List Relaunch

/-- A quarter of an hour, in nanoseconds. -/
def POLL_ALIVE_WINDOW : ℤ := 15 * 60 * 10 ^ 9

/-- `<cwd>/.cbc`. -/
def cbcDirPath (cwd : Text) : List Text := [cwd, ".cbc".toList]

/-- The `Stop` handler; `cbcDir` lists `<cwd>/.cbc`, `currentDir` is the directory of the
process, and a blank input is no payload. -/
def runStop (cbcDir : Text → Option (List DirEntry)) (currentDir : Text) (files : Mtimes)
    (now : ℤ) (payload : Option StopPayload) (table : ProcTable) : StopOutcome :=
  match payload with
  | none => ⟨table, []⟩
  | some payload =>
    let stopHookActive := payload.stopHookActive.getD false
    let cwd := payload.cwd.getD currentDir
    let sessionId := payload.sessionId.filter fun s => !s.isEmpty
    let conns := scanDeclared (cbcDir cwd) sessionId
    if conns = [] then ⟨table, []⟩
    else
      -- by the time of the stop a poll launched in the turn is in the table
      let plan := planStop conns table.countPolls (fun _ _ => false) fun room identity =>
        recentlyPolled files (cbcDirPath cwd) room identity POLL_ALIVE_WINDOW now
      let table := plan.kills.foldl
        (fun table order => table.killSurplusPolls order.roomId order.identity) table
      -- the loop guard holds back the advice, not the kills
      ⟨table, if plan.relaunch ≠ [] ∧ !stopHookActive then plan.relaunch else []⟩

/-- The context of the advisory, which never blocks the turn. -/
def stopAdvise (relaunch : List Relaunch) : Text :=
  ("CBC liveness (advisory) — one or more declared rooms have NO live poll right now and " ++
    "none was launched this turn. A held room must ALWAYS have one standing `cbc poll` " ++
    "running; if you still hold these rooms, relaunch each as a background task now " ++
    "(run_in_background). A timer beat is only a backstop that re-arms a dead standing poll, " ++
    "never a substitute for it. This is a hint, not a block:").toList ++
  relaunch.flatMap fun r => "\n  ".toList ++ pollCommand r.roomId r.model r.identity

/-- What is written, if anything. -/
def StopOutcome.written (outcome : StopOutcome) : Option Text :=
  if outcome.advised = [] then none else some (stopAdvise outcome.advised)

end Hook

end ChatBotChat
