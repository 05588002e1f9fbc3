/-
The state files of `hook.rs` and the relaunch of `cbc hook session-start`: the
parsers of the `connections:` block and of the two older shapes, the command a
poll is launched with and recognised by, the scans of `.cbc/`, and the handler.

A text is the list of its characters; a file name is its bytes, which need not
be UTF-8.
-/
import ChatBotChat.Cbc.Words
import ChatBotChat.Ids
import Mathlib.Data.List.Sort

namespace ChatBotChat

abbrev Text := List Char

namespace Hook

open Words

/-! ### Texts -/

def trim (text : Text) : Text := trimMatches isWhitespace text

def splitWhitespace (text : Text) : List Text := words isWhitespace text

/-- A line that ended in a line feed, without the carriage return before it. -/
def stripCr (line : Text) : Text :=
  if line.getLast? = some '\r' then line.dropLast else line

/-- `str::lines`. -/
def lines (text : Text) : List Text :=
  let pieces := text.splitOn '\n'
  let last := pieces.getLastD []
  pieces.dropLast.map stripCr ++ if last = [] then [] else [last]

/-- A line, and the lines behind its line feed. -/
theorem lines_append_cons {line : Text} (h : '\n' ∉ line) (rest : Text) :
    lines (line ++ '\n' :: rest) = stripCr line :: lines rest := by
  have hline : ∀ c ∈ line, (c == '\n') = false := fun c hc =>
    beq_eq_false_iff_ne.mpr fun heq => h (heq ▸ hc)
  have hpieces : (line ++ '\n' :: rest).splitOn '\n' = line :: rest.splitOn '\n' := by
    rw [List.splitOn, List.splitOnP_append_cons _ _ (by simp), List.splitOnP_eq_singleton hline]
    rfl
  obtain ⟨piece, pieces, hrest⟩ := List.exists_cons_of_ne_nil (List.splitOnP_ne_nil (· == '\n') rest)
  rw [lines, lines, hpieces, List.splitOn, hrest]
  rfl

/-- The text before and behind the first `pat`. -/
def splitOnce (pat : Text) : Text → Option (Text × Text)
  | [] => if pat = [] then some ([], []) else none
  | c :: text =>
    if pat <+: c :: text then some ([], (c :: text).drop pat.length)
    else (splitOnce pat text).map fun (before, behind) => (c :: before, behind)

/-- Whether a line stands inside a block. -/
def indented (line : Text) : Bool := line.head? = some ' ' || line.head? = some '\t'

/-! ### Parsing helpers -/

/-- The value part of a `key: value` line. -/
def kv (line key : Text) : Option Text := do
  let rest ← key.isPrefixOf? line
  let rest ← [':'].isPrefixOf? rest
  return trim rest

/-- The token that follows `flag`, before any comment, if it is not a flag
itself; what trails an identity is cut off. -/
def flagValue (source flag : Text) : Option Text :=
  let toks := (splitWhitespace source).takeWhile fun t => !(['#'].isPrefixOf t)
  ((((after flag toks).filter fun v => !(['-', '-'].isPrefixOf v)).map
    fun s => s.rdropWhile fun c => !c.isAlphanum && c ≠ '-' && c ≠ '_').filter fun s => !s.isEmpty)

/-- Whether the file contains `status: ACTIVE`. -/
def isActive (content : Text) : Bool :=
  (lines content).any fun l => kv (trim l) "status".toList = some "ACTIVE".toList

/-- The first value a line of the file gives to the key. -/
def field (content key : Text) : Option Text :=
  (lines content).findSome? fun l => kv (trim l) key

/-- The `session-id:` stamp of the session that owns a state file. -/
def ownerSession (content : Text) : Option Text :=
  (field content "session-id".toList).filter fun v => !v.isEmpty

/-! ### The state files -/

structure WorkerEntry where
  roomId : Text
  pollLabel : Text
  model : Text
  identity : Option Text
deriving DecidableEq

structure OrchestratorEntry where
  model : Text
  /-- The agent's name and its room. -/
  rooms : List (Text × Text)
deriving DecidableEq

inductive ActiveEntry where
  | worker (w : WorkerEntry)
  | orchestrator (o : OrchestratorEntry)
deriving DecidableEq

/-- What a `cbc poll` of one room is launched with. -/
structure DeclaredConnection where
  name : Text
  roomId : Text
  identity : Option Text
  model : Text
deriving DecidableEq

/-- The model of a file that names none. -/
def noModel : Text := "<model>".toList

/-- The loop of `parse_connections` between two lines. -/
structure ConnectionsScan where
  conns : List DeclaredConnection
  inBlock : Bool

/-- `<name>: <room-id> [--as <identity>] [--model <model>]`. -/
def parseConnection (trimmed : Text) : Option DeclaredConnection := do
  let (name, rest) ← splitOnce [':'] trimmed
  let rest := trim rest
  let roomId ← (splitWhitespace rest).head?
  return ⟨trim name, roomId, flagValue rest "--as".toList,
    (flagValue rest "--model".toList).getD noModel⟩

def ConnectionsScan.line (st : ConnectionsScan) (line : Text) : ConnectionsScan :=
  let trimmed := trim line
  if trimmed = "connections:".toList then { st with inBlock := true }
  else if !st.inBlock then st
  else if trimmed = [] then st
  else if !indented line then { st with inBlock := false }
  else { st with conns := st.conns ++ (parseConnection trimmed).toList }

/-- The connections of the `connections:` block. -/
def parseConnections (content : Text) : List DeclaredConnection :=
  ((lines content).foldl ConnectionsScan.line ⟨[], false⟩).conns

/-- A `worker-*.md` file: active, with a `room-id`. -/
def parseWorker (content : Text) : Option WorkerEntry :=
  if !isActive content then none
  else do
    let roomId ← field content "room-id".toList
    let pollLabel := (field content "poll-label".toList).getD []
    let identity := flagValue pollLabel "--as".toList
    let model := ((field content "model".toList).or
      (flagValue pollLabel "--model".toList)).getD noModel
    return ⟨roomId, pollLabel, model, identity⟩

/-- The loop of `parse_orchestrator` between two lines. -/
structure AgentsScan where
  model : Option Text
  inAgents : Bool
  rooms : List (Text × Text)

/-- `<name>: <room-id> ...`. -/
def parseAgent (trimmed : Text) : Option (Text × Text) := do
  let (name, rest) ← splitOnce [':', ' '] trimmed
  let roomId ← (splitWhitespace (trim rest)).head?
  return (trim name, roomId)

def AgentsScan.line (st : AgentsScan) (line : Text) : AgentsScan :=
  let trimmed := trim line
  let model := if st.model.isNone && !indented line then kv trimmed "model".toList else st.model
  if trimmed = "agents:".toList then ⟨model, true, st.rooms⟩
  else if !st.inAgents then ⟨model, false, st.rooms⟩
  else if trimmed = [] then ⟨model, true, st.rooms⟩
  else if !indented line then ⟨model, false, st.rooms⟩
  else ⟨model, true, st.rooms ++ (parseAgent trimmed).toList⟩

/-- An `orchestration-*.md` file: active, with an entry in its `agents:` block. -/
def parseOrchestrator (content : Text) : Option OrchestratorEntry :=
  if !isActive content then none
  else
    let scan := (lines content).foldl AgentsScan.line ⟨none, false, []⟩
    if scan.rooms = [] then none else some ⟨scan.model.getD noModel, scan.rooms⟩

/-- The connections of a state file: its block, else the older shapes. -/
def declaredConnections (content : Text) : List DeclaredConnection :=
  let fromBlock := parseConnections content
  if fromBlock ≠ [] then fromBlock
  else match parseOrchestrator content with
    | some o => o.rooms.map fun (name, roomId) => ⟨name, roomId, none, o.model⟩
    | none => match parseWorker content with
      | some w => [⟨w.pollLabel, w.roomId, w.identity, w.model⟩]
      | none => []

/-! ### The command of a poll -/

/-- The exact command a poll is launched with. -/
def pollCommand (roomId model : Text) : Option Text → Text
  | some id =>
    "cbc poll ".toList ++ roomId ++ " --model ".toList ++ model ++ " --as ".toList ++ id
  | none => "cbc poll ".toList ++ roomId ++ " --model ".toList ++ model

/-- Whether a command line is a live poll of the room, under the identity. -/
def pollMatches (cmdline room : Text) (identity : Option Text) : Bool :=
  let toks := splitWhitespace cmdline
  let argv0IsCbc := (toks[0]?.map fun a => a.rtakeWhile (· ≠ '/') == "cbc".toList).getD false
  if !argv0IsCbc then false
  else if toks[1]? ≠ some "poll".toList then false
  else if toks[2]? ≠ some room then false
  else match identity with
    | none => true
    | some id => ((after "--as".toList toks).map (· == id)).getD false

/-! ### The directory -/

/-- A file of `.cbc/`; one that cannot be read as text has no content. -/
structure DirEntry where
  name : List UInt8
  content : Option Text
deriving DecidableEq

/-- The bytes of a name. -/
def nameBytes (name : String) : List UInt8 := name.toUTF8.data.toList

/-- `OsStr::to_str`. -/
def toStr (name : List UInt8) : Option Text :=
  (String.fromUTF8? ⟨name.toArray⟩).map String.toList

/-- `Path::extension`: what follows the last dot, unless nothing precedes it. -/
def extension (name : List UInt8) : Option (List UInt8) :=
  let isDot := fun b : UInt8 => decide (b = 46)
  let stem := (name.rdropWhile (!isDot ·)).dropLast
  if stem = [] then none else some (name.rtakeWhile (!isDot ·))

/-- The `.md` files of the directory, sorted by name. -/
def mdFiles (dir : Option (List DirEntry)) : List DirEntry :=
  ((dir.getD []).filter fun e => extension e.name = some (nameBytes "md")).insertionSort
    fun e f => e.name ≤ f.name

/-- What `scan_active` makes of one file. -/
def activeIn (file : DirEntry) : Option ActiveEntry := do
  let fname ← toStr file.name
  let content ← file.content
  if "worker-".toList <+: fname then (parseWorker content).map .worker
  else if "orchestration-".toList <+: fname then (parseOrchestrator content).map .orchestrator
  else none

/-- The active `worker-*.md` and `orchestration-*.md` files. -/
def scanActive (dir : Option (List DirEntry)) : List ActiveEntry :=
  (mdFiles dir).filterMap activeIn

/-- What `scan_declared` takes from one file. -/
def declaredIn (sessionId : Option Text) (file : DirEntry) : List DeclaredConnection :=
  match file.content with
  | none => []
  | some content =>
    if !isActive content then []
    else match sessionId with
      | some sid => if ownerSession content ≠ some sid then [] else declaredConnections content
      | none => declaredConnections content

/-- The connections of all active state files. -/
def scanDeclared (dir : Option (List DirEntry)) (sessionId : Option Text) :
    List DeclaredConnection :=
  (mdFiles dir).flatMap (declaredIn sessionId)

/-! ### The relaunch -/

def POLL_LIVE_INOCULATION : String :=
  "Do NOT check poll_live or ps to decide whether to skip this — a " ++
  "pre-compaction poll can read alive (process running, poll_live: true) " ++
  "while orphaned from THIS session and unable to reach it. Relaunch " ++
  "regardless of what any liveness check says."

/-- What the handler does: a call of `kill_fn`, a line of the directive, or the
line of a relaunch command and the comment behind it. -/
inductive Effect where
  | kill (roomId : Text) (identity : Option Text)
  | line (text : String)
  | command (roomId model : Text) (identity : Option Text) (comment : Option Text)
deriving DecidableEq

/-- What an effect writes to the output. -/
def Effect.written : Effect → Text
  | .kill _ _ => []
  | .line text => text.toList ++ ['\n']
  | .command roomId model identity none =>
    "  ".toList ++ pollCommand roomId model identity ++ ['\n']
  | .command roomId model identity (some comment) =>
    "  ".toList ++ pollCommand roomId model identity ++ "      # ".toList ++ comment ++ ['\n']

/-- The relaunch directive of an entry. -/
def emitRelaunch (idOf : Text → Option Text) : ActiveEntry → List Effect
  | .worker w =>
    let id := idOf w.roomId
    [.kill w.roomId id,
      .line "",
      .line ("⚠ CBC POLL RESTART REQUIRED (post-compaction). " ++
        "Your background poll did NOT survive."),
      .line ("FIRST ACTION, before reading files or composing anything — " ++
        "relaunch as a background task:"),
      .command w.roomId w.model id (if w.pollLabel.isEmpty then none else some w.pollLabel),
      .line "The room is ACTIVE; you are deaf until this poll is running.",
      .line POLL_LIVE_INOCULATION]
  | .orchestrator o =>
    [.line "",
      .line ("⚠ CBC POLL RESTART REQUIRED (post-compaction). " ++
        "Your background polls did NOT survive."),
      .line ("FIRST ACTION, before reading files or composing anything — " ++
        "relaunch ALL room polls as background tasks:")] ++
    (o.rooms.flatMap fun (name, roomId) =>
      let id := idOf roomId
      [.kill roomId id, .command roomId o.model id (some (name ++ " poll".toList))]) ++
    [.line "All rooms are ACTIVE; you are deaf until all polls are running.",
      .line POLL_LIVE_INOCULATION]

/-- The fields of the payload the handler reads, absent where the payload is
empty, malformed or without them. -/
structure Payload where
  source : Option Text
  cwd : Option Text

/-- The identity a list of connections declares first for the room. -/
def idOf (declared : List DeclaredConnection) (room : Text) : Option Text :=
  (declared.find? (·.roomId = room)).bind DeclaredConnection.identity

/-- The `SessionStart` handler; `cbcDir` lists `<cwd>/.cbc`, and `currentDir` is
the directory of the process. -/
def runSessionStart (cbcDir : Text → Option (List DirEntry)) (currentDir : Text)
    (payload : Payload) : List Effect :=
  let source := payload.source.getD "startup".toList
  if source ≠ "compact".toList ∧ source ≠ "resume".toList then []
  else
    let dir := cbcDir (payload.cwd.getD currentDir)
    let entries := scanActive dir
    let declared := scanDeclared dir none
    entries.flatMap (emitRelaunch (idOf declared))

end Hook

end ChatBotChat
