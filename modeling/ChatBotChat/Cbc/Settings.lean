/-
`cbc allow-tools` and `cbc install-hooks`: the merges of `settings.rs` into a settings
file that is kept by hand.

A merge changes the document in place, on its way down to the array it belongs in, and a
wrong type on the way is an error.
-/
import ChatBotChat.Cbc.Hook
import ChatBotChat.JsonValue

namespace ChatBotChat

namespace Settings

open JsonValue

/-! ### The merges -/

/-- The array that a merge adds to, `settings[outer][inner]`, and what it adds unless it is
there already. -/
structure Site where
  outer : Key
  inner : Key
  rootError : Text
  outerError : Text
  innerError : Text
  present : List Value → Bool
  item : Value
  absent_nil : present [] = false
  present_append : ∀ xs, present (xs ++ [item]) = true

/-- The loop over the array, and the push behind it. -/
def Site.push (s : Site) (xs : List Value) : List Value × Except Text Bool :=
  if s.present xs then (xs, .ok false) else (xs ++ [s.item], .ok true)

/-- The merge: every level that is missing is created before the next one is checked. -/
def Site.ensure (s : Site) (settings : Value) : Value × Except Text Bool :=
  inObject s.rootError
    (atEntry s.outer (.object [])
      (inObject s.outerError
        (atEntry s.inner (.array []) (inArray s.innerError s.push)))) settings

theorem string_mem_iff {xs : List Value} {text : Text} :
    (xs.any fun v => v.asStr = some text) = true ↔ .string text ∈ xs := by
  rw [List.any_eq_true]
  constructor
  · rintro ⟨v, hv, htext⟩
    rw [decide_eq_true_eq] at htext
    cases v with
    | string t =>
      obtain rfl := Option.some_inj.mp htext
      exact hv
    | _ => cases htext
  · exact fun h => ⟨_, h, by simp [Value.asStr]⟩

def allowSite (rule : Text) : Site where
  outer := "permissions".toList
  inner := "allow".toList
  rootError := "settings root is not a JSON object; refusing to overwrite it".toList
  outerError := "`permissions` is not a JSON object; refusing to overwrite it".toList
  innerError := "`permissions.allow` is not a JSON array; refusing to overwrite it".toList
  present xs := xs.any fun v => v.asStr = some rule
  item := .string rule
  absent_nil := rfl
  present_append _ := string_mem_iff.mpr (List.mem_append_right _ (List.mem_singleton_self _))

/-- Ensure that `settings["permissions"]["allow"]` contains the rule. -/
def ensureAllowRule (settings : Value) (rule : Text) : Value × Except Text Bool :=
  (allowSite rule).ensure settings

/-- The wrapper around a command. -/
def commandHook (command : Text) : Value :=
  .object [("hooks".toList, .array [.object [("type".toList, .string "command".toList),
    ("command".toList, .string command)]])]

/-- Whether the wrapper has an entry with the command. -/
def hasCommand (command : Text) (wrapper : Value) : Bool :=
  ((wrapper.get "hooks".toList).bind Value.asArray).any fun inner =>
    inner.any fun entry => (entry.get "command".toList).bind Value.asStr = some command

def hookSite (event command : Text) : Site where
  outer := "hooks".toList
  inner := event
  rootError := "settings root is not a JSON object; refusing to overwrite it".toList
  outerError := "`hooks` is not a JSON object; refusing to overwrite it".toList
  innerError := "`hooks.".toList ++ event ++
    "` is not a JSON array; refusing to overwrite it".toList
  present xs := xs.any (hasCommand command)
  item := commandHook command
  absent_nil := rfl
  present_append xs := by
    have hitem : hasCommand command (commandHook command) = true := by
      simp [hasCommand, commandHook, Value.get, lookup, Value.asArray, Value.asStr]
    rw [List.any_append]
    simp [hitem]

/-- Ensure that `settings["hooks"][event]` has a wrapper with the command. -/
def ensureCommandHook (settings : Value) (event command : Text) : Value × Except Text Bool :=
  (hookSite event command).ensure settings

def ensureSessionStartHook (settings : Value) : Value × Except Text Bool :=
  ensureCommandHook settings "SessionStart".toList "cbc hook session-start".toList

def ensureStopHook (settings : Value) : Value × Except Text Bool :=
  ensureCommandHook settings "Stop".toList "cbc hook stop".toList

/-! ### The file -/

inductive Outcome where
  | created
  | added
  | alreadyPresent
deriving DecidableEq

inductive Write where
  | write (path text : Text)
  | createDirAll (path : Text)
deriving DecidableEq

/-- What a call meets: the file as it is, JSON's text form, and which of the writes go
through. -/
structure Env where
  path : Text
  parent : Option Text
  existed : Bool
  /-- The text of the file, if it can be read. -/
  content : Option Text
  parse : Text → Option Value
  render : Value → Option Text
  succeeds : Write → Bool

/-- The settings of the file; a missing file is an empty one. -/
def load (env : Env) : Except Text (Text × Value) := do
  let original ← if env.existed then
      match env.content with
      | some text => .ok text
      | none => .error ("reading ".toList ++ env.path)
    else .ok []
  -- a blank file is an empty document
  if Hook.trim original = [] then return (original, .object [])
  match env.parse original with
  | some settings => return (original, settings)
  | none => .error ("parsing ".toList ++ env.path ++ " as JSON".toList)

/-- A write is tried, and what comes behind it only where it goes through. -/
def tryWrite (env : Env) (w : Write) (error : Text)
    (next : List Write × Except Text Outcome) : List Write × Except Text Outcome :=
  if env.succeeds w then (w :: next.1, next.2) else ([w], .error error)

/-- The writes behind a merge that changed something. -/
def store (env : Env) (original : Text) (settings : Value) : List Write × Except Text Outcome :=
  let last := match env.render settings with
    | none => ([], .error "serializing settings".toList)
    | some rendered => tryWrite env (.write env.path (rendered ++ ['\n']))
        ("writing ".toList ++ env.path) ([], .ok (if env.existed then .added else .created))
  if env.existed then
    -- a file that was there is kept beside the new one
    let backup := env.path ++ ".bak".toList
    tryWrite env (.write backup original) ("backing up to ".toList ++ backup) last
  else match env.parent with
    | some parent => tryWrite env (.createDirAll parent) ("creating ".toList ++ parent) last
    | none => last

/-- Read the settings, merge, and write them only if that changed anything. -/
def applyRule (merge : Value → Value × Except Text Bool) (env : Env) :
    List Write × Except Text Outcome :=
  match load env with
  | .error e => ([], .error e)
  | .ok (original, settings) =>
    match merge settings with
    | (_, .error e) => ([], .error e)
    | (_, .ok false) => ([], .ok .alreadyPresent)
    | (settings, .ok true) => store env original settings

def CBC_ALLOW_RULE : Text := "mcp__chatbotchat".toList

def applyAllowRule (env : Env) : List Write × Except Text Outcome :=
  applyRule (fun settings => ensureAllowRule settings CBC_ALLOW_RULE) env

/-- Both hooks, the second also where the first was there already. -/
def ensureHooks (settings : Value) : Value × Except Text Bool :=
  match ensureSessionStartHook settings with
  | (settings, .error e) => (settings, .error e)
  | (settings, .ok changedSessionStart) =>
    match ensureStopHook settings with
    | (settings, .error e) => (settings, .error e)
    | (settings, .ok changedStop) => (settings, .ok (changedSessionStart || changedStop))

def applyHookRule (env : Env) : List Write × Except Text Outcome := applyRule ensureHooks env

end Settings

end ChatBotChat
