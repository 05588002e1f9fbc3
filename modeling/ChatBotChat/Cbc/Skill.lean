/-
`cbc install-skill`: the installer of `skill.rs`, over a tree of files with links.

What a skill's place is is decided once, before any write, and without following a link
there.  The writes behind that decision name their files by path again.
-/
import ChatBotChat.FileTree

namespace ChatBotChat

namespace Skill

open FileTree

structure BundledSkill where
  name : Name
  body : List UInt8

/-- The names of `BUNDLED_SKILLS`. -/
def bundledNames : List Name :=
  ["cbc".toList, "cbc-orchestrator".toList, "cbc-worker".toList, "cbc-peer".toList,
    "cbc-recap".toList, "cbc-reconcile".toList, "cbc-refresh".toList, "cbc-checkup".toList,
    "cbc-clean".toList]

inductive Outcome where
  | created
  | updated
  | alreadyPresent
  | skippedSymlink (target : Target)
  | replacedSymlink
deriving DecidableEq

/-- What failed, on which path. -/
inductive Failure where
  | inspecting (path : Path) (e : Errno)
  | reading (path : Path) (e : Errno)
  | backingUp (path : Path) (e : Errno)
  | removing (path : Path) (e : Errno)
  | creating (path : Path) (e : Errno)
  | writing (path : Path) (e : Errno)
deriving DecidableEq

/-- The state of `<skills_dir>/<name>`; a link is given by its directory and its name. -/
inductive TargetState where
  | absent
  | symlink (dir : Path) (name : Name) (target : Target)
  | realDir (upToDate : Bool)
deriving DecidableEq

def skillName : Name := "SKILL.md".toList

def backupName : Name := "SKILL.md.bak".toList

variable (nodes : Nodes) (links : ℕ) (skillsDir : Path) (name : Name) (body : List UInt8)

/-- Classify the place of a skill without following a link there. -/
def classify : Except Failure TargetState :=
  let skillDir := skillsDir ++ [name]
  match lstat nodes links skillsDir name with
  | .error .notFound => .ok .absent
  | .error e => .error (.inspecting skillDir e)
  | .ok (.link target) => .ok (.symlink skillsDir name target)
  | .ok _ =>
    -- whatever else is there counts as the directory
    match lstat nodes links skillDir skillName with
    | .ok (.link target) => .ok (.symlink skillDir skillName target)
    | _ =>
      match readFile nodes links (skillDir ++ [skillName]) with
      | .ok bytes => .ok (.realDir (bytes = body))
      -- a file that cannot be read is outdated, too
      | .error _ => .ok (.realDir false)

/-- Create the directory, if need be, and write the body. -/
def writeSkill (skillDir : Path) : Nodes × Except Failure Unit :=
  match createDirAll nodes links skillDir with
  | (nodes, .error e) => (nodes, .error (.creating skillDir e))
  | (nodes, .ok ()) =>
    match write nodes links (skillDir ++ [skillName]) body with
    | .error e => (nodes, .error (.writing (skillDir ++ [skillName]) e))
    | .ok nodes => (nodes, .ok ())

/-- Back up what is there to `SKILL.md.bak`. -/
def backUp (skillDir : Path) : Nodes × Except Failure Unit :=
  let skillFile := skillDir ++ [skillName]
  if exists_ nodes links skillFile then
    match readFile nodes links skillFile with
    | .error e => (nodes, .error (.reading skillFile e))
    | .ok original =>
      -- a link there is followed
      match write nodes links (skillDir ++ [backupName]) original with
      | .error e => (nodes, .error (.backingUp (skillDir ++ [backupName]) e))
      | .ok nodes => (nodes, .ok ())
  else (nodes, .ok ())

/-- A step whose result is the outcome. -/
def yields (outcome : Outcome) : Nodes × Except Failure Unit → Nodes × Except Failure Outcome
  | (nodes, .error e) => (nodes, .error e)
  | (nodes, .ok ()) => (nodes, .ok outcome)

/-- Install one skill; the tree it leaves, and what it reports. -/
def installOne (skill : BundledSkill) (force : Bool) : Nodes × Except Failure Outcome :=
  let skillDir := skillsDir ++ [skill.name]
  match classify nodes links skillsDir skill.name skill.body with
  | .error e => (nodes, .error e)
  | .ok .absent => yields .created (writeSkill nodes links skill.body skillDir)
  | .ok (.realDir true) => (nodes, .ok .alreadyPresent)
  | .ok (.realDir false) =>
    match backUp nodes links skillDir with
    | (nodes, .error e) => (nodes, .error e)
    | (nodes, .ok ()) => yields .updated (writeSkill nodes links skill.body skillDir)
  | .ok (.symlink dir name target) =>
    if !force then (nodes, .ok (.skippedSymlink target))
    else
      -- the link goes, and what it leads to stays
      match removeFile nodes links dir name with
      | .error e => (nodes, .error (.removing (dir ++ [name]) e))
      | .ok nodes => yields .replacedSymlink (writeSkill nodes links skill.body skillDir)

end Skill

end ChatBotChat
