/-
What `cbc hook session-start` relaunches, against what the state files declare.

The handler reads the files twice: `scan_active` decides which rooms it emits,
`scan_declared` under which identity.

* `relaunch_covers_iff` — every declared connection is relaunched exactly when
  its room stands in a `worker-*` or `orchestration-*` file, and the first
  connection declared for that room, over all files, has its identity;
* `relaunch_scoped_iff` — what is emitted for a file carries that file's own
  identities exactly when the first file to declare a room agrees with it.
-/
import ChatBotChat.Cbc.Hook

namespace ChatBotChat.Hook

variable {dir : Option (List DirEntry)} {declared : List DeclaredConnection}
  {file : DirEntry} {entry : ActiveEntry} {room : Text} {identity : Option Text}
  {c : DeclaredConnection}

/-! ### What an entry emits -/

/-- The rooms of an entry. -/
def ActiveEntry.rooms : ActiveEntry → List Text
  | .worker w => [w.roomId]
  | .orchestrator o => o.rooms.map Prod.snd

/-- The effects act on the room under the identity: they kill its polls, or
relaunch one. -/
def Emits (out : List Effect) (room : Text) (identity : Option Text) : Prop :=
  .kill room identity ∈ out ∨ ∃ model comment, .command room model identity comment ∈ out

/-- An entry is emitted under the identity its room resolves to. -/
theorem emits_emitRelaunch {f : Text → Option Text}
    (h : Emits (emitRelaunch f entry) room identity) : room ∈ entry.rooms ∧ identity = f room := by
  cases entry with
  | worker w =>
    have hroom : room = w.roomId ∧ identity = f w.roomId := by
      simpa [Emits, emitRelaunch] using h
    obtain ⟨rfl, rfl⟩ := hroom
    exact ⟨List.mem_singleton_self _, rfl⟩
  | orchestrator o =>
    simp only [Emits, emitRelaunch, List.mem_append, List.mem_flatMap, List.mem_cons,
      List.not_mem_nil, reduceCtorEq, or_false, false_or, Effect.kill.injEq,
      Effect.command.injEq] at h
    rcases h with ⟨r, hr, rfl, rfl⟩ | ⟨model, comment, r, hr, rfl, -, rfl, -⟩
    · exact ⟨List.mem_map_of_mem hr, rfl⟩
    · exact ⟨List.mem_map_of_mem hr, rfl⟩

/-- Every room of an entry gets a command. -/
theorem exists_command (f : Text → Option Text) (h : room ∈ entry.rooms) :
    ∃ model comment, .command room model (f room) comment ∈ emitRelaunch f entry := by
  cases entry with
  | worker w =>
    obtain rfl := List.mem_singleton.mp h
    exact ⟨w.model, _, by simp [emitRelaunch]; rfl⟩
  | orchestrator o =>
    obtain ⟨r, hr, rfl⟩ := List.mem_map.mp h
    refine ⟨o.model, some (r.1 ++ " poll".toList), ?_⟩
    simp only [emitRelaunch, List.mem_append, List.mem_flatMap]
    exact .inl (.inr ⟨r, hr, by simp⟩)

/-! ### The handler, file by file -/

/-- What the handler emits for one file. -/
def relaunchOf (dir : Option (List DirEntry)) (file : DirEntry) : List Effect :=
  match activeIn file with
  | some entry => emitRelaunch (idOf (scanDeclared dir none)) entry
  | none => []

/-- After a compaction or a resume. -/
def Payload.restarts (payload : Payload) : Prop :=
  payload.source = some "compact".toList ∨ payload.source = some "resume".toList

theorem runSessionStart_eq (cbcDir : Text → Option (List DirEntry)) (currentDir : Text)
    {payload : Payload} (h : payload.restarts) :
    runSessionStart cbcDir currentDir payload =
      (mdFiles (cbcDir (payload.cwd.getD currentDir))).flatMap
        (relaunchOf (cbcDir (payload.cwd.getD currentDir))) := by
  have hsource : ¬ (payload.source.getD "startup".toList ≠ "compact".toList ∧
      payload.source.getD "startup".toList ≠ "resume".toList) := by
    rcases h with h | h <;> rw [h] <;> simp
  unfold runSessionStart
  simp only [if_neg hsource, scanActive]
  rw [List.filterMap_eq_flatMap_toList, List.flatMap_assoc]
  refine List.flatMap_congr fun file _ => ?_
  rw [relaunchOf]
  cases activeIn file <;> simp

/-! ### Coverage -/

/-- The output holds a relaunch of the connection, under its identity if it
declares one. -/
def Relaunched (out : List Effect) (c : DeclaredConnection) : Prop :=
  ∃ model identity comment, .command c.roomId model identity comment ∈ out ∧
    (c.identity.isSome → identity = c.identity)

/-- Every declared room stands in a file that is scanned for rooms, and the first
connection declared for it has every identity declared for it. -/
structure Covered (dir : Option (List DirEntry)) : Prop where
  listed : ∀ c ∈ scanDeclared dir none,
    ∃ file ∈ mdFiles dir, ∃ entry, activeIn file = some entry ∧ c.roomId ∈ entry.rooms
  first : ∀ c ∈ scanDeclared dir none, c.identity.isSome →
    ∀ d, (scanDeclared dir none).find? (·.roomId = c.roomId) = some d → d.identity = c.identity

/-- **Relaunch covers every declared poll**, of a covered directory. -/
theorem relaunch_covers_iff (cbcDir : Text → Option (List DirEntry)) (currentDir : Text)
    (payload : Payload) (h : payload.restarts) :
    (∀ c ∈ scanDeclared (cbcDir (payload.cwd.getD currentDir)) none,
      Relaunched (runSessionStart cbcDir currentDir payload) c) ↔
    Covered (cbcDir (payload.cwd.getD currentDir)) := by
  rw [runSessionStart_eq cbcDir currentDir h]
  generalize cbcDir (payload.cwd.getD currentDir) = dir
  constructor
  · intro hall
    have hemitted : ∀ c ∈ scanDeclared dir none, ∃ file ∈ mdFiles dir, ∃ entry,
        activeIn file = some entry ∧ c.roomId ∈ entry.rooms ∧
          (c.identity.isSome → idOf (scanDeclared dir none) c.roomId = c.identity) := by
      intro c hc
      obtain ⟨model, identity, comment, hmem, hid⟩ := hall c hc
      obtain ⟨file, hfile, hmem⟩ := List.mem_flatMap.mp hmem
      rw [relaunchOf] at hmem
      cases hentry : activeIn file with
      | none =>
        rw [hentry] at hmem
        cases hmem
      | some entry =>
        rw [hentry] at hmem
        obtain ⟨hroom, rfl⟩ := emits_emitRelaunch (.inr ⟨model, comment, hmem⟩)
        exact ⟨file, hfile, entry, hentry, hroom, hid⟩
    refine ⟨fun c hc => ?_, fun c hc hsome d hd => ?_⟩
    · obtain ⟨file, hfile, entry, hentry, hroom, -⟩ := hemitted c hc
      exact ⟨file, hfile, entry, hentry, hroom⟩
    · obtain ⟨-, -, -, -, -, hid⟩ := hemitted c hc
      have hfirst := hid hsome
      rwa [idOf, hd] at hfirst
  · intro hcovered c hc
    obtain ⟨file, hfile, entry, hentry, hroom⟩ := hcovered.listed c hc
    obtain ⟨model, comment, hmem⟩ := exists_command (idOf (scanDeclared dir none)) hroom
    refine ⟨model, idOf (scanDeclared dir none) c.roomId, comment,
      List.mem_flatMap.mpr ⟨file, hfile, ?_⟩, fun hsome => ?_⟩
    · rw [relaunchOf, hentry]
      exact hmem
    · have hfound : ((scanDeclared dir none).find? (·.roomId = c.roomId)).isSome :=
        List.find?_isSome.mpr ⟨c, hc, by simp⟩
      obtain ⟨d, hd⟩ := Option.isSome_iff_exists.mp hfound
      rw [idOf, hd]
      exact hcovered.first c hc hsome d hd

/-- A worker's file. -/
def workerFile : DirEntry :=
  ⟨nameBytes "worker-feat.md", some ("status: ACTIVE\nroom-id: room-a-20260625-1000\n" ++
    "connections:\n  orch: room-a-20260625-1000 --as repo-worker-feat\n").toList⟩

theorem relaunch_covers_iff_workerFile : scanDeclared (some [workerFile]) none ≠ [] ∧
    ∀ c ∈ scanDeclared (some [workerFile]) none, Relaunched
      (runSessionStart (fun _ => some [workerFile]) [] ⟨some "compact".toList, none⟩) c := by
  obtain ⟨hdeclared, hfile, hlisted, hfirst⟩ : scanDeclared (some [workerFile]) none ≠ [] ∧
      workerFile ∈ mdFiles (some [workerFile]) ∧
      (∀ c ∈ scanDeclared (some [workerFile]) none,
        (activeIn workerFile).any (fun entry => entry.rooms.contains c.roomId) = true) ∧
      ∀ c ∈ scanDeclared (some [workerFile]) none, ∀ d ∈ scanDeclared (some [workerFile]) none,
        d.identity = c.identity := by decide +kernel
  refine ⟨hdeclared, (relaunch_covers_iff (fun _ => some [workerFile]) []
    ⟨some "compact".toList, none⟩ (.inl rfl)).mpr ⟨fun c hc => ?_, fun c hc _ d hd => ?_⟩⟩
  · obtain ⟨entry, hentry, hroom⟩ := (Option.any_eq_true _ _).mp (hlisted c hc)
    exact ⟨workerFile, hfile, entry, hentry, List.contains_iff_mem.mp hroom⟩
  · exact hfirst c hc d (List.mem_of_find?_eq_some hd)

/-- A state file that is neither a worker's nor an orchestrator's. -/
def apiInstructions : List DirEntry :=
  [⟨nameBytes "api-instructions-20260625.md", some
    "status: ACTIVE\nconnections:\n  orch: room-a-20260625-1000 --as api --model opus\n".toList⟩]

/-- The connection of that file is declared, and nothing is relaunched. -/
theorem not_relaunch_covers : ¬ ∀ (cbcDir : Text → Option (List DirEntry)) (currentDir : Text)
    (payload : Payload), payload.restarts →
    ∀ c ∈ scanDeclared (cbcDir (payload.cwd.getD currentDir)) none,
      Relaunched (runSessionStart cbcDir currentDir payload) c := by
  intro h
  obtain ⟨model, identity, comment, hmem, -⟩ := h (fun _ => some apiInstructions) []
    ⟨some "compact".toList, none⟩ (.inl rfl)
    ⟨"orch".toList, "room-a-20260625-1000".toList, some "api".toList, "opus".toList⟩
    (by decide +kernel)
  have hnothing : runSessionStart (fun _ => some apiInstructions) []
      ⟨some "compact".toList, none⟩ = [] := by decide +kernel
  rw [hnothing] at hmem
  cases hmem

/-! ### Scope -/

/-- The identity is one that the file declares for the room, or none where the
file declares no connection for it. -/
def DeclaresFor (file : DirEntry) (room : Text) (identity : Option Text) : Prop :=
  (∃ c ∈ declaredIn none file, c.roomId = room ∧ c.identity = identity) ∨
    (∀ c ∈ declaredIn none file, c.roomId ≠ room) ∧ identity = none

/-- The first file, by name, that declares a connection for the room. -/
def firstDeclaring (dir : Option (List DirEntry)) (room : Text) : Option DirEntry :=
  (mdFiles dir).find? fun file => (declaredIn none file).any (·.roomId = room)

/-- A room resolves to what the first file that declares it says. -/
theorem idOf_scanDeclared (dir : Option (List DirEntry)) (room : Text) :
    idOf (scanDeclared dir none) room =
      (firstDeclaring dir room).bind fun file => idOf (declaredIn none file) room := by
  rw [idOf, scanDeclared, List.find?_flatMap, firstDeclaring]
  induction mdFiles dir with
  | nil => rfl
  | cons file files ih =>
    rw [List.findSome?_cons, List.find?_cons]
    cases hfound : (declaredIn none file).find? (·.roomId = room) with
    | some c =>
      have hany : (declaredIn none file).any (·.roomId = room) = true := by
        rw [← List.isSome_find?, hfound]
        rfl
      rw [hany]
      show c.identity = idOf (declaredIn none file) room
      rw [idOf, hfound]
      rfl
    | none =>
      have hany : (declaredIn none file).any (·.roomId = room) = false := by
        rw [← List.isSome_find?, hfound]
        rfl
      rw [hany]
      exact ih

/-- **Relaunch and kill are scoped to the declaring file**, where the first file
to declare a room agrees with each file that is relaunched for it. -/
theorem relaunch_scoped_iff (cbcDir : Text → Option (List DirEntry)) (currentDir : Text)
    (payload : Payload) (h : payload.restarts) :
    let dir := cbcDir (payload.cwd.getD currentDir)
    runSessionStart cbcDir currentDir payload = (mdFiles dir).flatMap (relaunchOf dir) ∧
    ((∀ file ∈ mdFiles dir, ∀ room identity, Emits (relaunchOf dir file) room identity →
      DeclaresFor file room identity) ↔
    ∀ file ∈ mdFiles dir, ∀ entry, activeIn file = some entry → ∀ room ∈ entry.rooms,
      ∀ first, firstDeclaring dir room = some first →
        DeclaresFor file room (idOf (declaredIn none first) room)) := by
  intro dir
  refine ⟨runSessionStart_eq cbcDir currentDir h, ?_, ?_⟩
  · intro hall file hfile entry hentry room hroom first hfirst
    obtain ⟨model, comment, hmem⟩ := exists_command (idOf (scanDeclared dir none)) hroom
    have hemits : Emits (relaunchOf dir file) room (idOf (scanDeclared dir none) room) := by
      rw [relaunchOf, hentry]
      exact .inr ⟨model, comment, hmem⟩
    have hdeclares := hall file hfile room _ hemits
    rwa [idOf_scanDeclared, hfirst] at hdeclares
  · intro hagree file hfile room identity hemits
    rw [relaunchOf] at hemits
    cases hentry : activeIn file with
    | none =>
      rw [hentry] at hemits
      rcases hemits with hmem | ⟨_, _, hmem⟩ <;> cases hmem
    | some entry =>
      rw [hentry] at hemits
      obtain ⟨hroom, rfl⟩ := emits_emitRelaunch hemits
      rw [idOf_scanDeclared]
      cases hfirst : firstDeclaring dir room with
      | some first => exact hagree file hfile entry hentry room hroom first hfirst
      | none =>
        -- no file declares the room, nor does this one
        refine .inr ⟨fun c hc hcontra => ?_, rfl⟩
        have hnone := List.find?_eq_none.mp hfirst file hfile
        exact hnone (List.any_eq_true.mpr ⟨c, hc, by simpa using hcontra⟩)

/-- The map of its orchestrator, on the same report room. -/
def mapFile : DirEntry :=
  ⟨nameBytes "orchestration-repo.md", some ("status: ACTIVE\nagents:\n" ++
    "  feat: room-a-20260625-1000\nconnections:\n" ++
    "  feat: room-a-20260625-1000 --as repo-orchestrator\n").toList⟩

def sharedRoom : List DirEntry := [workerFile, mapFile]

theorem relaunch_scoped_iff_sharedRoom :
    runSessionStart (fun _ => some sharedRoom) [] ⟨some "resume".toList, none⟩ =
      (mdFiles (some sharedRoom)).flatMap (relaunchOf (some sharedRoom)) :=
  (relaunch_scoped_iff (fun _ => some sharedRoom) [] ⟨some "resume".toList, none⟩ (.inr rfl)).1

/-- The worker's poll is relaunched, and its polls killed, as the orchestrator. -/
theorem not_relaunch_scoped : ¬ ∀ (cbcDir : Text → Option (List DirEntry)) (currentDir : Text)
    (payload : Payload), payload.restarts →
    ∀ file ∈ mdFiles (cbcDir (payload.cwd.getD currentDir)), ∀ room identity,
      Emits (relaunchOf (cbcDir (payload.cwd.getD currentDir)) file) room identity →
        DeclaresFor file room identity := by
  intro h
  obtain ⟨hfile, hkilled, hother⟩ : workerFile ∈ mdFiles (some sharedRoom) ∧
      .kill "room-a-20260625-1000".toList (some "repo-orchestrator".toList) ∈
        relaunchOf (some sharedRoom) workerFile ∧
      ∀ c ∈ declaredIn none workerFile, c.identity ≠ some "repo-orchestrator".toList := by
    decide +kernel
  have hdeclares := h (fun _ => some sharedRoom) [] ⟨some "resume".toList, none⟩ (.inr rfl)
    workerFile hfile "room-a-20260625-1000".toList (some "repo-orchestrator".toList) (.inl hkilled)
  rcases hdeclares with ⟨c, hc, -, hid⟩ | ⟨-, hnone⟩
  · exact hother c hc hid
  · cases hnone

end ChatBotChat.Hook
