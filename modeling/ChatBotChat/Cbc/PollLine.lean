/-
The command line of a poll, written and read back.

* `poll_command_matches_iff` — the command a declared connection is relaunched
  with is counted as its poll exactly when its room is one word, and, under an
  identity, neither the room nor the model puts an `--as` of its own before it.
-/
import ChatBotChat.Cbc.Hook

namespace ChatBotChat.Hook

open Words

variable {content source flag room model id v : Text} {c : DeclaredConnection}

/-! ### The words of a command -/

/-- A single space stands between two words. -/
theorem splitWhitespace_space (l r : Text) :
    splitWhitespace (l ++ ' ' :: r) = splitWhitespace l ++ splitWhitespace r :=
  words_append_cons (by decide) l r

theorem splitWhitespace_word (h : IsWord isWhitespace v) : splitWhitespace v = [v] := h.words

theorem pollCommand_words : "cbc poll ".toList = "cbc".toList ++ ' ' :: ("poll".toList ++ [' ']) ∧
    " --model ".toList = ' ' :: ("--model".toList ++ [' ']) ∧
    " --as ".toList = ' ' :: ("--as".toList ++ [' ']) := by decide

theorem pollCommand_none : splitWhitespace (pollCommand room model none) =
    "cbc".toList :: "poll".toList ::
      (splitWhitespace room ++ "--model".toList :: splitWhitespace model) := by
  obtain ⟨hcbc, hmodel, -⟩ := pollCommand_words
  have hline : pollCommand room model none = "cbc".toList ++ ' ' :: ("poll".toList ++ ' ' ::
      (room ++ ' ' :: ("--model".toList ++ ' ' :: model))) := by
    show "cbc poll ".toList ++ room ++ " --model ".toList ++ model = _
    rw [hcbc, hmodel]
    simp only [List.append_assoc, List.cons_append, List.nil_append]
  rw [hline, splitWhitespace_space, splitWhitespace_space, splitWhitespace_space,
    splitWhitespace_space, splitWhitespace_word (v := "cbc".toList) (by decide),
    splitWhitespace_word (v := "poll".toList) (by decide),
    splitWhitespace_word (v := "--model".toList) (by decide)]
  simp only [List.cons_append, List.nil_append]

theorem pollCommand_some : splitWhitespace (pollCommand room model (some id)) =
    "cbc".toList :: "poll".toList :: (splitWhitespace room ++ "--model".toList ::
      (splitWhitespace model ++ "--as".toList :: splitWhitespace id)) := by
  obtain ⟨-, -, has⟩ := pollCommand_words
  have hline : pollCommand room model (some id) =
      pollCommand room model none ++ ' ' :: ("--as".toList ++ ' ' :: id) := by
    show pollCommand room model none ++ " --as ".toList ++ id = _
    rw [has]
    simp only [List.append_assoc, List.cons_append, List.nil_append]
  rw [hline, splitWhitespace_space, splitWhitespace_space, pollCommand_none,
    splitWhitespace_word (v := "--as".toList) (by decide)]
  simp only [List.append_assoc, List.cons_append, List.nil_append]

/-- The third word of a command is its room exactly when the room is a word. -/
theorem third_word_iff {rest : List Text} :
    (splitWhitespace room ++ "--model".toList :: rest).head? = some room ↔
      IsWord isWhitespace room := by
  cases hwords : splitWhitespace room with
  | nil =>
    have hnot : ¬ IsWord isWhitespace room := by
      intro hword
      rw [splitWhitespace, hword.words] at hwords
      cases hwords
    refine iff_of_false ?_ hnot
    intro hhead
    obtain rfl : "--model".toList = room := Option.some_inj.mp hhead
    exact hnot (by decide)
  | cons w ws =>
    rw [← head_words_iff, ← splitWhitespace, hwords]
    rfl

/-! ### What the parsers read -/

/-- A flag's value is a word, and not a flag. -/
theorem flagValue_spec (h : flagValue source flag = some v) :
    IsWord isWhitespace v ∧ ¬ "--".toList <+: v := by
  obtain ⟨htrimmed, hne⟩ := Option.filter_eq_some_iff.mp h
  obtain ⟨tok, htok, rfl⟩ := Option.map_eq_some_iff.mp htrimmed
  obtain ⟨hafter, hflag⟩ := Option.filter_eq_some_iff.mp htok
  have hword : IsWord isWhitespace tok :=
    isWord_of_mem (List.takeWhile_prefix _ |>.subset (mem_of_after hafter))
  have hprefix := List.rdropWhile_prefix (fun c => !c.isAlphanum && c ≠ '-' && c ≠ '_') tok
  refine ⟨hword.of_prefix hprefix fun hnil => ?_, fun hdash => ?_⟩
  · rw [hnil] at hne
    cases hne
  · have hdash' := List.isPrefixOf_iff_prefix.mpr (hdash.trans hprefix)
    rw [show ['-', '-'] = "--".toList from rfl, hdash'] at hflag
    cases hflag

theorem parseConnection_spec (h : parseConnection v = some c) :
    IsWord isWhitespace c.roomId ∧ (∃ source, c.identity = flagValue source "--as".toList) ∧
      ∃ source, c.model = (flagValue source "--model".toList).getD noModel := by
  simp only [parseConnection, Option.bind_eq_bind, Option.bind_eq_some_iff] at h
  obtain ⟨⟨name, rest⟩, -, roomId, hroom, hc⟩ := h
  obtain rfl := Option.some_inj.mp hc
  exact ⟨isWord_of_mem (List.mem_of_head? hroom), ⟨_, rfl⟩, ⟨_, rfl⟩⟩

/-- Every connection of a block comes from a line of it. -/
theorem parseConnections_spec (h : c ∈ parseConnections content) :
    ∃ line, parseConnection line = some c := by
  have hscan : ∀ (rest : List Text) (st : ConnectionsScan),
      (∀ d ∈ st.conns, ∃ line, parseConnection line = some d) →
      ∀ d ∈ (rest.foldl ConnectionsScan.line st).conns,
        ∃ line, parseConnection line = some d := by
    intro rest
    induction rest with
    | nil => exact fun _ hst => hst
    | cons line rest ih =>
      intro st hst
      refine ih _ ?_
      rw [ConnectionsScan.line]
      split_ifs <;> try exact hst
      intro d hd
      rcases List.mem_append.mp hd with hd | hd
      · exact hst d hd
      · exact ⟨_, Option.mem_toList.mp hd⟩
  exact hscan _ _ (by simp) c h

/-- The three shapes a declared connection comes from. -/
theorem declaredConnections_cases (hc : c ∈ declaredConnections content) :
    c ∈ parseConnections content ∨
    (∃ o, parseOrchestrator content = some o ∧
      ∃ r ∈ o.rooms, c = ⟨r.1, r.2, none, o.model⟩) ∨
    ∃ w, parseWorker content = some w ∧ c = ⟨w.pollLabel, w.roomId, w.identity, w.model⟩ := by
  rw [declaredConnections] at hc
  split_ifs at hc with hblock
  · exact .inl hc
  · cases ho : parseOrchestrator content with
    | some o =>
      rw [ho] at hc
      obtain ⟨r, hr, rfl⟩ := List.mem_map.mp hc
      exact .inr (.inl ⟨o, rfl, r, hr, rfl⟩)
    | none =>
      cases hw : parseWorker content with
      | some w =>
        rw [ho, hw] at hc
        exact .inr (.inr ⟨w, rfl, List.mem_singleton.mp hc⟩)
      | none =>
        rw [ho, hw] at hc
        cases hc

theorem parseWorker_identity {w : WorkerEntry} (h : parseWorker content = some w) :
    ∃ source, w.identity = flagValue source "--as".toList := by
  rw [parseWorker] at h
  split_ifs at h
  obtain ⟨roomId, -, hw⟩ := Option.bind_eq_some_iff.mp h
  obtain rfl := Option.some_inj.mp hw
  exact ⟨_, rfl⟩

/-- Whatever the shape, an identity is a word and not a flag. -/
theorem identity_spec (hc : c ∈ declaredConnections content) (hid : c.identity = some id) :
    IsWord isWhitespace id ∧ ¬ "--".toList <+: id := by
  rcases declaredConnections_cases hc with hblock | ⟨o, -, r, -, rfl⟩ | ⟨w, hw, rfl⟩
  · obtain ⟨line, hline⟩ := parseConnections_spec hblock
    obtain ⟨-, ⟨source, hsource⟩, -⟩ := parseConnection_spec hline
    exact flagValue_spec (hsource.symm.trans hid)
  · cases hid
  · obtain ⟨source, hsource⟩ := parseWorker_identity hw
    exact flagValue_spec (hsource.symm.trans hid)

/-! ### The round trip -/

/-- The room is one word, and no `--as` before the identity gives another one. -/
def Survives (c : DeclaredConnection) : Prop :=
  IsWord isWhitespace c.roomId ∧ ∀ id, c.identity = some id →
    c.roomId ≠ "--as".toList ∧ ("--as".toList ∈ splitWhitespace c.model →
      after "--as".toList (splitWhitespace c.model) = some id)

/-- A line of a block that names a room survives. -/
theorem survives_of_block (hc : c ∈ parseConnections content) :
    Survives c ↔ (c.roomId = "--as".toList → c.identity = none) := by
  obtain ⟨line, hline⟩ := parseConnections_spec hc
  obtain ⟨hroom, -, source, hmodel⟩ := parseConnection_spec hline
  have hnotAs : "--as".toList ∉ splitWhitespace c.model := by
    rw [hmodel]
    cases hflag : flagValue source "--model".toList with
    | none =>
      show "--as".toList ∉ splitWhitespace noModel
      decide
    | some m =>
      obtain ⟨hword, hdash⟩ := flagValue_spec hflag
      rw [Option.getD_some, splitWhitespace_word hword, List.mem_singleton]
      rintro rfl
      exact hdash (by decide)
  refine ⟨fun h hcontra => ?_, fun h => ⟨hroom, fun id hid => ⟨fun hcontra => ?_, ?_⟩⟩⟩
  · cases hid : c.identity with
    | none => rfl
    | some id => exact absurd hcontra (h.2 id hid).1
  · rw [h hcontra] at hid
    cases hid
  · exact fun hmem => absurd hmem hnotAs

/-- A line adds at most the agent it names. -/
theorem AgentsScan.line_rooms (st : AgentsScan) (line : Text) :
    (st.line line).rooms = st.rooms ∨
      (st.line line).rooms = st.rooms ++ (parseAgent (trim line)).toList := by
  unfold AgentsScan.line
  simp only
  split_ifs <;> simp

/-- A room of an `agents:` block is a word. -/
theorem parseOrchestrator_spec {o : OrchestratorEntry} (h : parseOrchestrator content = some o)
    {r : Text × Text} (hr : r ∈ o.rooms) : IsWord isWhitespace r.2 := by
  have hscan : ∀ (rest : List Text) (st : AgentsScan),
      (∀ q ∈ st.rooms, IsWord isWhitespace q.2) →
      ∀ q ∈ (rest.foldl AgentsScan.line st).rooms, IsWord isWhitespace q.2 := by
    intro rest
    induction rest with
    | nil => exact fun _ hst => hst
    | cons line rest ih =>
      intro st hst
      refine ih _ ?_
      intro q hq
      rcases st.line_rooms line with hsame | hadded
      · exact hst q (hsame ▸ hq)
      · rw [hadded] at hq
        rcases List.mem_append.mp hq with hq | hq
        · exact hst q hq
        · obtain ⟨split, -, hq'⟩ := Option.bind_eq_some_iff.mp (Option.mem_toList.mp hq)
          obtain ⟨roomId, hroom, hpair⟩ := Option.bind_eq_some_iff.mp hq'
          obtain rfl := Option.some_inj.mp hpair
          exact isWord_of_mem (List.mem_of_head? hroom)
  unfold parseOrchestrator at h
  simp only at h
  split_ifs at h
  obtain rfl := Option.some_inj.mp h
  exact hscan _ _ (by simp) r hr

/-- A room of an `agents:` block always survives. -/
theorem survives_of_agents {o : OrchestratorEntry} (h : parseOrchestrator content = some o)
    {r : Text × Text} (hr : r ∈ o.rooms) : Survives ⟨r.1, r.2, none, o.model⟩ :=
  ⟨parseOrchestrator_spec h hr, nofun⟩

/-- A line of `cbc poll` is matched by its third word and by what follows its
first `--as`. -/
theorem pollMatches_iff {line : Text} {rest : List Text} {identity : Option Text}
    (hline : splitWhitespace line = "cbc".toList :: "poll".toList :: rest) :
    pollMatches line room identity = true ↔ rest.head? = some room ∧
      ∀ id, identity = some id → after "--as".toList (splitWhitespace line) = some id := by
  have hcbc : ((splitWhitespace line)[0]?.map fun a =>
      a.rtakeWhile (· ≠ '/') == "cbc".toList).getD false = true := by
    rw [hline]
    show ("cbc".toList.rtakeWhile (· ≠ '/') == "cbc".toList) = true
    decide
  have hpoll : (splitWhitespace line)[1]? = some "poll".toList := by rw [hline]; rfl
  have hroom : (splitWhitespace line)[2]? = rest.head? := by
    rw [hline, List.head?_eq_getElem?]
    rfl
  unfold pollMatches
  simp only [hcbc, hpoll, hroom]
  by_cases hthird : rest.head? = some room
  · cases identity with
    | none => simp [hthird]
    | some id =>
      cases hafter : after "--as".toList (splitWhitespace line) with
      | none => simp [hthird]
      | some v => simp [hthird]
  · simp [hthird]

/-- The first `--as` of a command gives the identity, unless the room or the
model has an `--as` of its own. -/
theorem after_as_iff (hid : IsWord isWhitespace id) (hdash : ¬ "--".toList <+: id) :
    after "--as".toList ("cbc".toList :: "poll".toList :: room :: "--model".toList ::
      (splitWhitespace model ++ "--as".toList :: splitWhitespace id)) = some id ↔
    room ≠ "--as".toList ∧ ("--as".toList ∈ splitWhitespace model →
      after "--as".toList (splitWhitespace model) = some id) := by
  have hne : "--as".toList ≠ id := by
    rintro rfl
    exact hdash (by decide)
  have hne' : "--model".toList ≠ id := by
    rintro rfl
    exact hdash (by decide)
  rw [after_cons_of_ne (by decide), after_cons_of_ne (by decide)]
  by_cases hroom : room = "--as".toList
  · rw [hroom, after_cons_self]
    exact iff_of_false (fun h => hne' (Option.some_inj.mp h)) fun h => h.1 rfl
  rw [after_cons_of_ne hroom, after_cons_of_ne (by decide)]
  by_cases hmem : "--as".toList ∈ splitWhitespace model
  · rw [after_append_of_mem hmem]
    -- the model's own `--as` comes first
    have hown : (after "--as".toList (splitWhitespace model)).or (some "--as".toList) = some id ↔
        after "--as".toList (splitWhitespace model) = some id := by
      cases after "--as".toList (splitWhitespace model) with
      | none => exact iff_of_false (fun h => hne (Option.some_inj.mp h)) nofun
      | some v => exact Iff.rfl
    exact hown.trans ⟨fun h => ⟨hroom, fun _ => h⟩, fun h => h.2 hmem⟩
  · rw [after_append_of_notMem hmem, after_cons_self, splitWhitespace, hid.words]
    exact iff_of_true rfl ⟨hroom, fun h => absurd h hmem⟩

/-- **The advised command is the one that gets counted**, for a declared
connection that survives being written to a line. -/
theorem poll_command_matches_iff (content : Text) (c : DeclaredConnection)
    (hc : c ∈ declaredConnections content) :
    pollMatches (pollCommand c.roomId c.model c.identity) c.roomId c.identity = true ↔
      Survives c := by
  cases hidentity : c.identity with
  | none =>
    rw [pollMatches_iff pollCommand_none, third_word_iff, Survives, hidentity]
    exact and_congr_right fun _ => ⟨fun _ => nofun, fun _ => nofun⟩
  | some id =>
    obtain ⟨hid, hdash⟩ := identity_spec hc hidentity
    rw [pollMatches_iff pollCommand_some, third_word_iff, Survives, hidentity]
    refine and_congr_right fun hroom => forall_congr' fun id' => imp_congr_right fun hid' => ?_
    obtain rfl := Option.some_inj.mp hid'
    rw [pollCommand_some, splitWhitespace_word hroom]
    exact after_as_iff hid hdash

/-- A worker file of the older shape, with a note behind its room. -/
def notedRoom : Text :=
  "status: ACTIVE\nroom-id: feat-room-20260625-1000 (report line)\nmodel: sonnet\n".toList

theorem poll_command_matches_iff_notedRoom :
    ∃ c ∈ declaredConnections notedRoom,
      (pollMatches (pollCommand c.roomId c.model c.identity) c.roomId c.identity = true ↔
        Survives c) := by
  refine ⟨⟨[], "feat-room-20260625-1000 (report line)".toList, none, "sonnet".toList⟩, ?_, ?_⟩
  · decide +kernel
  · exact poll_command_matches_iff notedRoom _ (by decide +kernel)

/-- The poll of that file is never counted. -/
theorem not_poll_command_matches : ¬ ∀ (content : Text) (c : DeclaredConnection),
    c ∈ declaredConnections content →
      pollMatches (pollCommand c.roomId c.model c.identity) c.roomId c.identity = true := by
  intro h
  have hmatch := h notedRoom ⟨[], "feat-room-20260625-1000 (report line)".toList, none,
    "sonnet".toList⟩ (by decide +kernel)
  revert hmatch
  decide +kernel

end ChatBotChat.Hook
