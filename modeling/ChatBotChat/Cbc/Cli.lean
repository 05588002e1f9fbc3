/-
The command line of `cbc`, as `main.rs` declares it, and the polls that the reconcile
recognises among the lines it admits.

`poll_matches` reads a line by position: `poll` behind the program, the room behind that,
and the identity behind the first `--as`.

* `poll_recognised_iff` — it tells the polls of a room and an identity exactly where
  nothing stands between the program and the room, the identity is a word of its own, and
  the room is not the option that stands in its place.
-/
import ChatBotChat.Cbc.PollLine
import ChatBotChat.Cbc.Stop
import ChatBotChat.CommandLine

namespace ChatBotChat

namespace Cli

open CommandLine Words Hook

/-! ### The declaration -/

/-- `str::parse::<i64>`. -/
def parseI64 : Text → Option ℤ
  | '-' :: digits => ((parseDigits digits).filter fun n => n ≤ 2 ^ 63).map fun n => -(n : ℤ)
  | text => (parseUnsigned 63 text).map Int.ofNat

/-- A `u16` or `u32`, which are parsed by way of an `i64`. -/
def isSmall (bits : ℕ) (value : Text) : Bool :=
  (parseI64 value).any fun n => 0 ≤ n && n < 2 ^ bits

def isU64 (value : Text) : Bool := (parseUnsigned 64 value).isSome

def isString (_ : Text) : Bool := true

def isPath (value : Text) : Bool := !value.isEmpty

def isShowFormat (value : Text) : Bool := value = "markdown".toList || value = "json".toList

/-- An option that may be left out. -/
def opt (name : String) (takes : Text → Bool) : Opt := ⟨name.toList, some takes, false, []⟩

def required (name : String) : Opt := ⟨name.toList, some isString, true, []⟩

def flag (name : String) : Opt := ⟨name.toList, none, false, []⟩

def server : Opt := opt "server" isString

def model : Opt := required "model"

def identity : Opt := opt "as" isString

def command (path : List String) (positionals : ℕ) (options : List Opt) : Command :=
  ⟨path.map String.toList, options, positionals⟩

def poll : Command := command ["poll"] 1
  [model, identity, opt "poll-cap-secs" (isSmall 32), opt "max-polls" (isSmall 32),
    opt "error-backoff-secs" isU64, opt "join-backoff-secs" isU64,
    opt "max-join-wait-secs" isU64, opt "stale-backoff-secs" isU64,
    opt "max-stale-wait-secs" isU64, flag "json"]

/-- The grammar of `cbc`. -/
def cbc : Spec where
  globals := [server]
  commands :=
    [command ["open"] 1 [opt "hard-cap" (isSmall 32), opt "soft-cap" (isSmall 32)],
      command ["join"] 1 [model, identity, opt "nick" isString],
      command ["send"] 2 [model, opt "to" isString, flag "human", identity],
      command ["signal"] 1 [model, required "type", opt "severity" isString,
        opt "question" isString, identity],
      command ["wait"] 1 [model, identity],
      poll,
      command ["list"] 0 [⟨"all".toList, none, false, ["state".toList]⟩, opt "state" isString],
      command ["show"] 1 [opt "format" isShowFormat],
      command ["status"] 1 [],
      command ["prune"] 1 [],
      command ["close"] 1 [model, identity, flag "force"],
      command ["extend"] 1 [model, identity],
      command ["pause"] 1 [model, opt "reason" isString, identity],
      command ["wake"] 1 [model, identity],
      command ["mcp"] 0 [],
      command ["install-daemon"] 0 [opt "port" (isSmall 16), opt "plist-dir" isPath],
      command ["allow-tools"] 0 [],
      command ["install-skill"] 0 [flag "force", opt "skills-dir" isPath],
      command ["install-hooks"] 0 [],
      command ["hook", "session-start"] 0 [],
      command ["hook", "stop"] 0 []]

/-! ### The polls among the lines -/

/-- The line as `ps` shows it. -/
def shown (line : Line) : Text := [' '].intercalate line.words

/-- The program is `cbc`, wherever it stands. -/
def ProgramIsCbc (line : Line) : Prop := line.program.rtakeWhile (· ≠ '/') = "cbc".toList

/-- The line runs the poll of the room under the identity. -/
def RunsPoll (line : Line) (room id : Text) : Prop :=
  line.path = ["poll".toList] ∧ line.positionals = [room] ∧
    valueOf "as".toList line.items = some id

/-- What stands behind the last subcommand. -/
def behind (line : Line) : List Text := line.items.flatMap Item.words ++ line.tailWords

/-- Nothing stands between the program and the subcommand, the room comes next, and the
identity is a word of its own. -/
structure Spelled (line : Line) (room id : Text) : Prop where
  front : line.front = []
  room : (behind line).head? = some room
  identity : .option "as".toList id false ∈ line.items

/-- Behind `poll` stands an option whose word is the room, in a poll of another room. -/
structure OptionInPlace (line : Line) (room id : Text) : Prop where
  path : line.path = ["poll".toList]
  front : line.front = []
  option : ∃ item ∈ line.items.head?, item.positional? = none ∧ item.words.head? = some room
  identity : .option "as".toList id false ∈ line.items
  other : line.positionals ≠ [room]

variable {line : Line} {room id : Text}

/-! ### What the declaration says of a poll -/

theorem poll_of_head : ∀ cmd ∈ cbc.commands, cmd.path.head? = some "poll".toList →
    cmd.path = ["poll".toList] ∧ cmd.positionals = 1 := by decide

theorem identity_takes : ∀ cmd ∈ cbc.commands, ∀ o ∈ cmd.options ++ cbc.globals,
    o.name = "as".toList → o.takes.isSome = true := by decide

/-- A line that the grammar admits. -/
theorem accepted_spec (h : line.accepted cbc = true) :
    acceptedOptions cbc.globals line.front = true ∧ ∃ cmd ∈ cbc.commands,
      line.path = cmd.path ∧ cmd.path ≠ [] ∧
        CommandLine.accepted (cmd.options ++ cbc.globals) line.items = true ∧
          line.positionals.length = cmd.positionals := by
  rw [Line.accepted, Bool.and_eq_true, Bool.and_eq_true] at h
  obtain ⟨⟨hfront, -⟩, hcmd⟩ := h
  obtain ⟨cmd, hmem, hcmd⟩ := List.any_eq_true.mp hcmd
  simp only [Bool.and_eq_true, decide_eq_true_eq] at hcmd
  obtain ⟨⟨⟨hpath, hne⟩, hitems⟩, hpositionals⟩ := hcmd
  exact ⟨hfront, cmd, hmem, hpath, hne, hitems, hpositionals⟩

/-- What stands in front of the subcommand is an option. -/
theorem front_word {item : Item} {rest : List Item}
    (h : acceptedOptions cbc.globals (item :: rest) = true) :
    ∃ word words, item.words = word :: words ∧ word ≠ "poll".toList := by
  have hplain : item.positional? = none := by
    rw [acceptedOptions, Bool.and_eq_true, decide_eq_true_eq, List.filterMap_eq_nil_iff] at h
    exact h.2 item List.mem_cons_self
  cases item with
  | positional v => cases hplain
  | flag n => exact ⟨_, _, rfl, by simp [spell]⟩
  | option n v joined =>
    cases joined with
    | true => exact ⟨_, _, rfl, by simp [spell]⟩
    | false => exact ⟨_, _, rfl, by simp [spell]⟩

/-! ### The words of a line -/

/-- Words that are joined by spaces are read back. -/
theorem splitWhitespace_intercalate {ws : List Text} (h : ∀ w ∈ ws, IsWord isWhitespace w) :
    splitWhitespace ([' '].intercalate ws) = ws := by
  induction ws with
  | nil => rfl
  | cons w ws ih =>
    have hw := splitWhitespace_word (h w List.mem_cons_self)
    have hrest := ih fun w hw => h w (List.mem_cons_of_mem _ hw)
    cases ws with
    | nil => simpa using hw
    | cons v ws =>
      rw [List.intercalate_cons_cons, List.append_assoc, List.singleton_append,
        splitWhitespace_space, hw, hrest]
      rfl

/-- Where one word at most stands behind the `--`, the identity is among the pieces. -/
theorem after_tailWords (h : line.positionals.length = 1) :
    after (spell "as".toList) line.tailWords = none := by
  unfold Line.positionals at h
  unfold Line.tailWords
  match line.escaped, h with
  | none, _ => rfl
  | some [], _ => rfl
  | some [w], _ =>
    show after (spell "as".toList) [['-', '-'], w] = none
    rw [after_cons_of_ne (by decide)]
    by_cases hw : w = spell "as".toList
    · rw [hw, after_cons_self]
      rfl
    · rw [after_cons_of_ne hw]
      rfl
  | some (v :: w :: ws), h =>
    rw [List.length_append, Option.getD_some, List.length_cons, List.length_cons] at h
    omega

/-- The subcommand is the first word behind the program, where nothing stands between. -/
theorem words_of_path (hfront : line.front = []) (hpath : line.path = ["poll".toList]) :
    line.words = line.program :: "poll".toList :: behind line := by
  obtain ⟨sub, hsub, hname⟩ := List.map_eq_singleton_iff.mp hpath
  have hitems : line.items = sub.2 := by rw [Line.items, hsub]; rfl
  rw [Line.words, hfront, hsub, behind, hitems, List.flatMap_singleton, hname]
  rfl

theorem second_word_iff (h : line.accepted cbc = true) :
    line.words[1]? = some "poll".toList ↔ line.front = [] ∧ line.path = ["poll".toList] := by
  obtain ⟨hfront, cmd, hmem, hpath, hne, -, -⟩ := accepted_spec h
  constructor
  · intro hword
    cases hitems : line.front with
    | cons item rest =>
      rw [hitems] at hfront
      obtain ⟨word, words, hwords, hnot⟩ := front_word hfront
      rw [Line.words, hitems, List.flatMap_cons, hwords] at hword
      exact absurd (Option.some_inj.mp hword) hnot
    | nil =>
      refine ⟨rfl, hpath.trans (poll_of_head cmd hmem ?_).1⟩
      rw [← hpath, Line.path]
      rw [Line.words, hitems] at hword
      cases hsubs : line.subs with
      | nil => exact absurd (hpath.symm.trans (by rw [Line.path, hsubs]; rfl)) hne
      | cons sub subs =>
        rw [hsubs] at hword
        exact hword
  · rintro ⟨hfront, hpath⟩
    rw [words_of_path hfront hpath]
    rfl

/-- The matcher reads three words and the first `--as`. -/
theorem pollMatches_words {cmd program : Text} {rest : List Text}
    (hwords : splitWhitespace cmd = program :: rest)
    (hprogram : program.rtakeWhile (· ≠ '/') = "cbc".toList) :
    pollMatches cmd room (some id) = true ↔ rest.head? = some "poll".toList ∧
      rest[1]? = some room ∧ after (spell "as".toList) (program :: rest) = some id := by
  have has : spell "as".toList = "--as".toList := rfl
  unfold pollMatches
  rw [hwords, has]
  generalize "poll".toList = pollWord
  generalize "--as".toList = asWord
  simp only [List.getElem?_cons_zero, List.getElem?_cons_succ, Option.map_some, hprogram]
  rw [← List.head?_eq_getElem?]
  by_cases hpoll : rest.head? = some pollWord
  · by_cases hroom : rest[1]? = some room
    · cases hafter : after asWord (program :: rest) <;> simp [hpoll, hroom]
    · simp [hpoll, hroom]
  · simp [hpoll]

theorem program_ne (h : ProgramIsCbc line) : line.program ≠ spell "as".toList := by
  intro heq
  rw [ProgramIsCbc, heq] at h
  revert h
  decide

/-- **What the matcher sees**: a poll that is spelled in its way. -/
theorem pollMatches_shown_iff (h : line.accepted cbc = true)
    (hwords : ∀ w ∈ line.words, IsWord isWhitespace w) (hprogram : ProgramIsCbc line) :
    pollMatches (shown line) room (some id) = true ↔
      line.path = ["poll".toList] ∧ Spelled line room id := by
  have htoks : splitWhitespace (shown line) = line.words := splitWhitespace_intercalate hwords
  have hsecond := second_word_iff h
  by_cases hplain : line.front = [] ∧ line.path = ["poll".toList]
  · obtain ⟨hfront, hpath⟩ := hplain
    obtain ⟨-, cmd, hmem, hcmd, -, haccepted, hpositionals⟩ := accepted_spec h
    have hone : line.positionals.length = 1 := by
      rw [hpositionals]
      exact (poll_of_head cmd hmem (by rw [← hcmd, hpath]; rfl)).2
    rw [CommandLine.accepted, Bool.and_eq_true, Bool.and_eq_true, decide_eq_true_eq] at haccepted
    obtain ⟨⟨hitems, hnodup⟩, -⟩ := haccepted
    -- the first `--as` is the option's, if its value is a word of its own
    have hafter : after (spell "as".toList) (line.program :: "poll".toList :: behind line) =
        nextWord "as".toList line.items := by
      rw [after_cons_of_ne (program_ne hprogram), after_cons_of_ne (by decide), behind,
        after_option hitems (by decide) (identity_takes cmd hmem), after_tailWords hone,
        Option.or_none]
    rw [pollMatches_words (htoks.trans (words_of_path hfront hpath)) hprogram, hafter]
    constructor
    · rintro ⟨-, hroom, hid⟩
      refine ⟨hpath, hfront, ?_, mem_of_nextWord hid⟩
      rw [List.head?_eq_getElem?]
      exact hroom
    · rintro ⟨-, hspelled⟩
      refine ⟨rfl, ?_, nextWord_of_mem hnodup hspelled.identity⟩
      rw [List.getElem?_cons_succ, ← List.head?_eq_getElem?]
      exact hspelled.room
  · refine iff_of_false ?_ fun ⟨hpath, hspelled⟩ => hplain ⟨hspelled.front, hpath⟩
    intro hmatch
    have hline : splitWhitespace (shown line) = line.program :: line.words.tail := htoks
    obtain ⟨hpoll, -⟩ := (pollMatches_words hline hprogram).mp hmatch
    refine hplain (hsecond.mp ?_)
    rwa [List.head?_eq_getElem?, List.getElem?_tail] at hpoll

/-- Behind `poll` stands its room, or an option. -/
theorem head_item (h : line.accepted cbc = true) (hpath : line.path = ["poll".toList])
    (hspelled : Spelled line room id) (hother : line.positionals ≠ [room]) :
    ∃ item ∈ line.items.head?, item.positional? = none ∧ item.words.head? = some room := by
  obtain ⟨-, cmd, hmem, hcmd, -, -, hpositionals⟩ := accepted_spec h
  have hone : line.positionals.length = 1 := by
    rw [hpositionals]
    exact (poll_of_head cmd hmem (by rw [← hcmd, hpath]; rfl)).2
  have hroom := hspelled.room
  have hsome := hspelled.identity
  rw [behind] at hroom
  rw [Line.positionals] at hone hother
  cases hitems : line.items with
  | nil =>
    rw [hitems] at hsome
    cases hsome
  | cons item items =>
    rw [hitems, List.flatMap_cons, List.append_assoc] at hroom
    rw [hitems] at hone hother
    refine ⟨item, rfl, ?_, ?_⟩
    · cases item with
      | flag n => rfl
      | option n v joined => rfl
      | positional v =>
        -- the one positional argument is the room
        obtain rfl : v = room := Option.some_inj.mp hroom
        have hcons : (Item.positional v :: items).filterMap Item.positional? =
            v :: items.filterMap Item.positional? := List.filterMap_cons_some rfl
        rw [hcons, List.cons_append] at hone hother
        rw [List.eq_nil_of_length_eq_zero (Nat.succ.inj hone)] at hother
        exact absurd rfl hother
    · obtain ⟨word, words, hword⟩ : ∃ word words, item.words = word :: words := by
        cases item with
        | flag n => exact ⟨_, _, rfl⟩
        | positional v => exact ⟨_, _, rfl⟩
        | option n v joined => cases joined <;> exact ⟨_, _, rfl⟩
      rw [hword] at hroom ⊢
      exact hroom

/-- **The matcher tells a poll** exactly where the poll is spelled in its way, and no
option stands in the room's place. -/
theorem poll_recognised_iff (line : Line) (room id : Text) (h : line.accepted cbc = true)
    (hwords : ∀ w ∈ line.words, IsWord isWhitespace w) (hprogram : ProgramIsCbc line) :
    (pollMatches (shown line) room (some id) = true ↔ RunsPoll line room id) ↔
      (RunsPoll line room id → Spelled line room id) ∧ ¬ OptionInPlace line room id := by
  have hmatch : pollMatches (shown line) room (some id) = true ↔
      line.path = ["poll".toList] ∧ Spelled line room id :=
    pollMatches_shown_iff h hwords hprogram
  constructor
  · intro hiff
    refine ⟨fun hruns => (hmatch.mp (hiff.mpr hruns)).2, fun hplace => hplace.other ?_⟩
    obtain ⟨item, hitem, -, hword⟩ := hplace.option
    have hroom : (behind line).head? = some room := by
      obtain ⟨rest, hitems⟩ := List.head?_eq_some_iff.mp hitem
      rw [behind, hitems, List.flatMap_cons, List.append_assoc, List.head?_append, hword]
      rfl
    have hspelled : Spelled line room id := ⟨hplace.front, hroom, hplace.identity⟩
    exact (hiff.mp (hmatch.mpr ⟨hplace.path, hspelled⟩)).2.1
  · rintro ⟨hspells, hnoOption⟩
    constructor
    · intro htrue
      obtain ⟨hpath, hspelled⟩ := hmatch.mp htrue
      obtain ⟨-, cmd, -, -, -, haccepted, -⟩ := accepted_spec h
      rw [CommandLine.accepted, Bool.and_eq_true, Bool.and_eq_true, decide_eq_true_eq] at haccepted
      have hvalue := valueOf_eq_of_mem haccepted.1.2 hspelled.identity
      by_cases hroom : line.positionals = [room]
      · exact ⟨hpath, hroom, hvalue⟩
      · exact absurd ⟨hpath, hspelled.front, head_item h hpath hspelled hroom, hspelled.identity,
          hroom⟩ hnoOption
    · intro hruns
      exact hmatch.mpr ⟨hruns.1, hspells hruns⟩

/-- `cbc poll demo-1 --model opus --as api`, with the identity spelled as given. -/
def demoPoll (joined : Bool) : Line where
  program := "/usr/local/bin/cbc".toList
  front := []
  subs := [("poll".toList, [.positional "demo-1".toList,
    .option "model".toList "opus".toList false, .option "as".toList "api".toList joined])]
  escaped := none

theorem poll_recognised_iff_demo :
    (pollMatches (shown (demoPoll false)) "demo-1".toList (some "api".toList) = true ↔
        RunsPoll (demoPoll false) "demo-1".toList "api".toList) ↔
      (RunsPoll (demoPoll false) "demo-1".toList "api".toList →
        Spelled (demoPoll false) "demo-1".toList "api".toList) ∧
      ¬ OptionInPlace (demoPoll false) "demo-1".toList "api".toList :=
  poll_recognised_iff (demoPoll false) "demo-1".toList "api".toList (by decide) (by decide)
    (show _ = _ by decide)

/-- A poll that gives its identity as `--as=api` is missed. -/
theorem not_poll_recognised : ¬ ∀ (line : Line) (room id : Text), line.accepted cbc = true →
    (∀ w ∈ line.words, IsWord isWhitespace w) → ProgramIsCbc line →
    (pollMatches (shown line) room (some id) = true ↔ RunsPoll line room id) := by
  intro h
  have hmatch := (h (demoPoll true) "demo-1".toList "api".toList (by decide) (by decide)
    (show _ = _ by decide)).mpr ⟨rfl, rfl, rfl⟩
  revert hmatch
  decide

end Cli

end ChatBotChat
