/-
The `connections:` block, written and read back.

* `parseConnections_block` — every list of connections that is written as a block, in
  either order of the flags, with comments behind its lines and blank lines between them,
  is what the parser finds in any text around it.
-/
import ChatBotChat.Cbc.PollLine

namespace ChatBotChat.Hook

open Words

variable {name text v flag flag' : Text} {ws comment : List Text} {x y : Option Text}

/-! ### The documented format -/

/-- What a line of the block says. -/
structure Entry where
  name : Text
  roomId : Text
  identity : Option Text
  model : Option Text

/-- A word that is neither a flag nor the start of a comment. -/
structure Plain (word : Text) : Prop where
  isWord : IsWord isWhitespace word
  noFlag : ¬ ['-', '-'] <+: word
  noComment : ¬ ['#'] <+: word

/-- A flag's value: nothing is cut from its end. -/
structure FlagWord (word : Text) : Prop extends Plain word where
  last : ∀ c ∈ word.getLast?, c.isAlphanum = true ∨ c = '-' ∨ c = '_'

structure Entry.WellFormed (e : Entry) : Prop where
  trimmed : trim e.name = e.name
  noColon : ':' ∉ e.name
  room : Plain e.roomId
  identity : ∀ id ∈ e.identity, FlagWord id
  model : ∀ m ∈ e.model, FlagWord m

instance (word : Text) : Decidable (Plain word) :=
  decidable_of_iff (IsWord isWhitespace word ∧ ¬ ['-', '-'] <+: word ∧ ¬ ['#'] <+: word)
    ⟨fun ⟨hword, hflag, hcomment⟩ => ⟨hword, hflag, hcomment⟩,
      fun h => ⟨h.isWord, h.noFlag, h.noComment⟩⟩

instance (word : Text) : Decidable (FlagWord word) :=
  -- not the instance that goes through all characters
  haveI : Decidable (∀ c ∈ word.getLast?, c.isAlphanum = true ∨ c = '-' ∨ c = '_') :=
    Option.decidableForallMem _
  decidable_of_iff (Plain word ∧ ∀ c ∈ word.getLast?, c.isAlphanum = true ∨ c = '-' ∨ c = '_')
    ⟨fun ⟨hplain, hlast⟩ => ⟨hplain, hlast⟩, fun h => ⟨h.toPlain, h.last⟩⟩

instance (e : Entry) : Decidable e.WellFormed :=
  decidable_of_iff (trim e.name = e.name ∧ ':' ∉ e.name ∧ Plain e.roomId ∧
      (∀ id ∈ e.identity, FlagWord id) ∧ ∀ m ∈ e.model, FlagWord m)
    ⟨fun ⟨htrim, hcolon, hroom, hid, hmodel⟩ => ⟨htrim, hcolon, hroom, hid, hmodel⟩,
      fun h => ⟨h.trimmed, h.noColon, h.room, h.identity, h.model⟩⟩

/-- The connection that the parser reads. -/
def Entry.declared (e : Entry) : DeclaredConnection :=
  ⟨e.name, e.roomId, e.identity, e.model.getD noModel⟩

/-- How an entry is written: the blank lines in front of it, its indentation, the order of
its flags, the gap in front of each word, the comment behind them, and what trails. -/
structure EntryStyle where
  blanks : List Text
  indent : Text
  modelFirst : Bool
  gap : ℕ → Text
  comment : List Text
  trail : Text

def Blank (text : Text) : Prop := ∀ c ∈ text, isWhitespace c = true

structure EntryStyle.WellFormed (style : EntryStyle) : Prop where
  blanks : ∀ line ∈ style.blanks, Blank line
  indent : Blank style.indent
  indented : indented style.indent = true
  gap : ∀ n, Blank (style.gap n)
  gap_ne : ∀ n, style.gap n ≠ []
  /-- A comment starts at a `#`. -/
  comment : ∀ word ∈ style.comment.head?, ['#'] <+: word
  words : ∀ word ∈ style.comment, IsWord isWhitespace word
  trail : Blank style.trail

instance (text : Text) : Decidable (Blank text) := List.decidableBAll _ text

def flagWords (flag : Text) : Option Text → List Text
  | none => []
  | some value => [flag, value]

/-- `<room-id> --as <identity> --model <model>`, or the flags the other way round. -/
def Entry.words (e : Entry) (modelFirst : Bool) : List Text :=
  e.roomId :: if modelFirst
    then flagWords "--model".toList e.model ++ flagWords "--as".toList e.identity
    else flagWords "--as".toList e.identity ++ flagWords "--model".toList e.model

/-- `<name>: <words>  # <comment>`. -/
def Entry.line (e : Entry) (style : EntryStyle) : Text :=
  style.indent ++ (e.name ++ ':' ::
    (spaced style.gap 0 (e.words style.modelFirst ++ style.comment) ++ style.trail))

/-- The lines of the block behind its header. -/
def blockLines (entries : List (Entry × EntryStyle)) : List Text :=
  entries.flatMap fun (e, style) => style.blanks ++ [e.line style]

/-! ### Trimming -/

/-- Past what stays, only the end is trimmed. -/
theorem rdropWhile_append_cons {p : Char → Bool} {c : Char} (hc : p c = false) (l r : Text) :
    (l ++ c :: r).rdropWhile p = l ++ c :: r.rdropWhile p := by
  induction r using List.reverseRecOn with
  | nil =>
    rw [List.rdropWhile_concat_neg _ _ _ (by simp [hc])]
    rfl
  | append_singleton r x ih =>
    rw [← List.cons_append, ← List.append_assoc]
    by_cases hx : p x = true
    · rw [List.rdropWhile_concat_pos _ _ _ hx, List.rdropWhile_concat_pos _ _ _ hx, ih]
    · rw [List.rdropWhile_concat_neg _ _ _ hx, List.rdropWhile_concat_neg _ _ _ hx]
      simp

theorem splitWhitespace_trim (text : Text) : splitWhitespace (trim text) = splitWhitespace text :=
  (words_rdropWhile _).trans (words_dropWhile _)

/-- A trimmed text starts with no whitespace. -/
theorem dropWhile_of_trimmed (h : trim name = name) : name.dropWhile isWhitespace = name := by
  have hlen := congrArg List.length h
  have hle : (trim name).length ≤ (name.dropWhile isWhitespace).length :=
    (List.rdropWhile_prefix _ _).length_le
  have hsuffix := List.dropWhile_suffix (l := name) isWhitespace
  exact hsuffix.eq_of_length_le (hlen ▸ hle)

theorem trim_of_blank (h : Blank text) : trim text = [] := by
  have hdrop : text.dropWhile isWhitespace = [] := List.dropWhile_eq_nil_iff.mpr h
  rw [trim, trimMatches, hdrop]
  rfl

theorem splitOnce_colon (h : ':' ∉ name) (rest : Text) :
    splitOnce [':'] (name ++ ':' :: rest) = some (name, rest) := by
  induction name with
  | nil => simp [splitOnce]
  | cons c name ih =>
    rw [List.mem_cons, not_or] at h
    rw [List.cons_append, splitOnce, if_neg, ih h.2]
    · rfl
    · intro hprefix
      exact h.1 (List.cons_prefix_cons.mp hprefix).1

/-! ### The flags -/

theorem FlagWord.rdropWhile (h : FlagWord v) :
    (v.rdropWhile fun c => !c.isAlphanum && c ≠ '-' && c ≠ '_') = v := by
  rw [List.rdropWhile_eq_self_iff]
  intro hne
  have hlast := h.last (v.getLast hne) (List.getLast?_eq_some_getLast hne)
  rcases hlast with halnum | hdash | hunder
  · simp [halnum]
  · simp [hdash]
  · simp [hunder]

/-- The words before the comment decide what a flag is given. -/
theorem flagValue_of_words (hsplit : splitWhitespace text = ws ++ comment)
    (hws : ∀ w ∈ ws, ¬ ['#'] <+: w) (hcomment : ∀ w ∈ comment.head?, ['#'] <+: w)
    (hafter : after flag ws = x) (hx : ∀ v ∈ x, FlagWord v) : flagValue text flag = x := by
  -- the scan of the words stops at the comment
  have htoks : (ws ++ comment).takeWhile (fun t => !(['#'].isPrefixOf t)) = ws := by
    rw [List.takeWhile_append_of_pos]
    · cases comment with
      | nil => exact List.append_nil _
      | cons w comment =>
        rw [List.takeWhile_cons_of_neg]
        · exact List.append_nil _
        · simpa using hcomment w rfl
    · intro w hw
      have hplain : ['#'].isPrefixOf w = false :=
        Bool.eq_false_iff.mpr fun hprefix => hws w hw (List.isPrefixOf_iff_prefix.mp hprefix)
      rw [hplain]
      rfl
  unfold flagValue
  simp only [hsplit, htoks, hafter]
  cases x with
  | none => rfl
  | some v =>
    have hv := hx v rfl
    have hflag : ['-', '-'].isPrefixOf v = false :=
      Bool.eq_false_iff.mpr fun hprefix => hv.noFlag (List.isPrefixOf_iff_prefix.mp hprefix)
    have hne : v.isEmpty = false := List.isEmpty_eq_false_iff.mpr hv.isWord.1
    rw [Option.filter_some, hflag, Bool.not_false, if_pos rfl, Option.map_some, hv.rdropWhile,
      Option.filter_some, hne, Bool.not_false, if_pos rfl]

theorem Plain.ne_flag (h : Plain v) (hflag : ['-', '-'] <+: flag) : v ≠ flag :=
  fun heq => h.noFlag (heq ▸ hflag)

/-- A flag that is not given. -/
theorem after_other (hne : flag' ≠ flag) (hflag : ['-', '-'] <+: flag)
    (hy : ∀ v ∈ y, FlagWord v) (rest : List Text) :
    after flag (flagWords flag' y ++ rest) = after flag rest := by
  cases y with
  | none => rfl
  | some v =>
    have hv := (hy v rfl).toPlain
    show after flag (flag' :: v :: rest) = _
    rw [after_cons_of_ne hne, after_cons_of_ne (hv.ne_flag hflag)]

/-- Two flags are found in either order. -/
theorem after_flagWords (hne : flag' ≠ flag) (hflag : ['-', '-'] <+: flag)
    (hy : ∀ v ∈ y, FlagWord v) :
    after flag (flagWords flag x ++ flagWords flag' y) = x ∧
      after flag (flagWords flag' y ++ flagWords flag x) = x := by
  have hnone : after flag (flagWords flag' y) = none := by
    have hother := after_other hne hflag hy []
    rwa [List.append_nil] at hother
  rw [after_other hne hflag hy]
  cases x with
  | none => exact ⟨hnone, rfl⟩
  | some v => exact ⟨after_cons_self, after_cons_self⟩

theorem Entry.after_words {e : Entry} (h : e.WellFormed) (modelFirst : Bool) :
    after "--as".toList (e.words modelFirst) = e.identity ∧
      after "--model".toList (e.words modelFirst) = e.model := by
  have has : after "--as".toList (flagWords "--as".toList e.identity ++
        flagWords "--model".toList e.model) = e.identity ∧
      after "--as".toList (flagWords "--model".toList e.model ++
        flagWords "--as".toList e.identity) = e.identity :=
    after_flagWords (by decide) (by decide) h.model
  have hmodel : after "--model".toList (flagWords "--model".toList e.model ++
        flagWords "--as".toList e.identity) = e.model ∧
      after "--model".toList (flagWords "--as".toList e.identity ++
        flagWords "--model".toList e.model) = e.model :=
    after_flagWords (by decide) (by decide) h.identity
  unfold Entry.words
  rw [after_cons_of_ne (h.room.ne_flag (by decide)), after_cons_of_ne (h.room.ne_flag (by decide))]
  cases modelFirst with
  | false => exact ⟨has.1, hmodel.2⟩
  | true => exact ⟨has.2, hmodel.1⟩

/-- The words of a line are words, and none starts a comment. -/
theorem Entry.words_spec {e : Entry} (h : e.WellFormed) (modelFirst : Bool) :
    ∀ w ∈ e.words modelFirst, IsWord isWhitespace w ∧ ¬ ['#'] <+: w := by
  have hflags : ∀ flag x, IsWord isWhitespace flag → ¬ ['#'] <+: flag → (∀ v ∈ x, FlagWord v) →
      ∀ w ∈ flagWords flag x, IsWord isWhitespace w ∧ ¬ ['#'] <+: w := by
    intro flag x hword hplain hx w hw
    cases x with
    | none => cases hw
    | some v =>
      rcases List.mem_pair.mp hw with rfl | rfl
      · exact ⟨hword, hplain⟩
      · exact ⟨(hx w rfl).isWord, (hx w rfl).noComment⟩
  have has := hflags "--as".toList e.identity (by decide) (by decide) h.identity
  have hmodel := hflags "--model".toList e.model (by decide) (by decide) h.model
  intro w hw
  unfold Entry.words at hw
  rcases List.mem_cons.mp hw with rfl | hw
  · exact ⟨h.room.isWord, h.room.noComment⟩
  · cases modelFirst with
    | false => exact (List.mem_append.mp hw).elim (has w) (hmodel w)
    | true => exact (List.mem_append.mp hw).elim (hmodel w) (has w)

/-! ### A line -/

/-- The words behind the name. -/
def Entry.behind (e : Entry) (style : EntryStyle) : Text :=
  spaced style.gap 0 (e.words style.modelFirst ++ style.comment) ++ style.trail

theorem Entry.splitWhitespace_behind {e : Entry} {style : EntryStyle} (h : e.WellFormed)
    (hstyle : style.WellFormed) :
    splitWhitespace (e.behind style) = e.words style.modelFirst ++ style.comment := by
  refine words_spaced hstyle.gap hstyle.gap_ne hstyle.trail (fun w hw => ?_) 0
  rcases List.mem_append.mp hw with hw | hw
  · exact (e.words_spec h style.modelFirst w hw).1
  · exact hstyle.words w hw

/-- Of a line, the indentation and what trails is trimmed. -/
theorem Entry.trim_line {e : Entry} {style : EntryStyle} (h : e.WellFormed)
    (hstyle : style.WellFormed) :
    trim (e.line style) = e.name ++ ':' :: (e.behind style).rdropWhile isWhitespace := by
  have hfront : (e.line style).dropWhile isWhitespace = e.name ++ ':' :: e.behind style := by
    show (style.indent ++ (e.name ++ ':' :: e.behind style)).dropWhile isWhitespace = _
    rw [List.dropWhile_append_of_pos hstyle.indent]
    have hname := dropWhile_of_trimmed h.trimmed
    cases hchars : e.name with
    | nil => exact List.dropWhile_cons_of_neg (by decide)
    | cons c name =>
      rw [hchars] at hname
      have hc : ¬ isWhitespace c = true := by
        intro hc
        rw [List.dropWhile_cons_of_pos hc] at hname
        have hlen := (List.dropWhile_suffix (l := name) isWhitespace).length_le
        rw [hname, List.length_cons] at hlen
        omega
      rw [List.cons_append, List.dropWhile_cons_of_neg hc]
  rw [trim, trimMatches, hfront, rdropWhile_append_cons (by decide)]

/-- **A line is read back.** -/
theorem Entry.parseConnection_line {e : Entry} {style : EntryStyle} (h : e.WellFormed)
    (hstyle : style.WellFormed) : parseConnection (trim (e.line style)) = some e.declared := by
  have hsplit : splitWhitespace (trim ((e.behind style).rdropWhile isWhitespace)) =
      e.words style.modelFirst ++ style.comment := by
    rw [splitWhitespace_trim, ← e.splitWhitespace_behind h hstyle]
    exact words_rdropWhile _
  have hspec := e.words_spec h style.modelFirst
  obtain ⟨has, hmodel⟩ := e.after_words h style.modelFirst
  have hidentity := flagValue_of_words hsplit (fun w hw => (hspec w hw).2) hstyle.comment has h.identity
  have hmodelValue := flagValue_of_words hsplit (fun w hw => (hspec w hw).2) hstyle.comment hmodel
    h.model
  rw [e.trim_line h hstyle, parseConnection, splitOnce_colon h.noColon]
  simp only [Option.bind_eq_bind, Option.bind_some, hsplit, hidentity, hmodelValue, h.trimmed]
  rfl

/-! ### The block -/

/-- Blank lines change nothing. -/
theorem ConnectionsScan.foldl_blanks {blanks : List Text} (h : ∀ l ∈ blanks, Blank l)
    (conns : List DeclaredConnection) :
    blanks.foldl ConnectionsScan.line ⟨conns, true⟩ = ⟨conns, true⟩ := by
  induction blanks with
  | nil => rfl
  | cons l blanks ih =>
    have hl : ConnectionsScan.line ⟨conns, true⟩ l = ⟨conns, true⟩ := by
      rw [ConnectionsScan.line, trim_of_blank (h l List.mem_cons_self)]
      rfl
    rw [List.foldl_cons, hl]
    exact ih fun l hl => h l (List.mem_cons_of_mem _ hl)

/-- An entry adds its connection. -/
theorem ConnectionsScan.line_entry {e : Entry} {style : EntryStyle} (h : e.WellFormed)
    (hstyle : style.WellFormed) (conns : List DeclaredConnection) :
    ConnectionsScan.line ⟨conns, true⟩ (e.line style) = ⟨conns ++ [e.declared], true⟩ := by
  have htrim := e.trim_line h hstyle
  have hparse := e.parseConnection_line h hstyle
  have hindented : indented (e.line style) = true := by
    obtain ⟨c, indent, hindent⟩ := List.exists_cons_of_ne_nil (l := style.indent) (by
      intro hnil
      have hno := hstyle.indented
      rw [hnil] at hno
      cases hno)
    have hyes := hstyle.indented
    rw [hindent] at hyes
    rw [Entry.line, hindent]
    exact hyes
  -- the room stands behind the colon, so the line is not the header
  have hroom : (e.behind style).rdropWhile isWhitespace ≠ [] := by
    intro hnil
    have hsplit := e.splitWhitespace_behind h hstyle
    rw [splitWhitespace, ← words_rdropWhile, hnil] at hsplit
    cases hsplit
  have hheader : trim (e.line style) ≠ "connections:".toList := by
    intro heq
    rw [htrim] at heq
    have hsplit := splitOnce_colon h.noColon ((e.behind style).rdropWhile isWhitespace)
    rw [heq, show splitOnce [':'] "connections:".toList = some ("connections".toList, []) from by
      decide] at hsplit
    exact hroom (Prod.mk.inj (Option.some_inj.mp hsplit)).2.symm
  have hne : trim (e.line style) ≠ [] := by
    rw [htrim]
    simp
  unfold ConnectionsScan.line
  simp only [if_neg hheader, if_neg hne, hindented, hparse]
  rfl

theorem ConnectionsScan.foldl_blockLines {entries : List (Entry × EntryStyle)}
    (h : ∀ p ∈ entries, p.1.WellFormed ∧ p.2.WellFormed) (conns : List DeclaredConnection) :
    (blockLines entries).foldl ConnectionsScan.line ⟨conns, true⟩ =
      ⟨conns ++ entries.map fun p => p.1.declared, true⟩ := by
  induction entries generalizing conns with
  | nil => simp [blockLines]
  | cons p entries ih =>
    obtain ⟨hentry, hstyle⟩ := h p List.mem_cons_self
    have hrest := ih fun q hq => h q (List.mem_cons_of_mem _ hq)
    show ((p.2.blanks ++ [p.1.line p.2]) ++ blockLines entries).foldl _ _ = _
    rw [List.foldl_append, List.foldl_append, foldl_blanks hstyle.blanks, List.foldl_cons,
      line_entry hentry hstyle, List.foldl_nil, hrest, List.append_assoc]
    rfl

/-- Outside of a block nothing is found. -/
theorem ConnectionsScan.foldl_outside {ls : List Text}
    (h : ∀ l ∈ ls, trim l ≠ "connections:".toList) (conns : List DeclaredConnection) :
    ls.foldl ConnectionsScan.line ⟨conns, false⟩ = ⟨conns, false⟩ := by
  induction ls with
  | nil => rfl
  | cons l ls ih =>
    have hl : ConnectionsScan.line ⟨conns, false⟩ l = ⟨conns, false⟩ := by
      unfold ConnectionsScan.line
      simp only [if_neg (h l List.mem_cons_self)]
      rfl
    rw [List.foldl_cons, hl]
    exact ih fun l hl => h l (List.mem_cons_of_mem _ hl)

/-- **The block round-trips**, in any text around it; blank lines may stand behind it. -/
theorem parseConnections_block (entries : List (Entry × EntryStyle)) (content header : Text)
    (before blanks behind : List Text)
    (hentries : ∀ p ∈ entries, p.1.WellFormed ∧ p.2.WellFormed)
    (hlines : lines content = before ++ header :: (blockLines entries ++ (blanks ++ behind)))
    (hheader : trim header = "connections:".toList)
    (hbefore : ∀ l ∈ before, trim l ≠ "connections:".toList) (hblanks : ∀ l ∈ blanks, Blank l)
    (hbehind : ∀ l ∈ behind, trim l ≠ "connections:".toList)
    (hend : ∀ l ∈ behind.head?, trim l ≠ [] ∧ indented l = false) :
    parseConnections content = entries.map fun p => p.1.declared := by
  have hopen : ConnectionsScan.line ⟨[], false⟩ header = ⟨[], true⟩ := by
    unfold ConnectionsScan.line
    simp only [if_pos hheader]
  rw [parseConnections, hlines, List.foldl_append, ConnectionsScan.foldl_outside hbefore,
    List.foldl_cons, hopen, List.foldl_append, ConnectionsScan.foldl_blockLines hentries,
    List.foldl_append, ConnectionsScan.foldl_blanks hblanks]
  -- the block ends with the text, or with a line that is not indented
  cases behind with
  | nil => rfl
  | cons l behind =>
    obtain ⟨hne, hunindented⟩ := hend l rfl
    have hclose : ∀ conns, ConnectionsScan.line ⟨conns, true⟩ l = ⟨conns, false⟩ := by
      intro conns
      unfold ConnectionsScan.line
      simp only [if_neg (hbehind l List.mem_cons_self), if_neg hne, hunindented]
      rfl
    rw [List.foldl_cons, hclose,
      ConnectionsScan.foldl_outside fun l hl => hbehind l (List.mem_cons_of_mem _ hl)]
    rfl

/-- A line of its own, two spaces in front of its comment. -/
def demoStyle (blanks : List Text) (modelFirst : Bool) (comment : List Text) : EntryStyle where
  blanks := blanks
  indent := "  ".toList
  modelFirst := modelFirst
  gap n := if n = 5 then "  ".toList else " ".toList
  comment := comment
  trail := []

theorem demoStyle_wellFormed {blanks comment : List Text} (modelFirst : Bool)
    (hblanks : ∀ l ∈ blanks, Blank l) (hcomment : ∀ w ∈ comment.head?, ['#'] <+: w)
    (hwords : ∀ w ∈ comment, IsWord isWhitespace w) :
    (demoStyle blanks modelFirst comment).WellFormed := by
  have hindent : Blank "  ".toList ∧ indented "  ".toList = true ∧ Blank [] := by decide
  refine ⟨hblanks, hindent.1, hindent.2.1, fun n => ?_, fun n => ?_, hcomment, hwords, hindent.2.2⟩
  · show Blank (if n = 5 then "  ".toList else " ".toList)
    split_ifs <;> decide
  · show (if n = 5 then "  ".toList else " ".toList) ≠ []
    split_ifs <;> decide

/-- The block of a file, with a comment, a blank line and a section behind it. -/
theorem parseConnections_block_demo :
    parseConnections ("status: ACTIVE\nconnections:\n" ++
      "  engine: engine-1 --as api-cbc --model opus  # keep\n\n" ++
      "  pdf: pdf-2 --model sonnet\n\n## Notes\n  fake: no\n").toList =
      [⟨"engine".toList, "engine-1".toList, some "api-cbc".toList, "opus".toList⟩,
        ⟨"pdf".toList, "pdf-2".toList, none, "sonnet".toList⟩] := by
  refine parseConnections_block
    [(⟨"engine".toList, "engine-1".toList, some "api-cbc".toList, some "opus".toList⟩,
        demoStyle [] false ["#".toList, "keep".toList]),
      (⟨"pdf".toList, "pdf-2".toList, none, some "sonnet".toList⟩, demoStyle [[]] true [])]
    _ "connections:".toList ["status: ACTIVE".toList] [[]] ["## Notes".toList, "  fake: no".toList]
    ?_ (by decide +kernel) (by decide) (by decide) (by decide) (by decide) (by decide)
  rw [List.forall_mem_cons, List.forall_mem_singleton]
  refine ⟨⟨by decide, ?_⟩, by decide, ?_⟩
  · exact demoStyle_wellFormed false (by decide) (by decide) (by decide)
  · exact demoStyle_wellFormed true (by decide) (by decide) (by decide)

end ChatBotChat.Hook
