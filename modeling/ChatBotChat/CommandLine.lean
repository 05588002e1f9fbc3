/-
Command lines with subcommands and long options, as option parsers read them.

A line is written from its parts: the options in front of the subcommand, then every
subcommand with its options and positional arguments in any order, and what stands behind
a `--`.  `Line.accepted` says which lines a declaration admits.  An option takes its value
from the next word or behind an equals sign, and a word with a dash in front is never a
value or a positional argument by itself, so the first word that spells an option is that
option (`after_option`).
-/
import ChatBotChat.Cbc.Words

namespace CommandLine

abbrev Word : Type := List Char

/-! ### Lines -/

/-- A piece of a line: an option with its value in the next word or `joined` to it, a
flag, or a positional argument. -/
inductive Item where
  | option (name value : Word) (joined : Bool)
  | flag (name : Word)
  | positional (value : Word)
deriving DecidableEq

/-- The word that spells an option. -/
def spell (name : Word) : Word := '-' :: '-' :: name

def Item.words : Item → List Word
  | .option name value true => [spell name ++ '=' :: value]
  | .option name value false => [spell name, value]
  | .flag name => [spell name]
  | .positional value => [value]

/-- The option or flag that is given. -/
def Item.name? : Item → Option Word
  | .option name _ _ => some name
  | .flag name => some name
  | .positional _ => none

def Item.positional? : Item → Option Word
  | .positional value => some value
  | _ => none

structure Line where
  program : Word
  /-- What stands between the program and its subcommand. -/
  front : List Item
  subs : List (Word × List Item)
  /-- What stands behind a `--`. -/
  escaped : Option (List Word)

namespace Line

def path (line : Line) : List Word := line.subs.map Prod.fst

/-- The pieces of the last subcommand. -/
def items (line : Line) : List Item := (line.subs.getLast?.map Prod.snd).getD []

def tailWords (line : Line) : List Word :=
  match line.escaped with
  | none => []
  | some rest => ['-', '-'] :: rest

def words (line : Line) : List Word :=
  line.program :: (line.front.flatMap Item.words ++
    ((line.subs.flatMap fun sub => sub.1 :: sub.2.flatMap Item.words) ++ line.tailWords))

/-- The positional arguments of the last subcommand. -/
def positionals (line : Line) : List Word :=
  line.items.filterMap Item.positional? ++ line.escaped.getD []

end Line

def Item.value? (name : Word) : Item → Option Word
  | .option n value _ => if n = name then some value else none
  | _ => none

/-- The value that the pieces give an option. -/
def valueOf (name : Word) (items : List Item) : Option Word := items.findSome? (Item.value? name)

/-! ### What a declaration admits -/

structure Opt where
  name : Word
  /-- The values it takes; a flag takes none. -/
  takes : Option (Word → Bool)
  required : Bool
  conflicts : List Word

structure Command where
  path : List Word
  options : List Opt
  /-- How many positional arguments it has. -/
  positionals : ℕ

structure Spec where
  /-- The options of the program and of every subcommand. -/
  globals : List Opt
  commands : List Command

/-- A word that a parser takes for an option. -/
def dashed (word : Word) : Bool := word.head? = some '-' && word ≠ ['-']

def Item.accepted (opts : List Opt) : Item → Bool
  | .option name value joined => opts.any fun o =>
    o.name = name && o.takes.any (fun accepts => accepts value) && (joined || !dashed value)
  | .flag name => opts.any fun o => o.name = name && o.takes.isNone
  | .positional value => !dashed value

/-- The options are declared, given once, there where required, and do not conflict. -/
def accepted (opts : List Opt) (items : List Item) : Bool :=
  let given := items.filterMap Item.name?
  items.all (Item.accepted opts) && given.Nodup && opts.all fun o =>
    (!o.required || o.name ∈ given) && (o.name ∉ given || o.conflicts.all fun c => c ∉ given)

/-- Options alone. -/
def acceptedOptions (opts : List Opt) (items : List Item) : Bool :=
  accepted opts items && items.filterMap Item.positional? = []

def Line.accepted (spec : Spec) (line : Line) : Bool :=
  acceptedOptions spec.globals line.front &&
    (line.subs.dropLast.all fun sub => acceptedOptions spec.globals sub.2) &&
    spec.commands.any fun cmd => line.path = cmd.path && cmd.path ≠ [] &&
      CommandLine.accepted (cmd.options ++ spec.globals) line.items &&
      line.positionals.length = cmd.positionals

/-! ### Reading a line back -/

open Words

variable {opts : List Opt} {items : List Item} {name value : Word} {rest : List Word}

theorem spell_injective : Function.Injective spell := fun _ _ h => (List.cons.inj (List.cons.inj h).2).2

theorem dashed_spell (name : Word) : dashed (spell name) = true := by
  simp [dashed, spell]

theorem ne_spell_of_not_dashed (h : dashed value = false) : value ≠ spell name := by
  rintro rfl
  rw [dashed_spell] at h
  cases h

/-- A joined option is not the option's word. -/
theorem joined_ne_spell {n : Word} (h : '=' ∉ name) : spell n ++ '=' :: value ≠ spell name := by
  intro heq
  have htail : n ++ '=' :: value = name := (List.cons.inj (List.cons.inj heq).2).2
  exact h (htail ▸ List.mem_append_right _ List.mem_cons_self)

def Item.next? (name : Word) : Item → Option Word
  | .option n value false => if n = name then some value else none
  | _ => none

/-- The value of an option whose value is the next word. -/
def nextWord (name : Word) (items : List Item) : Option Word := items.findSome? (Item.next? name)

/-- **Behind the first word that spells an option stands the option's value**, where it
is not joined. -/
theorem after_option (h : items.all (Item.accepted opts) = true) (hname : '=' ∉ name)
    (htakes : ∀ o ∈ opts, o.name = name → o.takes.isSome = true) :
    after (spell name) (items.flatMap Item.words ++ rest) =
      (nextWord name items).or (after (spell name) rest) := by
  induction items with
  | nil => rfl
  | cons item items ih =>
    rw [List.all_cons, Bool.and_eq_true] at h
    obtain ⟨hitem, hitems⟩ := h
    have hrest := ih hitems
    rw [List.flatMap_cons, List.append_assoc]
    cases item with
    | positional value =>
      have hplain : dashed value = false := by simpa [Item.accepted] using hitem
      rw [Item.words, List.singleton_append, after_cons_of_ne (ne_spell_of_not_dashed hplain), hrest]
      rfl
    | flag n =>
      have hne : spell n ≠ spell name := by
        intro heq
        obtain ⟨o, ho, hflag⟩ := List.any_eq_true.mp hitem
        rw [Bool.and_eq_true, decide_eq_true_eq] at hflag
        have hsome := htakes o ho (hflag.1.trans (spell_injective heq))
        rw [Option.isNone_iff_eq_none.mp hflag.2] at hsome
        cases hsome
      rw [Item.words, List.singleton_append, after_cons_of_ne hne, hrest]
      rfl
    | option n value joined =>
      cases joined with
      | true =>
        rw [Item.words, List.singleton_append, after_cons_of_ne (joined_ne_spell hname), hrest]
        rfl
      | false =>
        rw [Item.words, List.cons_append, List.singleton_append]
        -- the option itself, whose value comes next, or another one, whose value has no dash
        by_cases hn : n = name
        · have hnext : Item.next? name (.option n value false) = some value := if_pos hn
          rw [nextWord, List.findSome?_cons, hnext, hn, after_cons_self]
          rfl
        · have hplain : dashed value = false := by
            obtain ⟨o, -, haccepts⟩ := List.any_eq_true.mp hitem
            rw [Bool.and_eq_true] at haccepts
            simpa using haccepts.2
          have hne : spell n ≠ spell name := fun heq => hn (spell_injective heq)
          have hnext : Item.next? name (.option n value false) = none := if_neg hn
          rw [after_cons_of_ne hne, after_cons_of_ne (ne_spell_of_not_dashed hplain), hrest,
            nextWord, nextWord, List.findSome?_cons, hnext]

/-- An option that is given once has its value where it stands. -/
theorem valueOf_eq_of_mem (h : (items.filterMap Item.name?).Nodup) {joined : Bool}
    (hmem : .option name value joined ∈ items) : valueOf name items = some value := by
  induction items with
  | nil => cases hmem
  | cons item items ih =>
    rw [valueOf, List.findSome?_cons]
    rcases List.mem_cons.mp hmem with rfl | hmem
    · have hvalue : Item.value? name (.option name value joined) = some value := if_pos rfl
      rw [hvalue]
    · have hname : name ∈ items.filterMap Item.name? := List.mem_filterMap.mpr ⟨_, hmem, rfl⟩
      have hother : Item.value? name item = none := by
        cases item with
        | positional v => rfl
        | flag n => rfl
        | option n v j =>
          have hnot : n ∉ items.filterMap Item.name? := (List.nodup_cons.mp h).1
          have hne : n ≠ name := fun heq => hnot (heq ▸ hname)
          exact if_neg hne
      have hnodup : (items.filterMap Item.name?).Nodup :=
        h.sublist ((List.sublist_cons_self item items).filterMap _)
      rw [hother]
      exact ih hnodup hmem

theorem mem_of_nextWord (h : nextWord name items = some value) :
    .option name value false ∈ items := by
  obtain ⟨item, hmem, hitem⟩ := List.exists_of_findSome?_eq_some h
  cases item with
  | positional v => cases hitem
  | flag n => cases hitem
  | option n v joined =>
    cases joined with
    | true => cases hitem
    | false =>
      obtain ⟨rfl, heq⟩ := (Option.ite_none_right_eq_some).mp hitem
      obtain rfl := Option.some_inj.mp heq
      exact hmem

/-- An option that is given once takes the next word or is joined. -/
theorem nextWord_of_mem (h : (items.filterMap Item.name?).Nodup)
    (hmem : .option name value false ∈ items) : nextWord name items = some value := by
  cases hnext : nextWord name items with
  | none =>
    have hnone := List.findSome?_eq_none_iff.mp hnext _ hmem
    rw [Item.next?, if_pos rfl] at hnone
    cases hnone
  | some v =>
    have hvalue := valueOf_eq_of_mem h (mem_of_nextWord hnext)
    rwa [valueOf_eq_of_mem h hmem, eq_comm] at hvalue

end CommandLine
