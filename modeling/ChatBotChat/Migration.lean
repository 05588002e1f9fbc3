/-
Migration 0009: participants are keyed by an instance in place of their tuple.

The migration copies the table row by row into one with a new unique key, and fails
as a whole where a row meets a key that is taken.  The instance of an old row is its
repo, model and cwd, joined by newlines.

* `migration_keeps_iff` — it succeeds, and keeps every identity, exactly if no two
  rows of a room have the same joined text;
* `separable_of_noNewline` — as it is when neither repos nor models contain a
  newline.
-/
import ChatBotChat.Cbc.Words
import ChatBotChat.Database

namespace ChatBotChat

/-- A row of `participants` before the migration; `τ` is a timestamp column, which the
migration only copies. -/
structure OldParticipant (τ : Type) where
  handle : String
  roomId : String
  repo : String
  model : String
  cwd : String
  joinedAt : τ
  lastPollAt : τ
  lastReadSeq : ℕ
deriving DecidableEq

/-- A row of `participants_new`. -/
structure MigratedParticipant (τ : Type) extends OldParticipant τ where
  inst : String
deriving DecidableEq

/-- The table before the migration: `handle` is the primary key, and the tuple is
unique. -/
structure OldTable (τ : Type) where
  rows : List (OldParticipant τ)
  handles : (rows.map OldParticipant.handle).Nodup
  tuples : (rows.map fun row => (row.roomId, row.repo, row.model, row.cwd)).Nodup

variable {τ : Type}

/-- `repo || char(10) || model || char(10) || cwd`. -/
def OldParticipant.joined (row : OldParticipant τ) : String :=
  row.repo ++ "\n" ++ row.model ++ "\n" ++ row.cwd

/-- The `SELECT` of the migration. -/
def OldParticipant.backfill (row : OldParticipant τ) : MigratedParticipant τ := ⟨row, row.joined⟩

/-- The two rows have a unique key in common. -/
def MigratedParticipant.clashes (row other : MigratedParticipant τ) : Bool :=
  row.handle = other.handle || (row.roomId = other.roomId && row.inst = other.inst)

/-- Insert one row; `none` is a unique key that is taken. -/
def insertRow (table : List (MigratedParticipant τ)) (row : MigratedParticipant τ) :
    Option (List (MigratedParticipant τ)) :=
  if table.any (·.clashes row) then none else some (table ++ [row])

/-- The migration of a table. -/
def migrate (rows : List (OldParticipant τ)) : Option (List (MigratedParticipant τ)) :=
  (rows.map OldParticipant.backfill).foldlM insertRow []

/-- The instance lookup on the new table. -/
def byInstance (table : List (MigratedParticipant τ)) (roomId inst : String) :
    Option (MigratedParticipant τ) :=
  table.find? fun row => row.roomId = roomId && row.inst = inst

/-- The row as the daemon reads it: the columns that later migrations add are empty. -/
def MigratedParticipant.toParticipant (row : MigratedParticipant OffsetDateTime) : Participant :=
  ⟨row.handle, row.roomId, row.repo, row.model, row.cwd, row.inst, row.joinedAt, row.lastPollAt,
    row.lastReadSeq, none, none, none⟩

/-- The lookup of the daemon on a migrated table. -/
theorem getParticipantByInstance_migrated (db : Db) (table : List (MigratedParticipant OffsetDateTime))
    (roomId inst : String) :
    { db with participants := table.map MigratedParticipant.toParticipant }.getParticipantByInstance
      roomId inst = (byInstance table roomId inst).map MigratedParticipant.toParticipant := by
  rw [Db.getParticipantByInstance, byInstance, List.find?_map]
  rfl

/-! ### What the migration keeps -/

/-- What a request with the tuple of `row` and no instance is looked up under. -/
def legacyInstance (row : MigratedParticipant τ) : String :=
  effectiveInstance ⟨row.repo, row.model, row.cwd, ""⟩

/-- The migration succeeds, keeps every row with its columns, and resolves each row's
tuple to this row and no other. -/
def OldTable.Kept (t : OldTable τ) : Prop :=
  ∃ table, migrate t.rows = some table ∧
    table.map MigratedParticipant.toOldParticipant = t.rows ∧
      ∀ row ∈ table, byInstance table row.roomId (legacyInstance row) = some row ∧
        ∀ other ∈ table, other.roomId = row.roomId → other.inst = legacyInstance row → other = row

/-- No two rows of a room have the same joined text. -/
def OldTable.Separable (t : OldTable τ) : Prop :=
  ∀ row ∈ t.rows, ∀ other ∈ t.rows, row.roomId = other.roomId → row.joined = other.joined →
    row = other

theorem legacyInstance_backfill (row : OldParticipant τ) :
    legacyInstance row.backfill = row.joined := by
  show (if "" = "" then row.joined else "") = row.joined
  exact if_pos rfl

/-- Inserting row by row succeeds where no two rows clash. -/
theorem foldlM_insertRow : ∀ {rows table table' : List (MigratedParticipant τ)},
    rows.foldlM insertRow table = some table' ↔ table' = table ++ rows ∧
      (∀ row ∈ rows, ∀ other ∈ table, other.clashes row = false) ∧
        rows.Pairwise fun other row => other.clashes row = false := by
  intro rows
  induction rows with
  | nil =>
    intro table table'
    constructor
    · rintro ⟨⟩
      exact ⟨(List.append_nil _).symm, nofun, .nil⟩
    · rintro ⟨rfl, -, -⟩
      rw [List.append_nil]
      rfl
  | cons row rows ih =>
    intro table table'
    rw [List.foldlM_cons, Option.bind_eq_bind, insertRow]
    by_cases hany : table.any (·.clashes row) = true
    · rw [if_pos hany, Option.bind_none]
      obtain ⟨other, hother, hclash⟩ := List.any_eq_true.mp hany
      refine iff_of_false nofun ?_
      rintro ⟨-, hfree, -⟩
      rw [hfree row List.mem_cons_self other hother] at hclash
      cases hclash
    · rw [if_neg hany, Option.bind_some, ih, List.append_assoc, List.singleton_append,
        List.pairwise_cons]
      rw [List.any_eq_true, not_exists] at hany
      have hfree : ∀ other ∈ table, other.clashes row = false := fun other hother =>
        Bool.eq_false_iff.mpr fun hclash => hany other ⟨hother, hclash⟩
      refine and_congr_right fun _ => ?_
      constructor
      · rintro ⟨hrows, hpairs⟩
        refine ⟨fun r hr other hother => ?_, fun r hr => hrows r hr row (by simp), hpairs⟩
        rcases List.mem_cons.mp hr with rfl | hr
        · exact hfree other hother
        · exact hrows r hr other (List.mem_append_left _ hother)
      · rintro ⟨hrows, hrow, hpairs⟩
        refine ⟨fun r hr other hother => ?_, hpairs⟩
        rcases List.mem_append.mp hother with hother | hother
        · exact hrows r (List.mem_cons_of_mem _ hr) other hother
        · rw [List.mem_singleton.mp hother]
          exact hrow r hr

/-- The migration succeeds where no two backfilled rows clash. -/
theorem migrate_eq_some {rows : List (OldParticipant τ)} {table : List (MigratedParticipant τ)} :
    migrate rows = some table ↔ table = rows.map OldParticipant.backfill ∧
      rows.Pairwise fun other row => other.backfill.clashes row.backfill = false := by
  rw [migrate, foldlM_insertRow, List.pairwise_map]
  simp

/-- **Migration 0009 keeps identities exactly if the joined texts are separate.** -/
theorem migration_keeps_iff (t : OldTable τ) : t.Kept ↔ t.Separable := by
  have hnodup : t.rows.Nodup := t.handles.of_map
  constructor
  · rintro ⟨table, hmigrate, -, -⟩ row hrow other hother hroom hjoined
    obtain ⟨-, hpairs⟩ := migrate_eq_some.mp hmigrate
    have hkeys : (t.rows.map fun row => (row.roomId, row.joined)).Nodup := by
      refine List.pairwise_map.mpr (hpairs.imp fun {a b} hfree heq => ?_)
      obtain ⟨hroom, hjoined⟩ := Prod.mk.inj heq
      simp [MigratedParticipant.clashes, OldParticipant.backfill, hroom, hjoined] at hfree
    exact List.inj_on_of_nodup_map hkeys hrow hother (Prod.mk.injEq .. ▸ ⟨hroom, hjoined⟩)
  · intro hseparable
    have hpairs : t.rows.Pairwise fun other row => other.backfill.clashes row.backfill = false := by
      refine hnodup.pairwise_of_forall_ne fun row hrow other hother hne => ?_
      have hhandle : row.handle ≠ other.handle := fun heq =>
        hne (List.inj_on_of_nodup_map t.handles hrow hother heq)
      have hkey : ¬ (row.roomId = other.roomId ∧ row.joined = other.joined) := fun hkey =>
        hne (hseparable row hrow other hother hkey.1 hkey.2)
      rw [MigratedParticipant.clashes, Bool.or_eq_false_iff, decide_eq_false_iff_not,
        ← Bool.not_eq_true, Bool.and_eq_true, decide_eq_true_eq, decide_eq_true_eq]
      exact ⟨hhandle, hkey⟩
    refine ⟨_, migrate_eq_some.mpr ⟨rfl, hpairs⟩, ?_, ?_⟩
    · rw [List.map_map]
      exact List.map_id _
    · -- the key of a request finds its own row, since the joined texts are separate
      have hunique : ∀ row ∈ t.rows, ∀ other ∈ t.rows.map OldParticipant.backfill,
          other.roomId = row.backfill.roomId → other.inst = legacyInstance row.backfill →
            other = row.backfill := by
        intro row hrow other hother hroom hinst
        obtain ⟨old, hold, rfl⟩ := List.mem_map.mp hother
        rw [legacyInstance_backfill] at hinst
        rw [hseparable old hold row hrow hroom hinst]
      intro migrated hmigrated
      obtain ⟨row, hrow, rfl⟩ := List.mem_map.mp hmigrated
      refine ⟨find?_eq_of_unique hmigrated ?_ fun other hother hmatch => ?_, hunique row hrow⟩
      · rw [legacyInstance_backfill, Bool.and_eq_true, decide_eq_true_eq, decide_eq_true_eq]
        exact ⟨rfl, rfl⟩
      · rw [Bool.and_eq_true, decide_eq_true_eq, decide_eq_true_eq] at hmatch
        exact hunique row hrow other hother hmatch.1 hmatch.2

/-- The joined texts are separate if the repos and the models contain no newline. -/
theorem separable_of_noNewline (t : OldTable τ)
    (h : ∀ row ∈ t.rows, '\n' ∉ row.repo.toList ∧ '\n' ∉ row.model.toList) : t.Separable := by
  intro row hrow other hother hroom hjoined
  have hchars : row.repo.toList ++ '\n' :: (row.model.toList ++ '\n' :: row.cwd.toList) =
      other.repo.toList ++ '\n' :: (other.model.toList ++ '\n' :: other.cwd.toList) := by
    simpa [OldParticipant.joined] using congrArg String.toList hjoined
  obtain ⟨hrepo, hrest⟩ :=
    Words.append_cons_inj (h row hrow).1 (h other hother).1 hchars
  obtain ⟨hmodel, hcwd⟩ :=
    Words.append_cons_inj (h row hrow).2 (h other hother).2 hrest
  refine List.inj_on_of_nodup_map t.tuples hrow hother ?_
  rw [hroom, String.toList_injective hrepo, String.toList_injective hmodel,
    String.toList_injective hcwd]

/-- Two participants of one room whose tuples differ only in where a newline stands. -/
def newlineTwins : OldTable String where
  rows := [⟨"api-opus-0001", "room", "api\nv2", "opus", "/work", "t0", "t0", 0⟩,
    ⟨"api-opus-0002", "room", "api", "v2\nopus", "/work", "t0", "t0", 0⟩]
  handles := by decide
  tuples := by decide

/-- Their instances collide, and the migration fails. -/
theorem not_migration_keeps : ¬ ∀ t : OldTable String, t.Kept := by
  intro h
  obtain ⟨table, hmigrate, -⟩ := h newlineTwins
  have hnone : migrate newlineTwins.rows = none := by decide
  rw [hnone] at hmigrate
  cases hmigrate

end ChatBotChat
