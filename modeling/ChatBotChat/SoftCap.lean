/-
The soft-cap counter.

`consecutiveMsgCount` counts the autonomous turns of a room behind a boundary, the
last human input.

* `consecutiveMsgCount_runLength` — the query is the automaton that goes through
  the rows of the room from the first one on, and later rows do not change it;
* `advertised_resets_iff` — what the tools call a reset resets, except a fold
  behind an autonomous turn;
* `soft_cap_surfaces_iff` — a run of turns surfaces to the user exactly if its turn
  before the soft cap had a recipient.
-/
import ChatBotChat.JoinWindow
import ChatBotChat.Inbox

namespace ChatBotChat

open Interleave

variable {db : Db} {id : String} {q : ℕ} {m x : Message}

/-! ### The automaton -/

/-- One row: a turn lengthens the run, human input ends it. -/
def runStep (n : ℕ) (m : Message) : ℕ :=
  if Db.autonomous m then n + 1 else if Db.resetsSoftCap m then 0 else n

/-- The length of the run that the rows of the room up to `q` end in. -/
def Db.runLength (db : Db) (id : String) (q : ℕ) : ℕ :=
  (db.messages.filter fun m => m.roomId = id && m.seq ≤ q).foldl runStep 0

/-- The rows of `messages` stand in the order of their rowids, which begin at 1. -/
def Db.Keyed (db : Db) : Prop :=
  (db.messages.map Message.seq).Pairwise (· < ·) ∧ ∀ m ∈ db.messages, 0 < m.seq

theorem Db.WellFormed.keyed (hwf : db.WellFormed) : db.Keyed :=
  ⟨hwf.seqs, fun m hm => (hwf.posted m hm).1⟩

theorem autonomous_of_resets (h : Db.resetsSoftCap m = true) : Db.autonomous m = false := by
  rw [Db.resetsSoftCap, Bool.or_eq_true, Bool.and_eq_true, decide_eq_true_eq,
    decide_eq_true_eq] at h
  rcases h with ⟨-, hhuman⟩ | hwaiting
  · simp [Db.autonomous, hhuman]
  · simp [Db.autonomous, hwaiting]

/-- The automaton counts the turns behind the last reset. -/
theorem foldl_runStep : ∀ {l : List Message}, (l.map Message.seq).Pairwise (· < ·) →
    (∀ m ∈ l, 0 < m.seq) → l.foldl runStep 0 =
      l.countP fun m => Db.autonomous m &&
        maxKey ((l.filter Db.resetsSoftCap).map Message.seq) < m.seq := by
  intro l
  induction l using List.reverseRecOn with
  | nil => exact fun _ _ => rfl
  | append_singleton l m ih =>
    intro hsorted hpos
    rw [List.map_append, List.pairwise_append] at hsorted
    obtain ⟨hsorted, -, hlast⟩ := hsorted
    have hlt : ∀ x ∈ l, x.seq < m.seq := fun x hx =>
      hlast _ (List.mem_map_of_mem hx) _ (List.mem_singleton_self _)
    rw [List.foldl_append, List.foldl_cons, List.foldl_nil,
      ih hsorted fun x hx => hpos x (List.mem_append_left _ hx), runStep]
    by_cases hturn : Db.autonomous m = true
    · -- a turn: the boundary lies before it
      have hreset : Db.resetsSoftCap m = false := by
        by_contra hreset
        rw [Bool.not_eq_false] at hreset
        rw [autonomous_of_resets hreset] at hturn
        cases hturn
      have hsame : (l ++ [m]).filter Db.resetsSoftCap = l.filter Db.resetsSoftCap := by
        rw [List.filter_append, List.filter_singleton, hreset]
        exact List.append_nil _
      have hbound : maxKey ((l.filter Db.resetsSoftCap).map Message.seq) < m.seq := by
        rw [maxKey_lt (hpos m (by simp))]
        rintro k hk
        obtain ⟨x, hx, rfl⟩ := List.mem_map.mp hk
        exact hlt x (List.mem_of_mem_filter hx)
      rw [if_pos hturn, hsame, List.countP_append, List.countP_singleton, hturn,
        decide_eq_true hbound]
      rfl
    · rw [if_neg hturn]
      rw [Bool.not_eq_true] at hturn
      by_cases hreset : Db.resetsSoftCap m = true
      · -- human input: nothing lies behind it
        rw [if_pos hreset, eq_comm, List.countP_eq_zero]
        intro x hx
        have hle : x.seq ≤ m.seq := by
          rcases List.mem_append.mp hx with hx | hx
          · exact (hlt x hx).le
          · rw [List.mem_singleton.mp hx]
        have hkey : m.seq ≤ maxKey (((l ++ [m]).filter Db.resetsSoftCap).map Message.seq) :=
          le_maxKey (List.mem_map_of_mem (List.mem_filter.mpr ⟨by simp, hreset⟩))
        rw [Bool.and_eq_true, decide_eq_true_eq]
        omega
      · rw [if_neg hreset]
        rw [Bool.not_eq_true] at hreset
        have hsame : (l ++ [m]).filter Db.resetsSoftCap = l.filter Db.resetsSoftCap := by
          rw [List.filter_append, List.filter_singleton, hreset]
          exact List.append_nil _
        rw [hsame, List.countP_append, List.countP_singleton, hturn]
        rfl

/-- The query reads the rows of the room up to `q`. -/
theorem consecutiveMsgCount_filter (db : Db) (id : String) (q : ℕ) :
    db.consecutiveMsgCount id q =
      (db.messages.filter fun m => m.roomId = id && m.seq ≤ q).countP fun m => Db.autonomous m &&
        maxKey (((db.messages.filter fun m => m.roomId = id && m.seq ≤ q).filter
          Db.resetsSoftCap).map Message.seq) < m.seq := by
  have hboundary : db.resetBoundary id q = maxKey (((db.messages.filter fun m =>
      m.roomId = id && m.seq ≤ q).filter Db.resetsSoftCap).map Message.seq) := by
    rw [Db.resetBoundary, List.filter_filter]
    congr 3
    funext x
    rw [Bool.and_comm]
  rw [Db.consecutiveMsgCount, hboundary, List.countP_filter]
  congr 1
  funext x
  simp only [Bool.and_assoc, Bool.and_comm, Bool.and_left_comm]

/-- Rows after `q` do not change the counter at `q`. -/
theorem consecutiveMsgCount_append (db : Db) {newer : List Message}
    (hnewer : ∀ m ∈ newer, q < m.seq) :
    { db with messages := db.messages ++ newer }.consecutiveMsgCount id q =
      db.consecutiveMsgCount id q := by
  have hnone : newer.filter (fun m => m.roomId = id && m.seq ≤ q) = [] := by
    rw [List.filter_eq_nil_iff]
    intro m hm
    have hlt := hnewer m hm
    rw [Bool.and_eq_true, decide_eq_true_eq, decide_eq_true_eq]
    omega
  rw [consecutiveMsgCount_filter, consecutiveMsgCount_filter, List.filter_append, hnone,
    List.append_nil]

/-- **The soft-cap counter is the run automaton**, whatever other rooms have in the
table, and rows that land later leave it as it is. -/
theorem consecutiveMsgCount_runLength (hkeyed : db.Keyed) (id : String) (q : ℕ) :
    db.consecutiveMsgCount id q = db.runLength id q ∧
      ∀ newer : List Message, (∀ m ∈ newer, q < m.seq) →
        { db with messages := db.messages ++ newer }.consecutiveMsgCount id q =
          db.consecutiveMsgCount id q := by
  refine ⟨?_, fun newer hnewer => consecutiveMsgCount_append db hnewer⟩
  rw [consecutiveMsgCount_filter, Db.runLength, foldl_runStep]
  · exact hkeyed.1.sublist (List.filter_sublist.map _)
  · exact fun m hm => hkeyed.2 m (List.mem_of_mem_filter hm)

/-- A turn, a consultation and a turn, among rows of another room. -/
def mixedRooms : Db :=
  ⟨[], [], [⟨1, "a", "x", none, "", 0, .msg, false, none, none⟩,
    ⟨2, "b", "y", none, "", 0, .msg, false, none, none⟩,
    ⟨3, "a", "x", none, "", 0, .waitingUser, false, none, none⟩,
    ⟨4, "a", "z", none, "", 0, .msg, false, none, none⟩], []⟩

theorem consecutiveMsgCount_runLength_mixedRooms :
    mixedRooms.consecutiveMsgCount "a" 4 = mixedRooms.runLength "a" 4 ∧
      ∀ newer : List Message, (∀ m ∈ newer, 4 < m.seq) →
        { mixedRooms with messages := mixedRooms.messages ++ newer }.consecutiveMsgCount "a" 4 =
          mixedRooms.consecutiveMsgCount "a" 4 :=
  consecutiveMsgCount_runLength (by unfold Db.Keyed; decide) "a" 4

/-! ### What the tools call a reset -/

/-- A human message, a consultation of the user, and the fold of which `cbc_signal`
says that the soft-cap counter is reset. -/
def advertisedReset (m : Message) : Bool :=
  (m.msgType = .msg && m.fromHuman) || m.msgType = .waitingUser || m.msgType = .fold

/-- At `m` the counter is 0, and until the next advertised reset it counts the turns
after `m`. -/
def Db.ResetsAt (db : Db) (m : Message) : Prop :=
  db.consecutiveMsgCount m.roomId m.seq = 0 ∧
    ∀ q, m.seq ≤ q →
      (∀ x ∈ db.messages, x.roomId = m.roomId → m.seq < x.seq → x.seq ≤ q →
        advertisedReset x = false) →
      db.consecutiveMsgCount m.roomId q = db.messages.countP fun x =>
        x.roomId = m.roomId && Db.autonomous x && m.seq < x.seq && x.seq ≤ q

/-- Every turn before `m` is followed by human input before `m`. -/
def Db.NothingToReset (db : Db) (m : Message) : Prop :=
  ∀ x ∈ db.messages, x.roomId = m.roomId → Db.autonomous x = true → x.seq < m.seq →
    ∃ r ∈ db.messages, r.roomId = m.roomId ∧ Db.resetsSoftCap r = true ∧ x.seq < r.seq ∧
      r.seq < m.seq

theorem advertisedReset_cases (h : advertisedReset m = true) :
    Db.resetsSoftCap m = true ∨ m.msgType = .fold := by
  rw [advertisedReset, Bool.or_eq_true, decide_eq_true_eq] at h
  exact h

theorem Db.Keyed.eq_of_seq (hkeyed : db.Keyed) (hm : m ∈ db.messages) (hx : x ∈ db.messages)
    (hseq : m.seq = x.seq) : m = x :=
  List.inj_on_of_nodup_map (hkeyed.1.imp Nat.ne_of_lt) hm hx hseq

/-- A turn counts if no human input up to `q` lies behind it. -/
theorem resetBoundary_lt_iff (hx : 0 < x.seq) : db.resetBoundary id q < x.seq ↔
    ∀ r ∈ db.messages, r.roomId = id → Db.resetsSoftCap r = true → r.seq ≤ q → r.seq < x.seq := by
  rw [Db.resetBoundary, maxKey_lt hx]
  constructor
  · intro h r hr hroom hreset hle
    refine h _ (List.mem_map_of_mem (List.mem_filter.mpr ⟨hr, ?_⟩))
    simp [hroom, hreset, hle]
  · rintro h k hk
    obtain ⟨r, hr, rfl⟩ := List.mem_map.mp hk
    obtain ⟨hmem, hr⟩ := List.mem_filter.mp hr
    rw [Bool.and_eq_true, Bool.and_eq_true, decide_eq_true_eq, decide_eq_true_eq] at hr
    exact h r hmem hr.1.1 hr.2 hr.1.2

/-- If every turn up to `m` is followed by human input up to `m`, the counter begins
anew there. -/
theorem resetsAt_of_followed (hkeyed : db.Keyed)
    (h : ∀ x ∈ db.messages, x.roomId = m.roomId → Db.autonomous x = true → x.seq ≤ m.seq →
      ∃ r ∈ db.messages, r.roomId = m.roomId ∧ Db.resetsSoftCap r = true ∧ x.seq ≤ r.seq ∧
        r.seq ≤ m.seq) : db.ResetsAt m := by
  have hcount : ∀ q, m.seq ≤ q →
      (∀ x ∈ db.messages, x.roomId = m.roomId → m.seq < x.seq → x.seq ≤ q →
        advertisedReset x = false) →
      db.consecutiveMsgCount m.roomId q = db.messages.countP fun x =>
        x.roomId = m.roomId && Db.autonomous x && m.seq < x.seq && x.seq ≤ q := by
    intro q hq hnone
    refine List.countP_congr fun x hx => ?_
    rw [Bool.and_eq_true, Bool.and_eq_true, Bool.and_eq_true, Bool.and_eq_true, Bool.and_eq_true,
      Bool.and_eq_true, decide_eq_true_eq, decide_eq_true_eq, decide_eq_true_eq, decide_eq_true_eq,
      resetBoundary_lt_iff (hkeyed.2 x hx)]
    constructor
    · rintro ⟨⟨⟨hroom, hturn⟩, hle⟩, hbehind⟩
      refine ⟨⟨⟨hroom, hturn⟩, ?_⟩, hle⟩
      by_contra hnot
      obtain ⟨r, hr, hrroom, hreset, hxr, hrm⟩ := h x hx hroom hturn (by omega)
      have hlt := hbehind r hr hrroom hreset (by omega)
      omega
    · rintro ⟨⟨⟨hroom, hturn⟩, hlt⟩, hle⟩
      refine ⟨⟨⟨hroom, hturn⟩, hle⟩, fun r hr hrroom hreset hrq => ?_⟩
      -- a reset behind `m` would be an advertised one
      by_contra hnot
      have hadv := hnone r hr hrroom (by omega) hrq
      rw [advertisedReset, Bool.or_eq_false_iff] at hadv
      rw [Db.resetsSoftCap, hadv.1] at hreset
      cases hreset
  refine ⟨?_, hcount⟩
  rw [hcount m.seq le_rfl fun x _ _ hlt hle => absurd hle (by omega), List.countP_eq_zero]
  intro x _
  rw [Bool.and_eq_true, Bool.and_eq_true, decide_eq_true_eq, decide_eq_true_eq]
  omega

/-- **An advertised reset resets, except a fold behind a turn**: a fold counts as human
input only where there is nothing to reset. -/
theorem advertised_resets_iff (hkeyed : db.Keyed) (hm : m ∈ db.messages)
    (hadv : advertisedReset m = true) :
    db.ResetsAt m ↔ (m.msgType = .fold → db.NothingToReset m) := by
  constructor
  · rintro ⟨hzero, -⟩ hfold x hx hroom hturn hlt
    -- the turn is not counted at `m`, so that human input lies behind it
    have hbehind : ¬ db.resetBoundary m.roomId m.seq < x.seq := by
      have hnot := List.countP_eq_zero.mp hzero x hx
      simpa [hroom, hturn, hlt.le] using hnot
    rw [resetBoundary_lt_iff (hkeyed.2 x hx)] at hbehind
    push Not at hbehind
    obtain ⟨r, hr, hrroom, hreset, hrm, hxr⟩ := hbehind
    have hnex : x.seq ≠ r.seq := by
      intro heq
      rw [hkeyed.eq_of_seq hx hr heq, autonomous_of_resets hreset] at hturn
      cases hturn
    have hnem : r.seq ≠ m.seq := by
      intro heq
      rw [hkeyed.eq_of_seq hr hm heq] at hreset
      simp [Db.resetsSoftCap, hfold] at hreset
    exact ⟨r, hr, hrroom, hreset, by omega, by omega⟩
  · intro hnothing
    refine resetsAt_of_followed hkeyed fun x hx hroom hturn hle => ?_
    rcases advertisedReset_cases hadv with hreset | hfold
    · exact ⟨m, hm, rfl, hreset, hle, le_rfl⟩
    · have hne : x.seq ≠ m.seq := by
        intro heq
        rw [hkeyed.eq_of_seq hx hm heq] at hturn
        simp [Db.autonomous, hfold] at hturn
      obtain ⟨r, hr, hrroom, hreset, hxr, hrm⟩ := hnothing hfold x hx hroom hturn (by omega)
      exact ⟨r, hr, hrroom, hreset, hxr.le, hrm.le⟩

/-- Alice writes, folds, and then consults her user. -/
def folded : List Request :=
  gather none [alice, bob] ++ [.sendMessage demoRoom ⟨alice, none, "hello", false⟩,
    .signalRoom demoRoom ⟨alice, "fold", none, none, none⟩,
    .signalRoom demoRoom ⟨alice, "waiting_user", some "low", some "which one?", none⟩]

def foldRow : Message :=
  ⟨2, demoRoom, "api-opus-0001", none, "", 0, .fold, false, none, none⟩

def consultation : Message :=
  ⟨3, demoRoom, "api-opus-0001", none, "", 0, .waitingUser, false, some .low, some "which one?"⟩

/-- The consultation resets what the fold did not. -/
theorem advertised_resets_iff_consultation :
    (demo folded).shared.db.ResetsAt consultation :=
  (advertised_resets_iff (reachable_demo folded).wellFormed.keyed (by decide +kernel)
    (by decide)).mpr nofun

/-- A fold behind a turn resets nothing. -/
theorem not_advertised_resets : ¬ ∀ (app : AppState) (c : Daemon), Reachable app c →
    ∀ m ∈ c.shared.db.messages, advertisedReset m = true → c.shared.db.ResetsAt m := by
  intro h
  have hstill : foldRow ∈ (demo folded).shared.db.messages ∧
      (demo folded).shared.db.consecutiveMsgCount foldRow.roomId foldRow.seq ≠ 0 := by
    decide +kernel
  exact hstill.2 (h .default _ (reachable_demo folded) foldRow hstill.1 (by decide)).1

/-! ### Runs of turns -/

/-- Human input of the room stands between the rows `i` and `j`. -/
def Db.parted (db : Db) (id : String) (i j : ℕ) : Bool :=
  db.messages.any fun r =>
    r.roomId = id && Db.resetsSoftCap r && min i j ≤ r.seq && r.seq ≤ max i j

/-- The maximal run of turns around `m`: no human input stands between them and `m`. -/
def Db.run (db : Db) (m : Message) : List Message :=
  db.messages.filter fun x =>
    x.roomId = m.roomId && Db.autonomous x && !db.parted m.roomId m.seq x.seq

theorem parted_eq_false {i j : ℕ} : db.parted id i j = false ↔
    ∀ r ∈ db.messages, r.roomId = id → Db.resetsSoftCap r = true → min i j ≤ r.seq →
      max i j < r.seq := by
  rw [Db.parted, List.any_eq_false]
  refine forall₂_congr fun r _ => ?_
  rw [Bool.and_eq_true, Bool.and_eq_true, Bool.and_eq_true, decide_eq_true_eq, decide_eq_true_eq,
    decide_eq_true_eq]
  constructor
  · intro h hroom hreset hle
    by_contra hnot
    exact h ⟨⟨⟨hroom, hreset⟩, hle⟩, by omega⟩
  · rintro h ⟨⟨⟨hroom, hreset⟩, hle⟩, hge⟩
    have hlt := h hroom hreset hle
    omega

theorem mem_run : x ∈ db.run m ↔ x ∈ db.messages ∧ x.roomId = m.roomId ∧
    Db.autonomous x = true ∧ db.parted m.roomId m.seq x.seq = false := by
  simp [Db.run, and_assoc]

/-- A run is the run around each of its members. -/
theorem run_eq_of_mem (h : x ∈ db.run m) : db.run x = db.run m := by
  obtain ⟨-, hroom, -, hxm⟩ := mem_run.mp h
  rw [parted_eq_false] at hxm
  refine List.filter_congr fun y _ => ?_
  rw [hroom]
  congr 2
  rw [Bool.eq_iff_iff, ← Bool.not_eq_false, ← Bool.not_eq_false, not_iff_not, parted_eq_false,
    parted_eq_false]
  -- what parts two of the three rows parts one of the others from the third
  refine forall₄_congr fun r hr hrroom hreset => ?_
  have hcut := hxm r hr hrroom hreset
  omega

/-- The counter at `m` is the place of `m` in its run. -/
theorem consecutiveMsgCount_run (hkeyed : db.Keyed) (m : Message) :
    db.consecutiveMsgCount m.roomId m.seq = (db.run m).countP fun x => x.seq ≤ m.seq := by
  rw [Db.run, List.countP_filter]
  refine List.countP_congr fun x hx => ?_
  rw [Bool.and_eq_true, Bool.and_eq_true, Bool.and_eq_true, Bool.and_eq_true, Bool.and_eq_true,
    Bool.and_eq_true, decide_eq_true_eq, decide_eq_true_eq, decide_eq_true_eq, Bool.not_eq_true',
    resetBoundary_lt_iff (hkeyed.2 x hx), parted_eq_false]
  constructor
  · rintro ⟨⟨⟨hroom, hturn⟩, hle⟩, hbehind⟩
    refine ⟨hle, ⟨hroom, hturn⟩, fun r hr hrroom hreset hge => ?_⟩
    have hcut := hbehind r hr hrroom hreset
    omega
  · rintro ⟨hle, ⟨hroom, hturn⟩, hbehind⟩
    refine ⟨⟨⟨hroom, hturn⟩, hle⟩, fun r hr hrroom hreset hge => ?_⟩
    have hcut := hbehind r hr hrroom hreset
    omega

/-- A turn is the one that the soft cap `s` is about exactly if it is number `s - 1`
of its run. -/
theorem getElem?_run_iff (hkeyed : db.Keyed) {s : ℕ} (hs : 2 ≤ s) :
    (db.run m)[s - 2]? = some x ↔
      x ∈ db.run m ∧ (db.consecutiveMsgCount x.roomId x.seq : ℤ) = s - 1 := by
  have hsorted : ((db.run m).map Message.seq).Pairwise (· < ·) :=
    hkeyed.1.sublist (List.filter_sublist.map _)
  rw [Feed.getElem?_iff_countP hsorted]
  refine and_congr_right fun hx => ?_
  rw [consecutiveMsgCount_run hkeyed, run_eq_of_mem hx]
  omega

/-! ### Recipients -/

variable {app : AppState} {c : Daemon} {e : Step} {old new tr : List Step} {s s' : Store}
  {handle : String} {p : Participant}

/-- The row of `p` came from a join, with a cursor no later than it has now. -/
def JoinedAs (tr : List Step) (p : Participant) : Prop :=
  ∃ e ∈ tr, ∃ p₀, e.call.joined e.reply = some p₀ ∧ p₀.handle = p.handle ∧ p₀.roomId = p.roomId ∧
    p₀.lastReadSeq ≤ p.lastReadSeq

/-- Every row came from a join. -/
theorem Reachable.joinedAs (h : Reachable app c) :
    Throughout c fun tr s => ∀ p ∈ s.db.participants, JoinedAs tr p := by
  refine h.induction ?_ ?_ ?_
  · rintro s₀ ⟨hdb, -⟩
    simp [hdb, Db.empty]
  · intro tr s₁ s₂ hdb _ _ _ hjoined
    rwa [hdb]
  · intro e tr hrec hjoined q hq
    rcases hrec.effect.mem_participants.mp hq with ⟨p, hp, -, rfl⟩ | hnew
    · obtain ⟨e₀, he₀, p₀, hminted, hhandle, hroom, hle⟩ := hjoined p hp
      refine ⟨e₀, List.mem_cons_of_mem _ he₀, p₀, hminted, ?_, ?_, ?_⟩
      · rw [hhandle, Call.onParticipant_handle]
      · rw [hroom, Call.onParticipant_roomId]
      · rw [Call.onParticipant_lastReadSeq]
        exact hle.trans (hrec.cursor_le p)
    · exact ⟨e, List.mem_cons_self, q, hnew, rfl, rfl, le_rfl⟩

/-- Somebody whom `m` is addressed to joined its room with a cursor before it. -/
def HadRecipient (c : Daemon) (m : Message) : Prop :=
  ∃ e ∈ c.trace, ∃ p, e.call.joined e.reply = some p ∧ p.roomId = m.roomId ∧
    Db.addressedTo m.roomId p.handle m = true ∧ p.lastReadSeq < m.seq

/-- A wait has handed `m` to its caller, with the flag. -/
def SurfacedToUser (c : Daemon) (m : Message) : Prop :=
  ∃ t ∈ c.threads, ∃ r retryAfter roomState, t.req = .waitRoom m.roomId r ∧
    t.returned = some (.ok (.waited (.message (messageView m) true retryAfter roomState)))

/-- A room that has been open throughout, that nobody has been pruned from, and in which
all have waited until they were caught up. -/
@[mk_iff]
structure WaitedOut (c : Daemon) (id : String) : Prop where
  isOpen : ∀ e ∈ c.trace, ∀ row ∈ e.before.db.rooms, row.id = id → row.state.halted = false
  kept : ∀ e ∈ c.trace, ∀ p ∈ e.before.db.participants, e.call.prunes p = false
  /-- Messages are claimed by waits alone. -/
  waits : ∀ t ∈ c.threads, t.req.isClaim = false
  /-- A wait that has claimed a message has answered. -/
  answered : ∀ p ∈ c.shared.db.participants, p.roomId = id → ∀ e ∈ c.trace,
    e.call.claims p.handle e.reply = true → (c.threads[e.tid]?.bind Thread.returned).isSome = true
  caughtUp : ∀ p ∈ c.shared.db.participants, p.roomId = id →
    c.shared.db.nextUnread id p.handle p.lastReadSeq = none

instance (c : Daemon) (id : String) : Decidable (WaitedOut c id) :=
  decidable_of_iff _ (waitedOut_iff c id).symm

theorem WaitedOut.notPruned (h : WaitedOut c id) (handle : String) : NotPruned c.trace handle := by
  rintro e he ⟨p, hp, -, hprunes⟩
  rw [h.kept e he p hp] at hprunes
  cases hprunes

/-! ### What a wait says of the message it delivers -/

/-- What lands later does not change the counter at a message that is there. -/
theorem History.consecutiveMsgCount_kept (h : History app s tr s') (hwf : s.db.WellFormed)
    (hm : m ∈ s.db.messages) (id : String) :
    s'.db.consecutiveMsgCount id m.seq = s.db.consecutiveMsgCount id m.seq := by
  obtain ⟨landed, hmessages, hlater⟩ := h.landed_later hwf
  have hlt : ∀ x ∈ landed, m.seq < x.seq := fun x hx => (Db.lt_nextSeq hm).trans_le (hlater x hx)
  rw [← consecutiveMsgCount_append s.db hlt]
  rw [consecutiveMsgCount_filter, consecutiveMsgCount_filter, hmessages]

/-- A room that is open throughout is open in every read. -/
theorem WaitedOut.room_open (h : Reachable app c) (hout : WaitedOut c id) {i : ℕ} {room : Room}
    (hread : ⟨.getRoom id, some room⟩ ∈ pastOf i c.trace) : room.state.halted = false := by
  obtain ⟨x, hx, -, hxread⟩ := mem_pastOf.mp hread
  obtain ⟨older, hrec⟩ := h.recorded_of_mem hx
  obtain ⟨sess, hexec⟩ := hrec.exec
  have hopen := hout.isOpen x hx
  have hwf := hrec.wellFormed_before
  obtain ⟨tid, call, reply, before, after⟩ := x
  cases hxread
  obtain ⟨hget, -⟩ := done_of_tryRead hexec
  rw [Bool.eq_false_iff, ne_eq, halted_of_getRoom hwf hget]
  rintro ⟨row, hrow, hid, hhalted⟩
  rw [hopen row hrow hid] at hhalted
  cases hhalted

/-- What a wait claims had a recipient. -/
theorem WaitedOut.claimed (h : Reachable app c) (hout : WaitedOut c id) {cursor : ℕ}
    (hsuf : e :: tr <:+ c.trace) (hcall : e.call = .advanceCursor m.seq handle cursor)
    (hreply : e.reply ≍ true) {claim : Log}
    (hlog : pastOf e.tid tr = ⟨.nextUnread id handle cursor, some m⟩ :: claim) :
    m ∈ e.before.db.messages ∧ m.roomId = id ∧ HadRecipient c m := by
  have hrec : Recorded app c e tr := h.recorded hsuf
  obtain ⟨t, id', m', ht, hclaiming, hseq⟩ := hrec.claiming hcall
  obtain ⟨rest, hlog', hfor, -⟩ := hclaiming.log
  obtain ⟨hfound, -⟩ := List.cons_eq_cons.mp (hlog.symm.trans hlog')
  cases hfound
  obtain ⟨hmem, hlt, hto⟩ := hclaiming.spec
  have hrest : rest ⊆ pastOf e.tid tr := by
    rw [hlog']
    exact List.subset_append_right [_, _] rest
  -- the swap matched the row of the caller, which is one of the room
  obtain ⟨q, hq, hhandle, hcursor⟩ : ∃ q ∈ e.before.db.participants, q.handle = handle ∧
      q.lastReadSeq = cursor := by
    obtain ⟨sess, hexec⟩ := hrec.exec
    have hwf := hrec.wellFormed_before
    obtain ⟨tid, call, reply, before, after⟩ := e
    dsimp only at hcall hreply hexec
    subst hcall
    exact (swap_spec hwf hexec).mp (eq_of_heq hreply)
  have hqroom : id = q.roomId := by
    refine hrec.claim_room hq (hout.notPruned _) (claimsInRoom_of_none hout.waits) ht hrest ?_
    rwa [hhandle]
  have hmroom : m.roomId = id := by
    rw [Db.addressedTo, Bool.and_eq_true, Bool.and_eq_true, decide_eq_true_eq] at hto
    exact hto.1.1
  obtain ⟨e₀, he₀, p₀, hminted, hhandle₀, hroom₀, hle⟩ := h.joinedAs.before hsuf q hq
  refine ⟨hmem, hmroom, e₀, ?_, p₀, hminted, ?_, ?_, by omega⟩
  · exact hsuf.subset (List.mem_cons_of_mem _ he₀)
  · rw [hroom₀, ← hqroom, hmroom]
  · rw [hhandle₀, hhandle, hmroom]
    exact hto

/-- A counter that was read behind the insert of its message is the counter there is. -/
theorem Recorded.counter_read (h : Recorded app c e tr) (hm : m ∈ e.before.db.messages) {i n : ℕ}
    {newer : List Step} (hlater : History app e.after newer c.shared)
    (hread : ⟨.consecutiveMsgCount id m.seq, n⟩ ∈ pastOf i newer) :
    n = c.shared.db.consecutiveMsgCount id m.seq := by
  obtain ⟨before, after, sess, newer', older', -, hexec, hbetween, hrest⟩ := hlater.seen hread
  obtain ⟨rfl, rfl⟩ := done_of_read hexec
  have hm' : m ∈ after.db.messages := by
    obtain ⟨landed, hlanded⟩ := hbetween.later.messages
    rw [← hlanded, h.effect.messages]
    exact List.mem_append_left _ (List.mem_append_left _ hm)
  exact (hrest.consecutiveMsgCount_kept (hbetween.wellFormed h.wellFormed_after) hm' id).symm

/-- **What a wait delivers had a recipient, and is flagged exactly if it is the turn
before the soft cap.** -/
theorem WaitedOut.surfaced_spec (h : Reachable app c) (hout : WaitedOut c id) {row : RoomRow}
    (hrow : row ∈ c.shared.db.rooms) (hid : row.id = id) {i : ℕ}
    {t : Thread Call Call.Reply Request Outcome} (ht : c.threads[i]? = some t) {r : WaitRequest}
    (hreq : t.req = .waitRoom id r) {view : MessageView} {surfaceToUser : Bool}
    {retryAfter : Option UInt32} {roomState : Option String}
    (ha : t.returned = some (.ok (.waited (.message view surfaceToUser retryAfter roomState)))) :
    ∃ m ∈ c.shared.db.messages, m.roomId = id ∧ view = messageView m ∧ HadRecipient c m ∧
      surfaceToUser = decide
        ((c.shared.db.consecutiveMsgCount id m.seq : ℤ) = row.config.softCap - 1) := by
  have hconcl := (h.orderly.returned ht ha).2
  rw [hreq] at hconcl
  obtain ⟨handle, m, newer, claim, older, hpast, hclaim, -, -, -, rfl, room, hroom, hsurf⟩ := hconcl
  obtain ⟨htries⟩ := hclaim
  have hread : ⟨.getRoom id, some room⟩ ∈ pastOf i c.trace := by
    rw [hpast]
    exact List.mem_append_right _ (List.mem_append_right _ hroom)
  -- the wait claimed its message, and read the counter afterwards
  obtain ⟨tr₂, e, tr₁, htrace, rfl, hswap, hnewer, holder⟩ := pastOf_split hpast
  obtain ⟨hcall, hreply⟩ := Sigma.mk.inj_iff.mp hswap
  have hsuf : e :: tr₁ <:+ c.trace := ⟨tr₂, htrace.symm⟩
  have hrec : Recorded app c e tr₁ := h.recorded hsuf
  obtain ⟨hmem, hmroom, hhad⟩ := hout.claimed h hsuf hcall hreply holder
  obtain ⟨landed, hlanded⟩ := hrec.later.messages
  have hlater : m ∈ c.shared.db.messages := by
    rw [← hlanded, hrec.effect.messages]
    exact List.mem_append_left _ (List.mem_append_left _ hmem)
  refine ⟨m, hlater, hmroom, rfl, hhad, ?_⟩
  rcases hsurf with ⟨hhalted, -⟩ | ⟨-, n, hcount, hflag⟩
  · rw [hout.room_open h hread] at hhalted
    cases hhalted
  · obtain ⟨s₀, -, hist⟩ := h.history
    obtain ⟨row', hrow', hid', -, hsoft, -⟩ := hist.seenRoom hread
    obtain rfl : row' = row := h.wellFormed.room_unique hrow' hrow (hid'.trans hid.symm)
    rw [htrace] at hist
    rw [← hnewer] at hcount
    rw [hflag, hrec.counter_read hmem (System.History.split hist).2.2 hcount, hsoft]

/-- Whoever claimed a message is a wait in its room. -/
theorem WaitedOut.claimant (h : Reachable app c) (hout : WaitedOut c id) (hsuf : e :: tr <:+ c.trace)
    (hclaims : e.call.claims handle e.reply = true) (hfound : foundBy (pastOf e.tid tr) = some m) :
    ∃ t r, c.threads[e.tid]? = some t ∧ t.req = .waitRoom m.roomId r := by
  obtain ⟨seq, cursor, hcall, -⟩ := Call.claims_spec hclaims
  obtain ⟨t, id', m', ht, hclaiming, -⟩ := (h.recorded hsuf).claiming hcall
  obtain ⟨rest, hlog, hfor, -⟩ := hclaiming.log
  rw [hlog] at hfound
  obtain rfl : m' = m := Option.some_inj.mp hfound
  have hto := hclaiming.spec.2.2
  rw [Db.addressedTo, Bool.and_eq_true, Bool.and_eq_true, decide_eq_true_eq] at hto
  unfold ClaimsFor at hfor
  split at hfor
  · rename_i r hreq
    exact ⟨t, r, ht, by rw [hreq, hto.1.1, hfor.1]⟩
  · rename_i hreq
    have hnone := hout.waits t (List.mem_of_getElem? ht)
    rw [hreq] at hnone
    cases hnone
  · exact hfor.elim

/-! ### Loop insurance -/

/-- **Loop insurance**: a run of turns surfaces to the user if and only if it has a turn
number `s - 1` and somebody was there to receive that one. -/
theorem soft_cap_surfaces_iff (h : Reachable app c) {row : RoomRow}
    (hrow : row ∈ c.shared.db.rooms) (hout : WaitedOut c row.id) {s : ℕ} (hs : 2 ≤ s)
    (hcap : row.config.softCap = s) {m₀ : Message} (hroom : m₀.roomId = row.id) :
    (∃ m ∈ c.shared.db.run m₀, SurfacedToUser c m) ↔
      ∃ m, (c.shared.db.run m₀)[s - 2]? = some m ∧ HadRecipient c m := by
  have hkeyed := h.wellFormed.keyed
  constructor
  · rintro ⟨m, hm, t, ht, r, retryAfter, roomState, hreq, ha⟩
    obtain ⟨hmem, hmroom, -, -⟩ := mem_run.mp hm
    obtain ⟨i, ht⟩ := List.mem_iff_getElem?.mp ht
    rw [hmroom.trans hroom] at hreq
    obtain ⟨m', hmem', hmroom', hview, hhad, hflag⟩ := hout.surfaced_spec h hrow rfl ht hreq ha
    obtain rfl : m = m' := hkeyed.eq_of_seq hmem hmem' (congrArg MessageView.seq hview)
    refine ⟨m, (getElem?_run_iff hkeyed hs).mpr ⟨hm, ?_⟩, hhad⟩
    rw [hmroom', ← hcap]
    exact decide_eq_true_eq.mp hflag.symm
  · rintro ⟨m, hplace, e₀, he₀, p, hminted, hproom, hto, hlt⟩
    obtain ⟨hm, hcount⟩ := (getElem?_run_iff hkeyed hs).mp hplace
    obtain ⟨hmem, hmroom, -, -⟩ := mem_run.mp hm
    have hmid : m.roomId = row.id := hmroom.trans hroom
    rw [hmid] at hproom hto hcount
    refine ⟨m, hm, ?_⟩
    -- the recipient has caught up, so that the message was delivered to it
    obtain ⟨newer, older, htrace⟩ := List.append_of_mem he₀
    have hrec₀ : Recorded app c e₀ older := h.recorded ⟨newer, htrace.symm⟩
    have hp : p ∈ e₀.after.db.participants := hrec₀.effect.mem_participants.mpr (.inr hminted)
    obtain ⟨q, hq, hsame, -, htaken⟩ := h.tracked_after htrace hp (hout.notPruned _)
      (claimsInRoom_of_none hout.waits)
    have hqroom : q.roomId = row.id := hsame.roomId.trans hproom
    have hread : m.seq ≤ q.lastReadSeq := by
      have hnone := List.find?_eq_none.mp (hout.caughtUp q hq hqroom) m hmem
      rw [hsame.handle, hto, Bool.and_true, decide_eq_true_eq] at hnone
      omega
    have hdelivered : m ∈ deliveries p.handle (e₀ :: older) newer := by
      rw [← List.mem_reverse, htaken, hproom]
      exact Feed.mem_taken.mpr ⟨hmem, hlt, hto, hread⟩
    obtain ⟨e, tr, hsuf, hclaims, hfound⟩ := mem_deliveries hdelivered
    have hsuf' : e :: (tr ++ e₀ :: older) <:+ c.trace := by
      obtain ⟨latest, htr⟩ := hsuf
      exact ⟨latest, by rw [htrace, ← htr, List.append_assoc, List.cons_append]⟩
    -- its claim was part of a wait, which has answered
    obtain ⟨t, r, ht, hreq⟩ := hout.claimant h hsuf' hclaims hfound
    obtain ⟨m', hfound', hcarries⟩ := h.carries hsuf' hclaims
    obtain rfl : m = m' := Option.some_inj.mp (hfound.symm.trans hfound')
    obtain ⟨a, ha⟩ := Option.isSome_iff_exists.mp
      (hout.answered q hq hqroom e (hsuf'.mem List.mem_cons_self) (hsame.handle ▸ hclaims))
    have hcarried := hcarries a ha
    rw [ht, Option.bind_some] at ha
    rcases hcarried with rfl | ⟨surfaceToUser, retryAfter, roomState, rfl⟩
    · -- a wait does not answer a claim
      have hconcl := (h.orderly.returned ht ha).2
      rw [hreq] at hconcl
      exact hconcl.elim
    · rw [hmid] at hreq
      obtain ⟨m', hmem', -, hview, -, hflag⟩ := hout.surfaced_spec h hrow rfl ht hreq ha
      obtain rfl : m = m' := hkeyed.eq_of_seq hmem hmem' (congrArg MessageView.seq hview)
      rw [hcap, decide_eq_true hcount] at hflag
      rw [hflag] at ha
      exact ⟨t, List.mem_of_getElem? ht, r, retryAfter, roomState, hmid.symm ▸ hreq, ha⟩

/-- A room with soft cap 2, in which alice writes to bob, and bob waits. -/
def warned : List Request :=
  [.openRoom ⟨"demo", none, some 2, none⟩, .joinRoom demoRoom ⟨alice, none⟩,
    .joinRoom demoRoom ⟨bob, none⟩, .sendMessage demoRoom ⟨alice, none, "early", false⟩,
    .waitRoom demoRoom ⟨bob, none⟩]

/-- The row of the room. -/
def warnedRoom : RoomRow :=
  ⟨demoRoom, "demo", 0, 0, .active, 0, ⟨20, 2, some .all⟩, none⟩

def earlyTurn : Message :=
  ⟨1, demoRoom, "api-opus-0001", none, "early", 0, .msg, false, none, none⟩

theorem soft_cap_surfaces_iff_warned :
    ∃ m ∈ (demo warned).shared.db.run earlyTurn, SurfacedToUser (demo warned) m := by
  obtain ⟨hrow, hout, hplace, e, he, hjoined⟩ : warnedRoom ∈ (demo warned).shared.db.rooms ∧
      WaitedOut (demo warned) warnedRoom.id ∧
      ((demo warned).shared.db.run earlyTurn)[2 - 2]? = some earlyTurn ∧
      ∃ e ∈ (demo warned).trace, (e.call.joined e.reply).any (fun p => p.roomId = demoRoom &&
        (Db.addressedTo demoRoom p.handle earlyTurn && p.lastReadSeq < 1)) = true := by
    decide +kernel
  obtain ⟨p, hp, hbob⟩ := (Option.any_eq_true _ _).mp hjoined
  simp only [Bool.and_eq_true, decide_eq_true_eq] at hbob
  exact (soft_cap_surfaces_iff (reachable_demo warned) hrow hout le_rfl rfl rfl).mpr
    ⟨earlyTurn, hplace, e, he, p, hp, hbob⟩

/-- The same room, in which bob joins only after alice's first turn, and she writes once more. -/
def unwarned : List Request :=
  [.openRoom ⟨"demo", none, some 2, none⟩, .joinRoom demoRoom ⟨alice, none⟩,
    .sendMessage demoRoom ⟨alice, none, "early", false⟩, .joinRoom demoRoom ⟨bob, none⟩,
    .sendMessage demoRoom ⟨alice, none, "late", false⟩, .waitRoom demoRoom ⟨bob, none⟩]

/-- The answer of the thread carries the flag. -/
def flagged (t : Thread Call Call.Reply Request Outcome) : Bool :=
  match t.returned with
  | some (.ok (.waited (.message _ surfaceToUser _ _))) => surfaceToUser
  | _ => false

/-- Nobody was there to receive the turn that the flag is for. -/
theorem not_soft_cap_surfaces : ¬ ∀ (app : AppState) (c : Daemon) (row : RoomRow) (s : ℕ)
    (m₀ : Message), Reachable app c → row ∈ c.shared.db.rooms → WaitedOut c row.id → 2 ≤ s →
      row.config.softCap = s → m₀.roomId = row.id → s - 1 ≤ (c.shared.db.run m₀).length →
        ∃ m ∈ c.shared.db.run m₀, SurfacedToUser c m := by
  intro h
  obtain ⟨hrow, hout, hlong, hflags⟩ : warnedRoom ∈ (demo unwarned).shared.db.rooms ∧
      WaitedOut (demo unwarned) warnedRoom.id ∧
      2 - 1 ≤ ((demo unwarned).shared.db.run earlyTurn).length ∧
      ∀ t ∈ (demo unwarned).threads, flagged t = false := by
    decide +kernel
  obtain ⟨m, -, t, ht, r, retryAfter, roomState, -, ha⟩ := h .default _ warnedRoom 2 earlyTurn
    (reachable_demo unwarned) hrow hout le_rfl rfl rfl hlong
  have hnot := hflags t ht
  rw [flagged, ha] at hnot
  cases hnot

end ChatBotChat
