/-
What the stop reconcile leaves running, and what it advises.

The plan counts the polls of every declared connection on one table, and the kills read
the table again, each after the ones before it.  A row is a poll of one room under one
identity at most, so the kills do not get into each other's way: they cull the table, one
pair after the other.

* `stop_reconciles` — of each pair the session declares one poll is left where there
  were any, whatever is not surplus is left alone, a pair declared again changes nothing,
  a relaunch is advised for the pairs without a poll, and other sessions' files do not
  matter.
-/
import ChatBotChat.Cbc.Stop
import ChatBotChat.Culling
import Mathlib.Data.List.Pairwise

namespace ChatBotChat.Hook

open Culling

variable {room id : Text} {identity : Option Text} {row : Text} {table : ProcTable}
  {conns : List DeclaredConnection} {dir dir' : Option (List DirEntry)} {sid : Text}
  {c : DeclaredConnection} {k : Text × Text}

/-! ### The rows that are polls -/

/-- The row is a poll of the connection. -/
def isPollOf (room : Text) (identity : Option Text) (row : Text) : Bool :=
  (process (stripCr row)).any fun (_, cmd) => pollMatches cmd room identity

/-- The row is a poll of the room under the identity. -/
def isPollOfPair (k : Text × Text) (row : Text) : Bool := isPollOf k.1 (some k.2) row

/-- A command is a poll of one room under one identity at most. -/
theorem pollMatches_unique {cmd room' id' : Text} (h : pollMatches cmd room (some id) = true)
    (h' : pollMatches cmd room' (some id') = true) : room = room' ∧ id = id' := by
  unfold pollMatches at h h'
  simp only at h h'
  split_ifs at h h' with _ _ hroom hroom'
  rw [not_not] at hroom hroom'
  refine ⟨Option.some_inj.mp (hroom.symm.trans hroom'), ?_⟩
  cases hafter : Words.after "--as".toList (splitWhitespace cmd) with
  | none =>
    rw [hafter] at h
    cases h
  | some v =>
    rw [hafter] at h h'
    exact (beq_iff_eq.mp h).symm.trans (beq_iff_eq.mp h')

theorem isPollOfPair_unique (k k' : Text × Text) (row : Text) (h : isPollOfPair k row = true)
    (h' : isPollOfPair k' row = true) : k = k' := by
  unfold isPollOfPair isPollOf at h h'
  cases hprocess : process (stripCr row) with
  | none =>
    rw [hprocess] at h
    cases h
  | some line =>
    rw [hprocess] at h h'
    obtain ⟨hroom, hid⟩ := pollMatches_unique h h'
    exact Prod.ext hroom hid

theorem exists_rowPid (h : isPollOf room identity row = true) : ∃ pid, rowPid row = some pid := by
  unfold isPollOf at h
  cases hprocess : process (stripCr row) with
  | none =>
    rw [hprocess] at h
    cases h
  | some line => exact ⟨line.1, by rw [rowPid, hprocess]; rfl⟩

namespace ProcTable

theorem lines_psOutput (table : ProcTable) :
    lines table.psOutput = table.rows.map stripCr := by
  have hlines : ∀ rows : List Text, (∀ row ∈ rows, '\n' ∉ row) →
      lines (rows.flatMap fun row => row ++ ['\n']) = rows.map stripCr := by
    intro rows
    induction rows with
    | nil => exact fun _ => by decide
    | cons row rows ih =>
      intro hone
      rw [List.flatMap_cons, List.append_assoc, List.singleton_append,
        lines_append_cons (hone row List.mem_cons_self), List.map_cons,
        ih fun row hrow => hone row (List.mem_cons_of_mem _ hrow)]
  exact hlines table.rows table.oneLine

/-- The pids that are matched are those of the rows that are polls. -/
theorem matchingPollPids_eq (table : ProcTable) (room : Text) (identity : Option Text) :
    table.matchingPollPids room identity =
      (table.rows.filter (isPollOf room identity)).filterMap rowPid := by
  rw [matchingPollPids, selectPollPids, lines_psOutput, List.filterMap_map, List.filterMap_filter]
  congr 1
  funext row
  show (process (stripCr row)).bind _ = if isPollOf room identity row = true then _ else _
  unfold isPollOf rowPid
  cases process (stripCr row) with
  | none => rfl
  | some line => rfl

/-- Every row that is a poll has a pid. -/
theorem rowPid_isSome_of_mem (h : row ∈ table.rows.filter (isPollOf room identity)) :
    (rowPid row).isSome = true := by
  obtain ⟨pid, hpid⟩ := exists_rowPid (List.mem_filter.mp h).2
  rw [hpid]
  rfl

theorem countPolls_eq (table : ProcTable) (room : Text) (identity : Option Text) :
    table.countPolls room identity = (table.rows.filter (isPollOf room identity)).length := by
  rw [countPolls, matchingPollPids_eq, List.filterMap_length_eq_length.mpr]
  exact fun row hrow => rowPid_isSome_of_mem hrow

/-- A pid is that of one row. -/
theorem eq_of_rowPid {a b : Text} {pid : ℕ} (ha : a ∈ table.rows) (hb : b ∈ table.rows)
    (hpid : rowPid a = some pid) (hpid' : rowPid b = some pid) : a = b := by
  by_contra hne
  have hpairs := List.pairwise_filterMap.mp table.distinct
  have hsymm : Std.Symm fun a b => ∀ p, rowPid a = some p → ∀ p', rowPid b = some p' → p ≠ p' :=
    ⟨fun a b hab p hp p' hp' heq => hab p' hp' p hp heq.symm⟩
  exact hpairs.forall ha hb hne pid hpid pid hpid' rfl

theorem nodup_polls (table : ProcTable) (room : Text) (identity : Option Text) :
    (table.rows.filter (isPollOf room identity)).Nodup := by
  have hpairs := (List.pairwise_filterMap.mp table.distinct).filter (isPollOf room identity)
  refine hpairs.imp_of_mem fun {a b} ha _ hab heq => ?_
  obtain ⟨pid, hpid⟩ := exists_rowPid (List.mem_filter.mp ha).2
  exact hab pid hpid pid (heq ▸ hpid) rfl

/-! ### The kills -/

theorem rows_foldl_killPid (pids : List ℕ) (table : ProcTable) :
    (pids.foldl killPid table).rows =
      table.rows.filter fun row => ∀ pid ∈ pids, rowPid row ≠ some pid := by
  induction pids generalizing table with
  | nil => simp
  | cons pid pids ih =>
    rw [List.foldl_cons, ih]
    show (table.rows.filter _).filter _ = _
    rw [List.filter_filter]
    refine List.filter_congr fun row _ => ?_
    rw [← Bool.decide_and, decide_eq_decide, List.forall_mem_cons, and_comm]

/-- A kill order culls the table. -/
theorem rows_killSurplusPolls (table : ProcTable) (room : Text) (identity : Option Text) :
    (table.killSurplusPolls room identity).rows = cull (isPollOf room identity) table.rows := by
  have htail : (table.matchingPollPids room identity).drop 1 =
      (surplus (isPollOf room identity) table.rows).filterMap rowPid := by
    have hsome : ∀ row ∈ table.rows.filter (isPollOf room identity), (rowPid row).isSome :=
      fun row hrow => rowPid_isSome_of_mem hrow
    rw [matchingPollPids_eq, surplus]
    cases hpolls : table.rows.filter (isPollOf room identity) with
    | nil => rfl
    | cons first rest =>
      rw [hpolls] at hsome
      obtain ⟨pid, hpid⟩ := Option.isSome_iff_exists.mp (hsome first List.mem_cons_self)
      rw [List.filterMap_cons_some hpid]
      rfl
  rw [killSurplusPolls, rows_foldl_killPid, htail, cull]
  refine List.filter_congr fun row hrow => ?_
  rw [decide_eq_decide]
  -- a pid is that of one row, so sparing the pids spares the rows
  constructor
  · intro hspared hsurplus
    obtain ⟨pid, hpid⟩ := exists_rowPid (of_mem_surplus hsurplus)
    exact hspared pid (List.mem_filterMap.mpr ⟨row, hsurplus, hpid⟩) hpid
  · intro hspared pid hmem hpid
    obtain ⟨other, hother, hpid'⟩ := List.mem_filterMap.mp hmem
    have hrows : other ∈ table.rows :=
      (List.mem_filter.mp (List.mem_of_mem_tail hother)).1
    exact hspared (eq_of_rowPid hrows hrow hpid' hpid ▸ hother)

end ProcTable

/-! ### The plan -/

theorem planStop_eq (conns : List DeclaredConnection) (count : Text → Option Text → ℕ)
    (launched recently : Text → Option Text → Bool) :
    planStop conns count launched recently =
      ⟨(conns.filter fun c => 1 < count c.roomId c.identity).map fun c => ⟨c.roomId, c.identity⟩,
        (conns.filter fun c => count c.roomId c.identity = 0 ∧
          (launched c.roomId c.identity || recently c.roomId c.identity) = false).map
            fun c => ⟨c.roomId, c.model, c.identity⟩⟩ := by
  have hloop : ∀ (conns : List DeclaredConnection) (plan : StopPlan),
      conns.foldl (StopPlan.connection count launched recently) plan =
        ⟨plan.kills ++ (conns.filter fun c => 1 < count c.roomId c.identity).map
            fun c => ⟨c.roomId, c.identity⟩,
          plan.relaunch ++ (conns.filter fun c => count c.roomId c.identity = 0 ∧
            (launched c.roomId c.identity || recently c.roomId c.identity) = false).map
              fun c => ⟨c.roomId, c.model, c.identity⟩⟩ := by
    intro conns
    induction conns with
    | nil => simp
    | cons c conns ih =>
      intro plan
      rw [List.foldl_cons, ih, StopPlan.connection]
      match hn : count c.roomId c.identity with
      | 0 =>
        cases hhint : (launched c.roomId c.identity || recently c.roomId c.identity) with
        | false =>
          simp only [reconcileAction, hn, hhint, List.filter_cons]
          simp
        | true =>
          simp only [reconcileAction, hn, hhint, List.filter_cons]
          simp
      | 1 => simp [reconcileAction, hn]
      | n + 2 => simp [reconcileAction, hn]
  exact hloop conns ⟨[], []⟩

/-! ### The session's files -/

/-- The pair of a connection that carries an identity. -/
def pairOf (c : DeclaredConnection) : Option (Text × Text) := c.identity.map fun id => (c.roomId, id)

/-- An active state file, stamped with the session. -/
def ownedBy (sid : Text) (file : DirEntry) : Bool :=
  extension file.name = some (nameBytes "md") &&
    file.content.any fun content => isActive content && ownerSession content = some sid

def ownedFiles (dir : Option (List DirEntry)) (sid : Text) : List DirEntry :=
  (dir.getD []).filter (ownedBy sid)

/-- The connections of the session's files. -/
def owned (dir : Option (List DirEntry)) (sid : Text) : List DeclaredConnection :=
  (ownedFiles dir sid).flatMap fun file => (file.content.map declaredConnections).getD []

/-- The pairs that the session's files declare. -/
def declaredPairs (dir : Option (List DirEntry)) (sid : Text) : List (Text × Text) :=
  (owned dir sid).filterMap pairOf

theorem scanDeclared_eq (dir : Option (List DirEntry)) (sid : Text) :
    scanDeclared dir (some sid) = ((mdFiles dir).filter (ownedBy sid)).flatMap fun file =>
      (file.content.map declaredConnections).getD [] := by
  have hmd : ∀ file ∈ mdFiles dir, extension file.name = some (nameBytes "md") := by
    intro file hfile
    rw [mdFiles, List.mem_insertionSort] at hfile
    exact of_decide_eq_true (List.mem_filter.mp hfile).2
  rw [scanDeclared]
  generalize mdFiles dir = md at hmd ⊢
  induction md with
  | nil => rfl
  | cons file md ih =>
    have hrest := ih fun file hfile => hmd file (List.mem_cons_of_mem _ hfile)
    rw [List.flatMap_cons, hrest, List.filter_cons, ownedBy, declaredIn,
      decide_eq_true (hmd file List.mem_cons_self)]
    cases hcontent : file.content with
    | none => rfl
    | some content =>
      by_cases hactive : isActive content = true <;>
        by_cases howner : ownerSession content = some sid <;> simp [hactive, howner, hcontent]

theorem filter_mdFiles_perm (dir : Option (List DirEntry)) (sid : Text) :
    ((mdFiles dir).filter (ownedBy sid)).Perm (ownedFiles dir sid) := by
  have hsorted := (List.perm_insertionSort (fun e f : DirEntry => e.name ≤ f.name)
    ((dir.getD []).filter fun e => extension e.name = some (nameBytes "md"))).filter (ownedBy sid)
  refine hsorted.trans (List.Perm.of_eq ?_)
  rw [List.filter_filter]
  refine List.filter_congr fun file _ => ?_
  unfold ownedBy
  cases decide (extension file.name = some (nameBytes "md")) <;> simp

theorem scanDeclared_perm (dir : Option (List DirEntry)) (sid : Text) :
    (scanDeclared dir (some sid)).Perm (owned dir sid) := by
  rw [scanDeclared_eq]
  exact (filter_mdFiles_perm dir sid).flatMap_right _

theorem pairwise_mdFiles (dir : Option (List DirEntry)) :
    (mdFiles dir).Pairwise fun e f => e.name ≤ f.name := by
  have htotal : Std.Total fun e f : DirEntry => e.name ≤ f.name :=
    ⟨fun e f => List.le_total e.name f.name⟩
  have htrans : IsTrans DirEntry fun e f => e.name ≤ f.name := ⟨fun _ _ _ => List.le_trans⟩
  exact List.pairwise_insertionSort _ _

/-- The scan reads no file but the session's. -/
theorem scanDeclared_congr (hfiles : (ownedFiles dir' sid).Perm (ownedFiles dir sid))
    (hnames : ((ownedFiles dir sid).map DirEntry.name).Nodup) :
    scanDeclared dir' (some sid) = scanDeclared dir (some sid) := by
  rw [scanDeclared_eq, scanDeclared_eq]
  have hperm := (filter_mdFiles_perm dir' sid).trans
    (hfiles.trans (filter_mdFiles_perm dir sid).symm)
  have hsame : (mdFiles dir').filter (ownedBy sid) = (mdFiles dir).filter (ownedBy sid) := by
    refine List.Perm.eq_of_pairwise (fun e f he hf hle hge => ?_) ((pairwise_mdFiles dir').filter _)
      ((pairwise_mdFiles dir).filter _) hperm
    have he' := (hperm.trans (filter_mdFiles_perm dir sid)).subset he
    have hf' := (filter_mdFiles_perm dir sid).subset hf
    exact List.inj_on_of_nodup_map hnames he' hf' (List.le_antisymm hle hge)
  rw [hsame]

/-! ### The reconcile -/

/-- A relaunch of the pair is advised. -/
def Advises (out : StopOutcome) (k : Text × Text) : Prop :=
  ∃ r ∈ out.advised, r.roomId = k.1 ∧ r.identity = some k.2

/-- What a stop makes of the pairs it looks after. -/
structure Reconciled (pairs : List (Text × Text)) (table : ProcTable)
    (recently : Text → Option Text → Bool) (stopHookActive : Bool) (out : StopOutcome) :
    Prop where
  one : ∀ k ∈ pairs,
    out.table.countPolls k.1 (some k.2) = min (table.countPolls k.1 (some k.2)) 1
  spared : out.table.rows =
    table.rows.filter fun row => ∀ k ∈ pairs, row ∉ surplus (isPollOfPair k) table.rows
  advised : ∀ k, Advises out k ↔ k ∈ pairs ∧ table.countPolls k.1 (some k.2) = 0 ∧
    recently k.1 (some k.2) = false ∧ stopHookActive = false
  identified : ∀ r ∈ out.advised, r.identity.isSome = true

theorem rows_foldl_kills (ks : List (Text × Text)) (table : ProcTable) :
    ((ks.map fun k => (⟨k.1, some k.2⟩ : KillOrder)).foldl
      (fun table order => table.killSurplusPolls order.roomId order.identity) table).rows =
      cullAll isPollOfPair ks table.rows := by
  induction ks generalizing table with
  | nil => rfl
  | cons k ks ih =>
    rw [List.map_cons, List.foldl_cons, ih, table.rows_killSurplusPolls]
    rfl

theorem mem_filterMap_pairOf :
    k ∈ conns.filterMap pairOf ↔ ∃ c ∈ conns, c.roomId = k.1 ∧ c.identity = some k.2 := by
  rw [List.mem_filterMap]
  refine exists_congr fun c => and_congr_right fun _ => ?_
  rw [pairOf, Option.map_eq_some_iff]
  constructor
  · rintro ⟨id, hid, rfl⟩
    exact ⟨rfl, hid⟩
  · rintro ⟨hroom, hid⟩
    exact ⟨k.2, hid, Prod.ext hroom rfl⟩

/-- The kill orders are those of the pairs with a surplus. -/
theorem kills_eq (h : ∀ c ∈ conns, c.identity.isSome = true) (count : Text → Option Text → ℕ) :
    ((conns.filter fun c => 1 < count c.roomId c.identity).map
      fun c => (⟨c.roomId, c.identity⟩ : KillOrder)) =
      ((conns.filterMap pairOf).filter fun k => 1 < count k.1 (some k.2)).map
        fun k => ⟨k.1, some k.2⟩ := by
  -- both lists go through the connections in order
  induction conns with
  | nil => rfl
  | cons c conns ih =>
    have hrest := ih fun c hc => h c (List.mem_cons_of_mem _ hc)
    obtain ⟨id, hid⟩ := Option.isSome_iff_exists.mp (h c List.mem_cons_self)
    have hpair : pairOf c = some (c.roomId, id) := by rw [pairOf, hid]; rfl
    rw [List.filterMap_cons_some hpair, List.filter_cons, List.filter_cons, hid]
    by_cases hmany : 1 < count c.roomId (some id)
    · rw [if_pos (decide_eq_true hmany), if_pos (decide_eq_true hmany), List.map_cons, hrest, hid]
      rfl
    · rw [if_neg (by simpa using hmany), if_neg (by simpa using hmany), hrest]

/-- The rows that a stop leaves, for connections that carry an identity. -/
theorem rows_kills (h : ∀ c ∈ conns, c.identity.isSome = true) (table : ProcTable)
    (launched recently : Text → Option Text → Bool) :
    ((planStop conns table.countPolls launched recently).kills.foldl
      (fun table order => table.killSurplusPolls order.roomId order.identity) table).rows =
      cullAll isPollOfPair (conns.filterMap pairOf) table.rows := by
  rw [planStop_eq]
  show (((conns.filter _).map _).foldl _ table).rows = _
  rw [kills_eq h, rows_foldl_kills]
  refine cullAll_filter isPollOfPair_unique (fun k => table.nodup_polls _ _) fun k _ hfew => ?_
  have hcount : (table.rows.filter (isPollOfPair k)).length ≤ 1 := by
    have hfew' := of_decide_eq_false hfew
    rw [table.countPolls_eq] at hfew'
    exact Nat.not_lt.mp hfew'
  rw [surplus, ← List.length_eq_zero_iff, List.length_tail]
  omega

/-- What a stop does, given the connections it scans. -/
theorem runStop_eq (cbcDir : Text → Option (List DirEntry)) (currentDir : Text) (files : Mtimes)
    (now : ℤ) {payload : StopPayload} (table : ProcTable) (hsid : payload.sessionId = some sid)
    (hne : sid ≠ []) :
    runStop cbcDir currentDir files now (some payload) table =
      (let conns := scanDeclared (cbcDir (payload.cwd.getD currentDir)) (some sid)
      let plan := planStop conns table.countPolls (fun _ _ => false) fun room identity =>
        recentlyPolled files (cbcDirPath (payload.cwd.getD currentDir)) room identity
          POLL_ALIVE_WINDOW now
      ⟨plan.kills.foldl
        (fun table order => table.killSurplusPolls order.roomId order.identity) table,
        if payload.stopHookActive.getD false then [] else plan.relaunch⟩) := by
  have hsession : payload.sessionId.filter (fun s => !s.isEmpty) = some sid := by
    rw [hsid, Option.filter_some, if_pos]
    simpa using hne
  unfold runStop
  simp only [hsession]
  by_cases hconns : scanDeclared (cbcDir (payload.cwd.getD currentDir)) (some sid) = []
  · rw [if_pos hconns, hconns]
    cases payload.stopHookActive.getD false <;> rfl
  · rw [if_neg hconns]
    cases payload.stopHookActive.getD false with
    | true => simp
    | false => by_cases hrelaunch : (planStop (scanDeclared (cbcDir (payload.cwd.getD currentDir))
        (some sid)) table.countPolls (fun _ _ => false) fun room identity => recentlyPolled files
          (cbcDirPath (payload.cwd.getD currentDir)) room identity POLL_ALIVE_WINDOW now).relaunch =
            [] <;> simp [hrelaunch]

/-- The rows that a stop leaves are the table, culled of the declared pairs. -/
theorem rows_runStop (cbcDir : Text → Option (List DirEntry)) (currentDir : Text) (files : Mtimes)
    (now : ℤ) {payload : StopPayload} (table : ProcTable) (hsid : payload.sessionId = some sid)
    (hne : sid ≠ [])
    (hid : ∀ c ∈ owned (cbcDir (payload.cwd.getD currentDir)) sid, c.identity.isSome = true) :
    (runStop cbcDir currentDir files now (some payload) table).table.rows =
      cullAll isPollOfPair (declaredPairs (cbcDir (payload.cwd.getD currentDir)) sid)
        table.rows := by
  have hscan := scanDeclared_perm (cbcDir (payload.cwd.getD currentDir)) sid
  rw [runStop_eq cbcDir currentDir files now table hsid hne]
  show ((planStop _ _ _ _).kills.foldl _ table).rows = _
  rw [rows_kills fun c hc => hid c (hscan.subset hc)]
  -- the scan is in the order of the files' names, which the cull does not see
  exact cullAll_congr isPollOfPair_unique (fun k => table.nodup_polls _ _)
    fun k => (hscan.filterMap pairOf).mem_iff

/-- The relaunches that a stop advises. -/
theorem mem_advised_runStop (cbcDir : Text → Option (List DirEntry)) (currentDir : Text)
    (files : Mtimes) (now : ℤ) {payload : StopPayload} (table : ProcTable)
    (hsid : payload.sessionId = some sid) (hne : sid ≠ []) (r : Relaunch) :
    r ∈ (runStop cbcDir currentDir files now (some payload) table).advised ↔
      payload.stopHookActive.getD false = false ∧
      ∃ c ∈ owned (cbcDir (payload.cwd.getD currentDir)) sid,
        table.countPolls c.roomId c.identity = 0 ∧
        recentlyPolled files (cbcDirPath (payload.cwd.getD currentDir)) c.roomId c.identity
          POLL_ALIVE_WINDOW now = false ∧
        r = ⟨c.roomId, c.model, c.identity⟩ := by
  have hscan := scanDeclared_perm (cbcDir (payload.cwd.getD currentDir)) sid
  rw [runStop_eq cbcDir currentDir files now table hsid hne]
  show r ∈ ite _ [] (planStop _ _ _ _).relaunch ↔ _
  rw [planStop_eq]
  cases payload.stopHookActive.getD false with
  | true => simp
  | false =>
    simp only [Bool.false_eq_true, if_false, true_and, List.mem_map, List.mem_filter,
      decide_eq_true_eq, Bool.false_or, hscan.mem_iff, and_assoc, eq_comm (a := r)]

/-- **A stop reconciles the session's pairs, and nothing else.**  A pair declared twice
counts once, and no file but the session's has a say. -/
theorem stop_reconciles (cbcDir : Text → Option (List DirEntry)) (currentDir : Text)
    (files : Mtimes) (now : ℤ) (payload : StopPayload) (sid : Text) (table : ProcTable)
    (hsid : payload.sessionId = some sid) (hne : sid ≠ [])
    (hid : ∀ c ∈ owned (cbcDir (payload.cwd.getD currentDir)) sid, c.identity.isSome = true) :
    let cwd := payload.cwd.getD currentDir
    let out := runStop cbcDir currentDir files now (some payload) table
    Reconciled (declaredPairs (cbcDir cwd) sid) table
      (fun room identity => recentlyPolled files (cbcDirPath cwd) room identity POLL_ALIVE_WINDOW now)
      (payload.stopHookActive.getD false) out ∧
    (∀ cbcDir' : Text → Option (List DirEntry),
      (∀ c ∈ owned (cbcDir' cwd) sid, c.identity.isSome = true) →
      (∀ k, k ∈ declaredPairs (cbcDir' cwd) sid ↔ k ∈ declaredPairs (cbcDir cwd) sid) →
      (runStop cbcDir' currentDir files now (some payload) table).table.rows = out.table.rows) ∧
    ∀ cbcDir' : Text → Option (List DirEntry),
      (ownedFiles (cbcDir' cwd) sid).Perm (ownedFiles (cbcDir cwd) sid) →
      ((ownedFiles (cbcDir cwd) sid).map DirEntry.name).Nodup →
      runStop cbcDir' currentDir files now (some payload) table = out := by
  intro cwd out
  have hadvised := mem_advised_runStop cbcDir currentDir files now table hsid hne
  have hdeclared : ∀ k, k ∈ declaredPairs (cbcDir cwd) sid ↔
      ∃ c ∈ owned (cbcDir cwd) sid, c.roomId = k.1 ∧ c.identity = some k.2 :=
    fun k => mem_filterMap_pairOf
  refine ⟨⟨fun k hk => ?_, ?_, fun k => ?_, fun r hr => ?_⟩, fun cbcDir' hid' hpairs => ?_,
    fun cbcDir' hfiles hnames => ?_⟩
  · rw [ProcTable.countPolls_eq, ProcTable.countPolls_eq]
    show (out.table.rows.filter (isPollOfPair k)).length = _
    rw [rows_runStop cbcDir currentDir files now table hsid hne hid]
    exact length_filter_cullAll isPollOfPair_unique (fun k => table.nodup_polls _ _) hk
  · rw [rows_runStop cbcDir currentDir files now table hsid hne hid,
      cullAll_eq isPollOfPair_unique fun k => table.nodup_polls _ _]
    exact List.filter_congr fun row _ => decide_eq_decide.mpr Iff.rfl
  · constructor
    · rintro ⟨r, hr, hroom, hident⟩
      obtain ⟨hclear, c, hc, hnone, hstale, rfl⟩ := (hadvised r).mp hr
      refine ⟨(hdeclared k).mpr ⟨c, hc, hroom, hident⟩, ?_, ?_, hclear⟩
      · rw [← hroom, ← hident]
        exact hnone
      · rw [← hroom, ← hident]
        exact hstale
    · rintro ⟨hk, hnone, hstale, hclear⟩
      obtain ⟨c, hc, hroom, hident⟩ := (hdeclared k).mp hk
      rw [← hroom, ← hident] at hnone hstale
      exact ⟨_, (hadvised _).mpr ⟨hclear, c, hc, hnone, hstale, rfl⟩, hroom, hident⟩
  · obtain ⟨-, c, hc, -, -, rfl⟩ := (hadvised r).mp hr
    exact hid c hc
  · rw [rows_runStop cbcDir currentDir files now table hsid hne hid,
      rows_runStop cbcDir' currentDir files now table hsid hne hid']
    exact cullAll_congr isPollOfPair_unique (fun k => table.nodup_polls _ _) hpairs
  · show _ = runStop cbcDir currentDir files now (some payload) table
    rw [runStop_eq cbcDir' currentDir files now table hsid hne,
      runStop_eq cbcDir currentDir files now table hsid hne, scanDeclared_congr hfiles hnames]

/-- Two state files of a session that declare one pair, and a file of another session. -/
def sharedDir : List DirEntry :=
  [⟨nameBytes "worker-api.md", some ("status: ACTIVE\nsession-id: s1\nconnections:\n" ++
      "  web: demo-1 --as api --model opus\n").toList⟩,
    ⟨nameBytes "worker-web.md", some ("status: ACTIVE\nsession-id: s2\nconnections:\n" ++
      "  api: demo-1 --as web --model opus\n").toList⟩,
    ⟨nameBytes "notes.md", some ("status: ACTIVE\nsession-id: s1\nconnections:\n" ++
      "  web: demo-1 --as api\n").toList⟩]

/-- Two polls of the pair, a poll of its counterpart, and the shell around a poll. -/
def sharedTable : ProcTable where
  rows := ["  101 cbc poll demo-1 --model opus --as api".toList,
    "  102 cbc poll demo-1 --model opus --as web".toList,
    "  103 /bin/zsh -c cbc poll demo-1 --model opus --as api".toList,
    "  104 /usr/local/bin/cbc poll demo-1 --as api".toList]
  oneLine := by decide +kernel
  distinct := by decide +kernel

theorem stop_reconciles_shared :
    let out := runStop (fun _ => some sharedDir) "/work".toList (fun _ => none) 0
      (some ⟨none, none, some "s1".toList⟩) sharedTable
    Reconciled [("demo-1".toList, "api".toList), ("demo-1".toList, "api".toList)] sharedTable
      (fun _ _ => false) false out := by
  have hreconciled := (stop_reconciles (fun _ => some sharedDir) "/work".toList (fun _ => none) 0
    ⟨none, none, some "s1".toList⟩ "s1".toList sharedTable rfl (by decide)
    (by decide +kernel)).1
  have hpairs : declaredPairs (some sharedDir) "s1".toList =
      [("demo-1".toList, "api".toList), ("demo-1".toList, "api".toList)] := by decide +kernel
  rwa [hpairs] at hreconciled

end ChatBotChat.Hook
