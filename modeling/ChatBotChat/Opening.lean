/-
Opening rooms under interleaving.

An open tries one id after the other, and each try is one insert that either opens
the room or finds the id taken (`Attempts`).  A room that is there stays there, under
its subject and with its settings (`SameRoom`).

* `opened_rooms` — an open that is answered with an id has opened that one room, as
  it was asked to, for good, and under an id that no other open is answered with;
  and it gives up only once every id it may try is a room.
-/
import ChatBotChat.Extension
import ChatBotChat.RoomIds
import ChatBotChat.Cursors
import ChatBotChat.Interleave.Settled

namespace ChatBotChat

open Interleave

variable {app : AppState} {c c' : Daemon} {e : Step} {tr older : List Step} {req : Request}
  {past : Log} {s s' : Store} {row row' row'' : RoomRow} {r : OpenRoomRequest} {i j : ℕ}

/-! ### The log of an open -/

/-- The room that an attempt inserts. -/
def newRoom (r : OpenRoomRequest) (now : OffsetDateTime) (config : RoomConfig) (attempt : ℕ) : Room :=
  ⟨candidate (roomId r.subject now) attempt, r.subject, now, now, .active, now, config, r.prevRoomId⟩

/-- The log of an open whose first `n` ids were taken. -/
inductive Attempts (r : OpenRoomRequest) (now : OffsetDateTime) (config : RoomConfig) : ℕ → Log → Prop
  | start : Attempts r now config 0 [⟨.nowUtc, now⟩]
  | taken {n : ℕ} {log : Log} : Attempts r now config n log →
      Attempts r now config (n + 1)
        (⟨.createRoom (newRoom r now config (n + 1)), .uniqueViolation⟩ :: log)

/-- What an open has found out before it inserts a room. -/
def OpeningCall (req : Request) (past : Log) : Call → Prop
  | .createRoom room => ∃ r now config n, req = .openRoom r ∧ openConfig r = .ok config ∧
      Attempts r now config n past ∧ room = newRoom r now config (n + 1)
  | _ => True

/-- What an open has done when it answers. -/
def OpenAnswered (r : OpenRoomRequest) (past : Log) : Except ApiError OpenRoomResponse → Prop
  | .ok response => ∃ now config n log, openConfig r = .ok config ∧ Attempts r now config n log ∧
      past = ⟨.createRoom (newRoom r now config (n + 1)), .inserted⟩ :: log ∧
      response = ⟨(newRoom r now config (n + 1)).id, shareLine (newRoom r now config (n + 1)).id⟩
  | .error e => openConfig r = .error e ∨
      e = uniqueError ∧ ∃ now config, Attempts r now config MAX_ATTEMPTS past

/-- The conclusion of an open, as one of all requests. -/
def OpeningConclusion (req : Request) (past : Log) (a : Outcome) : Prop :=
  ∀ r, req = .openRoom r → ∃ result, a = Except.map Answer.opened result ∧ OpenAnswered r past result

theorem openRoom_opening (r : OpenRoomRequest) :
    (openRoom r).Upholds (OpeningCall (.openRoom r)) [] (OpenAnswered r) := by
  refine .step trivial fun now => ?_
  cases hopen : openConfig r with
  | error e => exact .inl hopen
  | ok config =>
    refine Prog.upholds_iterate
      (fun past tried => Attempts r now config tried past ∧ tried < MAX_ATTEMPTS)
      ⟨.start, by decide⟩ ?_
    rintro past tried ⟨hattempts, hlt⟩
    refine .step ⟨r, now, config, tried, rfl, hopen, hattempts, rfl⟩ fun outcome => ?_
    cases outcome with
    | inserted => exact ⟨now, config, tried, past, hopen, hattempts, rfl, rfl⟩
    | uniqueViolation =>
      by_cases hmore : tried + 1 < MAX_ATTEMPTS
      · simp only [hmore, ↓reduceIte]
        exact ⟨hattempts.taken, hmore⟩
      · simp only [hmore, ↓reduceIte]
        obtain hlast : MAX_ATTEMPTS = tried + 1 := by omega
        exact .inr ⟨rfl, now, config, hlast ▸ hattempts.taken⟩

theorem serve_opening (app : AppState) (req : Request) :
    (serve app req).Upholds (OpeningCall req) [] (OpeningConclusion req) := by
  by_cases hopen : ∃ r, req = .openRoom r
  · obtain ⟨r, rfl⟩ := hopen
    refine upholds_answering.mpr ((openRoom_opening r).mono fun past result hresult => ?_)
    rintro r' heq
    cases heq
    exact ⟨result, rfl, hresult⟩
  · refine (serve_upholds app req).imp (fun past k hk => ?_) fun past a _ r heq =>
      absurd ⟨r, heq⟩ hopen
    cases k with
    | createRoom room => exact absurd hk.1 hopen
    | _ => trivial

/-- **Every open of a reachable daemon** tries one id after the other. -/
theorem Reachable.opening (h : Reachable app c) :
    System.Upheld OpeningCall OpeningConclusion c := by
  obtain ⟨utc, instant, hrun⟩ := h
  have hbody : ∀ r, ((daemon app).body r).Upholds (OpeningCall r) [] (OpeningConclusion r) :=
    serve_opening app
  exact hrun.upheld hbody

/-- Before its insert, an open has inserted nothing. -/
theorem Attempts.opened_eq_none {now : OffsetDateTime} {config : RoomConfig} {n : ℕ} {log : Log}
    (h : Attempts r now config n log) : ∀ x ∈ log, x.1.opened x.2 = none := by
  induction h with
  | start => simp [Call.opened]
  | taken _ ih =>
    intro x hx
    rcases List.mem_cons.mp hx with rfl | hx
    · rfl
    · exact ih x hx

/-- Every id that was tried was taken. -/
theorem Attempts.mem {now : OffsetDateTime} {config : RoomConfig} {n : ℕ} {log : Log}
    (h : Attempts r now config n log) : ∀ attempt, 1 ≤ attempt → attempt ≤ n →
      ⟨.createRoom (newRoom r now config attempt), .uniqueViolation⟩ ∈ log := by
  induction h with
  | start => exact fun attempt hone hzero => by omega
  | @taken n log _ ih =>
    intro attempt hone hle
    rcases Nat.lt_or_ge attempt (n + 1) with hlt | hge
    · exact List.mem_cons_of_mem _ (ih attempt hone (by omega))
    · obtain rfl : attempt = n + 1 := by omega
      exact List.mem_cons_self

/-! ### What a room keeps -/

/-- The same room, its cap perhaps extended. -/
structure SameRoom (row row' : RoomRow) : Prop where
  id : row'.id = row.id
  subject : row'.subject = row.subject
  startedAt : row'.startedAt = row.startedAt
  prevRoomId : row'.prevRoomId = row.prevRoomId
  softCap : row'.config.softCap = row.config.softCap
  closeQuorum : row'.config.closeQuorum = row.config.closeQuorum
  hardCap : row.config.hardCap ≤ row'.config.hardCap

theorem SameRoom.refl (row : RoomRow) : SameRoom row row := ⟨rfl, rfl, rfl, rfl, rfl, rfl, le_rfl⟩

theorem SameRoom.trans (h : SameRoom row row') (h' : SameRoom row' row'') : SameRoom row row'' where
  id := h'.id.trans h.id
  subject := h'.subject.trans h.subject
  startedAt := h'.startedAt.trans h.startedAt
  prevRoomId := h'.prevRoomId.trans h.prevRoomId
  softCap := h'.softCap.trans h.softCap
  closeQuorum := h'.closeQuorum.trans h.closeQuorum
  hardCap := h.hardCap.trans h'.hardCap

theorem onRoom_prevRoomId {k : Call} {x : k.Reply} : (k.onRoom x row).prevRoomId = row.prevRoomId := by
  cases k
  case updateRoomState =>
    cases x
    · rfl
    · simp only [Call.onRoom]
      split <;> rfl
  case touchLastActivity =>
    simp only [Call.onRoom]
    split <;> rfl
  case tryExtend =>
    cases x
    · simp only [Call.onRoom]
      split <;> rfl
    · rfl
  all_goals rfl

theorem sameRoom_onRoom (k : Call) (x : k.Reply) (row : RoomRow) : SameRoom row (k.onRoom x row) := by
  refine ⟨by simp, by simp, by simp, onRoom_prevRoomId, by simp, by simp, by simp⟩

/-- **A room is there for good**, and is the same room. -/
theorem History.sameRoom {tr : List Step} (h : History app s tr s') :
    ∀ row ∈ s.db.rooms, ∃ row' ∈ s'.db.rooms, SameRoom row row' := by
  refine System.History.closure
    (fun s s' : Store => ∀ row ∈ s.db.rooms, ∃ row' ∈ s'.db.rooms, SameRoom row row')
    (fun s row hrow => ⟨row, hrow, .refl row⟩) ?_ ?_ ?_ h
  · intro s₁ s₂ s₃ h₁ h₂ row hrow
    obtain ⟨row', hrow', hsame⟩ := h₁ row hrow
    obtain ⟨row'', hrow'', hsame'⟩ := h₂ row' hrow'
    exact ⟨row'', hrow'', hsame.trans hsame'⟩
  · intro sess k s x s' hexec row hrow
    exact ⟨k.onRoom x row, (effect_of_exec hexec).mem_rooms.mpr (.inl ⟨row, hrow, rfl⟩),
      sameRoom_onRoom k x row⟩
  · intro t s s' ht row hrow
    exact ⟨row, (tick_spec ht).1 ▸ hrow, .refl row⟩

theorem SameRoom.hasRoom (h : SameRoom row row') (hrow' : row' ∈ s.db.rooms) :
    s.db.hasRoom row.id = true := Db.hasRoom_iff.mpr ⟨row', hrow', h.id⟩

/-! ### Openings -/

/-- The rooms that the calls of a trace have opened, oldest first. -/
def openings (tr : List Step) : List RoomRow := tr.reverse.filterMap fun e => e.call.opened e.reply

theorem openings_cons : openings (e :: tr) = openings tr ++ (e.call.opened e.reply).toList := by
  cases hopened : e.call.opened e.reply <;> simp [openings, hopened]

/-- The rooms of the table are those that were opened, in their order. -/
theorem Reachable.rooms_opened (h : Reachable app c) :
    c.shared.db.rooms.map RoomRow.id = (openings c.trace).map RoomRow.id := by
  refine (h.induction (P := fun tr s => s.db.rooms.map RoomRow.id = (openings tr).map RoomRow.id)
    ?_ ?_ ?_).now
  · rintro s₀ ⟨hdb, -⟩
    simp [hdb, Db.empty, openings]
  · intro tr s₁ s₂ hdb _ _ _ hrooms
    rwa [hdb]
  · intro e tr hrec hrooms
    have hids : RoomRow.id ∘ e.call.onRoom e.reply = RoomRow.id := funext Call.onRoom_id
    rw [hrec.effect.rooms, List.map_append, List.map_map, hids, hrooms, openings_cons, List.map_append]

/-- A request that opens a room has not opened one before. -/
theorem Reachable.nodup_openers (h : Reachable app c) :
    ((c.trace.filter fun e => (e.call.opened e.reply).isSome).map Interleave.Event.tid).Nodup := by
  refine h.opening.nodup_tids (fun x => (x.1.opened x.2).isSome) ?_ List.suffix_rfl
  intro req past k x hopening hopened y hy
  obtain ⟨row, hrow⟩ := Option.isSome_iff_exists.mp hopened
  obtain ⟨-, room, rfl, -⟩ := opened_createRoom hrow
  obtain ⟨r, now, config, n, -, -, hattempts, -⟩ := hopening
  rw [hattempts.opened_eq_none y hy]
  rfl

/-- What was recorded after a call is a history from where the call had left off. -/
theorem Reachable.history_after {newer : List Step} (h : Reachable app c)
    (htr : c.trace = newer ++ e :: older) : History app e.after newer c.shared := by
  obtain ⟨s₀, -, hist⟩ := h.history
  rw [htr] at hist
  exact (System.History.split hist).2.2

/-- Two calls that opened rooms opened two. -/
theorem Reachable.opened_ne {newer mid : List Step} {e₁ e₂ : Step} {row₁ row₂ : RoomRow}
    (h : Reachable app c) (htr : c.trace = newer ++ e₂ :: (mid ++ e₁ :: older))
    (h₁ : e₁.call.opened e₁.reply = some row₁) (h₂ : e₂.call.opened e₂.reply = some row₂) :
    row₁.id ≠ row₂.id := by
  intro heq
  have hsuf : e₂ :: (mid ++ e₁ :: older) <:+ c.trace := ⟨newer, htr.symm⟩
  have hrec₁ := h.recorded ((List.suffix_append mid (e₁ :: older)).trans
    ((List.suffix_cons e₂ _).trans hsuf))
  have hrow₁ : row₁ ∈ e₁.after.db.rooms := hrec₁.effect.mem_rooms.mpr (.inr h₁)
  obtain ⟨row', hrow', hsame⟩ := (h.history_between hsuf).sameRoom row₁ hrow₁
  obtain ⟨sess, hexec⟩ := (h.recorded hsuf).exec
  have hfree := opened_spec hexec h₂
  rw [← heq, hsame.hasRoom hrow'] at hfree
  cases hfree

/-! ### Answers -/

/-- The request was answered with this response to an open. -/
def OpenedWith (c : Daemon) (i : ℕ) (r : OpenRoomRequest) (response : OpenRoomResponse) : Prop :=
  ∃ t, c.threads[i]? = some t ∧ t.req = .openRoom r ∧ t.returned = some (.ok (.opened response))

/-- The call that an answer to an open comes from. -/
theorem Reachable.opened_call {response : OpenRoomResponse} (h : Reachable app c)
    (hopened : OpenedWith c i r response) : ∃ newer e older now config n,
      c.trace = newer ++ e :: older ∧ e.tid = i ∧ openConfig r = .ok config ∧
        e.call.opened e.reply = some (newRoom r now config (n + 1)).toRow ∧
        response = ⟨(newRoom r now config (n + 1)).id, shareLine (newRoom r now config (n + 1)).id⟩ := by
  obtain ⟨t, ht, hreq, hreturned⟩ := hopened
  obtain ⟨result, hresult, hanswered⟩ := h.opening.returned ht hreturned r hreq
  cases result with
  | error e => cases hresult
  | ok response' =>
    cases hresult
    obtain ⟨now, config, n, log, hconfig, -, hpast, hresponse⟩ := hanswered
    obtain ⟨newer, e, older, htr, hi, heq, -, -⟩ := pastOf_cons_split hpast
    refine ⟨newer, e, older, now, config, n, htr, hi, hconfig, ?_, hresponse⟩
    obtain ⟨tid, call, reply, before, after⟩ := e
    cases heq
    rfl

/-- Two opens are answered with two ids. -/
theorem Reachable.openedWith_ne {r' : OpenRoomRequest} {response response' : OpenRoomResponse}
    (h : Reachable app c) (hi : OpenedWith c i r response) (hj : OpenedWith c j r' response')
    (hij : i ≠ j) : response.roomId ≠ response'.roomId := by
  obtain ⟨newer, e, older, now, config, n, htr, rfl, -, hopened, rfl⟩ := h.opened_call hi
  obtain ⟨newer', e', older', now', config', n', htr', rfl, -, hopened', rfl⟩ := h.opened_call hj
  rcases compare_cuts (htr.symm.trans htr') with ⟨mid, -, rfl⟩ | ⟨-, heq, -⟩ | ⟨mid, -, rfl⟩
  · exact (h.opened_ne htr hopened' hopened).symm
  · exact absurd (congrArg Interleave.Event.tid heq) hij
  · exact h.opened_ne htr' hopened hopened'

/-- The row, when `tr` has been recorded, of a room that an open was answered with:
its cap is the one asked for, and 20 for each bump. -/
def OpensAs (r : OpenRoomRequest) (config : RoomConfig) (response : OpenRoomResponse)
    (tr : List Step) (row : RoomRow) : Prop :=
  row.id = response.roomId ∧ row.subject = r.subject ∧ row.prevRoomId = r.prevRoomId ∧
    row.config.softCap = config.softCap.toNat ∧
    row.config.hardCap = config.hardCap.toNat + 20 * bumpCount row.id tr

/-- No id is opened twice. -/
theorem Reachable.opened_unique (h : Reachable app c) (hopened : OpenedAs c.trace row)
    (hopened' : OpenedAs c.trace row') (hid : row.id = row'.id) : row = row' := by
  have hnodup : ((openings c.trace).map RoomRow.id).Nodup := by
    rw [← h.rooms_opened]
    exact h.wellFormed.rooms
  have hmem : ∀ {row}, OpenedAs c.trace row → row ∈ openings c.trace := by
    rintro row ⟨e, he, hrow⟩
    exact List.mem_filterMap.mpr ⟨e, List.mem_reverse.mpr he, hrow⟩
  exact List.inj_on_of_nodup_map hnodup (hmem hopened) (hmem hopened') hid

/-- The cap of a room is that of its opening, and 20 for each bump. -/
theorem Reachable.hardCap_eq (h : Reachable app c) {row₀ : RoomRow} (hopened : OpenedAs c.trace row₀)
    (hrow : row ∈ c.shared.db.rooms) (hid : row.id = row₀.id) :
    row.config.hardCap = row₀.config.hardCap + 20 * bumpCount row.id c.trace := by
  obtain ⟨row₁, hopened₁, hid₁, hcap⟩ := h.extendInvariant.now.counted.1 row hrow
  rwa [h.opened_unique hopened₁ hopened (hid₁.trans hid)] at hcap

/-- An id that an insert found taken is a room from then on. -/
theorem Reachable.hasRoom_of_taken (h : Reachable app c) {room : Room}
    (hx : ⟨.createRoom room, .uniqueViolation⟩ ∈ pastOf i c.trace) :
    c.shared.db.hasRoom room.id = true := by
  obtain ⟨s₀, -, hist⟩ := h.history
  obtain ⟨before, after, sess, newer, older, -, hexec, -, hafter⟩ := hist.seen hx
  have htaken : before.db.hasRoom room.id = true := by
    have houtcome : (before.db.createRoom room).1 = .uniqueViolation := (Exec.done.inj hexec).1
    unfold Db.createRoom at houtcome
    split at houtcome
    · rename_i hroom
      exact hroom
    · cases houtcome
  obtain ⟨row, hrow, hid⟩ := Db.hasRoom_iff.mp htaken
  obtain ⟨row', hrow', hsame⟩ := hafter.sameRoom row
    ((effect_of_exec hexec).mem_rooms.mpr (.inl ⟨row, hrow, rfl⟩))
  exact hid ▸ hsame.hasRoom hrow'

/-- **Opening a room** under any interleaving: the rooms of the daemon are those that
were opened, each of them by another request.  An open that is answered with an id
has opened that room, with the subject and the settings it was asked for; the room is
there from then on in every run, its cap raised by 20 for each bump alone; no other open is answered with its id; and an open
that gives up has found all of the ids taken that it may try. -/
theorem opened_rooms (h : Reachable app c) :
    c.shared.db.rooms.map RoomRow.id = (openings c.trace).map RoomRow.id ∧
      ((c.trace.filter fun e => (e.call.opened e.reply).isSome).map Interleave.Event.tid).Nodup ∧
      (∀ i r response, OpenedWith c i r response →
        response.shareLine = shareLine response.roomId ∧
        (∃ config, openConfig r = .ok config ∧ ∀ c', (daemon app).Run c c' →
          ∃ row ∈ c'.shared.db.rooms, OpensAs r config response c'.trace row) ∧
        ∀ j r' response', OpenedWith c j r' response' → j ≠ i →
          response'.roomId ≠ response.roomId) ∧
      ∀ (i : ℕ) (t : Thread Call Call.Reply Request Outcome) (r : OpenRoomRequest),
        c.threads[i]? = some t → t.req = .openRoom r →
        t.returned = some (.error uniqueError) → ∃ now, ∀ attempt, 1 ≤ attempt →
          attempt ≤ MAX_ATTEMPTS →
            c.shared.db.hasRoom (candidate (roomId r.subject now) attempt) = true := by
  refine ⟨h.rooms_opened, h.nodup_openers, fun i r response hopened => ⟨?_, ?_, ?_⟩, ?_⟩
  · obtain ⟨-, -, -, -, -, -, -, -, -, -, rfl⟩ := h.opened_call hopened
    rfl
  · obtain ⟨newer, e, older, now, config, n, htr, -, hconfig, hrow, rfl⟩ := h.opened_call hopened
    refine ⟨config, hconfig, fun c' hrun => ?_⟩
    obtain ⟨new, hnew, -⟩ := hrun.history
    have hist : History app e.after (new ++ newer) c'.shared :=
      (h.run hrun).history_after (by rw [hnew, htr, List.append_assoc])
    obtain ⟨row, hmem, hsame⟩ := hist.sameRoom _
      ((h.recorded ⟨newer, htr.symm⟩).effect.mem_rooms.mpr (.inr hrow))
    have hopenedAs : OpenedAs c'.trace (newRoom r now config (n + 1)).toRow :=
      ⟨e, by simp [hnew, htr], hrow⟩
    exact ⟨row, hmem, hsame.id, hsame.subject, hsame.prevRoomId, hsame.softCap,
      (h.run hrun).hardCap_eq hopenedAs hmem hsame.id⟩
  · exact fun j r' response' hopened' hji => h.openedWith_ne hopened' hopened hji
  · intro i t r ht hreq hreturned
    obtain ⟨result, hresult, hanswered⟩ := h.opening.returned ht hreturned r hreq
    cases result with
    | ok response => cases hresult
    | error e =>
      cases hresult
      rcases hanswered with hconfig | ⟨-, now, config, hattempts⟩
      · -- degenerate caps are answered with a 400
        simp only [openConfig] at hconfig
        split_ifs at hconfig
        cases hconfig
      · exact ⟨now, fun attempt hone hle => h.hasRoom_of_taken (hattempts.mem attempt hone hle)⟩

/-- Two rooms of one subject, opened in the same minute. -/
def twoRooms : List Request := [.openRoom ⟨"demo", some 5, none, none⟩,
  .openRoom ⟨"demo", none, some 2, some demoRoom⟩]

set_option maxRecDepth 10000 in
theorem opened_rooms_twoRooms : OpenedWith (demo twoRooms) 0 ⟨"demo", some 5, none, none⟩
      ⟨demoRoom, shareLine demoRoom⟩ ∧
    ∀ j r' response', OpenedWith (demo twoRooms) j r' response' → j ≠ 0 →
      response'.roomId ≠ demoRoom := by
  have hopened : OpenedWith (demo twoRooms) 0 ⟨"demo", some 5, none, none⟩
      ⟨demoRoom, shareLine demoRoom⟩ := by
    have hdemo : (demo twoRooms).threads[0]?.map (fun t => (t.req, t.returned)) =
        some (.openRoom ⟨"demo", some 5, none, none⟩,
          some (.ok (.opened ⟨demoRoom, shareLine demoRoom⟩))) := by decide +kernel
    obtain ⟨t, ht, heq⟩ := Option.map_eq_some_iff.mp hdemo
    exact ⟨t, ht, congrArg Prod.fst heq, congrArg Prod.snd heq⟩
  exact ⟨hopened, ((opened_rooms (reachable_demo twoRooms)).2.2.1 0 _ _ hopened).2.2⟩

end ChatBotChat
