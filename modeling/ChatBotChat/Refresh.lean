/-
Refreshes of a participant, in a run without delay.

A poll sets the `lastPollAt` of its row to the time of the call
(`Recorded.lastPollAt`), so that the row says when it was polled last (`RowOf`).
A row that was polled within `HEALTHY_GAP` survives each prune
(`Recorded.not_removed`), and a wait that finds its row parks until a cap after a
touch of it at most (`Clocked.inTime`).
-/
import ChatBotChat.Prompt
import ChatBotChat.Parking
import ChatBotChat.Inbox
import ChatBotChat.Liveness
import ChatBotChat.Consensus

namespace ChatBotChat

open Interleave Lifecycle Poll

variable {app : AppState} {c : Daemon} {e : Step} {new old older tr : List Step} {s s' : Store}
  {id inst handle : String} {p q : Participant} {i first cap : ℕ} {from_ top : OffsetDateTime}
  {drift : ℤ} {past : Log}

/-! ### Readings of the clock -/

/-- A clock that was read right before the call shows what it shows now. -/
theorem InTime.now_eq (h : InTime old drift c) (hsuf : e :: (older ++ old) <:+ c.trace)
    (hrecv : e.call.isRecv = false) {now : OffsetDateTime}
    (hpast : pastOf e.tid (older ++ old) = ⟨.nowUtc, now⟩ :: past) : now = e.before.utc := by
  refine (h.events hsuf).2 hrecv ⟨.nowUtc, now⟩ ?_
  rw [hpast, sinceParked, List.takeWhile_cons_of_pos rfl]
  exact List.mem_cons_self

/-- **A poll is a refresh**: it sets the last poll of its participant to the time of the
call, and no other call changes it. -/
theorem Recorded.lastPollAt (h : Recorded app c e (older ++ old)) (hin : InTime old drift c) (q : Participant) :
    (e.call.onParticipant e.reply q).lastPollAt =
      if e.call.polls q.handle = true then e.before.utc else q.lastPollAt := by
  split
  · rename_i hpolls
    obtain ⟨t, -, hdisc⟩ := h.disciplined
    have hnow : ∀ now past, e.call.isRecv = false →
        pastOf e.tid (older ++ old) = ⟨.nowUtc, now⟩ :: past → now = e.before.utc :=
      fun _ _ hrecv => hin.now_eq h.suffix hrecv
    obtain ⟨tid, call, reply, before, after⟩ := e
    cases call
    case touchLastPoll handle now =>
      obtain ⟨id, rest, -, -, hpast⟩ := hdisc
      have hhandle : q.handle = handle := by simpa [Call.polls] using hpolls
      rw [Call.onParticipant, if_pos hhandle]
      exact hnow _ _ rfl hpast
    case tryExtend id voter step now cutoff quorum =>
      obtain ⟨-, -, -, -, -, rest, hpast⟩ := hdisc
      have hhandle : q.handle = voter := by simpa [Call.polls] using hpolls
      have hat : now = before.utc := hnow _ _ rfl hpast
      cases reply with
      | extended cap =>
        simp only [Call.onParticipant, if_pos hhandle]
        split <;> exact hat
      | proposed votes needed =>
        simp only [Call.onParticipant, if_pos hhandle]
        exact hat
    all_goals cases hpolls
  · rename_i hpolls
    exact lastPollAt_kept (Bool.not_eq_true _ ▸ hpolls)

/-! ### The row -/

/-- The longest time between two refreshes: the longest wait, and a minute. -/
def HEALTHY_GAP : Rfc3339.Duration := Rfc3339.Duration.seconds (590 + 60)

/-- The log shows a touch of `handle`. -/
def Touches (handle : String) (past : Log) : Prop := ∃ now, ⟨.touchLastPoll handle now, ()⟩ ∈ past

/-- The newest poll of `handle`. -/
def lastRefresh (handle : String) (tr : List Step) : Option Step := tr.find? (·.call.polls handle)

/-- `q` is the row of `p`: it says when `p` was polled last, and once request `first` has
touched it, that was at `from_` or later. -/
structure RowOf (p : Participant) (from_ : OffsetDateTime) (first : ℕ) (tr : List Step) (s : Store)
    (q : Participant) : Prop where
  mem : q ∈ s.db.participants
  same : SameRow p q
  inst : q.inst = p.inst
  refreshed : ∀ e, lastRefresh p.handle tr = some e → q.lastPollAt = e.before.utc
  begun : Touches p.handle (pastOf first tr) → from_ ≤ q.lastPollAt ∧ q.lastPollAt ≤ s.utc

theorem Touches.of_cons (h : Touches handle (pastOf i (e :: tr))) :
    e.call.polls handle = true ∨ Touches handle (pastOf i tr) := by
  obtain ⟨now, hmem⟩ := h
  obtain ⟨e', he', hid, hx⟩ := mem_pastOf.mp hmem
  rcases List.mem_cons.mp he' with rfl | he'
  · left
    rw [show e'.call = .touchLastPoll handle now from (Sigma.mk.inj hx).1]
    simp [Call.polls]
  · exact .inr ⟨now, mem_pastOf.mpr ⟨e', he', hid, hx⟩⟩

theorem Touches.cons (h : Touches handle (pastOf i tr)) : Touches handle (pastOf i (e :: tr)) := by
  obtain ⟨now, hmem⟩ := h
  obtain ⟨e', he', hid, hx⟩ := mem_pastOf.mp hmem
  exact ⟨now, mem_pastOf.mpr ⟨e', List.mem_cons_of_mem _ he', hid, hx⟩⟩

/-- The row after a call. -/
theorem RowOf.call (h : Recorded app c e (tr ++ old)) (hin : InTime old drift c)
    (hrow : RowOf p from_ first tr e.before q) (hfrom : from_ ≤ e.before.utc)
    (hkept : ¬ Removes e p.handle) :
    RowOf p from_ first (e :: tr) e.after (e.call.onParticipant e.reply q) := by
  have hlast := h.lastPollAt hin q
  rw [hrow.same.handle] at hlast
  constructor
  case mem => exact h.effect.kept hrow.mem (hrow.same.handle ▸ hkept)
  case same =>
    refine ⟨?_, ?_⟩
    · rw [Call.onParticipant_handle, hrow.same.handle]
    · rw [Call.onParticipant_roomId, hrow.same.roomId]
  case inst => rw [Call.onParticipant_inst, hrow.inst]
  case refreshed =>
    intro e' he'
    rw [lastRefresh, List.find?_cons] at he'
    rw [hlast]
    by_cases hpolls : e.call.polls p.handle = true
    · rw [hpolls] at he'
      obtain rfl := Option.some_inj.mp he'
      rw [if_pos hpolls]
    · rw [Bool.not_eq_true] at hpolls
      rw [hpolls] at he'
      rw [hpolls, if_neg Bool.false_ne_true]
      exact hrow.refreshed e' he'
  case begun =>
    intro hbegun
    rw [hlast, h.effect.utc]
    by_cases hpolls : e.call.polls p.handle = true
    · rw [if_pos hpolls]
      exact ⟨hfrom, le_rfl⟩
    · rw [if_neg hpolls]
      exact hrow.begun (hbegun.of_cons.resolve_left hpolls)

/-- The row after some time. -/
theorem RowOf.tick (hrow : RowOf p from_ first tr s q) (hdb : s'.db = s.db) (hutc : s.utc ≤ s'.utc) :
    RowOf p from_ first tr s' q where
  mem := hdb ▸ hrow.mem
  same := hrow.same
  inst := hrow.inst
  refreshed := hrow.refreshed
  begun := fun hbegun => ⟨(hrow.begun hbegun).1, (hrow.begun hbegun).2.trans hutc⟩

/-- Since each poll of the run the row has been polled. -/
theorem RowOf.utc_le (hist : History app s tr s') (hrow : RowOf p from_ first tr s' q)
    (he : e ∈ tr) (hpolls : e.call.polls p.handle = true) : e.before.utc ≤ q.lastPollAt := by
  cases hfind : lastRefresh p.handle tr with
  | none => exact absurd hpolls (List.find?_eq_none.mp hfind e he)
  | some latest =>
    rw [hrow.refreshed latest hfind]
    obtain ⟨-, newer, older, rfl, hnewer⟩ := List.find?_eq_some_iff_append.mp hfind
    rcases List.mem_append.mp he with he | he
    · exact absurd hpolls (by simpa using hnewer e he)
    · rcases List.mem_cons.mp he with rfl | he
      · exact le_rfl
      · -- what happened before the newest poll happened no later
        obtain ⟨hbefore, -, -⟩ := System.History.split hist
        obtain ⟨newer', older', rfl⟩ := List.append_of_mem he
        obtain ⟨-, ⟨sess, hexec⟩, hafter⟩ := System.History.split hbefore
        exact (later_of_exec hexec).utc.trans (History.later hafter).utc

/-- The text of a cutoff is before that of a poll within the gap. -/
theorem format_cutoff_lt {now last : OffsetDateTime} (hearly : (from_ - GHOST_AFTER).FourDigitYear)
    (hlate : top.FourDigitYear) (hfrom : from_ ≤ last) (hle : last ≤ now) (htop : now ≤ top)
    (hgap : now - last ≤ HEALTHY_GAP) : Rfc3339.format (now - GHOST_AFTER) < Rfc3339.format last := by
  have hghost : HEALTHY_GAP + 1000000000 ≤ GHOST_AFTER := by decide
  have hpos : (0 : ℤ) ≤ GHOST_AFTER := by decide
  refine Rfc3339.format_lt_of_add_le ?_ ?_ ?_
  · exact hearly.between hlate (by linarith) (by linarith)
  · exact hearly.between hlate (by linarith) (by linarith)
  · linarith

/-- **No prune without delay deletes a row that was polled within the gap.** -/
theorem Recorded.not_removed (h : Recorded app c e (older ++ old)) (hin : InTime old drift c)
    (hearly : (from_ - GHOST_AFTER).FourDigitYear) (hlate : top.FourDigitYear)
    (hq : q ∈ e.before.db.participants) (hfrom : from_ ≤ q.lastPollAt)
    (hle : q.lastPollAt ≤ e.before.utc) (htop : e.before.utc ≤ top)
    (hgap : e.before.utc - q.lastPollAt ≤ HEALTHY_GAP) : ¬ Removes e q.handle := by
  rintro ⟨q', hq', hhandle, hprunes⟩
  obtain rfl := h.wellFormed_before.participant_unique hq' hq hhandle
  obtain ⟨t, -, hdisc⟩ := h.disciplined
  have hnow : ∀ now past, e.call.isRecv = false →
      pastOf e.tid (older ++ old) = ⟨.nowUtc, now⟩ :: past → now = e.before.utc :=
    fun _ _ hrecv => hin.now_eq h.suffix hrecv
  obtain ⟨tid, call, reply, before, after⟩ := e
  cases call
  case pruneStaleParticipants id cutoff =>
    obtain ⟨-, now, rest, hpast, rfl⟩ := hdisc
    have hat : now = before.utc := hnow _ _ rfl hpast
    have horder : Rfc3339.format (now - GHOST_AFTER) < Rfc3339.format q'.lastPollAt := by
      rw [hat]
      exact format_cutoff_lt hearly hlate hfrom hle htop hgap
    have htext : textLt q'.lastPollAt (now - GHOST_AFTER) = true := by
      have hprunable : Db.prunable id (now - GHOST_AFTER) q' = true := hprunes
      rw [Db.prunable, Bool.and_eq_true] at hprunable
      exact hprunable.2
    exact lt_asymm horder (textLt_iff.mp htext)
  all_goals cases hprunes

/-! ### Whom the poll finds -/

/-- The row of `p` is there at every call of the run. -/
def Present (p : Participant) (new : List Step) : Prop :=
  ∀ e ∈ new, ∃ q ∈ e.before.db.participants, SameRow p q ∧ q.inst = p.inst

/-- Each reply of a log was given while the row was there. -/
theorem Present.seen (h : Present p new) (hreach : Reachable app c) (hsub : new ⊆ c.trace)
    {k : Call} {r : k.Reply} (hx : ⟨k, r⟩ ∈ pastOf i new) :
    ∃ s sess s' q, Store.exec sess k s = .done r s' ∧ s.db.WellFormed ∧
      q ∈ s.db.participants ∧ SameRow p q ∧ q.inst = p.inst := by
  obtain ⟨e, he, -, heq⟩ := mem_pastOf.mp hx
  obtain ⟨older, hrec⟩ := hreach.recorded_of_mem (hsub he)
  obtain ⟨sess, hexec⟩ := hrec.exec
  obtain ⟨q, hq, hsame, hinst⟩ := h e he
  have hwf := hrec.wellFormed_before
  obtain ⟨tid, call, reply, before, after⟩ := e
  cases heq
  exact ⟨before, sess, after, q, hexec, hwf, hq, hsame, hinst⟩

/-- Under its instance nobody but `p` is found. -/
theorem Present.byInstance (h : Present p new) (hreach : Reachable app c) (hsub : new ⊆ c.trace)
    {r : Option Participant}
    (hx : ⟨.getParticipantByInstance p.roomId p.inst, r⟩ ∈ pastOf i new) :
    ∃ q, r = some q ∧ q.handle = p.handle := by
  obtain ⟨s, sess, s', q, hexec, hwf, hq, hsame, hinst⟩ := h.seen hreach hsub hx
  have hread : s.db.getParticipantByInstance p.roomId p.inst = r := (done_of_read hexec).1
  rw [← hsame.roomId, ← hinst, hwf.getParticipantByInstance_eq hq] at hread
  exact ⟨q, hread.symm, hsame.handle⟩

/-- Nor under its handle. -/
theorem Present.byHandle (h : Present p new) (hreach : Reachable app c) (hsub : new ⊆ c.trace)
    {r : Option Participant}
    (hx : ⟨.getParticipantByHandle p.roomId p.handle, r⟩ ∈ pastOf i new) :
    ∃ q, r = some q ∧ q.handle = p.handle := by
  obtain ⟨s, sess, s', q, hexec, hwf, hq, hsame, hinst⟩ := h.seen hreach hsub hx
  have hread : s.db.getParticipantByHandle p.roomId p.handle = r := (done_of_read hexec).1
  rw [← hsame.roomId, ← hsame.handle, hwf.getParticipantByHandle_eq hq] at hread
  exact ⟨q, hread.symm, hsame.handle⟩

/-- The participant that a request of the poll finds is `p`. -/
theorem Present.found_handle (h : Present p new) (hreach : Reachable app c) (hsub : new ⊆ c.trace)
    (hcaller : CalledBy p inst (pastOf i new))
    (hfound : FoundAs (pastOf i new) p.roomId inst handle) : handle = p.handle := by
  obtain ⟨q, rfl, hread | ⟨hnone, hread⟩⟩ := hfound
  · rcases hcaller with rfl | ⟨-, hnobody⟩
    · obtain ⟨q', hq', hhandle⟩ := h.byInstance hreach hsub hread
      rw [Option.some_inj.mp hq', hhandle]
    · exact absurd hread (hnobody q)
  · rcases hcaller with rfl | ⟨rfl, -⟩
    · obtain ⟨q', hq', -⟩ := h.byInstance hreach hsub hnone
      cases hq'
    · obtain ⟨q', hq', hhandle⟩ := h.byHandle hreach hsub hread
      rw [Option.some_inj.mp hq', hhandle]

/-- A request of the poll is answered with a response, after a touch of `p`. -/
theorem Present.waitDone (h : Present p new) (hreach : Reachable app c) (hsub : new ⊆ c.trace)
    (hcaller : CalledBy p inst (pastOf i new)) {a : Outcome}
    (hdone : WaitDone p.roomId inst (pastOf i new) a) :
    ∃ resp, a = .ok (.waited resp) ∧ Hinted resp ∧ Touches p.handle (pastOf i new) := by
  cases a with
  | error err =>
    exfalso
    rcases hdone with hnone | ⟨hinstance, hhandle⟩
    · obtain ⟨s, sess, s', q, hexec, hwf, hq, hsame, -⟩ := h.seen hreach hsub hnone
      have hroom : s.db.hasRoom p.roomId = true := hsame.roomId ▸ hwf.homes q hq
      exact Db.getRoom_ne_none hroom (done_of_tryRead hexec).1 rfl
    · rcases hcaller with rfl | ⟨rfl, -⟩
      · obtain ⟨q, hq, -⟩ := h.byInstance hreach hsub hinstance
        cases hq
      · obtain ⟨q, hq, -⟩ := h.byHandle hreach hsub hhandle
        cases hq
  | ok a =>
    cases a
    case waited resp =>
      obtain ⟨hhinted, handle, now, hmem, hfound⟩ := hdone
      obtain rfl := h.found_handle hreach hsub hcaller hfound
      exact ⟨resp, rfl, hhinted, now, hmem⟩
    all_goals exact hdone.elim

/-! ### How long the poll parks -/

/-- A park without delay ends within `cap` of a touch. -/
theorem Clocked.inTime (hreach : Reachable app c) (hin : InTime old drift c)
    (hnew : c.trace = new ++ old) {deadline : ℕ} (h : Clocked cap id inst (pastOf i new) deadline) :
    ∃ handle, FoundAs (pastOf i new) id inst handle ∧ ∃ e ∈ new, e.tid = i ∧
      (⟨e.call, e.reply⟩ : Sigma Call.Reply) = ⟨.touchLastPoll handle e.before.utc, ()⟩ ∧
        deadline + drift ≤ e.before.utc + cap := by
  obtain ⟨start, rx, handle, now, older, hle, hfound, newer, hlog⟩ := h
  -- the other clock was read right after the touch, and neither has advanced in between
  obtain ⟨tr₂, e, tr₁, rfl, rfl, hx, -, holder⟩ := pastOf_split hlog.symm
  obtain ⟨tr₄, e₂, tr₃, rfl, -, -, -, holder₂⟩ := pastOf_cons_split holder
  obtain ⟨tr₆, touch, tr₅, rfl, htid, htouch, -, holder₃⟩ := pastOf_cons_split holder₂
  have hsuf : e :: (tr₄ ++ e₂ :: (tr₆ ++ touch :: tr₅) ++ old) <:+ c.trace :=
    ⟨tr₂, by rw [hnew]; simp⟩
  have hsuf' : touch :: (tr₅ ++ old) <:+ c.trace :=
    ⟨tr₂ ++ e :: (tr₄ ++ e₂ :: tr₆), by rw [hnew]; simp⟩
  obtain ⟨hdrift, hagrees⟩ := hin.events hsuf
  have hstart : start = e.before.instant := by
    obtain ⟨sess, hexec⟩ := (hreach.recorded hsuf).exec
    obtain ⟨tid, call, reply, before, after⟩ := e
    cases hx
    exact (done_of_read hexec).1.symm
  have hnow : now = e.before.utc := by
    have hrecv : e.call.isRecv = false := by
      rw [(Sigma.mk.inj hx).1]
      rfl
    refine hagrees hrecv ⟨.nowUtc, now⟩ ?_
    rw [pastOf_append, holder]
    simp [sinceParked, Call.isRecv]
  have htime : now = touch.before.utc := by
    have hpast : pastOf touch.tid (tr₅ ++ old) = ⟨.nowUtc, now⟩ :: (older ++ pastOf e.tid old) := by
      rw [htid, pastOf_append, holder₃, List.cons_append]
    refine hin.now_eq hsuf' ?_ hpast
    rw [(Sigma.mk.inj htouch).1]
    rfl
  refine ⟨handle, hfound.mono ?_, touch, by simp, htid, htime ▸ htouch, ?_⟩
  · intro x hx'
    rw [← hlog]
    simp [hx']
  · have hcap : (deadline : ℤ) ≤ start + cap := by exact_mod_cast hle
    rw [← htime]
    linarith

end ChatBotChat
