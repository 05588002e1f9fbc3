/-
The message table as a ledger.

* `acknowledged_posts` — the table of a reachable daemon holds the messages that
  its calls have landed, in their order, numbered from 1 without a gap; no request
  lands two; and the number that a send or a signal is answered with is the place
  of its own message, there and in every later table.
-/
import ChatBotChat.Guards
import ChatBotChat.Interleave.Settled

namespace ChatBotChat

open Interleave

variable {app : AppState} {c c' : Daemon} {e : Step} {tr older : List Step} {req : Request}
  {m : Message} {i j : ℕ}

/-! ### Landings -/

/-- The messages that the calls of a trace have landed, oldest first. -/
def landings (tr : List Step) : List Message :=
  tr.reverse.filterMap fun e => e.call.landed e.reply

/-- The messages that one request has landed, oldest first. -/
def landingsOf (i : ℕ) (tr : List Step) : List Message := landings (tr.filter (·.tid = i))

theorem landings_cons : landings (e :: tr) = landings tr ++ (e.call.landed e.reply).toList := by
  cases hlanded : e.call.landed e.reply <;> simp [landings, hlanded]

theorem landings_append (newer older : List Step) :
    landings (newer ++ older) = landings older ++ landings newer := by
  simp [landings]

theorem landingsOf_cons : landingsOf i (e :: tr) =
    landingsOf i tr ++ if e.tid = i then (e.call.landed e.reply).toList else [] := by
  by_cases hi : e.tid = i
  · simp [landingsOf, hi, landings_cons]
  · simp [landingsOf, hi]

theorem mem_landings : m ∈ landings tr ↔ ∃ e ∈ tr, e.call.landed e.reply = some m := by
  simp [landings]

theorem landingsOf_subset : landingsOf i tr ⊆ landings tr := by
  intro m hm
  obtain ⟨e, he, hlanded⟩ := mem_landings.mp hm
  exact mem_landings.mpr ⟨e, List.mem_of_mem_filter he, hlanded⟩

/-! ### The table -/

/-- All messages of a room, oldest first. -/
def Db.allMessages (db : Db) (roomId : String) : List Message := db.messages.filter (·.roomId = roomId)

/-- The messages of the table are the landings of the trace, numbered from 1. -/
structure Ledger (tr : List Step) (s : Store) : Prop where
  landed : s.db.messages = landings tr
  numbered : s.db.messages.map Message.seq = List.range' 1 s.db.messages.length

/-- The largest of the keys `1, …, n`. -/
theorem maxKey_range' (n : ℕ) : maxKey (List.range' 1 n) = n := by
  refine Nat.le_antisymm ?_ ?_
  · refine Nat.le_of_lt_succ ((maxKey_lt (Nat.succ_pos n)).mpr fun k hk => ?_)
    have := List.mem_range'_1.mp hk
    omega
  · cases n with
    | zero => exact Nat.zero_le _
    | succ n => exact le_maxKey (List.mem_range'_1.mpr (by omega))

/-- A row is numbered by its place. -/
theorem Ledger.nextSeq {s : Store} (h : Ledger tr s) : s.db.nextSeq = s.db.messages.length + 1 := by
  rw [Db.nextSeq, h.numbered, maxKey_range']

theorem Ledger.call (h : Recorded app c e tr) (hledger : Ledger tr e.before) :
    Ledger (e :: tr) e.after := by
  obtain ⟨sess, hexec⟩ := h.exec
  refine ⟨by rw [h.effect.messages, hledger.landed, landings_cons], ?_⟩
  rw [h.effect.messages]
  cases hlanded : e.call.landed e.reply with
  | none => simpa using hledger.numbered
  | some m =>
    have hseq := (landed_spec hexec hlanded).1
    rw [hledger.nextSeq] at hseq
    rw [Option.toList_some, List.map_append, hledger.numbered, List.length_append,
      List.length_singleton, List.range'_concat, List.map_singleton, hseq, Nat.one_mul, Nat.add_comm]

theorem Reachable.ledger (h : Reachable app c) : Throughout c Ledger := by
  refine h.induction ?_ ?_ fun hrec hledger => hledger.call hrec
  · rintro s ⟨hdb, -⟩
    constructor <;> simp [hdb, Db.empty, landings]
  · intro tr s₁ s₂ hdb _ _ _ hledger
    exact ⟨hdb ▸ hledger.landed, hdb ▸ hledger.numbered⟩

/-- A message stands in its place. -/
theorem Ledger.getElem?_seq {s : Store} (h : Ledger tr s) (hm : m ∈ s.db.messages) :
    s.db.messages[m.seq - 1]? = some m := by
  obtain ⟨n, hn, rfl⟩ := List.getElem_of_mem hm
  have hseq : s.db.messages[n].seq = 1 + n := by
    have hmap := congrArg (·[n]?) h.numbered
    simpa [List.getElem?_map, List.getElem?_eq_getElem hn, List.getElem?_range', hn] using hmap
  rw [hseq, Nat.add_sub_cancel_left, List.getElem?_eq_getElem hn]

/-- Messages of two calls have two numbers. -/
theorem Ledger.seq_ne {s : Store} {newer mid older : List Step} {e₁ e₂ : Step} {m₁ m₂ : Message}
    (h : Ledger (newer ++ e₂ :: (mid ++ e₁ :: older)) s) (h₁ : e₁.call.landed e₁.reply = some m₁)
    (h₂ : e₂.call.landed e₂.reply = some m₂) : m₁.seq ≠ m₂.seq := by
  have hnodup : ((landings (newer ++ e₂ :: (mid ++ e₁ :: older))).map Message.seq).Nodup := by
    rw [← h.landed, h.numbered]
    exact List.nodup_range'
  rw [landings_append, landings_cons, landings_append, landings_cons, h₁, h₂, List.map_append,
    List.map_append] at hnodup
  have hdisjoint := (List.nodup_append.mp (List.nodup_append.mp hnodup).1).2.2
  exact hdisjoint m₁.seq (by simp) m₂.seq (by simp)

/-! ### One message a request -/

/-- A request that inserts has not posted before. -/
theorem GuardedCall.not_posted {past : Log} {k : Call} {r : k.Reply} (h : GuardedCall req past k)
    (hlanded : k.landed r = some m) : ¬ Posted past := by
  cases k
  case createMessageTyped => exact h.2.2.2
  case createMessageCapped => exact h.2.2.2
  all_goals cases hlanded

/-- The calls that landed something were made by different requests. -/
theorem Reachable.nodup_landers (h : Reachable app c) :
    ((c.trace.filter fun e => (e.call.landed e.reply).isSome).map Interleave.Event.tid).Nodup := by
  refine h.guarded.nodup_tids (fun x => (x.1.landed x.2).isSome) ?_ List.suffix_rfl
  intro req past k x hguard hlanded y hy
  obtain ⟨m, hm⟩ := Option.isSome_iff_exists.mp hlanded
  exact Bool.eq_false_iff.mpr fun hposted => hguard.not_posted hm ⟨y, hy, hposted⟩

/-- No request has landed two messages. -/
theorem Reachable.landingsOf_length (h : Reachable app c) (i : ℕ) :
    (landingsOf i c.trace).length ≤ 1 := by
  have hcount : ∀ tr : List Step, (landingsOf i tr).length =
      ((tr.filter fun e => (e.call.landed e.reply).isSome).map Interleave.Event.tid).count i := by
    intro tr
    induction tr with
    | nil => rfl
    | cons e tr ih =>
      rw [landingsOf_cons, List.length_append, ih]
      cases hlanded : e.call.landed e.reply with
      | none => simp [hlanded]
      | some m =>
        rw [List.filter_cons_of_pos (by simp [hlanded]), List.map_cons, List.count_cons]
        by_cases hi : e.tid = i <;> simp [hi]
  rw [hcount]
  exact List.nodup_iff_count_le_one.mp (h.nodup_landers) i

/-! ### Acknowledgements -/

/-- The message says what the request asked to be said. -/
def Message.CarriesOut (m : Message) : Request → Prop
  | .sendMessage id r => m.roomId = id ∧ m.recipient = r.to_ ∧ m.body = r.body ∧
      m.msgType = .msg ∧ m.fromHuman = r.fromHuman
  | .signalRoom id r => m.roomId = id ∧ m.recipient = none ∧ m.fromHuman = false ∧
      signalFields r = .ok (m.msgType, m.severity, m.body) ∧ m.questionText = r.questionText
  | _ => False

theorem carriesOut_of_row {db : Db} {k : Call} (hk : k.CarriesOut req) (hrow : k.row db = some m) :
    m.CarriesOut req := by
  cases req
  case sendMessage id r =>
    obtain ⟨sender, now, cap, rfl⟩ := hk
    obtain rfl := Option.some_inj.mp hrow
    exact ⟨rfl, rfl, rfl, rfl, rfl⟩
  case signalRoom id r =>
    obtain ⟨sender, now, msgType, severity, body, hfields, rfl⟩ := hk
    obtain rfl := Option.some_inj.mp hrow
    exact ⟨rfl, rfl, rfl, hfields, rfl⟩
  all_goals exact hk.elim

/-- The number that a request was answered with, if it was answered with one. -/
def answeredSeq (c : Daemon) (i : ℕ) : Option ℕ :=
  (c.threads[i]?.bind Thread.returned).bind Outcome.seq

/-- The call that a number in an answer comes from. -/
theorem Reachable.acknowledged (h : Reachable app c) {seq : ℕ} (hseq : answeredSeq c i = some seq) :
    ∃ t, c.threads[i]? = some t ∧ ∃ newer e older, c.trace = newer ++ e :: older ∧ e.tid = i ∧
      ∃ m, e.call.landed e.reply = some m ∧ m.seq = seq ∧ m.CarriesOut t.req := by
  obtain ⟨a, ha, hanswer⟩ := Option.bind_eq_some_iff.mp hseq
  obtain ⟨t, ht, hreturned⟩ := Option.bind_eq_some_iff.mp ha
  obtain ⟨⟨call, reply⟩, hx, hcarries, m, hlanded, hmseq⟩ := h.guarded.returned ht hreturned seq hanswer
  obtain ⟨e, he, hi, heq⟩ := mem_pastOf.mp hx
  obtain ⟨newer, older, htr⟩ := List.append_of_mem he
  obtain ⟨sess, hexec⟩ := (h.recorded ⟨newer, htr.symm⟩).exec
  cases heq
  exact ⟨t, ht, newer, e, older, htr, hi, m, hlanded, hmseq,
    carriesOut_of_row hcarries (landed_row hexec hlanded).1⟩

/-- Two requests are answered with two numbers. -/
theorem Reachable.answeredSeq_ne (h : Reachable app c) {seq seq' : ℕ} (hi : answeredSeq c i = some seq)
    (hj : answeredSeq c j = some seq') (hij : i ≠ j) : seq ≠ seq' := by
  obtain ⟨-, -, newer, e, older, htr, rfl, m, hlanded, rfl, -⟩ := h.acknowledged hi
  obtain ⟨-, -, newer', e', older', htr', rfl, m', hlanded', rfl, -⟩ := h.acknowledged hj
  have hledger := h.ledger.now
  rcases compare_cuts (htr.symm.trans htr') with ⟨mid, -, rfl⟩ | ⟨-, heq, -⟩ | ⟨mid, -, rfl⟩
  · rw [htr] at hledger
    exact (hledger.seq_ne hlanded' hlanded).symm
  · exact absurd (congrArg Interleave.Event.tid heq) hij
  · rw [htr'] at hledger
    exact hledger.seq_ne hlanded hlanded'

/-- **What is acknowledged is there, once and for good**: in every reachable daemon
the message table is the list of what the calls of the run have landed, numbered
from 1 without a gap, and no request has landed two messages.  A send or a signal
that was answered with a number has landed the one message of that number, which
says what the request asked for; no other request was answered with that number;
and it stands in its place in every table from then on. -/
theorem acknowledged_posts (h : Reachable app c) :
    c.shared.db.messages = landings c.trace ∧
      c.shared.db.messages.map Message.seq = List.range' 1 c.shared.db.messages.length ∧
      (∀ i, (landingsOf i c.trace).length ≤ 1) ∧
      ∀ i seq, answeredSeq c i = some seq →
        (∃ t m, c.threads[i]? = some t ∧ m.CarriesOut t.req ∧ m.seq = seq ∧
          landingsOf i c.trace = [m] ∧
          ∀ c', (daemon app).Run c c' → c'.shared.db.messages[seq - 1]? = some m) ∧
        ∀ j, j ≠ i → answeredSeq c j ≠ some seq := by
  have hledger := h.ledger.now
  refine ⟨hledger.landed, hledger.numbered, h.landingsOf_length, fun i seq hseq => ⟨?_, ?_⟩⟩
  · obtain ⟨t, ht, newer, e, older, htr, rfl, m, hlanded, rfl, hcarries⟩ := h.acknowledged hseq
    have hmine : m ∈ landingsOf e.tid c.trace :=
      mem_landings.mpr ⟨e, by simp [htr], hlanded⟩
    have hone : landingsOf e.tid c.trace = [m] := by
      have hle := h.landingsOf_length e.tid
      obtain ⟨m', hm'⟩ := List.length_eq_one_iff.mp (Nat.le_antisymm hle (List.length_pos_of_mem hmine))
      rw [hm'] at hmine ⊢
      rw [List.mem_singleton.mp hmine]
    refine ⟨t, m, ht, hcarries, rfl, hone, fun c' hrun => ?_⟩
    -- tables only grow at their end
    have hlater : m ∈ c'.shared.db.messages := by
      obtain ⟨new, hnew, -⟩ := hrun.history
      have hm : m ∈ c.shared.db.messages := hledger.landed ▸ landingsOf_subset hmine
      exact (History.later (hrun.history_of_eq hnew)).messages.subset hm
    exact (h.run hrun).ledger.now.getElem?_seq hlater
  · intro j hji hj
    exact h.answeredSeq_ne hseq hj hji.symm rfl

/-- A send and then a signal. -/
def talk : List Request := gather none [alice, bob] ++
  [.sendMessage demoRoom ⟨alice, none, "hello", false⟩,
    .signalRoom demoRoom ⟨bob, "fold", none, none, none⟩]

set_option maxRecDepth 10000 in
theorem acknowledged_posts_talk : answeredSeq (demo talk) 4 = some 2 ∧
    (∃ m, landingsOf 4 (demo talk).trace = [m] ∧ m.seq = 2) ∧
    ∀ j, j ≠ 4 → answeredSeq (demo talk) j ≠ some 2 := by
  have hseq : answeredSeq (demo talk) 4 = some 2 := by decide +kernel
  obtain ⟨⟨t, m, -, -, hm, hone, -⟩, hother⟩ :=
    (acknowledged_posts (reachable_demo talk)).2.2.2 4 2 hseq
  exact ⟨hseq, ⟨m, hone, hm⟩, hother⟩

end ChatBotChat
