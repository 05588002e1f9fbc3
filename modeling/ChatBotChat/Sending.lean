/-
What a send does, call by call.

A send that is answered with a message has made all of its calls (`SentBy`): it
read the room and found it writable, found its caller, and met the recipient in
the roster if it was given one (`Accepted`); it inserted the message, retracted
the votes of the sender and bumped the activity of the room; and if the room it
had read was idle or stale, it tried to make that room active (`Revival`).
-/
import ChatBotChat.Roster

namespace ChatBotChat

open Interleave Lifecycle

variable {past : Log} {id inst : String} {r : SendMessageRequest} {room : Room}
  {sender : Participant} {now : OffsetDateTime} {m : Message}

/-! ### The log of a send -/

/-- The recipient is anybody, or a participant that was met in the roster. -/
inductive RecipientMet (id : String) : Option String → Log → Prop
  | anybody : RecipientMet id none []
  | met {h : String} {participants : List Participant} :
      (∃ p ∈ participants, p.handle = h) →
      RecipientMet id (some h) [⟨.listParticipants id, participants⟩]

/-- The log of a send that has inserted its message. -/
inductive Accepted (id inst : String) (r : SendMessageRequest) (room : Room)
    (sender : Participant) (now : OffsetDateTime) (m : Message) : Log → Prop
  | mk {found known : Log} : rejectUnlessWritable room = .ok () → Identified id inst sender found →
      RecipientMet id r.to_ known →
      Accepted id inst r room sender now m
        (⟨.createMessageCapped id sender.handle r.to_ r.body now r.fromHuman
          room.config.hardCap.toNat, some m⟩ :: ⟨.nowUtc, now⟩ ::
            (known ++ (found ++ [⟨.getRoom id, some room⟩])))

/-- The attempt to make a room active that was read as idle or stale. -/
inductive Revival (id : String) (state : RoomState) (now : OffsetDateTime) : Log → Prop
  | needless : state ≠ .idle → state ≠ .stale → Revival id state now []
  | tried {changed : Bool} : state = .idle ∨ state = .stale →
      Revival id state now [⟨.updateRoomState id state .active now none, changed⟩]

/-- The log of a send that is answered with `m`. -/
inductive SentBy (id inst : String) (r : SendMessageRequest) (room : Room) (sender : Participant)
    (now : OffsetDateTime) (m : Message) : Log → Prop
  | mk {older revival : Log} : Accepted id inst r room sender now m older →
      Revival id room.state now revival →
      SentBy id inst r room sender now m (⟨.notify id, ()⟩ :: (revival ++
        (⟨.touchLastActivity id now, ()⟩ :: ⟨.clearExtendVote sender.handle, ()⟩ ::
          ⟨.setCloseVote sender.handle none, ()⟩ :: older)))

/-- What a send has done when it answers. -/
def SendingConclusion (req : Request) (past : Log) (a : Outcome) : Prop :=
  ∀ id r seq, req = .sendMessage id r → a = .ok (.sent seq) → ∃ room sender now m,
    m.seq = seq ∧ SentBy id (effectiveInstance r.toCaller) r room sender now m past

/-! ### The handler -/

theorem recipientKnown_met {to_ : Option String} {Φ : Log → Call → Prop} {Q : Log → Bool → Prop}
    (hΦ : ∀ past k, Φ past k) (hknown : ∀ known, RecipientMet id to_ known → Q (known ++ past) true)
    (hunknown : ∀ past, Q past false) : (recipientKnown id to_).Upholds Φ past Q := by
  unfold recipientKnown
  cases to_ with
  | none => exact hknown [] .anybody
  | some h =>
    refine .step (hΦ _ _) fun participants => ?_
    show Q _ _
    cases hmet : participants.any (·.handle = h) with
    | false => exact hunknown _
    | true =>
      obtain ⟨p, hp, hhandle⟩ := List.any_eq_true.mp hmet
      exact hknown [_] (.met ⟨p, hp, of_decide_eq_true hhandle⟩)

theorem reviveRoom_revival {state : RoomState} {Φ : Log → Call → Prop} {Q : Log → Unit → Prop}
    (hΦ : ∀ past k, Φ past k) (hQ : ∀ revival, Revival id state now revival → Q (revival ++ past) ()) :
    (reviveRoom id state now).Upholds Φ past Q := by
  unfold reviveRoom
  by_cases hquiet : state = .idle ∨ state = .stale
  · have hmessage : transition state .message = some .active := by
      rcases hquiet with rfl | rfl <;> rfl
    simp only [hquiet, ↓reduceIte, hmessage]
    exact .step (hΦ _ _) fun changed => hQ [_] (.tried hquiet)
  · rw [if_neg hquiet]
    rw [not_or] at hquiet
    exact hQ [] (.needless hquiet.1 hquiet.2)

theorem sendMessage_sending (id : String) (r : SendMessageRequest) :
    (sendMessage id r).Upholds (fun _ _ => True) [] fun past a => ∀ seq, a = .ok seq →
      ∃ room sender now m, m.seq = seq ∧
        SentBy id (effectiveInstance r.toCaller) r room sender now m past := by
  refine .step trivial fun room => ?_
  cases room with
  | none => exact fun seq h => by cases h
  | some room =>
    cases hwritable : rejectUnlessWritable room with
    | error e =>
      simp only [hwritable]
      exact fun seq h => by cases h
    | ok _ =>
      simp only [hwritable]
      refine .bind (resolveParticipant_identified (fun _ => ⟨trivial, trivial⟩) ?_ fun found p hfound => ?_)
      · exact fun seq h => by cases h
      · refine .bind (recipientKnown_met (fun _ _ => trivial) (fun known hknown => ?_) fun past => ?_)
        · refine .step trivial fun now => .step trivial fun msg => ?_
          cases msg with
          | none => exact fun seq h => by cases h
          | some m =>
            refine .step trivial fun _ => .step trivial fun _ => .step trivial fun _ => .bind ?_
            refine reviveRoom_revival (fun _ _ => trivial) fun revival hrevival =>
              .step trivial fun _ => ?_
            intro seq h
            cases h
            exact ⟨room, p, now, m, rfl, .mk (.mk hwritable hfound hknown) hrevival⟩
        · exact fun seq h => by cases h

theorem serve_sending (app : AppState) (req : Request) :
    (serve app req).Upholds (fun _ _ => True) [] (SendingConclusion req) := by
  by_cases hsend : ∃ id r, req = .sendMessage id r
  · obtain ⟨id, r, rfl⟩ := hsend
    refine upholds_answering.mpr ((sendMessage_sending id r).mono fun past a ha => ?_)
    rintro id' r' seq heq hok
    cases heq
    cases a with
    | error e => cases hok
    | ok n =>
      cases hok
      exact ha _ rfl
  · refine Prog.upholds_of_forall (fun _ _ => trivial) ?_
    exact fun past a id r seq heq => absurd ⟨id, r, heq⟩ hsend

/-- **Every send of a reachable daemon that is answered with a message** has made all
of these calls. -/
theorem Reachable.sending {app : AppState} {c : Daemon} (h : Reachable app c) :
    System.Upheld (fun _ _ _ => True) SendingConclusion c := by
  obtain ⟨utc, instant, hrun⟩ := h
  have hbody : ∀ r, ((daemon app).body r).Upholds (fun _ _ => True) [] (SendingConclusion r) :=
    serve_sending app
  exact hrun.upheld hbody

end ChatBotChat
