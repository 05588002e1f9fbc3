/-
The response to a wait, on the wire.

The response is untagged: its variants are tried in the order of their declaration, and
the first one whose fields can be read is taken.  A message and a timeout share a key, but
each has one that it cannot be read without and the other never has.  A daemon of an older
version leaves out the members it does not know yet.

* `decode_encodeOlder` — what an older daemon sends is read with the defaults of what it
  left out;
* `decode_ofAnswer` — the client reads what the handler answered;
* `wait_response_survives` — responses are read back, as the variant they are.
-/
import ChatBotChat.JsonCodec
import ChatBotChat.Protocol

namespace ChatBotChat.Wire

open JsonCodec JsonValue

/-! ### Types -/

structure MessageView where
  seq : Int64
  from_ : String
  to_ : Option String
  body : String
  createdAt : String
  msgType : String
  severity : Option String
  questionText : Option String
deriving DecidableEq

inductive WaitResponse where
  | message (message : MessageView) (surfaceToUser : Bool) (retryAfter : Option UInt32)
      (roomState : Option String)
  | timeout (status : String) (retryAfter : Option UInt32)
deriving DecidableEq

def defaultMsgType : String := "msg"

def WaitResponse.isMessage : WaitResponse → Bool
  | .message .. => true
  | .timeout .. => false

def WaitResponse.retryAfter : WaitResponse → Option UInt32
  | .message _ _ retryAfter _ => retryAfter
  | .timeout _ retryAfter => retryAfter

def WaitResponse.roomState : WaitResponse → Option String
  | .message _ _ _ roomState => roomState
  | .timeout .. => none

/-! ### Writing -/

def MessageView.slots (view : MessageView) : List Slot :=
  [⟨"seq".toList, some (int64.encode view.seq)⟩,
    ⟨"from".toList, some (text.encode view.from_)⟩,
    ⟨"to".toList, some (text.encodeOption view.to_)⟩,
    ⟨"body".toList, some (text.encode view.body)⟩,
    ⟨"created_at".toList, some (text.encode view.createdAt)⟩,
    ⟨"type".toList, some (text.encode view.msgType)⟩,
    ⟨"severity".toList, some (text.encodeOption view.severity)⟩,
    ⟨"question_text".toList, some (text.encodeOption view.questionText)⟩]

def MessageView.encode (view : MessageView) : Value := .object (record view.slots)

/-- The members of a response; those with `skip_serializing_if` have no value if they are
`None`. -/
def WaitResponse.slots (encodeView : MessageView → Value) : WaitResponse → List Slot
  | .message view surfaceToUser retryAfter roomState =>
    [⟨"message".toList, some (encodeView view)⟩,
      ⟨"surface_to_user".toList, some (flag.encode surfaceToUser)⟩,
      ⟨"retry_after".toList, retryAfter.map uint32.encode⟩,
      ⟨"room_state".toList, roomState.map text.encode⟩]
  | .timeout status retryAfter =>
    [⟨"status".toList, some (text.encode status)⟩,
      ⟨"retry_after".toList, retryAfter.map uint32.encode⟩]

/-- The members of the object a response is written as. -/
def WaitResponse.members (response : WaitResponse) : Object :=
  record (response.slots MessageView.encode)

def WaitResponse.encode (response : WaitResponse) : Value := .object response.members

/-! ### Reading -/

/-- A struct is read from an object, or from its fields in order. -/
def MessageView.decode : Value → Option MessageView
  | .object m => do
    let seq ← field "seq".toList none int64.decode m
    let from_ ← field "from".toList none text.decode m
    let to_ ← field "to".toList (some none) text.decodeOption m
    let body ← field "body".toList none text.decode m
    let createdAt ← field "created_at".toList none text.decode m
    let msgType ← field "type".toList (some defaultMsgType) text.decode m
    let severity ← field "severity".toList (some none) text.decodeOption m
    let questionText ← field "question_text".toList (some none) text.decodeOption m
    return ⟨seq, from_, to_, body, createdAt, msgType, severity, questionText⟩
  | .array xs => do
    guard (xs.length ≤ 8)
    let seq ← element 0 none int64.decode xs
    let from_ ← element 1 none text.decode xs
    let to_ ← element 2 none text.decodeOption xs
    let body ← element 3 none text.decode xs
    let createdAt ← element 4 none text.decode xs
    let msgType ← element 5 (some defaultMsgType) text.decode xs
    let severity ← element 6 (some none) text.decodeOption xs
    let questionText ← element 7 (some none) text.decodeOption xs
    return ⟨seq, from_, to_, body, createdAt, msgType, severity, questionText⟩
  | _ => none

/-- The variants of an untagged enum are read from objects only. -/
def decodeMessage : Value → Option WaitResponse
  | .object m => do
    let message ← field "message".toList none MessageView.decode m
    let surfaceToUser ← field "surface_to_user".toList (some false) flag.decode m
    let retryAfter ← field "retry_after".toList (some none) uint32.decodeOption m
    let roomState ← field "room_state".toList (some none) text.decodeOption m
    return .message message surfaceToUser retryAfter roomState
  | _ => none

def decodeTimeout : Value → Option WaitResponse
  | .object m => do
    let status ← field "status".toList none text.decode m
    let retryAfter ← field "retry_after".toList (some none) uint32.decodeOption m
    return .timeout status retryAfter
  | _ => none

def decode (v : Value) : Except String WaitResponse :=
  match decodeMessage v with
  | some response => .ok response
  | none =>
    match decodeTimeout v with
    | some response => .ok response
    | none => .error "data did not match any variant of untagged enum WaitResponse"

-- a message that cannot be read, with a status beside it, is a timeout
example : decode (.object [("message".toList, .null), ("status".toList, .string "closed".toList)]) =
    .ok (.timeout "closed" none) := rfl

/-! ### Older versions -/

/-- The fields that an older version does not know. -/
inductive Newer where
  | surfaceToUser
  | retryAfter
  | roomState
  | msgType
  | severity
  | questionText
deriving DecidableEq

def Newer.key : Newer → Key
  | .surfaceToUser => "surface_to_user".toList
  | .retryAfter => "retry_after".toList
  | .roomState => "room_state".toList
  | .msgType => "type".toList
  | .severity => "severity".toList
  | .questionText => "question_text".toList

variable (omitted : List Newer)

/-- The members that an older version writes. -/
def older (slots : List Slot) : Object := without (omitted.map Newer.key) (record slots)

/-- A message as an older version writes it. -/
def MessageView.encodeOlder (view : MessageView) : Value := .object (older omitted view.slots)

def WaitResponse.encodeOlder (response : WaitResponse) : Value :=
  .object (older omitted (response.slots (MessageView.encodeOlder omitted)))

/-- The view with the defaults of what is left out. -/
def MessageView.defaulted (view : MessageView) : MessageView :=
  { view with
    msgType := if .msgType ∈ omitted then defaultMsgType else view.msgType
    severity := if .severity ∈ omitted then none else view.severity
    questionText := if .questionText ∈ omitted then none else view.questionText }

def WaitResponse.defaulted : WaitResponse → WaitResponse
  | .message view surfaceToUser retryAfter roomState =>
    .message (view.defaulted omitted) (if .surfaceToUser ∈ omitted then false else surfaceToUser)
      (if .retryAfter ∈ omitted then none else retryAfter)
      (if .roomState ∈ omitted then none else roomState)
  | .timeout status retryAfter =>
    .timeout status (if .retryAfter ∈ omitted then none else retryAfter)

section

variable {omitted} {α : Type} {key : Key} (value : Option Value) {slots : List Slot}
  {missing : Option α} {read : Value → Option α} {a d : α}

/-- A field that every version knows. -/
theorem field_kept (hnodup : (slots.map Slot.key).Nodup) (hmem : ⟨key, value⟩ ∈ slots)
    (hkept : ∀ n : Newer, n.key ≠ key) (hread : value.elim missing read = some a) :
    field key missing read (older omitted slots) = some a := by
  have hkey : key ∉ omitted.map Newer.key := by
    intro hcontra
    obtain ⟨n, -, hn⟩ := List.mem_map.mp hcontra
    exact hkept n hn
  rw [older, field_without, if_neg hkey, ← hread]
  exact field_record hnodup hmem missing read

theorem key_injective : Function.Injective Newer.key := by
  intro n n' h
  cases n <;> cases n' <;> first | rfl | exact absurd h (by decide)

/-- A field that may be left out. -/
theorem field_newer {n : Newer} (hkey : n.key = key) (hnodup : (slots.map Slot.key).Nodup)
    (hmem : ⟨key, value⟩ ∈ slots) (hread : value.elim (some d) read = some a) :
    field key (some d) read (older omitted slots) = some (if n ∈ omitted then d else a) := by
  have hiff : key ∈ omitted.map Newer.key ↔ n ∈ omitted :=
    hkey ▸ List.mem_map_of_injective key_injective
  rw [older, field_without]
  by_cases hn : n ∈ omitted
  · rw [if_pos (hiff.mpr hn), if_pos hn]
  · rw [if_neg (mt hiff.mp hn), if_neg hn, ← hread]
    exact field_record hnodup hmem (some d) read

/-- A field that no version knows. -/
theorem field_absent (h : key ∉ slots.map Slot.key) :
    field key missing read (older omitted slots) = missing := by
  have hrecord : key ∉ (record slots).map Prod.fst := by
    intro hcontra
    obtain ⟨s, hs, hkey, -⟩ := mem_keys_record.mp hcontra
    exact h (List.mem_map.mpr ⟨s, hs, hkey⟩)
  rw [older, field_without, field_of_notMem hrecord, ite_self]

end

theorem nodup_viewSlots (view : MessageView) : (view.slots.map Slot.key).Nodup := by
  simp only [MessageView.slots, List.map_cons, List.map_nil]
  decide

theorem nodup_slots (encodeView : MessageView → Value) (response : WaitResponse) :
    ((response.slots encodeView).map Slot.key).Nodup := by
  cases response <;> simp only [WaitResponse.slots, List.map_cons, List.map_nil] <;> decide

/-- **A message is read with the defaults of what was left out.** -/
theorem MessageView.decode_older (view : MessageView) :
    MessageView.decode (.object (older omitted view.slots)) = some (view.defaulted omitted) := by
  have hnodup := nodup_viewSlots view
  have hseq : field "seq".toList none int64.decode (older omitted view.slots) = some view.seq :=
    field_kept (some (int64.encode view.seq)) hnodup (by simp [slots])
      (by rintro ⟨⟩ <;> decide) (int64.decode_encode _)
  have hfrom : field "from".toList none text.decode (older omitted view.slots) =
      some view.from_ :=
    field_kept (some (text.encode view.from_)) hnodup (by simp [slots])
      (by rintro ⟨⟩ <;> decide) (text.decode_encode _)
  have hto : field "to".toList (some none) text.decodeOption (older omitted view.slots) =
      some view.to_ :=
    field_kept (some (text.encodeOption view.to_)) hnodup (by simp [slots])
      (by rintro ⟨⟩ <;> decide) (text.decodeOption_encodeOption _)
  have hbody : field "body".toList none text.decode (older omitted view.slots) =
      some view.body :=
    field_kept (some (text.encode view.body)) hnodup (by simp [slots])
      (by rintro ⟨⟩ <;> decide) (text.decode_encode _)
  have hcreated : field "created_at".toList none text.decode (older omitted view.slots) =
      some view.createdAt :=
    field_kept (some (text.encode view.createdAt)) hnodup (by simp [slots])
      (by rintro ⟨⟩ <;> decide) (text.decode_encode _)
  have htype : field "type".toList (some defaultMsgType) text.decode (older omitted view.slots) =
      some (if .msgType ∈ omitted then defaultMsgType else view.msgType) :=
    field_newer (n := .msgType) (some (text.encode view.msgType)) rfl hnodup
      (by simp [slots]) (text.decode_encode _)
  have hseverity : field "severity".toList (some none) text.decodeOption
      (older omitted view.slots) = some (if .severity ∈ omitted then none else view.severity) :=
    field_newer (n := .severity) (some (text.encodeOption view.severity)) rfl hnodup
      (by simp [slots]) (text.decodeOption_encodeOption _)
  have hquestion : field "question_text".toList (some none) text.decodeOption
      (older omitted view.slots) =
        some (if .questionText ∈ omitted then none else view.questionText) :=
    field_newer (n := .questionText) (some (text.encodeOption view.questionText)) rfl hnodup
      (by simp [slots]) (text.decodeOption_encodeOption _)
  simp only [decode, hseq, hfrom, hto, hbody, hcreated, htype, hseverity, hquestion]
  rfl

variable {response : WaitResponse}

theorem field_retryAfter (encodeView : MessageView → Value) (response : WaitResponse) :
    field "retry_after".toList (some none) uint32.decodeOption
      (older omitted (response.slots encodeView)) =
        some (if .retryAfter ∈ omitted then none else response.retryAfter) := by
  refine field_newer (n := .retryAfter) (response.retryAfter.map uint32.encode) rfl
    (nodup_slots encodeView response) ?_ ?_
  · cases response <;> simp [WaitResponse.slots, WaitResponse.retryAfter]
  · cases response.retryAfter with
    | none => rfl
    | some n => exact uint32.decodeOption_encode n

/-- A message is read as the first variant. -/
theorem decodeMessage_older (h : response.isMessage = true) :
    decodeMessage (response.encodeOlder omitted) = some (response.defaulted omitted) := by
  cases response with
  | timeout status retryAfter => cases h
  | message view surfaceToUser retryAfter roomState =>
    let slots := (WaitResponse.message view surfaceToUser retryAfter roomState).slots
      (MessageView.encodeOlder omitted)
    have hnodup : (slots.map Slot.key).Nodup := nodup_slots _ _
    have hview : field "message".toList none MessageView.decode (older omitted slots) =
        some (view.defaulted omitted) :=
      field_kept (some (view.encodeOlder omitted)) hnodup (by simp [slots, WaitResponse.slots])
        (by rintro ⟨⟩ <;> decide) (view.decode_older omitted)
    have hsurface : field "surface_to_user".toList (some false) flag.decode
        (older omitted slots) = some (if .surfaceToUser ∈ omitted then false else surfaceToUser) :=
      field_newer (n := .surfaceToUser) (some (flag.encode surfaceToUser)) rfl hnodup
        (by simp [slots, WaitResponse.slots]) (flag.decode_encode surfaceToUser)
    have hretry : field "retry_after".toList (some none) uint32.decodeOption
        (older omitted slots) = some (if .retryAfter ∈ omitted then none else retryAfter) :=
      field_retryAfter omitted _ _
    have hstate : field "room_state".toList (some none) text.decodeOption (older omitted slots) =
        some (if .roomState ∈ omitted then none else roomState) := by
      refine field_newer (n := .roomState) (roomState.map text.encode) rfl hnodup
        (by simp [slots, WaitResponse.slots]) ?_
      cases roomState with
      | none => rfl
      | some s => exact text.decodeOption_encode s
    show decodeMessage (.object (older omitted slots)) = _
    simp only [decodeMessage, hview, hsurface, hretry, hstate]
    rfl

/-- A timeout has no message. -/
theorem decodeMessage_older_none (h : response.isMessage = false) :
    decodeMessage (response.encodeOlder omitted) = none := by
  cases response with
  | message view surfaceToUser retryAfter roomState => cases h
  | timeout status retryAfter =>
    have hview : field "message".toList none MessageView.decode (older omitted
        ((WaitResponse.timeout status retryAfter).slots (MessageView.encodeOlder omitted))) =
          none := by
      refine field_absent ?_
      simp only [WaitResponse.slots, List.map_cons, List.map_nil]
      decide
    show decodeMessage (.object _) = _
    simp only [decodeMessage, hview]
    rfl

theorem decodeTimeout_older (h : response.isMessage = false) :
    decodeTimeout (response.encodeOlder omitted) = some (response.defaulted omitted) := by
  cases response with
  | message view surfaceToUser retryAfter roomState => cases h
  | timeout status retryAfter =>
    let slots := (WaitResponse.timeout status retryAfter).slots (MessageView.encodeOlder omitted)
    have hstatus : field "status".toList none text.decode (older omitted slots) = some status :=
      field_kept (some (text.encode status)) (nodup_slots _ _) (by simp [slots, WaitResponse.slots])
        (by rintro ⟨⟩ <;> decide) (text.decode_encode status)
    have hretry : field "retry_after".toList (some none) uint32.decodeOption
        (older omitted slots) = some (if .retryAfter ∈ omitted then none else retryAfter) :=
      field_retryAfter omitted _ _
    show decodeTimeout (.object (older omitted slots)) = _
    simp only [decodeTimeout, hstatus, hretry]
    rfl

/-- A message has no status. -/
theorem decodeTimeout_older_none (h : response.isMessage = true) :
    decodeTimeout (response.encodeOlder omitted) = none := by
  cases response with
  | timeout status retryAfter => cases h
  | message view surfaceToUser retryAfter roomState =>
    have hstatus : field "status".toList none text.decode (older omitted
        ((WaitResponse.message view surfaceToUser retryAfter roomState).slots
          (MessageView.encodeOlder omitted))) = none := by
      refine field_absent ?_
      simp only [WaitResponse.slots, List.map_cons, List.map_nil]
      decide
    show decodeTimeout (.object _) = _
    simp only [decodeTimeout, hstatus]
    rfl

/-- **What an older version sends is read with the defaults of what it left out.** -/
theorem decode_encodeOlder (response : WaitResponse) :
    decode (response.encodeOlder omitted) = .ok (response.defaulted omitted) := by
  cases h : response.isMessage with
  | true =>
    rw [decode, decodeMessage_older omitted h]
  | false =>
    rw [decode, decodeMessage_older_none omitted h, decodeTimeout_older omitted h]

/-! ### The current version -/

theorem older_nil (slots : List Slot) : older [] slots = record slots :=
  List.filter_eq_self.mpr fun p _ => by simp

theorem encodeOlder_nil (response : WaitResponse) : response.encodeOlder [] = response.encode := by
  have hview : MessageView.encodeOlder [] = MessageView.encode := by
    funext view
    rw [MessageView.encodeOlder, older_nil, MessageView.encode]
  rw [WaitResponse.encodeOlder, older_nil, hview, WaitResponse.encode, WaitResponse.members]

theorem defaulted_nil (response : WaitResponse) : response.defaulted [] = response := by
  cases response <;> rfl

theorem mem_members_retryAfter (response : WaitResponse) :
    "retry_after".toList ∈ response.members.map Prod.fst ↔
      response.retryAfter.isSome = true := by
  rw [WaitResponse.members, mem_keys_record]
  cases response <;> simp [WaitResponse.slots, WaitResponse.retryAfter]

theorem mem_members_roomState (response : WaitResponse) :
    "room_state".toList ∈ response.members.map Prod.fst ↔ response.roomState.isSome = true := by
  rw [WaitResponse.members, mem_keys_record]
  cases response <;> simp [WaitResponse.slots, WaitResponse.roomState]

/-! ### Answers -/

/-- The number of a message is a row id, which has 63 bits. -/
def Fits : ChatBotChat.WaitResponse → Prop
  | .message view _ _ _ => view.seq < 2 ^ 63
  | .timeout _ _ => True

def MessageView.ofView (view : ChatBotChat.MessageView) : MessageView :=
  ⟨Int64.ofNat view.seq, view.from_, view.to_, view.body, view.createdAt, view.msgType,
    view.severity, view.questionText⟩

def MessageView.toView (view : MessageView) : ChatBotChat.MessageView :=
  ⟨view.seq.toInt.toNat, view.from_, view.to_, view.body, view.createdAt, view.msgType,
    view.severity, view.questionText⟩

/-- What the handler of a wait answers, as it is sent. -/
def ofAnswer : ChatBotChat.WaitResponse → WaitResponse
  | .message view surfaceToUser retryAfter roomState =>
    .message (.ofView view) surfaceToUser retryAfter roomState
  | .timeout status retryAfter => .timeout status retryAfter

def WaitResponse.toAnswer : WaitResponse → ChatBotChat.WaitResponse
  | .message view surfaceToUser retryAfter roomState =>
    .message view.toView surfaceToUser retryAfter roomState
  | .timeout status retryAfter => .timeout status retryAfter

theorem toAnswer_ofAnswer {answer : ChatBotChat.WaitResponse} (h : Fits answer) :
    (ofAnswer answer).toAnswer = answer := by
  cases answer with
  | timeout status retryAfter => rfl
  | message view surfaceToUser retryAfter roomState =>
    have hseq : (Int64.ofNat view.seq).toInt.toNat = view.seq := by
      rw [Int64.toInt_ofNat_of_lt h, Int.toNat_natCast]
    simp only [ofAnswer, WaitResponse.toAnswer, MessageView.toView, MessageView.ofView, hseq]

theorem decode_encode (response : WaitResponse) : decode response.encode = .ok response := by
  have hback := decode_encodeOlder [] response
  rwa [encodeOlder_nil, defaulted_nil] at hback

/-- **The client reads what the handler answered.** -/
theorem decode_ofAnswer {answer : ChatBotChat.WaitResponse} (h : Fits answer) :
    (decode (ofAnswer answer).encode).map WaitResponse.toAnswer = .ok answer := by
  rw [decode_encode]
  exact congrArg Except.ok (toAnswer_ofAnswer h)

/-! ### Responses on the wire -/

/-- **Responses survive the wire.**  A response is read back, and as no other variant than
the one it is; the fields that are skipped if they are `None` are written exactly if they
are not.  So is one that an older version has sent, with the defaults of what it left
out. -/
theorem wait_response_survives (response : WaitResponse) :
    decode response.encode = .ok response ∧
    ((decodeMessage response.encode).isSome = response.isMessage ∧
      (decodeTimeout response.encode).isSome = !response.isMessage) ∧
    ("retry_after".toList ∈ response.members.map Prod.fst ↔
      response.retryAfter.isSome = true) ∧
    ("room_state".toList ∈ response.members.map Prod.fst ↔ response.roomState.isSome = true) ∧
    ∀ omitted, decode (response.encodeOlder omitted) = .ok (response.defaulted omitted) ∧
      (decodeMessage (response.encodeOlder omitted)).isSome = response.isMessage ∧
      (decodeTimeout (response.encodeOlder omitted)).isSome = !response.isMessage := by
  have hvariant : ∀ omitted,
      (decodeMessage (response.encodeOlder omitted)).isSome = response.isMessage ∧
        (decodeTimeout (response.encodeOlder omitted)).isSome = !response.isMessage := by
    intro omitted
    cases h : response.isMessage with
    | true =>
      rw [decodeMessage_older omitted h, decodeTimeout_older_none omitted h]
      exact ⟨rfl, rfl⟩
    | false =>
      rw [decodeMessage_older_none omitted h, decodeTimeout_older omitted h]
      exact ⟨rfl, rfl⟩
  refine ⟨decode_encode response, ?_, mem_members_retryAfter response, mem_members_roomState response,
    fun omitted => ⟨decode_encodeOlder omitted response, hvariant omitted⟩⟩
  rw [← encodeOlder_nil]
  exact hvariant []

end ChatBotChat.Wire
