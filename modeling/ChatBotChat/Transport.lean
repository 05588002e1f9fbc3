/-
The daemon behind its HTTP interface, and the client in front of it.

The client writes the id of a room into the path as it is, so a path is modelled for the
characters that a URL keeps as they are; the ids of the daemon have no others.  A query is
the list of its pairs, and a body the JSON value it is the text of.  What the framework
refuses has a status and no envelope, so the client says what the status is called.

* `route_requestOlder` — a call reaches its handler, also that of an older client;
* `receive_respond` — the client receives what the handler has answered;
* `client_calls_served` — whatever the daemon has answered a client's call with, the client
  receives it, and of an internal error only that it was one.
-/
import ChatBotChat.Bodies
import ChatBotChat.Peeks
import ChatBotChat.RoomIds

namespace ChatBotChat.Wire

open Interleave JsonCodec JsonValue

/-! ### Requests -/

/-- A character that a URL keeps as it is. -/
def unreserved (c : Char) : Bool := c.isAlphanum || c = '-' || c = '_'

def inPath (c : Char) : Bool := c = '/' || unreserved c

/-- The id of a room that can be written into a path. -/
structure RoomId where
  text : String
  nonempty : text ≠ ""
  chars : text.toList.all unreserved = true

/-- A path that is not changed on its way. -/
structure UrlPath where
  text : String
  chars : text.toList.all inPath = true

/-- The names between the slashes. -/
def UrlPath.segments (path : UrlPath) : List String :=
  (path.text.toList.splitOn '/').map String.ofList

inductive Method where
  | get
  | post
deriving DecidableEq

structure HttpRequest where
  method : Method
  path : UrlPath
  query : Object
  body : Option Value

/-! ### The router -/

/-- What a handler is asked for. -/
inductive Ask where
  | serve (req : Request)
  | status (id : String)
  | transcript (id : String)
deriving DecidableEq

/-- `GET` and `POST` of other paths' handlers are refused. -/
def HttpRequest.allow (req : HttpRequest) (method : Method) (handler : Except ℕ Ask) :
    Except ℕ Ask :=
  if req.method = method then handler else .error 405

/-- The extractor of a JSON body. -/
def HttpRequest.json (req : HttpRequest) (form : RecordForm α) : Except ℕ α :=
  match req.body with
  | none => .error 415
  | some v =>
    match form.decode v with
    | none => .error 422
    | some a => .ok a

/-- The extractor of a query. -/
def HttpRequest.params (req : HttpRequest) (read : Object → Option α) : Except ℕ α :=
  match read req.query with
  | none => .error 400
  | some a => .ok a

def roomState? (v : Value) : Option RoomState :=
  [.active, .idle, .paused, .stale, .closed, .archived].find? fun state : RoomState =>
    v.asStr = some state.asStr.toList

/-- `ListRoomsQuery`. -/
def listRoomsQuery (m : Object) : Option (Option RoomState × Bool) := do
  let state ← field "state".toList (some none) (fun v => (roomState? v).map some) m
  let all ← field "all".toList (some false) flagText.decode m
  return (state, all)

def routeAction (id action : String) (req : HttpRequest) : Except ℕ Ask :=
  match action with
  | "transcript" => req.allow .get (.ok (.transcript id))
  | "join" => req.allow .post do return .serve (.joinRoom id (← req.json joinRoomRequest))
  | "messages" => req.allow .post do return .serve (.sendMessage id (← req.json sendMessageRequest))
  | "signals" => req.allow .post do return .serve (.signalRoom id (← req.json signalRequest))
  | "wait" => req.allow .get do
    return .serve (.waitRoom id (← req.params waitRequest.form.readMembers))
  | "close" => req.allow .post do return .serve (.closeRoom id (← req.json lifecycleRequest))
  | "extend" => req.allow .post do return .serve (.extendRoom id (← req.json extendRequest))
  | "pause" => req.allow .post do return .serve (.pauseRoom id (← req.json lifecycleRequest))
  | "wake" => req.allow .post do return .serve (.wakeRoom id (← req.json lifecycleRequest))
  | "prune" => req.allow .post (.ok (.serve (.pruneRoom id)))
  | _ => .error 404

/-- The router of the daemon, with what each handler extracts; a parameter is not empty. -/
def route (req : HttpRequest) : Except ℕ Ask :=
  match req.path.segments with
  | ["", "rooms"] =>
    match req.method with
    | .post => do return .serve (.openRoom (← req.json openRoomRequest))
    | .get => do
      let (state, all) ← req.params listRoomsQuery
      return .serve (.listRooms state all)
  | ["", "rooms", id] => if id = "" then .error 404 else req.allow .get (.ok (.status id))
  | ["", "rooms", id, action] => if id = "" then .error 404 else routeAction id action req
  | _ => .error 404

/-! ### The client -/

/-- A call of a method of `HttpClient`. -/
inductive ClientCall where
  | openRoom (subject : String) (hardCap softCap : Option UInt32)
  | joinRoom (roomId : RoomId) (caller : Caller) (nickname : Option String)
  | sendMessage (roomId : RoomId) (caller : Caller) (to_ : Option String) (body : String)
      (fromHuman : Bool)
  | wait (roomId : RoomId) (caller : Caller) (maxWaitSecs : Option UInt32)
  | signal (roomId : RoomId) (caller : Caller) (signalType : String)
      (severity questionText : Option String)
  | status (roomId : RoomId)
  | prune (roomId : RoomId)
  | listRooms (state : Option String) (all : Bool)
  | transcript (roomId : RoomId)
  | close (roomId : RoomId) (caller : Caller) (force : Bool)
  | pause (roomId : RoomId) (caller : Caller) (reason : Option String)
  | wake (roomId : RoomId) (caller : Caller)
  | extend (roomId : RoomId) (caller : Caller)

/-- The members of requests that an older client does not know yet. -/
inductive Unknown where
  | inst
  | nickname
  | hardCap
  | softCap
  | prevRoomId
  | to_
  | fromHuman
  | severity
  | questionText
  | reason
  | force
  | maxWaitSecs
deriving DecidableEq

def Unknown.key : Unknown → Key
  | .inst => "instance".toList
  | .nickname => "nickname".toList
  | .hardCap => "hard_cap".toList
  | .softCap => "soft_cap".toList
  | .prevRoomId => "prev_room_id".toList
  | .to_ => "to".toList
  | .fromHuman => "from_human".toList
  | .severity => "severity".toList
  | .questionText => "question_text".toList
  | .reason => "reason".toList
  | .force => "force".toList
  | .maxWaitSecs => "max_wait_secs".toList

def roomsPath : UrlPath where
  text := "/rooms"
  chars := by decide

/-- The path of a room, and of what is done to it. -/
def roomPath (id : RoomId) (action : String) (h : action.toList.all inPath = true) : UrlPath where
  text := "/rooms/" ++ id.text ++ action
  chars := by
    have hstart : "/rooms/".toList.all inPath = true := by decide
    have hid : id.text.toList.all inPath = true := by
      rw [List.all_eq_true]
      intro c hc
      rw [inPath, List.all_eq_true.mp id.chars c hc, Bool.or_true]
    rw [String.toList_append, String.toList_append, List.all_append, List.all_append, hstart, hid, h]
    rfl

section

variable (omitted : List Unknown)

/-- `POST` with a body, as a client sends it that does not know some members. -/
def post (path : UrlPath) (form : RecordForm α) (a : α) : HttpRequest where
  method := .post
  path := path
  query := []
  body := some (form.encodeOlder (omitted.map Unknown.key) a)

def get (path : UrlPath) (query : Object) : HttpRequest where
  method := .get
  path := path
  query := without (omitted.map Unknown.key) query
  body := none

/-- What a method of the client sends. -/
def ClientCall.requestOlder : ClientCall → HttpRequest
  | .openRoom subject hardCap softCap =>
    post omitted roomsPath openRoomRequest ⟨subject, hardCap, softCap, none⟩
  | .joinRoom id caller nickname =>
    post omitted (roomPath id "/join" (by decide)) joinRoomRequest ⟨caller, nickname⟩
  | .sendMessage id caller to_ body fromHuman =>
    post omitted (roomPath id "/messages" (by decide)) sendMessageRequest
      ⟨caller, to_, body, fromHuman⟩
  | .wait id caller maxWaitSecs =>
    get omitted (roomPath id "/wait" (by decide))
      (record (waitRequest.form.slots ⟨caller, maxWaitSecs⟩))
  | .signal id caller signalType severity questionText =>
    post omitted (roomPath id "/signals" (by decide)) signalRequest
      ⟨caller, signalType, severity, questionText, none⟩
  | .status id => get omitted (roomPath id "" (by decide)) []
  | .prune id => ⟨.post, roomPath id "/prune" (by decide), [], none⟩
  | .listRooms state all =>
    ⟨.get, roomsPath, (state.map fun s => ("state".toList, Value.string s.toList)).toList ++
      if all then [("all".toList, .string "true".toList)] else [], none⟩
  | .transcript id => get omitted (roomPath id "/transcript" (by decide)) []
  | .close id caller force =>
    post omitted (roomPath id "/close" (by decide)) lifecycleRequest ⟨caller, none, force⟩
  | .pause id caller reason =>
    post omitted (roomPath id "/pause" (by decide)) lifecycleRequest ⟨caller, reason, false⟩
  | .wake id caller =>
    post omitted (roomPath id "/wake" (by decide)) lifecycleRequest ⟨caller, none, false⟩
  | .extend id caller => post omitted (roomPath id "/extend" (by decide)) extendRequest caller

end

/-- What a method of the client sends. -/
def ClientCall.request (call : ClientCall) : HttpRequest := call.requestOlder []

/-- What a method of the client is there to ask. -/
def ClientCall.ask : ClientCall → Except ℕ Ask
  | .openRoom subject hardCap softCap =>
    .ok (.serve (.openRoom ⟨subject, hardCap, softCap, none⟩))
  | .joinRoom id caller nickname => .ok (.serve (.joinRoom id.text ⟨caller, nickname⟩))
  | .sendMessage id caller to_ body fromHuman =>
    .ok (.serve (.sendMessage id.text ⟨caller, to_, body, fromHuman⟩))
  | .wait id caller maxWaitSecs => .ok (.serve (.waitRoom id.text ⟨caller, maxWaitSecs⟩))
  | .signal id caller signalType severity questionText =>
    .ok (.serve (.signalRoom id.text ⟨caller, signalType, severity, questionText, none⟩))
  | .status id => .ok (.status id.text)
  | .prune id => .ok (.serve (.pruneRoom id.text))
  | .listRooms none all => .ok (.serve (.listRooms none all))
  | .listRooms (some s) all =>
    match roomState? (.string s.toList) with
    | some state => .ok (.serve (.listRooms (some state) all))
    | none => .error 400
  | .transcript id => .ok (.transcript id.text)
  | .close id caller force => .ok (.serve (.closeRoom id.text ⟨caller, none, force⟩))
  | .pause id caller reason => .ok (.serve (.pauseRoom id.text ⟨caller, reason, false⟩))
  | .wake id caller => .ok (.serve (.wakeRoom id.text ⟨caller, none, false⟩))
  | .extend id caller => .ok (.serve (.extendRoom id.text caller))

section

variable (omitted : List Unknown)

/-- A caller without an instance is one with an empty one. -/
def defaultedCaller (caller : Caller) : Caller :=
  { caller with inst := if .inst ∈ omitted then "" else caller.inst }

/-- A member that is nothing by default. -/
def defaultedOption (member : Unknown) (a : Option α) : Option α :=
  if member ∈ omitted then none else a

def defaultedFlag (member : Unknown) (b : Bool) : Bool := if member ∈ omitted then false else b

/-- The call with the defaults of the members that are not known. -/
def ClientCall.defaulted : ClientCall → ClientCall
  | .openRoom subject hardCap softCap =>
    .openRoom subject (defaultedOption omitted .hardCap hardCap)
      (defaultedOption omitted .softCap softCap)
  | .joinRoom id caller nickname =>
    .joinRoom id (defaultedCaller omitted caller) (defaultedOption omitted .nickname nickname)
  | .sendMessage id caller to_ body fromHuman =>
    .sendMessage id (defaultedCaller omitted caller) (defaultedOption omitted .to_ to_) body
      (defaultedFlag omitted .fromHuman fromHuman)
  | .wait id caller maxWaitSecs =>
    .wait id (defaultedCaller omitted caller) (defaultedOption omitted .maxWaitSecs maxWaitSecs)
  | .signal id caller signalType severity questionText =>
    .signal id (defaultedCaller omitted caller) signalType
      (defaultedOption omitted .severity severity)
      (defaultedOption omitted .questionText questionText)
  | .status id => .status id
  | .prune id => .prune id
  | .listRooms state all => .listRooms state all
  | .transcript id => .transcript id
  | .close id caller force =>
    .close id (defaultedCaller omitted caller) (defaultedFlag omitted .force force)
  | .pause id caller reason =>
    .pause id (defaultedCaller omitted caller) (defaultedOption omitted .reason reason)
  | .wake id caller => .wake id (defaultedCaller omitted caller)
  | .extend id caller => .extend id (defaultedCaller omitted caller)

end

theorem ClientCall.defaulted_nil (call : ClientCall) : call.defaulted [] = call := by
  cases call <;> rfl

/-! ### Calls reach their handlers -/

theorem slash_notMem (id : RoomId) : '/' ∉ id.text.toList := by
  intro hmem
  cases List.all_eq_true.mp id.chars '/' hmem

theorem segments_of_eq {path : UrlPath} {names : List String} (hne : names ≠ [])
    (hnames : ∀ name ∈ names, '/' ∉ name.toList)
    (hpath : path.text.toList = ['/'].intercalate (names.map String.toList)) :
    path.segments = names := by
  have hsplit : (['/'].intercalate (names.map String.toList)).splitOn '/' =
      names.map String.toList := by
    refine List.splitOn_intercalate '/' (fun l hl => ?_) (by simpa using hne)
    obtain ⟨name, hname, rfl⟩ := List.mem_map.mp hl
    exact hnames name hname
  rw [UrlPath.segments, hpath, hsplit, List.map_map]
  exact (List.map_congr_left fun name _ => String.ofList_toList).trans (List.map_id names)

theorem segments_roomsPath : roomsPath.segments = ["", "rooms"] :=
  segments_of_eq (by decide) (by decide) (by decide)

theorem segments_room (id : RoomId) (h : "".toList.all inPath = true) :
    (roomPath id "" h).segments = ["", "rooms", id.text] := by
  refine segments_of_eq (List.cons_ne_nil _ _) ?_ ?_
  · have hslash := slash_notMem id
    simp [hslash]
  · simp [roomPath, List.intercalate]

theorem segments_action (id : RoomId) {action name : String}
    (h : action.toList.all inPath = true) (hname : '/' ∉ name.toList)
    (haction : action.toList = '/' :: name.toList) :
    (roomPath id action h).segments = ["", "rooms", id.text, name] := by
  refine segments_of_eq (List.cons_ne_nil _ _) ?_ ?_
  · have hslash := slash_notMem id
    simp [hslash, hname]
  · simp [roomPath, List.intercalate, haction]

/-- The members that every client knows. -/
def REQUIRED : List Key :=
  ["repo".toList, "model".toList, "cwd".toList, "subject".toList, "body".toList, "type".toList]

variable {omitted : List Unknown} {path : UrlPath}

theorem key_ne (u : Unknown) : ∀ key ∈ REQUIRED, key ≠ u.key := by
  cases u <;> decide

theorem Unknown.key_injective : Function.Injective Unknown.key := by
  intro u u' h
  cases u <;> cases u' <;> first | rfl | exact absurd h (by decide)

theorem contains_map_key {u : Unknown} :
    (omitted.map Unknown.key).contains u.key = true ↔ u ∈ omitted :=
  List.contains_iff_mem.trans (List.mem_map_of_injective Unknown.key_injective)

/-- Nobody leaves out what every client knows. -/
theorem notMem_of_required {required : List Key} (h : ∀ key ∈ required, key ∈ REQUIRED) :
    ∀ key ∈ required, key ∉ omitted.map Unknown.key := by
  intro key hkey hmem
  obtain ⟨u, -, heq⟩ := List.mem_map.mp hmem
  exact key_ne u key (h key hkey) heq.symm

theorem json_post {form : RecordForm α} (a : α) (h : ∀ key ∈ form.form.required, key ∈ REQUIRED) :
    (post omitted path form a).json form =
      .ok (form.form.defaulted (omitted.map Unknown.key) a) := by
  have hknown : ∀ key ∈ form.form.required, key ∉ omitted.map Unknown.key := notMem_of_required h
  have hread := form.decode_encodeOlder a hknown
  simp only [HttpRequest.json, post, hread]

section

variable (member : Unknown) (caller : Caller)

theorem defaultedOption_eq (a : Option α) :
    (if (omitted.map Unknown.key).contains member.key then none else a) =
      defaultedOption omitted member a :=
  if_congr contains_map_key rfl rfl

theorem defaultedFlag_eq (b : Bool) :
    (if (omitted.map Unknown.key).contains member.key then false else b) =
      defaultedFlag omitted member b :=
  if_congr contains_map_key rfl rfl

theorem defaultedOption_none : defaultedOption omitted member (none : Option α) = none := ite_self _

theorem defaultedFlag_false : defaultedFlag omitted member false = false := ite_self _

theorem defaulted_callerForm {σ : Type} (of : σ → Caller) (s : σ) :
    (callerForm of).defaulted (omitted.map Unknown.key) s = defaultedCaller omitted (of s) := by
  have hinst : (if (omitted.map Unknown.key).contains Unknown.inst.key then "" else (of s).inst) =
      if .inst ∈ omitted then "" else (of s).inst := if_congr contains_map_key rfl rfl
  rw [defaultedCaller, ← hinst]
  simp only [callerForm, Form.defaulted_and, Form.defaulted_always]
  rfl

theorem defaulted_openRoom (subject : String) (hardCap softCap : Option UInt32) :
    openRoomRequest.form.defaulted (omitted.map Unknown.key) ⟨subject, hardCap, softCap, none⟩ =
      ⟨subject, defaultedOption omitted .hardCap hardCap,
        defaultedOption omitted .softCap softCap, none⟩ := by
  rw [← defaultedOption_eq, ← defaultedOption_eq]
  simp only [openRoomRequest, Form.defaulted_and, Form.defaulted_always]
  exact congrArg _ (ite_self _)

theorem defaulted_joinRoom (nickname : Option String) :
    joinRoomRequest.form.defaulted (omitted.map Unknown.key) ⟨caller, nickname⟩ =
      ⟨defaultedCaller omitted caller, defaultedOption omitted .nickname nickname⟩ := by
  rw [← defaultedOption_eq, ← defaulted_callerForm JoinRoomRequest.toCaller ⟨caller, nickname⟩]
  rfl

theorem defaulted_sendMessage (to_ : Option String) (body : String) (fromHuman : Bool) :
    sendMessageRequest.form.defaulted (omitted.map Unknown.key) ⟨caller, to_, body, fromHuman⟩ =
      ⟨defaultedCaller omitted caller, defaultedOption omitted .to_ to_, body,
        defaultedFlag omitted .fromHuman fromHuman⟩ := by
  rw [← defaultedOption_eq, ← defaultedFlag_eq]
  simp only [sendMessageRequest, Form.defaulted_and, Form.defaulted_always, defaulted_callerForm]
  rfl

theorem defaulted_signal (signalType : String) (severity questionText : Option String) :
    signalRequest.form.defaulted (omitted.map Unknown.key)
        ⟨caller, signalType, severity, questionText, none⟩ =
      ⟨defaultedCaller omitted caller, signalType, defaultedOption omitted .severity severity,
        defaultedOption omitted .questionText questionText, none⟩ := by
  rw [← defaultedOption_eq, ← defaultedOption_eq]
  simp only [signalRequest, Form.defaulted_and, Form.defaulted_always, defaulted_callerForm]
  exact congrArg _ (ite_self _)

theorem defaulted_lifecycle (reason : Option String) (force : Bool) :
    lifecycleRequest.form.defaulted (omitted.map Unknown.key) ⟨caller, reason, force⟩ =
      ⟨defaultedCaller omitted caller, defaultedOption omitted .reason reason,
        defaultedFlag omitted .force force⟩ := by
  rw [← defaultedOption_eq, ← defaultedFlag_eq]
  simp only [lifecycleRequest, Form.defaulted_and, defaulted_callerForm]
  rfl

theorem defaulted_wait (maxWaitSecs : Option UInt32) :
    waitRequest.form.defaulted (omitted.map Unknown.key) ⟨caller, maxWaitSecs⟩ =
      ⟨defaultedCaller omitted caller, defaultedOption omitted .maxWaitSecs maxWaitSecs⟩ := by
  rw [← defaultedOption_eq]
  simp only [waitRequest, Form.defaulted_and, defaulted_callerForm]
  rfl

end

theorem route_rooms {req : HttpRequest} (h : req.path = roomsPath) : route req =
    match req.method with
    | .post => do return .serve (.openRoom (← req.json openRoomRequest))
    | .get => do
      let (state, all) ← req.params listRoomsQuery
      return .serve (.listRooms state all) := by
  rw [route, h, segments_roomsPath]
  rfl

theorem route_room {id : RoomId} (req : HttpRequest) {h : "".toList.all inPath = true}
    (hpath : req.path = roomPath id "" h) : route req = req.allow .get (.ok (.status id.text)) := by
  rw [route, hpath, segments_room]
  exact if_neg id.nonempty

theorem route_action {id : RoomId} (req : HttpRequest) {action : String} (name : String)
    {h : action.toList.all inPath = true} (hpath : req.path = roomPath id action h)
    (hname : '/' ∉ name.toList) (haction : action.toList = '/' :: name.toList) :
    route req = routeAction id.text name req := by
  rw [route, hpath, segments_action id h hname haction]
  exact if_neg id.nonempty

/-- A body is read by its handler. -/
theorem route_post {id : RoomId} {action : String} (name : String)
    {h : action.toList.all inPath = true} {form : RecordForm α} {a : α}
    (build : α → Request) (hname : '/' ∉ name.toList) (haction : action.toList = '/' :: name.toList)
    (hroute : ∀ req, routeAction id.text name req =
      req.allow .post do return .serve (build (← req.json form)))
    (hform : ∀ key ∈ form.form.required, key ∈ REQUIRED) :
    route (post omitted (roomPath id action h) form a) =
      .ok (.serve (build (form.form.defaulted (omitted.map Unknown.key) a))) := by
  rw [route_action _ name (h := h) rfl hname haction, hroute, json_post a hform]
  rfl

theorem listRoomsQuery_all (all : Bool) :
    listRoomsQuery (if all then [("all".toList, .string "true".toList)] else []) =
      some (none, all) := by
  cases all <;> rfl

theorem listRoomsQuery_state (state : String) (all : Bool) :
    listRoomsQuery (("state".toList, .string state.toList) ::
        if all then [("all".toList, .string "true".toList)] else []) =
      (roomState? (.string state.toList)).map fun state => (some state, all) := by
  have hstate : field "state".toList (some none) (fun v => (roomState? v).map some)
      (("state".toList, Value.string state.toList) ::
        if all then [("all".toList, .string "true".toList)] else []) =
      (roomState? (.string state.toList)).map some := by cases all <;> rfl
  have hall : field "all".toList (some false) flagText.decode
      (("state".toList, Value.string state.toList) ::
        if all then [("all".toList, .string "true".toList)] else []) = some all := by
    cases all <;> rfl
  rw [listRoomsQuery, hstate, hall]
  cases roomState? (.string state.toList) <;> rfl

/-- **A call reaches its handler**, with the defaults of what the client does not know. -/
theorem route_requestOlder (call : ClientCall) :
    route (call.requestOlder omitted) = (call.defaulted omitted).ask := by
  cases call with
  | openRoom subject hardCap softCap =>
    have hread : (post omitted roomsPath openRoomRequest ⟨subject, hardCap, softCap, none⟩).json
        openRoomRequest = _ := json_post _ (by decide)
    rw [defaulted_openRoom] at hread
    rw [ClientCall.requestOlder, route_rooms rfl, hread]
    rfl
  | joinRoom id caller nickname =>
    rw [ClientCall.requestOlder, route_post "join" (.joinRoom id.text) (by decide) (by decide)
      (fun _ => rfl) (by decide), defaulted_joinRoom]
    rfl
  | sendMessage id caller to_ body fromHuman =>
    rw [ClientCall.requestOlder, route_post "messages" (.sendMessage id.text) (by decide) (by decide)
      (fun _ => rfl) (by decide), defaulted_sendMessage]
    rfl
  | wait id caller maxWaitSecs =>
    have hknown : ∀ key ∈ waitRequest.form.required, key ∉ omitted.map Unknown.key :=
      notMem_of_required (by decide)
    have hread := waitRequest.readMembers_without ⟨caller, maxWaitSecs⟩ hknown
    rw [defaulted_wait] at hread
    rw [ClientCall.requestOlder, route_action _ "wait" (h := by decide) rfl (by decide)
      (by decide)]
    show (HttpRequest.params _ waitRequest.form.readMembers).bind _ = _
    simp only [HttpRequest.params, get, hread]
    rfl
  | signal id caller signalType severity questionText =>
    rw [ClientCall.requestOlder, route_post "signals" (.signalRoom id.text) (by decide) (by decide)
      (fun _ => rfl) (by decide), defaulted_signal]
    rfl
  | status id => exact route_room _ (h := by decide) rfl
  | prune id =>
    exact route_action _ "prune" (h := by decide) rfl (by decide) (by decide)
  | listRooms state all =>
    rw [ClientCall.requestOlder, route_rooms rfl]
    show (HttpRequest.params _ listRoomsQuery).bind _ = _
    cases state with
    | none =>
      have hread := listRoomsQuery_all all
      simp only [HttpRequest.params, Option.map_none, Option.toList_none, List.nil_append, hread]
      rfl
    | some s =>
      have hread := listRoomsQuery_state s all
      simp only [HttpRequest.params, Option.map_some, Option.toList_some, List.cons_append,
        List.nil_append, hread, ClientCall.defaulted, ClientCall.ask]
      cases roomState? (.string s.toList) <;> rfl
  | transcript id =>
    exact route_action _ "transcript" (h := by decide) rfl (by decide) (by decide)
  | close id caller force =>
    rw [ClientCall.requestOlder, route_post "close" (.closeRoom id.text) (by decide) (by decide)
      (fun _ => rfl) (by decide), defaulted_lifecycle, defaultedOption_none]
    rfl
  | pause id caller reason =>
    rw [ClientCall.requestOlder, route_post "pause" (.pauseRoom id.text) (by decide) (by decide)
      (fun _ => rfl) (by decide), defaulted_lifecycle, defaultedFlag_false]
    rfl
  | wake id caller =>
    rw [ClientCall.requestOlder, route_post "wake" (.wakeRoom id.text) (by decide) (by decide)
      (fun _ => rfl) (by decide), defaulted_lifecycle, defaultedOption_none, defaultedFlag_false]
    rfl
  | extend roomId caller =>
    rw [ClientCall.requestOlder, route_post "extend" (.extendRoom roomId.text) (by decide) (by decide)
      (fun _ => rfl) (by decide)]
    exact congrArg (fun caller => Except.ok (Ask.serve (.extendRoom roomId.text caller)))
      (defaulted_callerForm id caller)

/-! ### Responses -/

structure HttpResponse where
  status : ℕ
  /-- `none` for a text that is no JSON. -/
  body : Option Value

def JoinRoomResponse.of (r : ChatBotChat.JoinRoomResponse) : JoinRoomResponse :=
  ⟨r.handle, r.resumed, r.roomState, r.recentMessages.map MessageView.ofView⟩

def RoomSummary.of (s : ChatBotChat.RoomSummary) : RoomSummary :=
  ⟨s.roomId, s.state, s.subject, s.lastActivityAt, Int64.ofNat s.participantCount⟩

def ParticipantView.of (v : ChatBotChat.ParticipantView) : ParticipantView :=
  ⟨v.handle, v.repo, v.model, v.cwd, v.joinedAt, Int64.ofInt v.secondsSincePoll, v.stale,
    v.pollLive, v.nickname⟩

def RoomStatus.of (s : ChatBotChat.RoomStatus) : RoomStatus :=
  ⟨s.id, s.subject, s.state, s.startedAt, s.lastActivityAt, s.participants.map .of⟩

def RoomTranscript.of (t : ChatBotChat.RoomTranscript) : RoomTranscript :=
  ⟨t.id, t.subject, t.state, t.startedAt, t.lastActivityAt, t.hardCap, t.softCap,
    Int64.ofNat t.hardCapCount, Int64.ofNat t.softCapConsecutive, t.participants.map .of,
    t.messages.map .ofView⟩

def WaitResponse.codec : Codec WaitResponse where
  encode := WaitResponse.encode
  decode v := (decode v).toOption
  decode_encode response := by rw [decode_encode]; rfl
  encode_ne_null response := by cases response <;> nofun

/-- The kinds of bodies that a success has. -/
inductive Kind where
  | opened
  | rooms
  | joined
  | sent
  | signalled
  | waited
  | lifecycle
  | extended
  | pruned
  | status
  | transcript
deriving DecidableEq

abbrev Kind.Body : Kind → Type
  | .opened => OpenRoomResponse
  | .rooms => List RoomSummary
  | .joined => JoinRoomResponse
  | .sent => Int64
  | .signalled => Int64
  | .waited => WaitResponse
  | .lifecycle => LifecycleResponse
  | .extended => ExtendResponse
  | .pruned => PruneResponse
  | .status => RoomStatus
  | .transcript => RoomTranscript

def Kind.codec : (kind : Kind) → Codec kind.Body
  | .opened => openRoomResponse.codec
  | .rooms => roomSummary.codec.list
  | .joined => joinRoomResponse.codec
  | .sent => seqResponse.codec
  | .signalled => seqResponse.codec
  | .waited => WaitResponse.codec
  | .lifecycle => lifecycleResponse.codec
  | .extended => extendResponse.codec
  | .pruned => pruneResponse.codec
  | .status => roomStatus.codec
  | .transcript => roomTranscript.codec

/-- What is created is answered with a 201. -/
def Kind.success : Kind → ℕ
  | .opened | .joined | .sent | .signalled => 201
  | .rooms | .waited | .lifecycle | .extended | .pruned | .status | .transcript => 200

/-- The body of a handler's success. -/
abbrev Payload : Type := Sigma Kind.Body

/-- What a request that came over HTTP was answered with. -/
def payload : Answer → Option Payload
  | .opened response => some ⟨.opened, response⟩
  | .rooms summaries => some ⟨.rooms, summaries.map .of⟩
  | .joined response => some ⟨.joined, .of response⟩
  | .sent seq => some ⟨.sent, Int64.ofNat seq⟩
  | .signalled seq => some ⟨.signalled, Int64.ofNat seq⟩
  | .waited response => some ⟨.waited, ofAnswer response⟩
  | .closed response => some ⟨.lifecycle, response⟩
  | .extended response => some ⟨.extended, response⟩
  | .transitioned response => some ⟨.lifecycle, response⟩
  | .pruned response => some ⟨.pruned, response⟩
  | .swept _ | .claimed _ => none

/-- The text that the caller is told. -/
def message : ApiError → String
  | .notFound => "room not found"
  | .badRequest message => message
  | .conflict message => message
  -- the cause is logged, and not told
  | .internal _ => "internal server error"

def intoResponse : Except ApiError Payload → HttpResponse
  | .ok p => ⟨p.1.success, some (p.1.codec.encode p.2)⟩
  | .error e => ⟨e.status, some (errorEnvelope.codec.encode (message e))⟩

/-- What the framework answers when it refuses a request. -/
def refusal (status : ℕ) : HttpResponse := ⟨status, none⟩

inductive ClientError where
  | transport
  | server (status : ℕ) (message : String)
deriving DecidableEq

section

variable (canonicalReason : ℕ → Option String)

/-- A JSON body of a success, or what the server says of its failure. -/
def decodeResponse (read : Value → Option α) (response : HttpResponse) : Except ClientError α :=
  if 200 ≤ response.status ∧ response.status < 300 then
    match response.body.bind read with
    | some a => .ok a
    | none => .error .transport
  else
    match response.body.bind errorEnvelope.decode with
    | some message => .error (.server response.status message)
    | none =>
      .error (.server response.status ((canonicalReason response.status).getD "unknown error"))

/-- What the method of a call expects. -/
def ClientCall.kind : ClientCall → Kind
  | .openRoom .. => .opened
  | .joinRoom .. => .joined
  | .sendMessage .. => .sent
  | .wait .. => .waited
  | .signal .. => .signalled
  | .status _ => .status
  | .prune _ => .pruned
  | .listRooms .. => .rooms
  | .transcript _ => .transcript
  | .close .. | .pause .. | .wake .. => .lifecycle
  | .extend .. => .extended

/-- What the method of a call returns. -/
def ClientCall.receive (call : ClientCall) (response : HttpResponse) :
    Except ClientError call.kind.Body :=
  decodeResponse canonicalReason call.kind.codec.decode response

end

/-! ### Answers reach the client -/

theorem success_of_kind (kind : Kind) : 200 ≤ kind.success ∧ kind.success < 300 := by
  cases kind <;> decide

theorem status_failure (e : ApiError) : ¬ (200 ≤ e.status ∧ e.status < 300) := by
  cases e <;> simp [ApiError.status]

variable {canonicalReason : ℕ → Option String}

/-- **The client receives what the handler has answered.** -/
theorem receive_ok (call : ClientCall) (body : call.kind.Body) :
    call.receive canonicalReason (intoResponse (.ok ⟨call.kind, body⟩)) = .ok body := by
  rw [ClientCall.receive, decodeResponse, intoResponse, if_pos (success_of_kind call.kind),
    Option.bind_some, call.kind.codec.decode_encode]

/-- **And what it was refused for**, as far as it is told. -/
theorem receive_error (call : ClientCall) (e : ApiError) :
    call.receive canonicalReason (intoResponse (.error e)) =
      .error (.server e.status (message e)) := by
  have hread : errorEnvelope.decode (errorEnvelope.codec.encode (message e)) = some (message e) :=
    errorEnvelope.codec.decode_encode _
  rw [ClientCall.receive, decodeResponse, intoResponse, if_neg (status_failure e), Option.bind_some,
    hread]

/-- What the framework has refused is called by the name of its status. -/
theorem receive_refusal (call : ClientCall) {status : ℕ} (h : ¬ (200 ≤ status ∧ status < 300)) :
    call.receive canonicalReason (refusal status) =
      .error (.server status ((canonicalReason status).getD "unknown error")) := by
  rw [ClientCall.receive, decodeResponse, refusal, if_neg h]
  rfl

/-! ### Every call -/

/-- The kind of body that a request is answered with. -/
def requestKind : Request → Option Kind
  | .openRoom _ => some .opened
  | .listRooms .. => some .rooms
  | .joinRoom .. => some .joined
  | .sendMessage .. => some .sent
  | .signalRoom .. => some .signalled
  | .waitRoom .. => some .waited
  | .closeRoom .. | .pauseRoom .. | .wakeRoom .. => some .lifecycle
  | .extendRoom .. => some .extended
  | .pruneRoom _ => some .pruned
  | .sweep | .claimNextUnread .. => none

/-- An answer is one to the request. -/
def Answered (req : Request) (outcome : Outcome) : Prop :=
  ∀ a, outcome = .ok a → (payload a).map Sigma.fst = requestKind req

theorem serve_answered (app : AppState) (req : Request) :
    (serve app req).Upholds (fun _ _ => True) [] fun _ => Answered req := by
  have hanswering : ∀ {α : Type} {f : α → Answer} {handler : Task (Except ApiError α)},
      (∀ x, (payload (f x)).map Sigma.fst = requestKind req) →
        (answering f handler).Upholds (fun _ _ => True) [] fun _ => Answered req := by
    intro α f handler hkind
    refine Prog.upholds_past (fun _ _ => trivial) fun _ result _ => ?_
    rintro a heq
    cases result with
    | error e => cases heq
    | ok x =>
      obtain rfl := Except.ok.inj heq
      exact hkind x
  cases req with
  | sweep | claimNextUnread =>
    refine Prog.upholds_past (fun _ _ => trivial) fun _ _ _ => ?_
    rintro _ ⟨⟩
    rfl
  | _ => exact hanswering fun _ => rfl

theorem requestKind_of_ask {call : ClientCall} {req : Request} (h : call.ask = .ok (.serve req)) :
    requestKind req = some call.kind := by
  cases call with
  | listRooms state all =>
    cases state with
    | none =>
      cases h
      rfl
    | some s =>
      rw [ClientCall.ask] at h
      split at h
      · cases h
        rfl
      · cases h
  | status | transcript => cases h
  | _ =>
    cases h
    rfl

/-- The body of an answer to the request of a call is one that the call expects. -/
theorem Answered.payload {call : ClientCall} {req : Request} {a : Answer}
    (h : Answered req (.ok a)) (hask : call.ask = .ok (.serve req)) :
    ∃ body, payload a = some ⟨call.kind, body⟩ := by
  have hkind := h a rfl
  rw [requestKind_of_ask hask] at hkind
  obtain ⟨⟨kind, body⟩, hpayload, heq⟩ := Option.map_eq_some_iff.mp hkind
  obtain rfl : kind = call.kind := heq
  exact ⟨body, hpayload⟩

/-- A list is not asked for in a state that there is not. -/
theorem status_of_ask {call : ClientCall} {status : ℕ} (h : call.ask = .error status) :
    status = 400 := by
  cases call with
  | listRooms state all =>
    cases state with
    | none => cases h
    | some s =>
      rw [ClientCall.ask] at h
      split at h
      · cases h
      · exact (Except.error.inj h).symm
  | _ => cases h

/-! ### Ids -/

theorem unreserved_of_lowered {c : Char} (h : Lowered c ∨ c = '-') : unreserved c = true := by
  rcases h with h | rfl
  · rw [unreserved, h.spec.1]
    rfl
  · decide

theorem unreserved_of_digit {c : Char} (h : c.isDigit = true) : unreserved c = true :=
  unreserved_of_lowered (.inl (.inr h))

theorem unreserved_of_mem_stamp {now : OffsetDateTime} {c : Char} (h : c ∈ (stamp now).toList) :
    unreserved c = true := by
  have hdigits : ∀ {w n : ℕ}, c ∈ Rfc3339.padDigits w n → unreserved c = true := by
    intro w n hc
    exact unreserved_of_digit (Rfc3339.isDigit_of_mem_padDigits hc).isDigit
  simp only [stamp, String.toList_ofList, List.mem_append, List.mem_cons] at h
  rcases h with ((hc | hc) | hc) | rfl | hc | hc
  · exact hdigits hc
  · exact hdigits hc
  · exact hdigits hc
  · decide
  · exact hdigits hc
  · exact hdigits hc

theorem unreserved_of_mem_roomId {subject : String} {now : OffsetDateTime} {c : Char}
    (h : c ∈ (roomId subject now).toList) : unreserved c = true := by
  have hstart : "cbc-".toList.all unreserved = true := by decide
  rw [toList_roomId, List.mem_append, List.mem_append, List.mem_cons] at h
  rcases h with (hc | hc) | rfl | hc
  · exact List.all_eq_true.mp hstart c hc
  · exact unreserved_of_lowered ((slug_slugOf subject).1.chars c hc)
  · decide
  · exact unreserved_of_mem_stamp hc

/-- **An id that is tried can be written into a path.** -/
theorem roomId_of_tried {subject : String} {startedAt : OffsetDateTime} {id : String}
    (h : Tried subject startedAt id) : ∃ roomId : RoomId, roomId.text = id := by
  obtain ⟨attempt, -, -, heq⟩ := h
  have hlist : id.toList = (ChatBotChat.roomId subject startedAt).toList ++
      if attempt = 1 then [] else '-' :: Nat.toDigits 10 attempt := by
    rw [heq]
    by_cases hone : attempt = 1
    · rw [if_pos hone, candidate, if_pos hone, List.append_nil]
    · rw [if_neg hone, toList_candidate hone]
  refine ⟨⟨id, fun hempty => ?_, List.all_eq_true.mpr fun c hc => ?_⟩, rfl⟩
  · rw [hempty, toList_roomId] at hlist
    simp at hlist
  · rw [hlist, List.mem_append] at hc
    rcases hc with hc | hc
    · exact unreserved_of_mem_roomId hc
    · split at hc
      · cases hc
      · rcases List.mem_cons.mp hc with rfl | hc
        · decide
        · exact unreserved_of_digit (Nat.isDigit_of_mem_toDigits (by decide) (by decide) hc)

/-! ### The daemon and its clients -/

/-- What a thread of the daemon has returned, as it is sent. -/
def respond : Outcome → Option HttpResponse
  | .ok a => (payload a).map fun p => intoResponse (.ok p)
  | .error e => some (intoResponse (.error e))

variable {app : AppState} {c : Daemon}

theorem answered_of_returned (h : Reachable app c) {t : Thread Call Call.Reply Request Outcome}
    (ht : t ∈ c.threads) {outcome : Outcome} (hreturned : t.returned = some outcome) :
    Answered t.req outcome := by
  obtain ⟨utc, instant, hrun⟩ := h
  obtain ⟨i, hi⟩ := List.mem_iff_getElem?.mp ht
  have hbody : ∀ req, ((daemon app).body req).Upholds (fun _ _ => True) [] fun _ => Answered req :=
    serve_answered app
  exact (hrun.upheld (Φ := fun _ _ _ => True) hbody).returned hi hreturned

/-- **Calls over HTTP are calls of the handlers.**  Every room of a reachable daemon has an
id that a client can write into a path.  Whatever a client calls, its request reaches the
handler it is meant for with what it was called with, and the defaults of what an older
client does not know; a list in a state that there is not is refused.  What the daemon has
answered the request with is received as it was answered; of an error the client receives
the status and the text, and of an internal one nothing but that it was one. -/
theorem client_calls_served (h : Reachable app c) (canonicalReason : ℕ → Option String) :
    (∀ row ∈ c.shared.db.rooms, ∃ roomId : RoomId, roomId.text = row.id) ∧
    (∀ (call : ClientCall) (omitted : List Unknown),
      route call.request = call.ask ∧
      route (call.requestOlder omitted) = (call.defaulted omitted).ask ∧
      ∀ status, call.ask = .error status → call.receive canonicalReason (refusal status) =
        .error (.server 400 ((canonicalReason 400).getD "unknown error"))) ∧
    (∀ (call : ClientCall) (req : Request), call.ask = .ok (.serve req) →
      ∀ t ∈ c.threads, t.req = req → ∀ outcome, t.returned = some outcome →
        ∃ response, respond outcome = some response ∧
          (∀ a, outcome = .ok a → ∃ body, payload a = some ⟨call.kind, body⟩ ∧
            call.receive canonicalReason response = .ok body) ∧
          (∀ e, outcome = .error e →
            call.receive canonicalReason response = .error (.server e.status (message e))) ∧
          ∀ detail, outcome = .error (.internal detail) →
            call.receive canonicalReason response =
              .error (.server 500 "internal server error")) ∧
    (∀ (roomId : RoomId) (result : Except ApiError ChatBotChat.RoomStatus),
      (ClientCall.status roomId).receive canonicalReason
          (intoResponse (result.map fun s => ⟨.status, .of s⟩)) =
        match result with
        | .ok s => .ok (.of s)
        | .error e => .error (.server e.status (message e))) ∧
    ∀ (roomId : RoomId) (result : Except ApiError ChatBotChat.RoomTranscript),
      (ClientCall.transcript roomId).receive canonicalReason
          (intoResponse (result.map fun t => ⟨.transcript, .of t⟩)) =
        match result with
        | .ok t => .ok (.of t)
        | .error e => .error (.server e.status (message e)) := by
  refine ⟨fun row hrow => roomId_of_tried (h.rooms_named row hrow), fun call omitted => ⟨?_, ?_, ?_⟩, ?_,
    fun roomId result => ?_, fun roomId result => ?_⟩
  · have hroute : route (call.requestOlder []) = (call.defaulted []).ask := route_requestOlder call
    rwa [ClientCall.defaulted_nil] at hroute
  · exact route_requestOlder call
  · intro status hask
    rw [status_of_ask hask]
    exact receive_refusal call (by decide)
  · intro call req hask t ht hreq outcome hreturned
    have hanswered := answered_of_returned h ht hreturned
    rw [hreq] at hanswered
    cases outcome with
    | ok a =>
      obtain ⟨body, hpayload⟩ := hanswered.payload hask
      refine ⟨_, congrArg (Option.map _) hpayload, ?_, nofun, nofun⟩
      rintro _ ⟨⟩
      exact ⟨body, hpayload, receive_ok call body⟩
    | error e =>
      refine ⟨_, rfl, nofun, ?_, ?_⟩
      · rintro _ ⟨⟩
        exact receive_error call e
      · rintro detail ⟨⟩
        exact receive_error call (.internal detail)
  · cases result with
    | ok s => exact receive_ok (.status roomId) _
    | error e => exact receive_error (.status roomId) e
  · cases result with
    | ok t => exact receive_ok (.transcript roomId) _
    | error e => exact receive_error (.transcript roomId) e

def demoId : RoomId := ⟨demoRoom, by decide, by decide⟩

/-- Alice joins, and is told her handle. -/
theorem client_calls_served_join :
    ∃ response, respond (.ok (.joined ⟨"api-opus-0001", false, "active", []⟩)) = some response ∧
      (ClientCall.joinRoom demoId alice none).receive (fun _ => none) response =
        .ok ⟨"api-opus-0001", false, "active", []⟩ := by
  have hanswer : ((demo (gather none [alice])).threads[1]?.map fun t => (t.req, t.returned)) =
      some (.joinRoom demoRoom ⟨alice, none⟩,
        some (.ok (.joined ⟨"api-opus-0001", false, "active", []⟩))) := by decide +kernel
  obtain ⟨t, ht, heq⟩ := Option.map_eq_some_iff.mp hanswer
  obtain ⟨hreq, hreturned⟩ := Prod.mk.inj heq
  obtain ⟨-, -, hserved, -⟩ :=
    client_calls_served (reachable_demo (gather none [alice])) fun _ => none
  obtain ⟨response, hresponse, hok, -⟩ := hserved (.joinRoom demoId alice none) _ rfl t
    (List.mem_of_getElem? ht) hreq _ hreturned
  obtain ⟨body, hpayload, hreceived⟩ := hok _ rfl
  obtain rfl := eq_of_heq (Sigma.mk.inj (Option.some_inj.mp hpayload)).2
  exact ⟨response, hresponse, hreceived⟩

end ChatBotChat.Wire
