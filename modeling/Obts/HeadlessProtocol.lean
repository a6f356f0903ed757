import Obts.WireJson

/-!
# The headless protocol

The bridge sends a child one request at a time and reads its lines up to the response. The child writes
reports of progress at any time, a state before the response of a command that changes it, and one
response.
-/
namespace HeadlessProtocol

open JsonValues WireJson

inductive Command where
  | readState
  | readQueue
  | readPendingOnboarding
  | readIndexDelta
  | maintenanceTick
  | startOnboarding
  | pollOnboarding
  | analyzeOnboarding
  | finishOnboarding
  | cancelOnboarding
  | recordLocalChange
  | syncOnce
  | pollRemoteEvents
  | replaceLocalWithServer
  | rebuildFromServerMain
  | renameDevice
  | unpairDevice
  | resetLocalPairing
  | shutdown
  deriving DecidableEq

def Command.stateChanged : Command → Bool
  | .readState | .readQueue | .readPendingOnboarding | .readIndexDelta | .maintenanceTick | .shutdown => false
  | _ => true

/-- A code of an error, of 1 to 128 bytes. -/
structure Code where
  text : String
  nonempty : 0 < text.utf8ByteSize
  short : text.utf8ByteSize ≤ 128

/-- What an operation may throw. Only the errors of the protocol, of the client and of the transport have
codes that are passed on. -/
inductive Thrown where
  | coded (code : Code) (message : JsString)
  | error (code : Option Code) (message : JsString)
  | other (code : Option Code)

def Thrown.code : Thrown → Option Code
  | .coded code _ => some code
  | .error code _ => code
  | .other code => code

def internalError : Code := ⟨"internal_error", by decide, by decide⟩

def protocolError : Thrown → Code × JsString
  | .coded code message => (code, message)
  | .error _ message => (internalError, message)
  | .other _ => (internalError, .ofString "Unknown headless client error.")

/-- The state as it is read. -/
abbrev LocalPluginState := List (JsString × Json)

def stateKeys : List String :=
  ["user_id", "vault_id", "device_id", "device_name", "device_ref", "server_device_ref", "local_main",
    "local_head", "initial_import_confirmed", "status_label", "last_error_code", "apply_validation_reason",
    "last_error_details", "last_event_seq", "last_applied_event_seq", "unpaired_baseline_vault_id",
    "unpaired_baseline_main", "updated_at"]

variable (state : LocalPluginState)

def field (key : String) : Option Json :=
  (state.find? fun entry => entry.1 = .ofString key).map Prod.snd

/-- What is undefined is not written. -/
def projectState : Json :=
  obj (stateKeys.filterMap fun key => (field state key).map fun value => (key, value))

def allowedPoints : List String :=
  ["startup", "startup_recovery", "onboarding_approved", "bootstrap_response", "multipart_pack",
    "pack_persist_write", "pack_persist_read", "index_fs_stat", "index_fs_read_file", "index_fs_read",
    "index_fs_write", "index_pack", "sync_request", "sync_download", "onboarding_download",
    "transfer_checkpoint_verification", "apply", "apply_recovery_prepare", "apply_preflight_revalidate",
    "apply_write", "apply_verify", "apply_local_capture", "apply_finalize", "local_snapshot",
    "directory_inventory", "file_inventory_check", "local_preservation", "provenance", "upload_prepare",
    "upload_finalize", "recovery", "recovery_directory_decision", "startup_metadata", "startup_git",
    "startup_state", "recovery_journal", "recovery_target_commit", "recovery_target_tree",
    "recovery_file_validation", "recovery_bundle", "recovery_file_apply", "recovery_refs", "recovery_state"]

structure Report where
  (status point : String)
  nonempty : 0 < status.utf8ByteSize
  short : status.utf8ByteSize ≤ 512
  listed : point ∈ allowedPoints

def progressLine (report : Report) : Json :=
  obj [("type", str "event"), ("event", str "progress"), ("status", str report.status),
    ("diagnosticPoint", str report.point)]

def stateLine : Json :=
  obj [("type", str "event"), ("event", str "state"), ("state", projectState state)]

def okLine (id : Nat) (result : Json) : Json :=
  obj [("type", str "response"), ("id", .number (.integer id)), ("ok", .boolean true), ("result", result)]

def errorLine (id : Nat) (error : Code × JsString) : Json :=
  obj [("type", str "response"), ("id", .number (.integer id)), ("ok", .boolean false),
    ("error", obj [("code", str error.1.text), ("message", .string error.2)])]

/-- A request with what its operation returns or throws, and what reading the state does then. The reports
come before the state, between it and the response, and after the response. -/
structure Exchange where
  command : Command
  outcome : Except Thrown Json
  state : Except Thrown LocalPluginState
  (before between after : List Report)

/-- The result of a command. -/
def Exchange.dispatch (exchange : Exchange) : Except Thrown Json :=
  match exchange.command with
  | .readState => exchange.state.map projectState
  | .cancelOnboarding => exchange.outcome.map fun _ => obj [("status", str "cancelled")]
  | .recordLocalChange => exchange.outcome.map fun _ => obj [("status", str "recorded")]
  | .renameDevice => exchange.outcome.map fun name => obj [("deviceName", name)]
  | .shutdown => .ok (obj [("status", str "stopping")])
  | _ => exchange.outcome

def shuttingDown : Thrown :=
  .coded ⟨"shutting_down", by decide, by decide⟩ (.ofString "The headless client is shutting down.")

def isCatchup (code : Code) : Bool :=
  code.text = "catchup_local_changes" || code.text = "catchup_recovery_required"

/-- The state of which a tick's error tells. -/
def catchupState (exchange : Exchange) (thrown : Thrown) : Option LocalPluginState :=
  match thrown.code, exchange.state with
  | some code, .ok state =>
    if exchange.command = .maintenanceTick ∧ isCatchup code = true ∧
        (field state "last_error_code").any fun value =>
          match value with
          | .string text => text = .ofString code.text
          | _ => false
    then some state else none
  | _, _ => none

structure Request where
  id : Nat
  /-- A shutdown was answered before. -/
  stopping : Bool
  exchange : Exchange

variable (request : Request)

/-- What the operation of a request comes to. -/
def Request.answer : Except Thrown Json :=
  if request.stopping ∧ request.exchange.command ≠ .shutdown then .error shuttingDown
  else request.exchange.dispatch

/-- The state event, if there is one, and the response. The child's numbers are doubles. -/
def Request.execute : Option LocalPluginState × Json :=
  let id := rewritten request.id
  if request.stopping ∧ request.exchange.command ≠ .shutdown then
    (none, errorLine id (protocolError shuttingDown))
  else
    match request.exchange.dispatch with
    | .ok result =>
      if request.exchange.command.stateChanged then
        match request.exchange.state with
        | .ok state => (some state, okLine id result)
        | .error thrown => (none, errorLine id (protocolError thrown))
      else (none, okLine id result)
    | .error thrown => (catchupState request.exchange thrown, errorLine id (protocolError thrown))

/-- The lines of a request. -/
def Request.lines : List Json :=
  request.exchange.before.map progressLine ++ request.execute.1.toList.map stateLine ++
    request.exchange.between.map progressLine ++ [request.execute.2] ++
    request.exchange.after.map progressLine

inductive HeadlessError where
  | protocol (detail : String)
  | json
  | timeout
  | remote (code message : String)

def HeadlessError.isProcessFailure : HeadlessError → Bool
  | .remote _ _ => false
  | _ => true

abbrev Reply := Except HeadlessError Value

def maxHeadlessMessageBytes : Nat := 1024 * 1024

/-- A line, if it is not too long, is parsed. -/
def nextMessage (line : Json) : Except HeadlessError Value :=
  if line.bytes > maxHeadlessMessageBytes then
    .error (.protocol "headless client message exceeded the byte limit")
  else
    match line.fromStr with
    | some message => .ok message
    | none => .error .json

section Checks

def asBool : Value → Option Bool
  | .boolean value => some value
  | _ => none

def asU64 : Value → Option Nat
  | .number (.integer value) => if 0 ≤ value ∧ value < 2 ^ 64 then some value.toNat else none
  | _ => none

def isNull : Value → Bool
  | .null => true
  | _ => false

def isObject : Value → Bool
  | .record _ => true
  | _ => false

variable (message : Value)

def hasExactKeys (expected : List String) : Bool :=
  match message with
  | .record m => m.length = expected.length && expected.all fun key => (message.get key).isSome
  | _ => false

/-- A text of at least one byte and at most so many. -/
def isText (maximum : Nat) (value : Value) : Bool :=
  value.asStr.any fun text => decide (0 < text.utf8ByteSize) && decide (text.utf8ByteSize ≤ maximum)

def isValidProgressEvent : Bool :=
  hasExactKeys message ["type", "event", "status", "diagnosticPoint"] && (message.get "status").any (isText 512) &&
    ((message.get "diagnosticPoint").bind Value.asStr).any allowedPoints.contains

def isValidState (value : Value) : Bool :=
  let get := value.get
  match value with
  | .record state =>
    (state.all fun entry => stateKeys.contains entry.1) &&
      (["user_id", "vault_id", "device_id", "device_ref", "server_device_ref", "local_main", "local_head",
        "last_error_code"].all fun key =>
          (get key).any fun value => isNull value || value.asStr.isSome) &&
      (["device_name", "unpaired_baseline_vault_id", "unpaired_baseline_main"].all fun key =>
        (get key).all fun value => isNull value || value.asStr.isSome) &&
      ((get "apply_validation_reason").all fun value => isNull value || isText 128 value) &&
      ((get "last_error_details").all fun value => isNull value || isObject value) &&
      ((get "initial_import_confirmed").bind asBool).isSome &&
      (get "status_label").any (isText 512) &&
      ((get "last_event_seq").bind asU64).isSome &&
      ((get "last_applied_event_seq").bind asU64).isSome &&
      (get "updated_at").any (isText 128)
  | _ => false

def isValidProtocolError : Bool :=
  match message.get "error" with
  | some (.record error) =>
    error.length = 2 && (Value.get (.record error) "code").any (isText 128) &&
      (Value.get (.record error) "message").any (isText 4096)
  | _ => false

def isValidErrorResponse : Bool :=
  hasExactKeys message ["type", "id", "ok", "error"] && isValidProtocolError message

def isValidFatalMessage : Bool :=
  hasExactKeys message ["type", "error"] && isValidProtocolError message

/-- The text at a key of the error of a message. -/
def errorText (key : String) : String :=
  (((message.get "error").bind fun error => error.get key).bind Value.asStr).getD ""

end Checks

/-- The cached state after a result. -/
def cacheAfter (command : Command) (result cache : Value) : Value :=
  let put (key : String) (value : Option Value) (cache : Value) : Value :=
    match value, cache with
    | some value, .record m => .record (Map.insert key value m)
    | _, _ => cache
  match command with
  | .readState => result
  | .maintenanceTick => put "status_label" (result.get "status") (put "local_head" (result.get "local_head") cache)
  | _ => cache

/-- The response of a request. -/
def readResponse (command : Command) (id : Nat) (message cache : Value) : Reply × Value :=
  if (message.get "id").bind asU64 ≠ some id then
    (.error (.protocol "headless client response id did not match the request"), cache)
  else
    match (message.get "ok").bind asBool with
    | some true =>
      if hasExactKeys message ["type", "id", "ok", "result"] then
        let result := (message.get "result").getD .null
        if command = .readState ∧ isValidState result = false then
          (.error (.protocol "headless client returned an invalid state"), cache)
        else (.ok result, cacheAfter command result cache)
      else (.error (.protocol "headless client response is malformed"), cache)
    | some false =>
      if isValidErrorResponse message then
        (.error (.remote (errorText message "code") (errorText message "message")), cache)
      else (.error (.protocol "headless client response is malformed"), cache)
    | none => (.error (.protocol "headless client response is missing its result status"), cache)

/-- Lines are read up to a response or a failure. What a reply leaves in the pipe is read for the next
request. -/
def requestOnProcess (command : Command) (id : Nat) (seen : Bool) (cache : Value) :
    List Json → Reply × Value × List Json
  | [] => (.error .timeout, cache, [])
  | line :: lines =>
    match nextMessage line with
    | .error error => (.error error, cache, lines)
    | .ok message =>
      match (message.get "type").bind Value.asStr with
      | some "event" =>
        match (message.get "event").bind Value.asStr with
        | some "progress" =>
          if isValidProgressEvent message then requestOnProcess command id seen cache lines
          else (.error (.protocol "headless client emitted an invalid event"), cache, lines)
        | some "state" =>
          if seen = false ∧ hasExactKeys message ["type", "event", "state"] = true ∧
              (message.get "state").any isValidState = true then
            requestOnProcess command id true ((message.get "state").getD .null) lines
          else (.error (.protocol "headless client emitted an invalid event"), cache, lines)
        | _ => (.error (.protocol "headless client emitted an invalid event"), cache, lines)
      | some "fatal" =>
        if isValidFatalMessage message then (.error (.protocol (errorText message "message")), cache, lines)
        else (.error (.protocol "headless client emitted an unknown message"), cache, lines)
      | some "response" =>
        ((readResponse command id message cache).1, (readResponse command id message cache).2, lines)
      | _ => (.error (.protocol "headless client emitted an unknown message"), cache, lines)

/-- The requests of a bridge that counts them, one after the other. -/
def requests (nextId : UInt64) (stopping : Bool) : List Exchange → List Request
  | [] => []
  | exchange :: exchanges =>
    ⟨nextId.toNat, stopping, exchange⟩ ::
      requests (nextId + 1) (stopping || decide (exchange.command = .shutdown)) exchanges

/-- The replies; a child that fails is killed. -/
def run (cache : Value) (pipe : List Json) : List Request → List Reply
  | [] => []
  | request :: rest =>
    let received := requestOnProcess request.exchange.command request.id false cache (pipe ++ request.lines)
    match received.1 with
    | .ok value => .ok value :: run received.2.1 received.2.2 rest
    | .error error =>
      if error.isProcessFailure then [.error error]
      else .error error :: run received.2.1 received.2.2 rest

end HeadlessProtocol
