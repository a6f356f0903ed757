import Obts.HeadlessProtocol

/-!
# What the bridge understands

Reports are passed over, a state is taken if the checks accept it, and the response decides. A child's
error of an empty or a long text is no error to the bridge but a failure of the child.
-/
namespace HeadlessProtocol

open JsonValues WireJson List Option Json Value

lemma bytes_scalar_le {c : Char} : (CodePoint.scalar c).bytes ≤ 6 * c.utf8Size := by
  have hpos : 1 ≤ c.utf8Size := c.utf8Size_pos
  rw [CodePoint.bytes]
  split
  · omega
  split
  · omega
  · omega

lemma bytes_points {points : List CodePoint} (h : (points.all fun point => point.char?.isSome)) :
    (points.map CodePoint.bytes).sum ≤ 6 * (String.ofList (points.filterMap CodePoint.char?)).utf8ByteSize := by
  induction points with
  | nil => exact Nat.zero_le _
  | cons point points ih =>
    rw [all_cons, Bool.and_eq_true] at h
    have hrest := ih h.2
    cases point with
    | scalar c =>
      have hfirst := bytes_scalar_le (c := c)
      have hchars : (CodePoint.scalar c :: points).filterMap CodePoint.char?
          = c :: points.filterMap CodePoint.char? := rfl
      rw [map_cons, sum_cons, hchars, String.ofList_cons, String.utf8ByteSize_append, String.utf8ByteSize_singleton]
      omega
    | high | low => cases h.1

/-- An escape has at most six characters for a byte. -/
lemma bytes_of_text {s : JsString} {text : String} (h : s.text = some text) :
    s.bytes ≤ 2 + 6 * text.utf8ByteSize := by
  obtain ⟨hall, ⟨⟩⟩ := ite_none_right_eq_some.mp h
  exact Nat.add_le_add_left (bytes_points hall) 2

lemma bytes_ofString (text : String) : (JsString.ofString text).bytes ≤ 2 + 6 * text.utf8ByteSize :=
  bytes_of_text text_ofString

/-- The keys and constants of the messages. -/
lemma words_short : ∀ word ∈ ["type", "event", "progress", "status", "diagnosticPoint", "response", "id",
    "ok", "error", "code", "message"], word.utf8ByteSize ≤ 15 := by
  decide

lemma bytes_words_le : ∀ word ∈ ["type", "event", "progress", "status", "diagnosticPoint", "response", "id",
    "ok", "error", "code", "message"], (JsString.ofString word).bytes ≤ 92 := by
  intro word hword
  have hshort := words_short word hword
  have hbytes := bytes_ofString word
  omega

lemma points_short : ∀ point ∈ allowedPoints, point.utf8ByteSize ≤ 40 := by decide

variable {line result : Json} {message : Value} {state : LocalPluginState} {report : Report}
  {id : Nat}

/-- A line that is short enough and can be parsed. -/
lemma nextMessage_eq (hbytes : line.bytes ≤ maxHeadlessMessageBytes)
    (hdepth : line.depth ≤ maxDepth) (hread : line.read = some message) : nextMessage line = .ok message := by
  rw [nextMessage, if_neg (Nat.not_lt.mpr hbytes), fromStr, if_pos hdepth, hread]

lemma of_nextMessage (h : nextMessage line = .ok message) :
    line.bytes ≤ maxHeadlessMessageBytes ∧ line.depth ≤ maxDepth ∧ line.read = some message := by
  rw [nextMessage] at h
  split at h
  · cases h
  rename_i hbytes
  split at h
  · rename_i hprs
    rw [fromStr] at hprs
    split at hprs
    · rename_i hdepth
      cases h
      exact ⟨Nat.not_lt.mp hbytes, hdepth, hprs⟩
    · cases hprs
  · cases h

lemma processFailure_of_nextMessage {error : HeadlessError}
    (h : nextMessage line = .error error) : error.isProcessFailure := by
  rw [nextMessage] at h
  split at h
  · cases h
    rfl
  split at h
  · cases h
  · cases h
    rfl

section Messages
variable (report : Report) (state value : Value) (id : Nat) (code message : String)

def progressMessage : Value :=
  .record [("diagnosticPoint", .string report.point), ("event", .string "progress"),
    ("status", .string report.status), ("type", .string "event")]

def stateMessage : Value :=
  .record [("event", .string "state"), ("state", state), ("type", .string "event")]

def okMessage : Value :=
  .record [("id", .number (.integer id)), ("ok", .boolean true), ("result", value), ("type", .string "response")]

def errorMessage : Value :=
  .record [("error", .record [("code", .string code), ("message", .string message)]),
    ("id", .number (.integer id)), ("ok", .boolean false), ("type", .string "response")]

end Messages

lemma read_progressLine : (progressLine report).read = some (progressMessage report) := by
  simp only [progressLine, obj, str, map_cons, map_nil, Json.read, Json.read.readEntries,
    text_ofString, map_some, bind_eq_bind, bind_some]
  rfl

lemma read_stateLine : (stateLine state).read = (projectState state).read.map stateMessage := by
  simp only [stateLine, obj, str, map_cons, map_nil, Json.read, Json.read.readEntries,
    text_ofString, map_some, bind_eq_bind, bind_some]
  cases (projectState state).read with
  | none | some => rfl

lemma read_okLine : (okLine id result).read = result.read.map (okMessage · id) := by
  simp only [okLine, obj, str, map_cons, map_nil, Json.read, Json.read.readEntries,
    text_ofString, map_some, bind_eq_bind, bind_some]
  cases result.read with
  | none => rfl
  | some value =>
    simp +decide only [Map.insert, okMessage, bind_some, map_some, if_true, if_false]

variable {error : Code × JsString}

lemma read_errorLine : (errorLine id error).read = error.2.text.map (errorMessage id error.1.text) := by
  simp only [errorLine, obj, str, map_cons, map_nil, Json.read, Json.read.readEntries,
    text_ofString, map_some, bind_eq_bind, bind_some]
  cases error.2.text with
  | none => rfl
  | some message =>
    simp +decide only [Map.insert, errorMessage, bind_some, map_some, if_true, if_false]

lemma nextMessage_progressLine : nextMessage (progressLine report) = .ok (progressMessage report) := by
  refine nextMessage_eq ?_ (Nat.le_of_ble_eq_true rfl) read_progressLine
  have hstat := bytes_ofString report.status
  have hpoint := bytes_ofString report.point
  have hpoiS := points_short report.point report.listed
  have hshort := report.short
  have hwords := bytes_words_le
  simp only [forall_mem_cons] at hwords
  simp only [progressLine, obj, str, map_cons, map_nil, bytes, bytes.bytesEntries,
    maxHeadlessMessageBytes]
  omega

/-- An error with an accepted text always fits. -/
lemma bytes_errorLine {message : String} (hid : id < 2 ^ 64)
    (htext : error.2.text = some message) (hshort : message.utf8ByteSize ≤ 4096) :
    (errorLine id error).bytes ≤ maxHeadlessMessageBytes := by
  have hcode := bytes_ofString error.1.text
  have hcodS := error.1.short
  have hmsg := bytes_of_text htext
  have hnum : numberBytes (.integer id) ≤ 20 := numberBytes_le (by decide) (by omega)
  have hwords := bytes_words_le
  simp only [forall_mem_cons] at hwords
  simp only [errorLine, obj, str, map_cons, map_nil, bytes, bytes.bytesEntries, maxHeadlessMessageBytes]
  simp only [Bool.false_eq_true, if_false]
  omega

section Reading
variable {command : Command} {id number : Nat} {seen : Bool} {cache value : Value}
  {lines : List Json} {reported text : String}

lemma valid_progressMessage : isValidProgressEvent (progressMessage report) := by
  have hkeys : hasExactKeys (progressMessage report) ["type", "event", "status", "diagnosticPoint"] = true := rfl
  have hstat : (progressMessage report).get "status" = some (.string report.status) := rfl
  have hpoint : (progressMessage report).get "diagnosticPoint" = some (.string report.point) := rfl
  rw [isValidProgressEvent, hkeys, hstat, hpoint]
  simp [isText, asStr, report.nonempty, report.short, report.listed]

/-- Reports change nothing. -/
lemma requestOnProcess_reports (reports : List Report) :
    requestOnProcess command id seen cache (reports.map progressLine ++ lines)
      = requestOnProcess command id seen cache lines := by
  induction reports with
  | nil => rfl
  | cons report reports ih =>
    have htype : ((progressMessage report).get "type").bind asStr = some "event" := rfl
    have hevent : ((progressMessage report).get "event").bind asStr = some "progress" := rfl
    rw [map_cons, cons_append, requestOnProcess, nextMessage_progressLine]
    simp only [htype, hevent, valid_progressMessage, if_true]
    exact ih

/-- The checks accept the line of a state. -/
structure Accepted (state : LocalPluginState) : Prop where
  fits : (stateLine state).bytes ≤ maxHeadlessMessageBytes
  shallow : (stateLine state).depth ≤ maxDepth
  valid : ∃ value, (projectState state).read = some value ∧ isValidState value = true

/-- The first state of a request is taken. -/
lemma requestOnProcess_state (h : Accepted state) :
    ∃ value, requestOnProcess command id false cache (stateLine state :: lines)
      = requestOnProcess command id true value lines := by
  obtain ⟨value, hread, hvalid⟩ := h.valid
  have hmsg : nextMessage (stateLine state) = .ok (stateMessage value) :=
    nextMessage_eq h.fits h.shallow (by rw [read_stateLine, hread, map_some])
  have htype : ((stateMessage value).get "type").bind asStr = some "event" := rfl
  have hevent : ((stateMessage value).get "event").bind asStr = some "state" := rfl
  have hkeys : hasExactKeys (stateMessage value) ["type", "event", "state"] = true := rfl
  have hstate : (stateMessage value).get "state" = some value := rfl
  refine ⟨value, ?_⟩
  rw [requestOnProcess, hmsg]
  simp [htype, hevent, hkeys, hstate, hvalid]

/-- A state that is not accepted fails the child. -/
lemma failure_of_state (h : ¬ Accepted state) :
    ∃ error, (requestOnProcess command id seen cache (stateLine state :: lines)).1 = .error error ∧
      error.isProcessFailure := by
  rw [requestOnProcess]
  cases hmsg : nextMessage (stateLine state) with
  | error error => exact ⟨error, rfl, processFailure_of_nextMessage hmsg⟩
  | ok message =>
    obtain ⟨hfits, hshal, hread⟩ := of_nextMessage hmsg
    rw [read_stateLine, map_eq_some_iff] at hread
    obtain ⟨value, hvalue, rfl⟩ := hread
    have hinv : isValidState value = false := by
      cases hvalid : isValidState value with
      | false => rfl
      | true => exact absurd ⟨hfits, hshal, value, hvalue, hvalid⟩ h
    have htype : ((stateMessage value).get "type").bind asStr = some "event" := rfl
    have hevent : ((stateMessage value).get "event").bind asStr = some "state" := rfl
    have hstate : (stateMessage value).get "state" = some value := rfl
    simp only [htype, hevent, hstate, any_some, hinv, Bool.false_eq_true, and_false, if_false]
    exact ⟨_, rfl, rfl⟩

lemma asU64_integer : asU64 (.number (.integer number)) = if number < 2 ^ 64 then some number else none := by
  rw [asU64]
  split
  · rename_i hrange
    rw [if_pos (by omega), Int.toNat_natCast]
  · rename_i hrange
    rw [if_neg (by omega)]

/-- A result is received if its line fits, its strings and its nesting can be read, its number is the
request's and a state passes the checks. -/
structure Received (command : Command) (id : Nat) (result : Json) (value : Value) : Prop where
  fits : (okLine id result).bytes ≤ maxHeadlessMessageBytes
  shallow : result.depth < maxDepth
  read : result.read = some value
  valid : command = .readState → isValidState value = true

lemma depth_okLine : (okLine id result).depth = result.depth + 1 := by
  simp only [okLine, obj, str, map_cons, map_nil, depth, depth.depthEntries]
  omega

/-- A line that cannot be read fails the child. -/
lemma requestOnProcess_unreadable {error : HeadlessError} (h : nextMessage line = .error error) :
    requestOnProcess command id seen cache (line :: lines) = (.error error, cache, lines) := by
  rw [requestOnProcess, h]

/-- A message of a response goes to the checks of one. -/
lemma requestOnProcess_response (h : nextMessage line = .ok message)
    (htype : (message.get "type").bind Value.asStr = some "response") :
    requestOnProcess command id seen cache (line :: lines)
      = ((readResponse command id message cache).1, (readResponse command id message cache).2, lines) := by
  rw [requestOnProcess, h]
  simp [htype]

lemma reply_of_response (h : nextMessage line = .ok message)
    (htype : (message.get "type").bind Value.asStr = some "response") :
    (requestOnProcess command id seen cache (line :: lines)).1 = (readResponse command id message cache).1 :=
  congrArg Prod.fst (requestOnProcess_response h htype)

lemma type_okMessage : ((okMessage value number).get "type").bind Value.asStr = some "response" := rfl

lemma type_errorMessage {code message : String} :
    ((errorMessage number code message).get "type").bind Value.asStr = some "response" := rfl

lemma readResponse_ok {result : Value} (hid : id < 2 ^ 64) :
    (readResponse command id (okMessage result number) cache).1 = .ok value ↔
      number = id ∧ result = value ∧ (command = .readState → isValidState result) := by
  have hget : (okMessage result number).get "id" = some (.number (.integer number)) := rfl
  have hok : ((okMessage result number).get "ok").bind asBool = some true := rfl
  have hkeys : hasExactKeys (okMessage result number) ["type", "id", "ok", "result"] = true := rfl
  have hres : (okMessage result number).get "result" = some result := rfl
  rw [readResponse, hget, bind_some, asU64_integer]
  by_cases hsame : number = id
  · subst hsame
    simp only [if_pos hid, ne_eq, not_true_eq_false, if_false, hok, hkeys, if_true, hres, getD_some, true_and]
    by_cases hinv : command = .readState ∧ isValidState result = false
    · rw [if_pos hinv]
      refine iff_of_false nofun fun h => ?_
      rw [h.2 hinv.1] at hinv
      exact nomatch hinv.2
    rw [if_neg hinv]
    simp only [Except.ok.injEq]
    refine ⟨fun h => ⟨h, fun hcomm => ?_⟩, fun h => h.1⟩
    cases hvalid : isValidState result with
    | true => rfl
    | false => exact absurd ⟨hcomm, hvalid⟩ hinv
  · have hother : (if number < 2 ^ 64 then some number else none) ≠ some id := by
      split
      · exact fun h => hsame (Option.some.inj h)
      · exact nofun
    rw [if_pos hother]
    exact iff_of_false nofun fun h => hsame h.1

lemma readResponse_error (hid : id < 2 ^ 64) {error : Code} {message : String} :
    (readResponse command id (errorMessage number error.text message) cache).1 = .error (.remote reported text) ↔
      number = id ∧ error.text = reported ∧ message = text ∧ 0 < message.utf8ByteSize ∧
        message.utf8ByteSize ≤ 4096 := by
  have hget : (errorMessage number error.text message).get "id" = some (.number (.integer number)) := rfl
  have hok : ((errorMessage number error.text message).get "ok").bind asBool = some false := rfl
  have hvalid : isValidErrorResponse (errorMessage number error.text message)
      = (decide (0 < message.utf8ByteSize) && decide (message.utf8ByteSize ≤ 4096)) := by
    have hkeys : hasExactKeys (errorMessage number error.text message) ["type", "id", "ok", "error"] = true := rfl
    have herror : (errorMessage number error.text message).get "error"
        = some (.record [("code", .string error.text), ("message", .string message)]) := rfl
    have hcode : Value.get (.record [("code", .string error.text), ("message", .string message)]) "code"
        = some (.string error.text) := rfl
    have hmsg : Value.get (.record [("code", .string error.text), ("message", .string message)])
        "message" = some (.string message) := rfl
    rw [isValidErrorResponse, hkeys, isValidProtocolError, herror]
    simp [hcode, hmsg, isText, asStr, error.nonempty, error.short]
  have hcodT : errorText (errorMessage number error.text message) "code" = error.text := rfl
  have hmesT : errorText (errorMessage number error.text message) "message" = message := rfl
  rw [readResponse, hget, bind_some, asU64_integer]
  by_cases hsame : number = id
  · subst hsame
    simp only [if_pos hid, ne_eq, not_true_eq_false, if_false, hok, hvalid, hcodT, hmesT, true_and]
    by_cases hbnd : 0 < message.utf8ByteSize ∧ message.utf8ByteSize ≤ 4096
    · simp [hbnd]
    · rw [if_neg (by simpa using hbnd)]
      exact iff_of_false nofun fun h => hbnd h.2.2
  · have hother : (if number < 2 ^ 64 then some number else none) ≠ some id := by
      split
      · exact fun h => hsame (Option.some.inj h)
      · exact nofun
    rw [if_pos hother]
    exact iff_of_false nofun fun h => hsame h.1

lemma readResponse_error_ne_ok {code message : String} :
    (readResponse command id (errorMessage number code message) cache).1 ≠ .ok value := by
  have hok : ((errorMessage number code message).get "ok").bind asBool = some false := rfl
  rw [readResponse]
  split
  · exact nofun
  rw [hok]
  dsimp only
  split
  · exact nofun
  · exact nofun

/-- When a result is a reply. -/
lemma requestOnProcess_ok (hid : id < 2 ^ 64) :
    (requestOnProcess command id seen cache (okLine number result :: lines)).1 = .ok value ↔
      number = id ∧ Received command id result value := by
  constructor
  · intro hreply
    cases hmsg : nextMessage (okLine number result) with
    | error error =>
      rw [requestOnProcess_unreadable hmsg] at hreply
      cases hreply
    | ok message =>
      obtain ⟨hfits, hshal, hread⟩ := of_nextMessage hmsg
      rw [read_okLine, map_eq_some_iff] at hread
      obtain ⟨read, hvalue, rfl⟩ := hread
      rw [reply_of_response hmsg type_okMessage] at hreply
      obtain ⟨rfl, rfl, hvalid⟩ := (readResponse_ok hid).mp hreply
      rw [depth_okLine] at hshal
      exact ⟨rfl, hfits, hshal, hvalue, hvalid⟩
  · rintro ⟨rfl, hrcv⟩
    have hmsg : nextMessage (okLine number result) = .ok (okMessage value number) :=
      nextMessage_eq hrcv.fits (by rw [depth_okLine]; exact hrcv.shallow) (by rw [read_okLine, hrcv.read, map_some])
    rw [reply_of_response hmsg type_okMessage]
    exact (readResponse_ok hid).mpr ⟨rfl, rfl, hrcv.valid⟩

/-- When an error is a reply. -/
lemma requestOnProcess_error (hid : id < 2 ^ 64) :
    (requestOnProcess command id seen cache (errorLine number error :: lines)).1 = .error (.remote reported text) ↔
      number = id ∧ error.1.text = reported ∧ error.2.text = some text ∧ 0 < text.utf8ByteSize ∧
        text.utf8ByteSize ≤ 4096 := by
  constructor
  · intro hreply
    cases hmsg : nextMessage (errorLine number error) with
    | error failure =>
      rw [requestOnProcess_unreadable hmsg] at hreply
      cases hreply
      cases processFailure_of_nextMessage hmsg
    | ok message =>
      obtain ⟨-, -, hread⟩ := of_nextMessage hmsg
      rw [read_errorLine, map_eq_some_iff] at hread
      obtain ⟨read, htext, rfl⟩ := hread
      rw [reply_of_response hmsg type_errorMessage] at hreply
      obtain ⟨hsame, hcode, rfl, hbnd⟩ := (readResponse_error hid).mp hreply
      exact ⟨hsame, hcode, htext, hbnd⟩
  · rintro ⟨rfl, hcode, htext, hbnd⟩
    have hmsg : nextMessage (errorLine number error) = .ok (errorMessage number error.1.text text) :=
      nextMessage_eq (bytes_errorLine hid htext hbnd.2) (Nat.le_of_ble_eq_true rfl)
        (by rw [read_errorLine, htext, map_some])
    rw [reply_of_response hmsg type_errorMessage]
    exact (readResponse_error hid).mpr ⟨rfl, hcode, rfl, hbnd⟩

lemma requestOnProcess_error_ne_ok :
    (requestOnProcess command id seen cache (errorLine number error :: lines)).1 ≠ .ok value := by
  cases hmsg : nextMessage (errorLine number error) with
  | error failure =>
    rw [requestOnProcess_unreadable hmsg]
    exact nofun
  | ok message =>
    obtain ⟨-, -, hread⟩ := of_nextMessage hmsg
    rw [read_errorLine, map_eq_some_iff] at hread
    obtain ⟨read, -, rfl⟩ := hread
    rw [reply_of_response hmsg type_errorMessage]
    exact readResponse_error_ne_ok

/-- A response is the last line that is read. -/
lemma rest_of_response (htype : ∀ message, nextMessage line = .ok message →
    (message.get "type").bind Value.asStr = some "response") :
    (requestOnProcess command id seen cache (line :: lines)).2.2 = lines := by
  cases hmsg : nextMessage line with
  | error error => rw [requestOnProcess_unreadable hmsg]
  | ok message => rw [requestOnProcess_response hmsg (htype message hmsg)]

lemma type_okLine (h : nextMessage (okLine number result) = .ok message) :
    (message.get "type").bind Value.asStr = some "response" := by
  obtain ⟨-, -, hread⟩ := of_nextMessage h
  rw [read_okLine, map_eq_some_iff] at hread
  obtain ⟨value, -, rfl⟩ := hread
  exact type_okMessage

lemma type_errorLine (h : nextMessage (errorLine number error) = .ok message) :
    (message.get "type").bind Value.asStr = some "response" := by
  obtain ⟨-, -, hread⟩ := of_nextMessage h
  rw [read_errorLine, map_eq_some_iff] at hread
  obtain ⟨text, -, rfl⟩ := hread
  exact type_errorMessage

variable {reports : List Report} {event : Option LocalPluginState}

/-- What is not so of a failure of the child is so of a reply if the state before it is accepted and it is
so of the reply to the rest. -/
lemma reply_after_event {P : Reply → Prop} {q : Prop}
    (hfail : ∀ error : HeadlessError, error.isProcessFailure → ¬ P (.error error))
    (hrest : ∀ seen cache, P (requestOnProcess command id seen cache lines).1 ↔ q) :
    P (requestOnProcess command id false cache
        (event.toList.map stateLine ++ (reports.map progressLine ++ lines))).1 ↔
      (∀ state, event = some state → Accepted state) ∧ q := by
  cases event with
  | none =>
    rw [toList_none, map_nil, nil_append, requestOnProcess_reports, hrest]
    exact ⟨fun h => ⟨fun state hstate => (nomatch hstate), h⟩, fun h => h.2⟩
  | some state =>
    rw [toList_some, map_singleton, singleton_append]
    by_cases hacc : Accepted state
    · obtain ⟨next, hnext⟩ := requestOnProcess_state hacc
      rw [hnext, requestOnProcess_reports, hrest]
      refine ⟨fun h => ⟨?_, h⟩, fun h => h.2⟩
      rintro other ⟨⟩
      exact hacc
    · obtain ⟨error, hreply, hfails⟩ := failure_of_state hacc
      rw [hreply]
      exact iff_of_false (hfail error hfails) fun h => hacc (h.1 state rfl)

lemma reply_ok (hid : id < 2 ^ 64) : (requestOnProcess command id false cache (event.toList.map stateLine ++
        (reports.map progressLine ++ okLine number result :: lines))).1 = .ok value ↔
      (∀ state, event = some state → Accepted state) ∧ number = id ∧ Received command id result value :=
  reply_after_event (P := fun reply => reply = .ok value) (fun _ _ h => nomatch h)
    fun _ _ => requestOnProcess_ok hid

lemma reply_error (hid : id < 2 ^ 64) : (requestOnProcess command id false cache (event.toList.map stateLine ++
        (reports.map progressLine ++ errorLine number error :: lines))).1 = .error (.remote reported text) ↔
      (∀ state, event = some state → Accepted state) ∧ number = id ∧ error.1.text = reported ∧
        error.2.text = some text ∧ 0 < text.utf8ByteSize ∧ text.utf8ByteSize ≤ 4096 := by
  refine reply_after_event (P := fun reply => reply = .error (.remote reported text)) ?_
    fun _ _ => requestOnProcess_error hid
  rintro error hfail ⟨⟩
  cases hfail

lemma reply_error_ne_ok : (requestOnProcess command id false cache (event.toList.map stateLine ++
        (reports.map progressLine ++ errorLine number error :: lines))).1 ≠ .ok value := by
  intro hreply
  refine ((reply_after_event (P := fun reply => reply = .ok value) (q := False)
    (fun _ _ h => nomatch h) fun _ _ => ?_).mp hreply).2
  exact iff_false_intro requestOnProcess_error_ne_ok

lemma rest_after_event (hacc : ∀ state, event = some state → Accepted state)
    (htype : ∀ message, nextMessage line = .ok message →
      (message.get "type").bind Value.asStr = some "response") : (requestOnProcess command id false cache
      (event.toList.map stateLine ++ (reports.map progressLine ++ line :: lines))).2.2 = lines := by
  cases event with
  | none =>
    rw [toList_none, map_nil, nil_append, requestOnProcess_reports]
    exact rest_of_response htype
  | some state =>
    obtain ⟨next, hnext⟩ := requestOnProcess_state (hacc state rfl)
    rw [toList_some, map_singleton, singleton_append, hnext, requestOnProcess_reports]
    exact rest_of_response htype

end Reading

section Requests
variable {request : Request}

/-- The reply is the result if the operation succeeded, and its error if it failed. -/
def Right (request : Request) (reply : Reply) : Prop :=
  match request.answer with
  | .ok result => ∃ value, result.read = some value ∧ reply = .ok value
  | .error thrown => ∃ message, (protocolError thrown).2.text = some message ∧
      reply = .error (.remote (protocolError thrown).1.text message)

/-- The number comes back, a state that is written is read and accepted, a result can be received, and an
error's text is one of 1 to 4096 bytes. -/
def Understood (request : Request) : Prop :=
  rewritten request.id = request.id ∧
    match request.answer with
    | .ok result =>
      (request.exchange.command.stateChanged = true →
        ∃ state, request.exchange.state = .ok state ∧ Accepted state) ∧
      ∃ value, Received request.exchange.command request.id result value
    | .error thrown =>
      (∀ state, catchupState request.exchange thrown = some state → Accepted state) ∧
      ∃ message, (protocolError thrown).2.text = some message ∧ 0 < message.utf8ByteSize ∧
        message.utf8ByteSize ≤ 4096

lemma catchupState_shuttingDown {exchange : Exchange} : catchupState exchange shuttingDown = none := by
  rw [catchupState]
  cases exchange.state with
  | error thrown => rfl
  | ok state =>
    have hcode : isCatchup ⟨"shutting_down", by decide, by decide⟩ = false := by decide
    simp [Thrown.code, shuttingDown, hcode]

lemma execute_of_error {thrown : Thrown} (h : request.answer = .error thrown) :
    request.execute = (catchupState request.exchange thrown,
      errorLine (rewritten request.id) (protocolError thrown)) := by
  rw [Request.answer] at h
  rw [Request.execute]
  split at h
  · rename_i hstop
    cases h
    rw [if_pos hstop, catchupState_shuttingDown]
  · rename_i hrun
    rw [if_neg hrun, h]

lemma execute_of_ok (h : request.answer = .ok result) : request.execute =
      if request.exchange.command.stateChanged then match request.exchange.state with
        | .ok state => (some state, okLine (rewritten request.id) result)
        | .error thrown => (none, errorLine (rewritten request.id) (protocolError thrown))
      else (none, okLine (rewritten request.id) result) := by
  rw [Request.answer] at h
  rw [Request.execute]
  split at h
  · cases h
  · rename_i hrun
    rw [if_neg hrun]
    exact h ▸ rfl

/-- The lines of a request after what is left of the one before. -/
lemma lines_eq (pipe : List Report) {cache : Value} :
    requestOnProcess request.exchange.command request.id false cache (pipe.map progressLine ++ request.lines) =
      requestOnProcess request.exchange.command request.id false cache
        (request.execute.1.toList.map stateLine ++ (request.exchange.between.map progressLine ++
          request.execute.2 :: request.exchange.after.map progressLine)) := by
  rw [Request.lines, requestOnProcess_reports]
  simp only [append_assoc, singleton_append]
  exact requestOnProcess_reports request.exchange.before

variable (pipe : List Report) (cache : Value) {rest : List Request}

/-- The reply to a request is right exactly if the request is understood. -/
lemma right_iff (hid : request.id < 2 ^ 64) :
    Right request (requestOnProcess request.exchange.command request.id false cache
      (pipe.map progressLine ++ request.lines)).1 ↔ Understood request := by
  rw [lines_eq, Right, Understood]
  cases hans : request.answer with
  | error thrown =>
    rw [execute_of_error hans]
    constructor
    · rintro ⟨message, -, hreply⟩
      obtain ⟨hstate, hnum, -, htext, hbnd⟩ := (reply_error hid).mp hreply
      exact ⟨hnum, hstate, message, htext, hbnd⟩
    · rintro ⟨hnum, hstate, message, htext, hbnd⟩
      exact ⟨message, htext, (reply_error hid).mpr ⟨hstate, hnum, rfl, htext, hbnd⟩⟩
  | ok result =>
    rw [execute_of_ok hans]
    cases hchg : request.exchange.command.stateChanged with
    | false =>
      constructor
      · rintro ⟨value, -, hreply⟩
        obtain ⟨-, hnum, hrcv⟩ := (reply_ok hid).mp hreply
        exact ⟨hnum, fun h => (nomatch h), value, hrcv⟩
      · rintro ⟨hnum, -, value, hrcv⟩
        exact ⟨value, hrcv.read, (reply_ok hid).mpr ⟨fun state h => (nomatch h), hnum, hrcv⟩⟩
    | true =>
      cases hstate : request.exchange.state with
      | error thrown =>
        refine iff_of_false ?_ ?_
        · rintro ⟨value, -, hreply⟩
          exact reply_error_ne_ok hreply
        rintro ⟨-, hread, -⟩
        obtain ⟨state, hsome, -⟩ := hread rfl
        cases hsome
      | ok state =>
        constructor
        · rintro ⟨value, -, hreply⟩
          obtain ⟨hacc, hnum, hrcv⟩ := (reply_ok hid).mp hreply
          exact ⟨hnum, fun _ => ⟨state, rfl, hacc state rfl⟩, value, hrcv⟩
        rintro ⟨hnum, hread, value, hrcv⟩
        obtain ⟨other, hother, hacc⟩ := hread rfl
        cases hother
        refine ⟨value, hrcv.read, (reply_ok hid).mpr ⟨?_, hnum, hrcv⟩⟩
        rintro accepted ⟨⟩
        exact hacc

/-- After a right reply only reports are left. -/
lemma rest_of_understood (h : Understood request) :
    (requestOnProcess request.exchange.command request.id false cache
      (pipe.map progressLine ++ request.lines)).2.2 = request.exchange.after.map progressLine := by
  rw [lines_eq]
  obtain ⟨-, h⟩ := h
  cases hans : request.answer with
  | error thrown =>
    rw [hans] at h
    rw [execute_of_error hans]
    exact rest_after_event h.1 fun _ => type_errorLine
  | ok result =>
    rw [hans] at h
    rw [execute_of_ok hans]
    cases hchg : request.exchange.command.stateChanged with
    | false =>
      exact rest_after_event (fun state h => nomatch h) fun _ => type_okLine
    | true =>
      obtain ⟨state, hstate, hacc⟩ := h.1 hchg
      rw [if_pos rfl, hstate]
      refine rest_after_event ?_ fun _ => type_okLine
      rintro other ⟨⟩
      exact hacc

lemma run_head {lines : List Json} : ∃ replies, run cache lines (request :: rest) =
      (requestOnProcess request.exchange.command request.id false cache (lines ++ request.lines)).1 ::
        replies := by
  rw [run]
  cases hreply : (requestOnProcess request.exchange.command request.id false cache
      (lines ++ request.lines)).1 with
  | ok value => exact ⟨_, rfl⟩
  | error error =>
    dsimp only
    split
    · exact ⟨_, rfl⟩
    · exact ⟨_, rfl⟩

lemma run_cons (hright : Right request
      (requestOnProcess request.exchange.command request.id false cache (pipe.map progressLine ++ request.lines)).1)
    (hid : request.id < 2 ^ 64) : ∃ next, run cache (pipe.map progressLine) (request :: rest) =
      (requestOnProcess request.exchange.command request.id false cache
        (pipe.map progressLine ++ request.lines)).1 :: run next (request.exchange.after.map progressLine) rest := by
  have hrest := rest_of_understood pipe cache ((right_iff pipe cache hid).mp hright)
  rw [run]
  generalize requestOnProcess request.exchange.command request.id false cache
    (pipe.map progressLine ++ request.lines) = received at hright hrest
  obtain ⟨reply, next, lines⟩ := received
  subst hrest
  refine ⟨next, ?_⟩
  cases reply with
  | ok value => rfl
  | error error =>
    have hrem : error.isProcessFailure = false := by
      rw [Right] at hright
      split at hright
      · obtain ⟨value, -, hreply⟩ := hright
        cases hreply
      obtain ⟨message, -, hreply⟩ := hright
      cases hreply
      rfl
    simp [hrem]

lemma run_right_iff {sent : List Request} (hids : ∀ request ∈ sent, request.id < 2 ^ 64) :
    List.Forall₂ Right sent (run cache (pipe.map progressLine) sent) ↔ ∀ request ∈ sent, Understood request := by
  induction sent generalizing cache pipe with
  | nil => exact iff_of_true .nil fun request hmem => nomatch hmem
  | cons request rest ih =>
    have hid := hids request mem_cons_self
    have hrest := fun other hmem => hids other (mem_cons_of_mem _ hmem)
    rw [forall_mem_cons]
    constructor
    · intro hall
      obtain ⟨replies, hhead⟩ := run_head cache
      have hright := hall
      rw [hhead] at hright
      cases hright with
      | cons hright _ =>
        obtain ⟨next, hrun⟩ := run_cons pipe cache hright hid
        rw [hrun] at hall
        cases hall with
        | cons _ htail => exact ⟨(right_iff pipe cache hid).mp hright, (ih _ _ hrest).mp htail⟩
    · rintro ⟨hund, hoth⟩
      have hright := (right_iff pipe cache hid).mpr hund
      obtain ⟨next, hrun⟩ := run_cons pipe cache hright hid
      rw [hrun]
      exact .cons hright ((ih _ _ hrest).mpr hoth)

lemma id_of_mem_requests {nextId : UInt64} {stopping : Bool} {exchanges : List Exchange} :
    ∀ request ∈ requests nextId stopping exchanges, request.id < 2 ^ 64 := by
  induction exchanges generalizing nextId stopping with
  | nil => exact fun request hmem => nomatch hmem
  | cons exchange exchanges ih =>
    rw [requests, forall_mem_cons]
    exact ⟨nextId.toNat_lt, ih⟩

end Requests

/-- In a run every reply is right exactly if every request is understood. -/
theorem replies_right_iff (nextId : UInt64) (stopping : Bool) (cache : Value) (pipe : List Report)
    (exchanges : List Exchange) : List.Forall₂ Right (requests nextId stopping exchanges)
        (run cache (pipe.map progressLine) (requests nextId stopping exchanges)) ↔
      ∀ request ∈ requests nextId stopping exchanges, Understood request :=
  run_right_iff pipe cache id_of_mem_requests

/-- A synchronisation whose error has a code and an empty text. -/
def silentFailure : Exchange where
  command := .syncOnce
  outcome := .error (.coded ⟨"sync_rejected", by decide, by decide⟩ (.ofString ""))
  state := .ok []
  before := []
  between := []
  after := []

/-- The bridge takes it for a failure of the child. -/
theorem silentFailure_wrong : ¬ List.Forall₂ Right (requests 1 false [silentFailure])
    (run .null [] (requests 1 false [silentFailure])) := by
  intro hall
  have hund := (run_right_iff [] .null id_of_mem_requests).mp hall _ mem_cons_self
  obtain ⟨-, -, message, htext, hne, -⟩ := hund
  cases (text_ofString (s := "")).symm.trans htext
  exact absurd hne (by decide)

end HeadlessProtocol
