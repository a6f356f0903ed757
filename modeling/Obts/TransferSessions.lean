import Obts.IsoTimestamps
import Obts.PushManifests

/-!
# Transfer sessions

The record of a chunked push as it is written to `session.json`, and the parser that reads it
back. The parser keeps the raw result object; here it reads it into a typed result with the same
checks. `Storable` says which sessions the parser accepts and returns unchanged.
-/
namespace TransferSessions

open InsertionOrder JsonRecords IsoTimestamps PathPolicy PushManifests SlashPath List Bool Json

inductive SessionStatus where
  | opened
  | processing
  | completed
  | rejected
  | aborted
  deriving DecidableEq

inductive ProcessingErrorCode where
  | serverGitError
  | serverProcessingError

inductive AcknowledgementStatus where
  | accepted
  | conflicted
  | duplicate

structure DirectoryAcknowledgement where
  proposalId : String
  status : AcknowledgementStatus
  acknowledgedIntents : List Metadata.IntentAcknowledgement

/-- What the results of an applied push share. -/
structure Applied where
  (deviceRef main : String)
  eventSeq : Nat
  directoryAck : Option DirectoryAcknowledgement

inductive PushResult where
  | noop (applied : Applied)
  | merged (applied : Applied) (mergeCommit : String)
  | conflicted (applied : Applied) (conflictId : String)
  | rejected (code message : String)

def PushResult.isRejected : PushResult → Bool
  | .rejected _ _ => true
  | _ => false

structure ChunkReceipt where
  (index bytes : Nat)
  sha256 : String

structure PushSession where
  (transferId vaultId deviceId attemptId requestSha256 : String)
  manifest : DevicePushManifest
  planSha256 : String
  chunkCount : Nat
  receipts : List ChunkReceipt
  totalBytes : Nat
  storedBytes : Option Nat
  status : SessionStatus
  result : Option PushResult
  processingAttempts : Option Nat
  processingErrorCode : Option (Option ProcessingErrorCode)
  retryAt : Option (Option String)
  (createdAt updatedAt expiresAt : String)

def SessionStatus.text : SessionStatus → String
  | .opened => "open"
  | .processing => "processing"
  | .completed => "completed"
  | .rejected => "rejected"
  | .aborted => "aborted"

def ProcessingErrorCode.text : ProcessingErrorCode → String
  | .serverGitError => "server_git_error"
  | .serverProcessingError => "server_processing_error"

def AcknowledgementStatus.text : AcknowledgementStatus → String
  | .accepted => "accepted"
  | .conflicted => "conflicted"
  | .duplicate => "duplicate"

variable (ack : Metadata.IntentAcknowledgement)

def acknowledgementToJson : Json :=
  record [("intent_id", some (.string ack.intentId)), ("generation", some (.number (some ack.generation)))]

def DirectoryAcknowledgement.toJson (ack : DirectoryAcknowledgement) : Json :=
  record [("proposal_id", some (.string ack.proposalId)), ("status", some (.string ack.status.text)),
    ("acknowledged_intents", some (.array (ack.acknowledgedIntents.map acknowledgementToJson)))]

def PushResult.toJson : PushResult → Json
  | .noop a => record [("status", some (.string "noop")), ("device_ref", some (.string a.deviceRef)),
      ("main", some (.string a.main)), ("event_seq", some (.number (some a.eventSeq))),
      ("directory_ack", a.directoryAck.map DirectoryAcknowledgement.toJson)]
  | .merged a mergeCommit => record [("status", some (.string "merged")),
      ("device_ref", some (.string a.deviceRef)), ("main", some (.string a.main)),
      ("merge_commit", some (.string mergeCommit)), ("event_seq", some (.number (some a.eventSeq))),
      ("directory_ack", a.directoryAck.map DirectoryAcknowledgement.toJson)]
  | .conflicted a conflictId => record [("status", some (.string "conflicted")),
      ("device_ref", some (.string a.deviceRef)), ("main", some (.string a.main)),
      ("conflict_id", some (.string conflictId)), ("event_seq", some (.number (some a.eventSeq))),
      ("directory_ack", a.directoryAck.map DirectoryAcknowledgement.toJson)]
  | .rejected code message => record [("status", some (.string "rejected")),
      ("code", some (.string code)), ("message", some (.string message))]

def ChunkReceipt.toJson (receipt : ChunkReceipt) : Json :=
  record [("index", some (.number (some receipt.index))), ("bytes", some (.number (some receipt.bytes))),
    ("sha256", some (.string receipt.sha256))]

def counterToJson (n : Nat) : Json := .number (some n)

def PushSession.toJson (s : PushSession) : Json :=
  record [("version", some (.number (some 1))), ("transfer_id", some (.string s.transferId)),
    ("vault_id", some (.string s.vaultId)), ("device_id", some (.string s.deviceId)),
    ("attempt_id", some (.string s.attemptId)), ("request_sha256", some (.string s.requestSha256)),
    ("manifest", some s.manifest.toJson), ("plan_sha256", some (.string s.planSha256)),
    ("chunk_count", some (.number (some s.chunkCount))),
    ("receipts", some (.array (s.receipts.map ChunkReceipt.toJson))),
    ("total_bytes", some (.number (some s.totalBytes))), ("stored_bytes", s.storedBytes.map counterToJson),
    ("status", some (.string s.status.text)),
    ("result", some (.ofOption PushResult.toJson s.result)),
    ("processing_attempts", s.processingAttempts.map counterToJson),
    ("processing_error_code", s.processingErrorCode.map (Json.ofOption fun code => .string code.text)),
    ("retry_at", s.retryAt.map (Json.ofOption .string)),
    ("created_at", some (.string s.createdAt)), ("updated_at", some (.string s.updatedAt)),
    ("expires_at", some (.string s.expiresAt))]

def asRecord : Json → Option Fields
  | .record fields => some fields
  | _ => none

variable (fields : Fields) (field : String)

/-- A field that is a text with a property. -/
def readText (valid : String → Bool) : Option String :=
  ((valueAt fields field).bind Json.asString).filter valid

def readCounter (maximum : Nat) : Option Nat :=
  (valueAt fields field).bind (Json.asCounter maximum)

/-- A field that may be undefined. -/
def readDefined {α : Type} (fields : Fields) (field : String) (read : Json → Option α) : Option (Option α) :=
  match valueAt fields field with
  | none => some none
  | some value => (read value).map some

def readNullable {α : Type} (read : Json → Option α) : Json → Option (Option α)
  | .null => some none
  | value => (read value).map some

def readArray : Option (List Json) :=
  match valueAt fields field with
  | some (.array items) => some items
  | _ => none

def maxByteCount : Nat := 8589934592

def maxStoredBytes : Nat := 17179869184

def maxProcessingAttempts : Nat := 64

def isIdentifierChar (ch : Char) : Bool :=
  isAsciiLetter ch || isDigit ch || ch = '_' || ch = ':' || ch = '-'

def isBoundedIdentifier (text : String) : Bool := matchesClass isIdentifierChar 1 256 text.toList

def isTransferIdChar (ch : Char) : Bool := isAsciiLetter ch || isDigit ch || ch = '_'

def isTransferId (text : String) : Bool :=
  "trn_".toList.isPrefixOf text.toList && text.toList.drop 4 ≠ [] && (text.toList.drop 4).all isTransferIdChar

def SessionStatus.ofText : String → Option SessionStatus
  | "open" => some .opened
  | "processing" => some .processing
  | "completed" => some .completed
  | "rejected" => some .rejected
  | "aborted" => some .aborted
  | _ => none

def ProcessingErrorCode.ofText : String → Option ProcessingErrorCode
  | "server_git_error" => some .serverGitError
  | "server_processing_error" => some .serverProcessingError
  | _ => none

def AcknowledgementStatus.ofText : String → Option AcknowledgementStatus
  | "accepted" => some .accepted
  | "conflicted" => some .conflicted
  | "duplicate" => some .duplicate
  | _ => none

/-- A text of at least one and at most `maximum` code units. -/
def isBoundedText (maximum : Nat) (text : String) : Bool :=
  text ≠ "" && utf16Length text.toList ≤ maximum

variable (value : Json)

def readAcknowledgement : Option Metadata.IntentAcknowledgement := do
  let fields ← asRecord value
  guard (hasOnlyFields fields ["intent_id", "generation"])
  let intentId ← readText fields "intent_id" isBoundedIdentifier
  let generation ← readCounter fields "generation" maxSafeInteger
  some ⟨intentId, generation⟩

def readDirectoryAcknowledgement : Option DirectoryAcknowledgement := do
  let fields ← asRecord value
  guard (hasOnlyFields fields ["proposal_id", "status", "acknowledged_intents"])
  let proposalId ← readText fields "proposal_id" isProposalId
  let status ← (readText fields "status" fun _ => true).bind AcknowledgementStatus.ofText
  let items ← readArray fields "acknowledged_intents"
  guard (items.length ≤ 5000)
  let intents ← items.mapM readAcknowledgement
  some ⟨proposalId, status, intents⟩

-- The source tests `main` against the pattern without asking for a string first; an array of one
-- commit would pass there, but no written result has one.
def readApplied (fields : Fields) (allowed : List String) : Option Applied := do
  guard (hasOnlyFields fields allowed)
  let deviceRef ← readText fields "device_ref" (isBoundedText 512)
  let main ← readText fields "main" isCommitId
  let eventSeq ← readCounter fields "event_seq" maxSafeInteger
  let directoryAck ← readDefined fields "directory_ack" readDirectoryAcknowledgement
  some ⟨deviceRef, main, eventSeq, directoryAck⟩

/-- `isPushResult`, with the result that it accepts. -/
def readPushResult : Option PushResult := do
  let fields ← asRecord value
  match ← readText fields "status" fun _ => true with
  | "rejected" =>
    guard (hasOnlyFields fields ["status", "code", "message"])
    let code ← readText fields "code" (isBoundedText 128)
    let message ← readText fields "message" (isBoundedText 2048)
    some (.rejected code message)
  | "noop" =>
    let applied ← readApplied fields ["status", "device_ref", "main", "event_seq", "directory_ack"]
    some (.noop applied)
  | "merged" =>
    let applied ← readApplied fields
      ["status", "device_ref", "main", "merge_commit", "event_seq", "directory_ack"]
    let mergeCommit ← readText fields "merge_commit" isCommitId
    some (.merged applied mergeCommit)
  | "conflicted" =>
    let applied ← readApplied fields
      ["status", "device_ref", "main", "conflict_id", "event_seq", "directory_ack"]
    let conflictId ← readText fields "conflict_id" isBoundedIdentifier
    some (.conflicted applied conflictId)
  | _ => none

def isSessionResultCombination (status : SessionStatus) (result : Option PushResult) : Bool :=
  match status with
  | .completed => result.any fun result => !result.isRejected
  | .rejected => result.any PushResult.isRejected
  | _ => result.isNone

def isRetryCombination (status : SessionStatus)
    (processingErrorCode : Option (Option ProcessingErrorCode)) (retryAt : Option (Option String)) : Bool :=
  match status with
  | .completed | .rejected | .aborted => processingErrorCode.join.isNone && retryAt.join.isNone
  | _ => processingErrorCode.join.isSome == retryAt.join.isSome

def readReceipt (chunkCount : Nat) (indexes : List Nat) (receiptBytes : Nat) (value : Json) :
    Option ChunkReceipt := do
  let fields ← asRecord value
  guard (hasOnlyFields fields ["index", "bytes", "sha256"])
  let index ← readCounter fields "index" maxSafeInteger
  guard (index < chunkCount ∧ index ∉ indexes)
  let bytes ← readCounter fields "bytes" maxByteCount
  let sha256 ← readText fields "sha256" isSha256
  guard (receiptBytes ≤ maxSafeInteger - bytes)
  some ⟨index, bytes, sha256⟩

def readReceipts (chunkCount : Nat) (indexes : List Nat) (receiptBytes : Nat) :
    List Json → Option (List ChunkReceipt)
  | [] => some []
  | item :: items => do
    let receipt ← readReceipt chunkCount indexes receiptBytes item
    let receipts ←
      readReceipts chunkCount (add indexes receipt.index) (receiptBytes + receipt.bytes) items
    some (receipt :: receipts)

def receiptBytes (receipts : List ChunkReceipt) : Nat := (receipts.map (·.bytes)).sum

def readVersion (fields : Fields) : Option Unit :=
  match valueAt fields "version" with
  | some (.number (some 1)) => some ()
  | _ => none

def sessionFields : List String :=
  ["version", "transfer_id", "vault_id", "device_id", "attempt_id", "request_sha256", "manifest",
    "plan_sha256", "chunk_count", "receipts", "total_bytes", "stored_bytes", "status", "result",
    "processing_attempts", "processing_error_code", "retry_at", "created_at", "updated_at",
    "expires_at"]

def parsePersistedPushSession (c : Collation) (u : Normalization) (value : Json)
    (transferId : String) : Option PushSession := do
  let fields ← asRecord value
  readVersion fields
  guard (hasOnlyFields fields sessionFields)
  let _ ← readText fields "transfer_id" fun text => text = transferId && isTransferId text
  let vaultId ← readText fields "vault_id" isBoundedIdentifier
  let deviceId ← readText fields "device_id" isBoundedIdentifier
  let attemptId ← readText fields "attempt_id" isAttemptId
  let requestSha256 ← readText fields "request_sha256" isSha256
  let planSha256 ← readText fields "plan_sha256" isSha256
  let chunkCount ← readCounter fields "chunk_count" maxSafeInteger
  let totalBytes ← readCounter fields "total_bytes" maxByteCount
  let storedBytes ← readDefined fields "stored_bytes" (Json.asCounter maxStoredBytes)
  let status ← (readText fields "status" fun _ => true).bind SessionStatus.ofText
  let createdAt ← readText fields "created_at" isIsoTimestamp
  let updatedAt ← readText fields "updated_at" isIsoTimestamp
  let expiresAt ← readText fields "expires_at" isIsoTimestamp
  guard ((dateParse createdAt).getD 0 ≤ (dateParse updatedAt).getD 0)
  let items ← readArray fields "receipts"
  guard (items.length ≤ chunkCount)
  let result ← (valueAt fields "result").bind (readNullable readPushResult)
  guard (isSessionResultCombination status result)
  let processingAttempts ←
    readDefined fields "processing_attempts" (Json.asCounter maxProcessingAttempts)
  let processingErrorCode ← readDefined fields "processing_error_code"
    (readNullable fun value => value.asString.bind ProcessingErrorCode.ofText)
  let retryAt ← readDefined fields "retry_at" (readNullable fun value => value.asString.filter isIsoTimestamp)
  guard (isRetryCombination status processingErrorCode retryAt)
  let manifest ← ((valueAt fields "manifest").map (parseDevicePushManifest c u)).bind Except.toOption
  guard (manifest.vaultId = vaultId ∧ manifest.deviceId = deviceId ∧ manifest.attemptId = some attemptId)
  let receipts ← readReceipts chunkCount [] 0 items
  guard (receiptBytes receipts = totalBytes ∧ (status = .processing → receipts.length = chunkCount))
  some {
    transferId, vaultId, deviceId, attemptId, requestSha256, manifest, planSha256, chunkCount,
    receipts, totalBytes, storedBytes, status, result, processingAttempts, processingErrorCode,
    retryAt, createdAt, updatedAt, expiresAt }

def isAcknowledgement : Bool :=
  isBoundedIdentifier ack.intentId && ack.generation ≤ maxSafeInteger

def isDirectoryAcknowledgement (ack : DirectoryAcknowledgement) : Bool :=
  isProposalId ack.proposalId && ack.acknowledgedIntents.length ≤ 5000 &&
    ack.acknowledgedIntents.all isAcknowledgement

def isApplied (applied : Applied) : Bool :=
  isBoundedText 512 applied.deviceRef && isCommitId applied.main &&
    applied.eventSeq ≤ maxSafeInteger && applied.directoryAck.all isDirectoryAcknowledgement

def isPushResult : PushResult → Bool
  | .noop applied => isApplied applied
  | .merged applied mergeCommit => isApplied applied && isCommitId mergeCommit
  | .conflicted applied conflictId => isApplied applied && isBoundedIdentifier conflictId
  | .rejected code message => isBoundedText 128 code && isBoundedText 2048 message

section Reading

variable {fields : Fields} {field : String} {α β : Type} {read : Json → Option α} {write : α → Json}
  {value : Option α} {b : Option β}

lemma readText_string {value : String} {valid : String → Bool} (hvalid : valid value)
    (h : valueAt fields field = some (.string value)) : readText fields field valid = some value := by
  simp [readText, h, Json.asString, Option.filter, hvalid]

lemma readCounter_int {n maximum : Nat} (hn : n ≤ maximum)
    (h : valueAt fields field = some (.number (some n))) : readCounter fields field maximum = some n := by
  rw [readCounter, h]
  exact if_pos hn

lemma readDefined_map (write : α → Json) (hread : ∀ a ∈ value, read (write a) = some a)
    (h : valueAt fields field = value.map write) : readDefined fields field read = some value := by
  cases value with
  | none => simp [readDefined, h]
  | some a => simp [readDefined, h, hread a rfl]

lemma readNullable_ofOption (hread : ∀ a ∈ value, read (write a) = some a)
    (hnull : ∀ a ∈ value, write a ≠ .null) : readNullable read (Json.ofOption write value) = some value := by
  cases value with
  | none => rfl
  | some a =>
    have hnot := hnull a rfl
    have ha := hread a rfl
    rw [ofOption]
    cases hw : write a with
    | null => exact absurd hw hnot
    | boolean | number | string | array | record =>
      rw [hw] at ha
      simp [readNullable, ha]

lemma ofText_text (status : SessionStatus) : SessionStatus.ofText status.text = some status := by
  cases status <;> rfl

lemma ofText_text_code (code : ProcessingErrorCode) : ProcessingErrorCode.ofText code.text = some code := by
  cases code <;> rfl

lemma ofText_text_acknowledgement (status : AcknowledgementStatus) :
    AcknowledgementStatus.ofText status.text = some status := by
  cases status <;> rfl

lemma bind_of_eq_some {x : Option α} {f : α → Option β} {a : α}
    (hx : x = some a) (hf : f a = b) : (x >>= f) = b := by
  rw [hx]
  exact hf

lemma guard_bind {p : Prop} [Decidable p] {f : Unit → Option β} (hp : p) (hf : f () = b) : (guard p >>= f) = b := by
  rw [guard, if_pos hp]
  exact hf

lemma mapM_toJson {as : List α} (h : ∀ a ∈ as, read (write a) = some a) : (as.map write).mapM read = some as := by
  induction as with
  | nil => rfl
  | cons a as ih =>
    obtain ⟨ha, has⟩ := forall_mem_cons.mp h
    simp [ha, ih has]

end Reading

lemma readAcknowledgement_toJson {ack : Metadata.IntentAcknowledgement}
    (h : isAcknowledgement ack) : readAcknowledgement (acknowledgementToJson ack) = some ack := by
  simp only [isAcknowledgement, and_eq_true, decide_eq_true_eq] at h
  have hjson : acknowledgementToJson ack = .record [("intent_id", .string ack.intentId),
    ("generation", .number (some ack.generation))] := rfl
  have hid : readText [("intent_id", .string ack.intentId), ("generation", .number (some ack.generation))]
      "intent_id" isBoundedIdentifier = some ack.intentId := readText_string h.1 rfl
  have hgen : readCounter [("intent_id", .string ack.intentId),
      ("generation", .number (some ack.generation))] "generation" maxSafeInteger = some ack.generation :=
    readCounter_int h.2 rfl
  have honly : hasOnlyFields [("intent_id", .string ack.intentId),
      ("generation", .number (some ack.generation))] ["intent_id", "generation"] = true := by
    simp [hasOnlyFields]
  simp [readAcknowledgement, hjson, asRecord, honly, hid, hgen]

lemma readDirectoryAcknowledgement_toJson {ack : DirectoryAcknowledgement}
    (h : isDirectoryAcknowledgement ack) : readDirectoryAcknowledgement ack.toJson = some ack := by
  simp only [isDirectoryAcknowledgement, and_eq_true, decide_eq_true_eq, all_eq_true] at h
  obtain ⟨⟨hid, hlen⟩, hints⟩ := h
  obtain ⟨fields, hfld⟩ : ∃ fields, ack.toJson = .record fields := ⟨_, rfl⟩
  have hjson : ack.toJson = .record fields := hfld
  simp only [DirectoryAcknowledgement.toJson, record, JsonTrees.Tree.record.injEq] at hfld
  have hid' : readText fields "proposal_id" isProposalId = some ack.proposalId :=
    readText_string hid (by simp [← hfld])
  have hstat : readText fields "status" (fun _ => true) = some ack.status.text :=
    readText_string rfl (by simp [← hfld])
  have hitems : readArray fields "acknowledged_intents"
      = some (ack.acknowledgedIntents.map acknowledgementToJson) := by
    simp [readArray, ← hfld]
  have honly : hasOnlyFields fields ["proposal_id", "status", "acknowledged_intents"] = true := by
    rw [← hfld]
    exact hasOnlyFields_definedFields (by simp)
  have hread : (ack.acknowledgedIntents.map acknowledgementToJson).mapM readAcknowledgement
      = some ack.acknowledgedIntents :=
    mapM_toJson fun a ha => readAcknowledgement_toJson (hints a ha)
  simp [readDirectoryAcknowledgement, hjson, asRecord, honly, hid', hstat,
    ofText_text_acknowledgement, hitems, hlen, hread]

/-- The part that the results of an applied push share is read back from their records. -/
lemma readApplied_of_fields {fields : Fields} {allowed : List String} {applied : Applied}
    (h : isApplied applied) (honly : hasOnlyFields fields allowed)
    (hdev : valueAt fields "device_ref" = some (.string applied.deviceRef))
    (hmain : valueAt fields "main" = some (.string applied.main))
    (hseq : valueAt fields "event_seq" = some (.number (some applied.eventSeq))) (hack : valueAt fields "directory_ack"
      = applied.directoryAck.map DirectoryAcknowledgement.toJson) : readApplied fields allowed = some applied := by
  simp only [isApplied, and_eq_true, decide_eq_true_eq, Option.all_eq_true] at h
  obtain ⟨⟨⟨hdev', hmain'⟩, hseq'⟩, hack'⟩ := h
  have hread : readDefined fields "directory_ack" readDirectoryAcknowledgement
      = some applied.directoryAck :=
    readDefined_map _ (fun ack hmem => readDirectoryAcknowledgement_toJson (hack' ack hmem)) hack
  simp [readApplied, honly, readText_string hdev' hdev, readText_string hmain' hmain,
    readCounter_int hseq' hseq, hread]

lemma readPushResult_toJson {result : PushResult} (h : isPushResult result) :
    readPushResult result.toJson = some result := by
  obtain ⟨fields, hfld⟩ : ∃ fields, result.toJson = .record fields := by
    cases result <;> exact ⟨_, rfl⟩
  have hjson : result.toJson = .record fields := hfld
  cases result with
  | rejected code message =>
    simp only [isPushResult, and_eq_true] at h
    simp only [PushResult.toJson, record, JsonTrees.Tree.record.injEq] at hfld
    have hstat : readText fields "status" (fun _ => true) = some "rejected" :=
      readText_string rfl (by simp [← hfld])
    have honly : hasOnlyFields fields ["status", "code", "message"] = true :=
      hfld ▸ hasOnlyFields_definedFields (by simp)
    have hcode : readText fields "code" (isBoundedText 128) = some code :=
      readText_string h.1 (by simp [← hfld])
    have hmsg : readText fields "message" (isBoundedText 2048) = some message :=
      readText_string h.2 (by simp [← hfld])
    simp [readPushResult, hjson, asRecord, hstat, honly, hcode, hmsg]
  | noop applied =>
    simp only [PushResult.toJson, record, JsonTrees.Tree.record.injEq] at hfld
    have hstat : readText fields "status" (fun _ => true) = some "noop" :=
      readText_string rfl (by simp [← hfld])
    have happl : readApplied fields
        ["status", "device_ref", "main", "event_seq", "directory_ack"] = some applied :=
      readApplied_of_fields h (hfld ▸ hasOnlyFields_definedFields (by simp)) (by simp [← hfld])
        (by simp [← hfld]) (by simp [← hfld]) (by simp [← hfld])
    simp [readPushResult, hjson, asRecord, hstat, happl]
  | merged applied mergeCommit =>
    simp only [isPushResult, and_eq_true] at h
    simp only [PushResult.toJson, record, JsonTrees.Tree.record.injEq] at hfld
    have hstat : readText fields "status" (fun _ => true) = some "merged" :=
      readText_string rfl (by simp [← hfld])
    have happl : readApplied fields
        ["status", "device_ref", "main", "merge_commit", "event_seq", "directory_ack"]
          = some applied :=
      readApplied_of_fields h.1 (hfld ▸ hasOnlyFields_definedFields (by simp)) (by simp [← hfld])
        (by simp [← hfld]) (by simp [← hfld]) (by simp [← hfld])
    have hmerge : readText fields "merge_commit" isCommitId = some mergeCommit :=
      readText_string h.2 (by simp [← hfld])
    simp [readPushResult, hjson, asRecord, hstat, happl, hmerge]
  | conflicted applied conflictId =>
    simp only [isPushResult, and_eq_true] at h
    simp only [PushResult.toJson, record, JsonTrees.Tree.record.injEq] at hfld
    have hstat : readText fields "status" (fun _ => true) = some "conflicted" :=
      readText_string rfl (by simp [← hfld])
    have happl : readApplied fields
        ["status", "device_ref", "main", "conflict_id", "event_seq", "directory_ack"]
          = some applied :=
      readApplied_of_fields h.1 (hfld ▸ hasOnlyFields_definedFields (by simp)) (by simp [← hfld])
        (by simp [← hfld]) (by simp [← hfld]) (by simp [← hfld])
    have hconf : readText fields "conflict_id" isBoundedIdentifier = some conflictId :=
      readText_string h.2 (by simp [← hfld])
    simp [readPushResult, hjson, asRecord, hstat, happl, hconf]

/-- A receipt that the parser accepts in a session of so many chunks. -/
structure ChunkReceipt.Storable (receipt : ChunkReceipt) (chunkCount : Nat) : Prop where
  index : receipt.index < chunkCount ∧ receipt.index ≤ maxSafeInteger
  bytes : receipt.bytes ≤ maxByteCount
  sha256 : isSha256 receipt.sha256 = true

/-- What never changes after a session was created. -/
structure IdentityStorable (c : Collation) (u : Normalization) (s : PushSession) : Prop where
  transferId : isTransferId s.transferId = true
  vaultId : isBoundedIdentifier s.vaultId = true
  deviceId : isBoundedIdentifier s.deviceId = true
  attemptId : isAttemptId s.attemptId = true
  requestSha256 : isSha256 s.requestSha256 = true
  planSha256 : isSha256 s.planSha256 = true
  manifest : parseDevicePushManifest c u s.manifest.toJson = .ok s.manifest
  manifestIds : s.manifest.vaultId = s.vaultId ∧ s.manifest.deviceId = s.deviceId
    ∧ s.manifest.attemptId = some s.attemptId
  chunkCount : s.chunkCount ≤ maxSafeInteger
  createdAt : isIsoTimestamp s.createdAt = true

/-- The chunks received so far. -/
structure ReceiptsStorable (s : PushSession) : Prop where
  receipts : ∀ receipt ∈ s.receipts, receipt.Storable s.chunkCount
  indexes : (s.receipts.map (·.index)).Nodup
  receiptCount : s.receipts.length ≤ s.chunkCount
  totalBytes : receiptBytes s.receipts = s.totalBytes ∧ s.totalBytes ≤ maxByteCount
  storedBytes : ∀ n ∈ s.storedBytes, n ≤ maxStoredBytes

/-- The state of processing. -/
structure ProgressStorable (s : PushSession) : Prop where
  updatedAt : isIsoTimestamp s.updatedAt = true
  expiresAt : isIsoTimestamp s.expiresAt = true
  ordered : (dateParse s.createdAt).getD 0 ≤ (dateParse s.updatedAt).getD 0
  resultCombination : isSessionResultCombination s.status s.result = true
  result : ∀ result ∈ s.result, isPushResult result = true
  processingAttempts : ∀ n ∈ s.processingAttempts, n ≤ maxProcessingAttempts
  retryAt : ∀ text ∈ s.retryAt.join, isIsoTimestamp text = true
  retryCombination : isRetryCombination s.status s.processingErrorCode s.retryAt = true
  complete : s.status = .processing → s.receipts.length = s.chunkCount

structure Storable (c : Collation) (u : Normalization) (s : PushSession) : Prop where
  identity : IdentityStorable c u s
  received : ReceiptsStorable s
  progress : ProgressStorable s

lemma readReceipt_toJson {chunkCount total : Nat} {indexes : List Nat} {receipt : ChunkReceipt}
    (h : receipt.Storable chunkCount) (hfresh : receipt.index ∉ indexes)
    (htotal : total + receipt.bytes ≤ maxByteCount) :
    readReceipt chunkCount indexes total receipt.toJson = some receipt := by
  have hjson : receipt.toJson = .record [("index", .number (some receipt.index)),
    ("bytes", .number (some receipt.bytes)), ("sha256", .string receipt.sha256)] := rfl
  set fields : Fields := [("index", .number (some receipt.index)), ("bytes", .number (some receipt.bytes)),
    ("sha256", .string receipt.sha256)]
  have honly : hasOnlyFields fields ["index", "bytes", "sha256"] = true := by
    simp [hasOnlyFields, fields]
  have hindex : readCounter fields "index" maxSafeInteger = some receipt.index :=
    readCounter_int h.index.2 rfl
  have hbytes : readCounter fields "bytes" maxByteCount = some receipt.bytes :=
    readCounter_int h.bytes rfl
  have hsha : readText fields "sha256" isSha256 = some receipt.sha256 := readText_string h.sha256 rfl
  have hsafe : total ≤ maxSafeInteger - receipt.bytes := by
    have hle : maxByteCount ≤ maxSafeInteger := by decide
    omega
  simp [readReceipt, hjson, asRecord, honly, hindex, h.index.1, hfresh, hbytes, hsha, hsafe]

lemma readReceipts_toJson {chunkCount : Nat} {receipts : List ChunkReceipt} :
    ∀ (total : Nat) (indexes : List Nat), (∀ receipt ∈ receipts, receipt.Storable chunkCount) →
      (receipts.map (·.index)).Nodup → (∀ receipt ∈ receipts, receipt.index ∉ indexes) →
      total + receiptBytes receipts ≤ maxByteCount →
      readReceipts chunkCount indexes total (receipts.map ChunkReceipt.toJson) = some receipts := by
  induction receipts with
  | nil =>
    intro total indexes _ _ _ _
    rfl
  | cons receipt receipts ih =>
    intro total indexes hsto hnodup hfresh htotal
    obtain ⟨hfirst, hrest⟩ := forall_mem_cons.mp hsto
    obtain ⟨hfreF, hfreR⟩ := forall_mem_cons.mp hfresh
    rw [map_cons, nodup_cons] at hnodup
    have hsum : receiptBytes (receipt :: receipts) = receipt.bytes + receiptBytes receipts := rfl
    have hnext : ∀ other ∈ receipts, other.index ∉ add indexes receipt.index := by
      intro other hother hmem
      rcases mem_add.mp hmem with hold | hsame
      · exact hfreR other hother hold
      · exact hnodup.1 (hsame ▸ mem_map_of_mem hother)
    have hhead : readReceipt chunkCount indexes total receipt.toJson = some receipt :=
      readReceipt_toJson hfirst hfreF (by omega)
    have htail := ih (total + receipt.bytes) _ hrest hnodup.2 hnext (by omega)
    simp [readReceipts, hhead, htail]

variable {u : Normalization} {c : Collation}

/-- A storable session is accepted by the parser and read back unchanged. -/
lemma parsePersistedPushSession_toJson {s : PushSession}
    (h : Storable c u s) : parsePersistedPushSession c u s.toJson s.transferId = some s := by
  obtain ⟨hidn, hrcv, hprog⟩ := h
  obtain ⟨fields, hfld⟩ : ∃ fields, s.toJson = .record fields := ⟨_, rfl⟩
  have hjson : s.toJson = .record fields := hfld
  simp only [PushSession.toJson, record, JsonTrees.Tree.record.injEq] at hfld
  have hvers : readVersion fields = some () := by
    simp [readVersion, ← hfld]
  have honly : hasOnlyFields fields sessionFields = true := by
    rw [← hfld]
    exact hasOnlyFields_definedFields (by simp [sessionFields])
  have htran : readText fields "transfer_id"
      (fun text => text = s.transferId && isTransferId text) = some s.transferId :=
    readText_string (by simp [hidn.transferId]) (by simp [← hfld])
  have hvault : readText fields "vault_id" isBoundedIdentifier = some s.vaultId :=
    readText_string hidn.vaultId (by simp [← hfld])
  have hdev : readText fields "device_id" isBoundedIdentifier = some s.deviceId :=
    readText_string hidn.deviceId (by simp [← hfld])
  have hattempt : readText fields "attempt_id" isAttemptId = some s.attemptId :=
    readText_string hidn.attemptId (by simp [← hfld])
  have hreq : readText fields "request_sha256" isSha256 = some s.requestSha256 :=
    readText_string hidn.requestSha256 (by simp [← hfld])
  have hplan : readText fields "plan_sha256" isSha256 = some s.planSha256 :=
    readText_string hidn.planSha256 (by simp [← hfld])
  have hcount : readCounter fields "chunk_count" maxSafeInteger = some s.chunkCount :=
    readCounter_int hidn.chunkCount (by simp [← hfld])
  have htotal : readCounter fields "total_bytes" maxByteCount = some s.totalBytes :=
    readCounter_int hrcv.totalBytes.2 (by simp [← hfld])
  have hsto : readDefined fields "stored_bytes" (asCounter maxStoredBytes)
      = some s.storedBytes :=
    readDefined_map counterToJson (fun n hn => if_pos (hrcv.storedBytes n hn)) (by simp [← hfld])
  have hstat : readText fields "status" (fun _ => true) = some s.status.text :=
    readText_string rfl (by simp [← hfld])
  have hcr : readText fields "created_at" isIsoTimestamp = some s.createdAt :=
    readText_string hidn.createdAt (by simp [← hfld])
  have hupd : readText fields "updated_at" isIsoTimestamp = some s.updatedAt :=
    readText_string hprog.updatedAt (by simp [← hfld])
  have hexp : readText fields "expires_at" isIsoTimestamp = some s.expiresAt :=
    readText_string hprog.expiresAt (by simp [← hfld])
  have hitems : readArray fields "receipts" = some (s.receipts.map ChunkReceipt.toJson) := by
    simp [readArray, ← hfld]
  have hres : (valueAt fields "result").bind (readNullable readPushResult) = some s.result := by
    have hfield : valueAt fields "result" = some (ofOption PushResult.toJson s.result) := by
      simp [← hfld]
    rw [hfield, Option.bind_some]
    refine readNullable_ofOption (fun result hmem =>
      readPushResult_toJson (hprog.result result hmem)) ?_
    intro result _
    cases result <;> simp [PushResult.toJson, record]
  have hatt : readDefined fields "processing_attempts" (asCounter maxProcessingAttempts)
      = some s.processingAttempts :=
    readDefined_map counterToJson (fun n hn => if_pos (hprog.processingAttempts n hn)) (by simp [← hfld])
  have hcode : readDefined fields "processing_error_code"
      (readNullable fun value => value.asString.bind ProcessingErrorCode.ofText)
        = some s.processingErrorCode := by
    refine readDefined_map (ofOption fun code => .string code.text)
      (fun code _ => readNullable_ofOption ?_ ?_) (by simp [← hfld])
    · intro code _
      simp [Json.asString, ofText_text_code]
    · simp
  have hretry : readDefined fields "retry_at"
      (readNullable fun value => value.asString.filter isIsoTimestamp) = some s.retryAt := by
    refine readDefined_map (ofOption .string)
      (fun retry hretry => readNullable_ofOption ?_ ?_) (by simp [← hfld])
    · intro text htext
      have hiso := hprog.retryAt text (by rw [hretry, Option.join_some]; exact htext)
      simp [Json.asString, Option.filter, hiso]
    · simp
  have hman : ((valueAt fields "manifest").map (parseDevicePushManifest c u)).bind
      Except.toOption = some s.manifest := by
    have hfield : valueAt fields "manifest" = some s.manifest.toJson := by simp [← hfld]
    rw [hfield, Option.map_some, hidn.manifest]
    rfl
  have hrcps : readReceipts s.chunkCount [] 0 (s.receipts.map ChunkReceipt.toJson)
      = some s.receipts := by
    refine readReceipts_toJson 0 [] hrcv.receipts hrcv.indexes (by simp) ?_
    rw [Nat.zero_add, hrcv.totalBytes.1]
    exact hrcv.totalBytes.2
  -- every read of the parser succeeds with the field of the session, and every check holds
  refine bind_of_eq_some (congrArg asRecord hjson) ?_
  refine bind_of_eq_some hvers ?_
  refine guard_bind honly ?_
  refine bind_of_eq_some htran ?_
  refine bind_of_eq_some hvault ?_
  refine bind_of_eq_some hdev ?_
  refine bind_of_eq_some hattempt ?_
  refine bind_of_eq_some hreq ?_
  refine bind_of_eq_some hplan ?_
  refine bind_of_eq_some hcount ?_
  refine bind_of_eq_some htotal ?_
  refine bind_of_eq_some hsto ?_
  refine bind_of_eq_some (by rw [hstat, Option.bind_some, ofText_text]) ?_
  refine bind_of_eq_some hcr ?_
  refine bind_of_eq_some hupd ?_
  refine bind_of_eq_some hexp ?_
  refine guard_bind hprog.ordered ?_
  refine bind_of_eq_some hitems ?_
  refine guard_bind (by rw [length_map]; exact hrcv.receiptCount) ?_
  refine bind_of_eq_some hres ?_
  refine guard_bind hprog.resultCombination ?_
  refine bind_of_eq_some hatt ?_
  refine bind_of_eq_some hcode ?_
  refine bind_of_eq_some hretry ?_
  refine guard_bind hprog.retryCombination ?_
  refine bind_of_eq_some hman ?_
  refine guard_bind hidn.manifestIds ?_
  refine bind_of_eq_some hrcps ?_
  exact guard_bind ⟨hrcv.totalBytes.1, hprog.complete⟩ rfl

/-- The parser accepts no record of more than the maximum of attempts. -/
lemma processingAttempts_le_of_parsed {s t : PushSession}
    {transferId : String} (h : parsePersistedPushSession c u s.toJson transferId = some t) :
    ∀ n ∈ s.processingAttempts, n ≤ maxProcessingAttempts := by
  unfold parsePersistedPushSession at h
  obtain ⟨fields, hfld, h⟩ := Option.bind_eq_some_iff.mp h
  iterate 20 obtain ⟨_, -, h⟩ := Option.bind_eq_some_iff.mp h
  obtain ⟨attempts, hatt, -⟩ := Option.bind_eq_some_iff.mp h
  have hfield : valueAt fields "processing_attempts" = s.processingAttempts.map counterToJson := by
    simp only [PushSession.toJson, record, asRecord, Option.some.injEq] at hfld
    simp [← hfld]
  intro n hn
  rw [hn, Option.map_some] at hfield
  simp only [readDefined, hfield, counterToJson, asCounter_int] at hatt
  by_contra hgt
  rw [if_neg hgt] at hatt
  cases hatt

end TransferSessions
