import Obts.TransferSessions

/-!
# Chunk transfers

The writers of transfer records. Each operation of the service runs under the lock of its
transfer, so it is one step here: it reads the record on disk, decides, and writes at most one
record. A restart keeps the disk only. Locks, quarantine repositories and the push itself are not
here; what they answer is an argument of the step. A write that fails is a step that does not
happen, or one whose record reached the disk all the same.
-/
namespace ChunkTransfers

open InsertionOrder JsonRecords IsoTimestamps PathPolicy PushManifests SlashPath TransferSessions List
open Metadata (AuthError)

def crockford : List Char := "0123456789ABCDEFGHJKMNPQRSTVWXYZ".toList

/-- The last `width` digits of a number in base 32. -/
def crockfordDigits : Nat → Nat → List Char
  | 0, _ => []
  | width + 1, n => crockfordDigits width (n / 32) ++ [crockford.getD (n % 32) '0']

/-- `newId`: a prefix, ten characters of time and one for each of ten random bytes. -/
def newId (kind : String) (now : Nat) (random : List UInt8) : String :=
  String.ofList (kind.toList ++ '_' :: (crockfordDigits 10 now ++
    random.map fun byte => crockford.getD (byte.toNat / 8) '0'))

lemma crockford_getD (n : Nat) : isAsciiLetter (crockford.getD n '0') ∨ isDigit (crockford.getD n '0') := by
  have hall : crockford.all (fun ch => isAsciiLetter ch || isDigit ch) = true := by decide
  rw [getD_eq_getElem?_getD]
  cases h : crockford[n]? with
  | none => decide
  | some ch =>
    have hch := all_eq_true.mp hall ch (mem_of_getElem? h)
    exact (Bool.or_eq_true _ _).mp hch

lemma mem_crockfordDigits {width n : Nat} {ch : Char} (h : ch ∈ crockfordDigits width n) :
    isAsciiLetter ch ∨ isDigit ch := by
  induction width generalizing n with
  | zero => cases h
  | succ width ih =>
    rcases mem_append.mp h with hfront | hlast
    · exact ih hfront
    · rw [mem_singleton.mp hlast]
      exact crockford_getD _

lemma isTransferId_newId (now : Nat) (random : List UInt8) : isTransferId (newId "trn" now random) := by
  have hdrop : (newId "trn" now random).toList.drop 4 = crockfordDigits 10 now ++
      random.map fun byte => crockford.getD (byte.toNat / 8) '0' := by
    simp [newId]
  have hleads : "trn_".toList.isPrefixOf (newId "trn" now random).toList = true := by
    simp [newId]
  have hne : crockfordDigits 10 now ++
      (random.map fun byte => crockford.getD (byte.toNat / 8) '0') ≠ [] := by
    simp [crockfordDigits]
  have hclass : (crockfordDigits 10 now ++
      random.map fun byte => crockford.getD (byte.toNat / 8) '0').all isTransferIdChar = true := by
    rw [all_eq_true]
    intro ch hch
    have hok : isAsciiLetter ch = true ∨ isDigit ch = true := by
      rcases mem_append.mp hch with htime | hrand
      · exact mem_crockfordDigits htime
      · obtain ⟨byte, -, rfl⟩ := mem_map.mp hrand
        exact crockford_getD _
    rcases hok with h | h <;> simp [isTransferIdChar, h]
  simp only [isTransferId, hleads, hdrop, hclass, Bool.true_and, Bool.and_true, ne_eq, decide_eq_true_eq]
  exact hne

/-- What the service takes from its runtime. `requestSha256` is the digest of the request's JSON
text; the last two are those of a legacy intent with its index and of a proposal of such intents. -/
structure Runtime where
  collation : Collation
  normalization : Normalization
  sha256Hex : List UInt8 → String
  isSha256_sha256Hex : ∀ data, isSha256 (sha256Hex data) = true
  requestSha256 : ChunkPushCreateRequest → String
  isSha256_requestSha256 : ∀ request, isSha256 (requestSha256 request) = true
  intentSha256 : DirectoryIntents.DirectoryIntent → Nat → String
  isSha256_intentSha256 : ∀ intent index, isSha256 (intentSha256 intent index) = true
  proposalSha256 : DevicePushManifest → String
  isSha256_proposalSha256 : ∀ manifest, isSha256 (proposalSha256 manifest) = true

/-- The limits, within the ranges that `createServerConfig` accepts. -/
structure ServerConfig where
  (transferChunkBytes maxTransferBytes maxTransferChunks maxTransferStorageBytes transferTtlSeconds : Nat)
  chunk_range : 1048576 ≤ transferChunkBytes ∧ transferChunkBytes ≤ 33554432
  bytes_range : transferChunkBytes ≤ maxTransferBytes ∧ maxTransferBytes ≤ 8589934592
  chunks_range : 1 ≤ maxTransferChunks ∧ maxTransferChunks ≤ 16384
  storage_range : maxTransferBytes ≤ maxTransferStorageBytes ∧ maxTransferStorageBytes ≤ 17179869184
  ttl_range : 300 ≤ transferTtlSeconds ∧ transferTtlSeconds ≤ 604800

/-- The authenticated device; its identifiers were made by `newId`. -/
structure AuthenticatedDevice where
  (vaultId deviceId : String)
  vaultId_bounded : isBoundedIdentifier vaultId = true
  deviceId_bounded : isBoundedIdentifier deviceId = true

/-- What the service checks of itself before it serves a device. -/
structure Availability where
  (transferUnavailable deletionBlocked vaultBlocked : Bool)

abbrev Disk := List (String × Json)

/-- Why an operation stops: with an error only, or with the session's directory removed first. -/
structure Refusal where
  error : AuthError
  removed : Bool

def refuse {α : Type} (status : Nat) (code message : String) : Except Refusal α :=
  .error ⟨⟨status, code, message⟩, false⟩

def assertTransferAllowed (gate : Availability) : Except Refusal Unit :=
  if gate.transferUnavailable then
    refuse 503 "transfer_unavailable" "Transfer storage is unavailable."
  else if gate.deletionBlocked then refuse 404 "not_found" "Resource not found."
  else if gate.vaultBlocked then
    refuse 409 "blocked_integrity" "Vault persistent state failed integrity checks."
  else .ok ()

def verifySessionStructure (config : ServerConfig) (session : PushSession) : Bool :=
  !(session.chunkCount > config.maxTransferChunks || session.totalBytes > config.maxTransferBytes ||
    session.storedBytes.any (· > config.maxTransferStorageBytes) ||
    session.receipts.any (·.bytes > config.transferChunkBytes)) &&
  !((session.status = .completed || session.status = .rejected) && session.receipts.length ≠ session.chunkCount)

variable (rt : Runtime) (config : ServerConfig)

def readSession (disk : Disk) (transferId : String) : Option PushSession :=
  (valueAt disk transferId).bind fun value =>
    (parsePersistedPushSession rt.collation rt.normalization value transferId).filter
      (verifySessionStructure config)

def expired (session : PushSession) (now : Nat) : Bool :=
  session.status ≠ .processing && (dateParse session.expiresAt).any (· ≤ now)

def isRequestTransferId (text : String) : Bool :=
  "trn_".toList.isPrefixOf text.toList && text.toList.drop 4 ≠ [] &&
    (text.toList.drop 4).all fun ch => isAsciiLetter ch || isDigit ch

variable (auth : AuthenticatedDevice) (disk : Disk)

/-- `repositoryUsable` is the answer of the repository check, where the caller asks for it. -/
def requireSession (transferId : String) (now : Nat) (repositoryUsable : Bool) : Except Refusal PushSession :=
  if ¬ isRequestTransferId transferId then refuse 404 "not_found" "Resource not found."
  else match readSession rt config disk transferId with
    | none => refuse 404 "not_found" "Resource not found."
    | some session =>
      if session.vaultId ≠ auth.vaultId ∨ session.deviceId ≠ auth.deviceId then
        refuse 404 "not_found" "Resource not found."
      else if expired session now then
        .error ⟨⟨410, "transfer_expired", "Transfer expired."⟩, true⟩
      else if ¬ repositoryUsable then
        refuse 503 "transfer_unavailable" "Transfer storage is unavailable."
      else .ok session

/-- The sessions on disk that can be served. -/
def listSessions : List PushSession :=
  (disk.map Prod.fst).filterMap (readSession rt config disk)

def pruneExpired (now : Nat) : Disk :=
  ((listSessions rt config disk).filter (expired · now)).foldl
    (fun disk session => delete disk session.transferId) disk

def writeSession (session : PushSession) : Disk :=
  set disk session.transferId session.toJson

/-- The instant from which a session without further requests is expired. -/
def expiry (now : Nat) : Nat := now + config.transferTtlSeconds * 1000

/-- One call that creates a transfer. `covered` are the commits that the device's ref has. -/
structure CreateCall where
  gate : Availability
  body : Json
  covered : String → Bool
  (pruneAt budgetAt idAt : Nat)
  random : List UInt8
  (createdAt expiresFrom : Nat)
  initialized : Bool
  measured : Nat

def newSession (rt : Runtime) (config : ServerConfig) (auth : AuthenticatedDevice)
    (call : CreateCall) (request : ChunkPushCreateRequest) : PushSession where
  transferId := newId "trn" call.idAt call.random
  vaultId := auth.vaultId
  deviceId := auth.deviceId
  attemptId := request.attemptId
  requestSha256 := rt.requestSha256 request
  manifest := request.manifest (rt.sha256Hex [])
  planSha256 := request.planSha256
  chunkCount := request.chunkCount
  receipts := []
  totalBytes := 0
  storedBytes := some call.measured
  status := .opened
  result := none
  processingAttempts := some 0
  processingErrorCode := some none
  retryAt := some none
  createdAt := toISOString call.createdAt
  updatedAt := toISOString call.createdAt
  expiresAt := toISOString (expiry config call.expiresFrom)

def maxOpenTransfersPerDevice : Nat := 2

/-- The checks between the pruning and the new session; a known attempt answers its session. -/
def admitPush (call : CreateCall) (request : ChunkPushCreateRequest) : Except Refusal (Option PushSession) :=
  let sessions := listSessions rt config disk
  match sessions.find? fun session => session.vaultId = auth.vaultId &&
      session.deviceId = auth.deviceId && session.attemptId = request.attemptId with
  | some existing =>
    if existing.requestSha256 ≠ rt.requestSha256 request then
      refuse 409 "attempt_mismatch" "Transfer attempt does not match its original request."
    else .ok none
  | none =>
    let open' := sessions.filter fun session => session.deviceId = auth.deviceId &&
      (session.status = .opened || session.status = .processing) &&
      !expired session call.budgetAt && !call.covered session.manifest.targetCommit
    if open'.length ≥ maxOpenTransfersPerDevice then
      refuse 429 "too_many_transfers" "Too many open transfers for this device."
    else if ¬ call.initialized then
      refuse 503 "transfer_unavailable" "Transfer storage is unavailable."
    else .ok (some (newSession rt config auth call request))

/-- The checks before the pruning. -/
def checkCreate (call : CreateCall) : Except Refusal ChunkPushCreateRequest :=
  match parseChunkPushCreateRequest rt.collation rt.normalization call.body with
  | .error e => refuse 400 e.code e.message
  | .ok request => do
    assertTransferAllowed call.gate
    if request.vaultId ≠ auth.vaultId ∨ request.deviceId ≠ auth.deviceId then
      refuse 404 "not_found" "Resource not found."
    else if request.chunkCount > config.maxTransferChunks then
      refuse 413 "too_many_chunks" "Transfer has too many chunks."
    else .ok request

variable (transferId : String)

/-- The effect of an operation on the directory of its transfer. -/
def settle : Except Refusal (Option PushSession) → Disk
  | .ok (some session) => writeSession disk session
  | .ok none => disk
  | .error refusal => if refusal.removed then delete disk transferId else disk

def createPush (call : CreateCall) : Disk :=
  match checkCreate rt config auth call with
  | .error _ => disk
  | .ok request =>
    let disk := pruneExpired rt config disk call.pruneAt
    settle disk (newId "trn" call.idAt call.random) (admitPush rt config auth disk call request)

/-- What an operation on an existing transfer takes from outside: the self checks, the answer of
the repository check, and the clock when it looks at the expiry, stamps and extends it. -/
structure Call where
  gate : Availability
  repositoryUsable : Bool
  (readAt updatedAt expiresFrom : Nat)

def getPush (call : Call) : Except Refusal (Option PushSession) := do
  assertTransferAllowed call.gate
  let current ←
    requireSession rt config auth disk transferId call.readAt call.repositoryUsable
  if current.status = .opened ∧ current.processingErrorCode.join.isSome ∧
      current.receipts.length = current.chunkCount then
    .ok (some { current with
      status := .processing
      updatedAt := toISOString call.updatedAt
      expiresAt := toISOString (expiry config call.expiresFrom) })
  else .ok none

/-- A chunk as it was sent. -/
structure Chunk where
  index : Int
  data : List UInt8
  digest : String

/-- `accounting` is the audited size of the session's directory, `storage` that of the transfer
directory, `measured` the size of the session's directory after the import. -/
structure ChunkStorage where
  accounting : Option Nat
  storage : Nat
  (durable imported : Bool)
  measured : Nat

def removeTransfer {α : Type} (status : Nat) (code message : String) : Except Refusal α :=
  .error ⟨⟨status, code, message⟩, true⟩

/-- The part of `putChunk` under the storage lock. -/
def storeChunk (session : PushSession) (call : Call) (chunk : Chunk)
    (files : ChunkStorage) : Except Refusal (Option PushSession) :=
  match files.accounting with
  | none => refuse 503 "transfer_unavailable" "Transfer storage is unavailable."
  | some previous =>
    if files.storage + chunk.data.length > config.maxTransferStorageBytes then
      refuse 507 "transfer_storage_full" "Transfer quarantine storage is full."
    else if ¬ files.durable then
      refuse 503 "transfer_unavailable" "Transfer storage is unavailable."
    else if ¬ files.imported then
      refuse 422 "malformed_packfile" "Chunk is not a valid Git pack."
    else if files.measured > config.maxTransferBytes ∨
        files.storage - previous + files.measured > config.maxTransferStorageBytes then
      removeTransfer 413 "transfer_too_large"
        "Transfer expanded beyond its configured quarantine limit."
    else .ok (some { session with
      storedBytes := some files.measured
      receipts := sortBy (compareOn ChunkReceipt.index)
        (session.receipts ++ [⟨chunk.index.toNat, chunk.data.length, chunk.digest⟩])
      totalBytes := session.totalBytes + chunk.data.length
      updatedAt := toISOString call.updatedAt
      expiresAt := toISOString (expiry config call.expiresFrom) })

def putChunk (call : Call) (chunk : Chunk) (files : ChunkStorage) : Except Refusal (Option PushSession) := do
  assertTransferAllowed call.gate
  let session ←
    requireSession rt config auth disk transferId call.readAt call.repositoryUsable
  if session.status ≠ .opened then
    refuse 409 "transfer_closed" "Transfer is no longer open."
  else if chunk.index < 0 ∨ session.chunkCount ≤ chunk.index then
    refuse 400 "invalid_chunk_index" "Invalid chunk index."
  else if chunk.data.length = 0 ∨ chunk.data.length > config.transferChunkBytes then
    refuse 413 "chunk_too_large" "Chunk exceeds the configured transfer limit."
  else if rt.sha256Hex chunk.data ≠ chunk.digest then
    refuse 422 "chunk_digest_mismatch" "Chunk digest does not match."
  else match session.receipts.find? fun receipt => receipt.index = chunk.index.toNat with
    | some existing =>
      if existing.sha256 ≠ chunk.digest ∨ existing.bytes ≠ chunk.data.length then
        refuse 409 "chunk_conflict" "Chunk index was already uploaded with different content."
      else .ok none
    | none =>
      if session.totalBytes + chunk.data.length > config.maxTransferBytes then
        refuse 413 "transfer_too_large" "Transfer exceeds the configured aggregate limit."
      else storeChunk config session call chunk files

variable (manifest : DevicePushManifest)

/-- `normalizeDirectoryProposal` and `proposalAcknowledgement`: the proposal of the manifest, or one
that is made of its legacy intents. -/
def directoryAcknowledgement (status : AcknowledgementStatus) : Option DirectoryAcknowledgement :=
  match manifest.directoryProposal, manifest.directoryIntents with
  | some proposal, _ =>
    some ⟨proposal.proposalId, status, proposal.intents.map fun intent =>
      ⟨intent.intentId, intent.generation⟩⟩
  | none, some (intent :: intents) =>
    some ⟨"dirprop_" ++ rt.proposalSha256 manifest, status, (intent :: intents).zipIdx.map
      fun (intent, index) =>
        ⟨"legacy_" ++ String.ofList ((rt.intentSha256 intent index).toList.take 24), index⟩⟩
  | _, _ => none

abbrev CommitId := { text : String // isCommitId text = true }

/-- What the results of an applied push share: commits that Git named, and how the proposal of the
manifest is acknowledged. -/
structure PushedHead where
  (deviceRef main : CommitId)
  eventSeq : Nat
  directoryStatus : Option AcknowledgementStatus

def PushedHead.applied (head : PushedHead) : Applied :=
  ⟨head.deviceRef, head.main, head.eventSeq, head.directoryStatus.bind (directoryAcknowledgement rt manifest)⟩

/-- How `pushDeviceCommit` ends. The id of a conflict is the server's own. -/
inductive Pushed where
  | noop (head : PushedHead)
  | merged (head : PushedHead) (mergeCommit : CommitId)
  | conflicted (head : PushedHead) (conflictId : { text : String // isBoundedIdentifier text = true })
  | rejected (code message : String)

/-- The result of `processPush`. -/
def Pushed.result : Pushed → PushResult
  | .noop head => .noop (head.applied rt manifest)
  | .merged head mergeCommit => .merged (head.applied rt manifest) mergeCommit
  | .conflicted head conflictId => .conflicted (head.applied rt manifest) conflictId
  | .rejected code message => .rejected code message

/-- `pushed` is the result of the push, none when it throws. -/
def finalizePush (call : Call) (pushed : Option Pushed) : Except Refusal (Option PushSession) := do
  assertTransferAllowed call.gate
  let session ←
    requireSession rt config auth disk transferId call.readAt call.repositoryUsable
  match session.status with
  | .completed | .rejected | .aborted =>
    if session.result.isNone then refuse 409 "transfer_closed" "Transfer is no longer open."
    else .ok none
  | .processing => refuse 409 "transfer_processing" "Transfer finalization is already processing."
  | .opened =>
    if session.receipts.length ≠ session.chunkCount then
      refuse 409 "transfer_incomplete" "Transfer is missing one or more chunks."
    else match pushed with
      | none => .ok none
      | some pushed =>
        let result := pushed.result rt session.manifest
        .ok (some { session with
          result := if result.isRejected then none else some result
          status := if result.isRejected then .opened else .completed
          updatedAt := toISOString call.updatedAt })

def beginFinalizePush (call : Call) : Except Refusal (Option PushSession) := do
  assertTransferAllowed call.gate
  let current ←
    requireSession rt config auth disk transferId call.readAt call.repositoryUsable
  match current.status with
  | .completed | .rejected | .aborted => .ok none
  | _ =>
    if current.receipts.length ≠ current.chunkCount then
      refuse 409 "transfer_incomplete" "Transfer is missing one or more chunks."
    else .ok (some { current with
      status := .processing
      updatedAt := toISOString call.updatedAt
      expiresAt := toISOString (expiry config call.expiresFrom) })

/-- How one attempt of the background processing ends. -/
inductive Attempt where
  | result (pushed : Pushed)
  | authError (error : AuthError)
  | durabilityError
  | failed (gitCommand : Bool)

/-- A rejection by Git itself counts as a failed attempt. -/
def Attempt.effective : Attempt → Attempt
  | .result (.rejected "git_error" _) => .failed true
  | attempt => attempt

def retryMs (attempts : Nat) : Nat := min 60000 (1000 * 2 ^ min (attempts - 1) 6)

def settledSession (session : PushSession) (result : PushResult) (updatedAt : Nat) : PushSession :=
  { session with
    result := some result
    status := if result.isRejected then .rejected else .completed
    processingErrorCode := some none
    retryAt := some none
    updatedAt := toISOString updatedAt }

def failedSession (session : PushSession) (gitCommand : Bool) (retryFrom : Nat) (call : Call) : PushSession :=
  let attempts := session.processingAttempts.getD 0 + 1
  { session with
    result := none
    processingAttempts := some attempts
    processingErrorCode := some (some (if gitCommand then .serverGitError
      else .serverProcessingError))
    retryAt := some (some (toISOString (retryFrom + retryMs attempts)))
    updatedAt := toISOString call.updatedAt
    expiresAt := toISOString (expiry config call.expiresFrom) }

/-- The end of one round of `processPendingPush`: the latest record is read again, and written
only when it is still processing. -/
def processPendingPush (call : Call) (attempt : Attempt) (retryFrom : Nat) :
    Except Refusal (Option PushSession) :=
  match attempt.effective with
  | .durabilityError => .ok none
  | .result pushed => do
    let latest ←
      requireSession rt config auth disk transferId call.readAt call.repositoryUsable
    if latest.status ≠ .processing then .ok none
    else .ok (some (settledSession latest (pushed.result rt latest.manifest) call.updatedAt))
  | .authError error => do
    -- the repository check is left out: it may be what failed
    let latest ← requireSession rt config auth disk transferId call.readAt true
    if latest.status ≠ .processing then .ok none
    else .ok (some (settledSession latest (.rejected error.code error.message) call.updatedAt))
  | .failed gitCommand => do
    let latest ←
      requireSession rt config auth disk transferId call.readAt call.repositoryUsable
    if latest.status ≠ .processing then .ok none
    else .ok (some (failedSession config latest gitCommand retryFrom call))

/-- One session of `drainVault` or `drainDevice`; no device stands for the whole vault. -/
def drain (transferId vaultId : String) (deviceId : Option String) (updatedAt : Nat) : Option PushSession :=
  match readSession rt config disk transferId with
  | none => none
  | some current =>
    if current.vaultId ≠ vaultId ∨ deviceId.any (· ≠ current.deviceId) then none
    else if current.status = .processing ∨ current.status = .opened then
      some { current with
        status := .aborted
        result := none
        processingErrorCode := some none
        retryAt := some none
        updatedAt := toISOString updatedAt }
    else none

/-- The accounting repair of the startup scan; `actual` is the audited size. -/
def repairAccounting (actual : Nat) : Option PushSession :=
  match readSession rt config disk transferId with
  | none => none
  | some session =>
    if actual > config.maxTransferBytes ∨ actual > config.maxTransferStorageBytes then none
    else if session.storedBytes.any (· ≠ actual) then
      some { session with storedBytes := some actual }
    else none

def isGitErrorRejection : Option PushResult → Bool
  | some (.rejected code _) => code = "git_error"
  | _ => false

/-- `initialize` opens a transfer again that a Git error had rejected. -/
def reopen (readAt : Nat) (deletionBlocked : Bool) (retryAt updatedAt : Nat) : Option PushSession :=
  match readSession rt config disk transferId with
  | none => none
  | some session =>
    if expired session readAt ∨ session.status ≠ .rejected ∨
        ¬ isGitErrorRejection session.result ∨ deletionBlocked then none
    else some { session with
      status := .opened
      result := none
      processingAttempts := some 0
      processingErrorCode := some (some .serverGitError)
      retryAt := some (some (toISOString retryAt))
      updatedAt := toISOString updatedAt }

end ChunkTransfers
