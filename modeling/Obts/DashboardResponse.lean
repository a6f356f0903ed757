import Obts.DeletionRecords
import Obts.FrontmatterFiles
import Obts.GitTrees
import Obts.JsonTrees
import Obts.PortableNames

/-!
# The dashboard of a vault

What the owner of a vault is shown: its devices with their labels, its conflicts, its latest events and the paths
that some devices cannot store. The times of the heartbeats are not part of the response here, only what is
derived from them; the health of the server is the same for all states and left out, with the rows made of it.
-/
namespace DashboardResponse

open InsertionOrder SlashPath GitTrees JsonTrees
open Metadata (VaultStatus ConflictStatus ConflictKind ConflictResolutionKind RenamePair DirectoryConflictContext
  DirectoryStateRow EventType)
open DeletionRecords (DeviceStatus)

mutual
def sameJson : Json → Json → Bool
  | .null, .null => true
  | .boolean value, .boolean other => value = other
  | .number value, .number other => value = other
  | .string value, .string other => value = other
  | .array items, .array others => sameItems items others
  | .record fields, .record others => sameFields fields others
  | _, _ => false

def sameItems : List Json → List Json → Bool
  | [], [] => true
  | value :: items, other :: others => sameJson value other && sameItems items others
  | _, _ => false

def sameFields : Fields → Fields → Bool
  | [], [] => true
  | (key, value) :: fields, (otherKey, other) :: others =>
    key = otherKey && sameJson value other && sameFields fields others
  | _, _ => false
end

lemma sameItems_iff {items : List Json} (h : ∀ value ∈ items, ∀ other, sameJson value other ↔ value = other)
    (others : List Json) : sameItems items others ↔ items = others := by
  induction items generalizing others with
  | nil => cases others <;> simp [sameItems]
  | cons value items ih =>
    rw [List.forall_mem_cons] at h
    cases others with
    | nil => simp [sameItems]
    | cons other others => rw [sameItems, Bool.and_eq_true, h.1, ih h.2, List.cons.injEq]

lemma sameFields_iff {fields : Fields} (h : ∀ e ∈ fields, ∀ other, sameJson e.2 other ↔ e.2 = other)
    (others : Fields) : sameFields fields others ↔ fields = others := by
  induction fields generalizing others with
  | nil => cases others <;> simp [sameFields]
  | cons e fields ih =>
    rw [List.forall_mem_cons] at h
    cases others with
    | nil => simp [sameFields]
    | cons other others =>
      rw [sameFields, Bool.and_eq_true, Bool.and_eq_true, decide_eq_true_eq, h.1, ih h.2, List.cons.injEq,
        Prod.ext_iff]

lemma sameJson_iff (value : Json) : ∀ other, sameJson value other ↔ value = other := by
  induction value using Tree.ofParts with
  | null | boolean | number | string => intro other; cases other <;> simp [sameJson]
  | array items ih => intro other; cases other <;> simp [sameJson, sameItems_iff ih]
  | record fields ih => intro other; cases other <;> simp [sameJson, sameFields_iff ih]

instance : DecidableEq Json := fun value other => decidable_of_iff _ (sameJson_iff value other)

structure VaultRow where
  (vaultId ownerUserId displayName : String)
  status : VaultStatus
  /-- Absent or null. -/
  rootCommit : Option (Option String)
  currentMain : String
  metadataConflictRules : Option (List FrontmatterFiles.MetadataConflictRule)
  (createdAt updatedAt : String)
  deriving DecidableEq

inductive OnboardingStatus where
  | pending
  | complete
  deriving DecidableEq

structure DeviceRow where
  (deviceId vaultId userId deviceName : String)
  deviceRefHead : Option String := none
  status : DeviceStatus := .synced
  lastAppliedMain : Option String := none
  lastSeenAt : Option String := none
  localStatusLabel : Option String := none
  localErrorCode : Option String := none
  localQueueStatus : Option String := none
  localMain : Option String := none
  localHead : Option String := none
  pluginVersion : Option String := none
  pathCapabilities : Option Fields := none
  lastStatusReportAt : Option String := none
  onboardingStatus : Option OnboardingStatus := none
  revokedAt : Option String := none

inductive RemovalState where
  | pending
  | failed
  deriving DecidableEq

structure DeviceRemovalJob where
  (deviceId vaultId : String)
  state : RemovalState
  errorCode : Option String
  retryable : Bool

structure ConflictRecord where
  (conflictId vaultId deviceId : String)
  status : ConflictStatus
  (baseCommit currentMain deviceCommit expectedMain : String)
  affectedPaths : List Path
  (affectedPathCount mergeSequence : Nat)
  mergePolicyVersion : String
  conflictKind : ConflictKind
  renamePairs : Option (List RenamePair)
  directoryContext : Option DirectoryConflictContext
  (validatorResults validatorSummary : Fields)
  createdAt : String
  (resolvedAt resolvedByUserId : Option String)
  resolutionKind : Option ConflictResolutionKind
  (resolutionCommit resolutionRequestHash : Option String)
  deriving DecidableEq

structure EventEnvelope where
  eventId : String
  eventSeq : Nat
  eventType : EventType
  vaultId : String
  resourceIds : List (String × String)
  commitCursors : List (String × Option String)
  createdAt : String

structure DiagnosticEventRow where
  (eventId ownerUserId : String)
  vaultId : Option String

structure UserRow where
  (userId username displayName : String)
  (isAdmin disabled : Bool)

structure SessionRow where
  (sessionId userId expiresAt : String)
  revokedAt : Option String

structure MetadataDb where
  users : List UserRow := []
  sessions : List SessionRow := []
  vaults : List VaultRow := []
  devices : List DeviceRow := []
  conflicts : List ConflictRecord := []
  events : List EventEnvelope := []
  diagnosticEvents : List DiagnosticEventRow := []
  eventSeqByVault : List (String × Nat) := []
  directoryStateByVault : List (String × DirectoryStateRow) := []
  deletionJobs : List DeletionJob := []
  deletionReceipts : List DeletionReceipt := []
  deviceRemovalJobs : List DeviceRemovalJob := []

def isDeviceRevoked (device : DeviceRow) : Bool := device.revokedAt.isSome || device.status = .revoked

/-- What belongs to the JavaScript runtime, at one time of its clock. -/
structure Host where
  now : Int
  /-- `Date.parse`, nothing being no number. -/
  dateParse : String → Option Int
  localeCompare : String → String → Ordering
  /-- `Math.floor(completed / total * 10)` in floating point. -/
  tenths : Nat → Nat → Nat
  folding : PortableNames.CaseFolding

inductive AncestryVerdict where
  | ancestor
  | notAncestor
  | unknown
  deriving DecidableEq

/-- What Git answers for the repository of the vault; nothing where it fails. -/
structure Git where
  mergeBaseIsAncestor : String → String → AncestryVerdict
  commitExists : String → Bool
  changedPaths : String → String → Option (List GitDiffEntry)
  mergeBase : String → String → Option String
  treePaths : String → Option (List (List Char))

def ancestryVerdict (git : Git) (ancestor descendant : String) : AncestryVerdict :=
  if ancestor = descendant then .ancestor else git.mergeBaseIsAncestor ancestor descendant

def isAncestor (git : Git) (ancestor descendant : String) : Bool :=
  git.mergeBaseIsAncestor ancestor descendant = .ancestor

def reportedErrorCodes : List String :=
  ["applied_main_acknowledgement_failed", "apply_journal_recovery_required", "apply_lock_active",
   "apply_recovery_required", "blocked_integrity", "chunk_digest_mismatch", "chunk_too_large",
   "catchup_local_changes", "conflict_review_required", "connection_not_approved", "device_blocked",
   "device_identity_mismatch", "device_revoked", "directory_acknowledgement_missing",
   "directory_baseline_recovery_journal_invalid", "directory_baseline_recovery_unsafe", "directory_delete_failed",
   "directory_identity_unavailable", "directory_inspection_failed", "directory_materialization_failed",
   "directory_recovery_changed", "directory_recovery_choice_invalid", "directory_recovery_decision_required",
   "directory_recovery_journal_invalid", "directory_recovery_journal_mismatch", "directory_recovery_not_pending",
   "displaced_recovery_archive_exists", "exclusive_write_unavailable", "file_too_large", "git_error",
   "initial_import_confirmation_required", "invalid_onboarding_base", "invalid_path", "invalid_transfer_checkpoint",
   "invalid_transfer_cursor", "invalid_transfer_plan", "local_queue_changed", "local_ref_changed",
   "local_ref_lease_lost", "local_ref_lock_active", "local_ref_recovery_required", "local_snapshot_changed",
   "local_state_already_paired", "local_state_incomplete", "network_error", "not_paired",
   "object_too_large_for_chunk", "onboarding_catchup_busy", "onboarding_identity_mismatch", "onboarding_incomplete",
   "onboarding_local_changes_after_submit", "onboarding_snapshot_changed", "operation_interrupted_by_reload",
   "pack_preparation_failed", "partial_local_state", "recovery_bundle_durability_unavailable",
   "recovery_bundle_failed", "recovery_bundle_verification_failed", "replace_local_with_server_not_required",
   "replace_local_with_server_required", "same_device_non_fast_forward", "server_git_error",
   "server_processing_error", "server_recovery_required", "server_update_required", "stale_device_ref",
   "stale_directory_proposal_base", "sync_error", "sync_lease_blocked", "target_blob_size_mismatch",
   "target_blob_size_unavailable", "transfer_closed", "transfer_incomplete", "transfer_too_large",
   "unportable_target_paths", "unsafe_local_state", "upload_interrupted"]

def safeReportedErrorCode (code : Option String) : Option String :=
  code.map fun code => if reportedErrorCodes.contains code then code else "sync_error"

def safeReportedQueueStatus (status : Option String) : Option String :=
  status.map fun status =>
    if ["idle", "queued_local", "uploading", "merged", "conflicted", "blocked_recovery"].contains status then status
    else "unknown"

structure PathCapabilities where
  (adapter platform : String)
  rootIgnore : Bool
  deriving DecidableEq

def safePathCapabilities (value : Option Fields) : Option PathCapabilities :=
  value.map fun value => {
    adapter := match propertyOf value "adapter" with
      | some (.string "obsidian-data-adapter") => "obsidian-data-adapter"
      | _ => "unknown"
    platform := match propertyOf value "platform" with
      | some (.string platform) =>
        if ["ios", "android", "linux", "darwin", "win32"].contains platform then platform else "unknown"
      | _ => "unknown"
    rootIgnore := match propertyOf value "root_ignore" with
      | some (.boolean true) => true
      | _ => false }

variable (digits : List Char)

/-- `VERSION` on one of its three numbers. -/
def isVersionNumber : Bool :=
  digits = ['0'] || (digits.length ≤ 3 && digits.all Char.isDigit && !digits.isEmpty && digits.head? ≠ some '0')

def safeReportedPluginVersion (version : String) : String :=
  let numbers := version.toList.splitOn '.'
  if numbers.length = 3 && numbers.all isVersionNumber then version else "unknown"

def activeStatusBases : List String :=
  ["Checking", "Checking changes", "Verifying contents", "Preparing upload", "Uploading", "Applying", "Merging",
   "Server retrying", "Repairing baseline", "Finishing update", "Waiting for operation"]

def activeStatusQualifiers : List String :=
  ["planning objects", "revalidating", "verifying vault", "verifying", "checking local edits", "listing vault files",
   "finishing", "requesting changes", "local files", "checking directories", "preserving local changes",
   "acknowledging"]

/-- The base with one of the qualifiers or none. -/
def activeStatusHeads : List String :=
  activeStatusBases.flatMap fun base => base :: activeStatusQualifiers.map fun qualifier =>
    base ++ " (" ++ qualifier ++ ")"

def takingLonger : List Char := " (taking longer than expected)".toList

inductive Progress where
  | none
  | counts (completed total : Nat)
  | percent (bucket : String)

def digitsValue : Nat := digits.foldl (fun value c => value * 10 + (c.toNat - 48)) 0

def isDigits : Bool := !digits.isEmpty && digits.all Char.isDigit

/-- `(?: ([0-9]+)\/([0-9]+)| \(~(0|10|…|100)%\))?` -/
def readProgress (text : List Char) : Option Progress :=
  if text.isEmpty then some .none
  else match ["0", "10", "20", "30", "40", "50", "60", "70", "80", "90", "100"].find? fun bucket =>
      (" (~" ++ bucket ++ "%)").toList = text with
    | some bucket => some (.percent bucket)
    | none =>
      match text with
      | ' ' :: counts =>
        let completed := counts.takeWhile Char.isDigit
        match counts.drop completed.length with
        | '/' :: total => if isDigits completed && isDigits total then
            some (.counts (digitsValue completed) (digitsValue total)) else none
        | _ => none
      | _ => none

/-- What follows the head: the progress, and whether it takes longer than expected. -/
def readTail (text : List Char) : Option (Progress × Bool) :=
  match readProgress text with
  | some progress => some (progress, false)
  | none =>
    if takingLonger.isSuffixOf text then
      (readProgress (text.take (text.length - takingLonger.length))).map fun progress => (progress, true)
    else none

variable (label : String)

/-- `REPORTED_ACTIVE_STATUS` -/
def reportedActiveStatus : Option (String × Progress × Bool) :=
  activeStatusHeads.findSome? fun head =>
    if head.toList.isPrefixOf label.toList then
      (readTail (label.toList.drop head.toList.length)).map fun tail => (head, tail)
    else none

/-- `NORMALIZED_ACTIVE_STATUS`: no counts. -/
def normalizedActiveStatus : Bool :=
  match reportedActiveStatus label with
  | some (_, .counts _ _, _) => false
  | some _ => true
  | none => false

def statusBases : List String :=
  ["Verifying contents", "Preparing upload", "Uploading", "Applying", "Checking", "Merging", "Server retrying",
   "Repairing baseline", "Finishing update", "Waiting for operation"]

def localStatusBaseLabel (label : Option String) : Option String :=
  label.map fun label =>
    (statusBases.find? fun base => label = base || (base ++ " ").toList.isPrefixOf label.toList).getD label

def localRecoveryCodes : List String :=
  ["unsafe_local_state", "apply_journal_recovery_required", "apply_recovery_required", "recovery_bundle_failed",
   "recovery_bundle_verification_failed", "recovery_bundle_durability_unavailable",
   "directory_baseline_recovery_journal_invalid", "directory_baseline_recovery_unsafe",
   "directory_recovery_journal_invalid", "directory_recovery_journal_mismatch",
   "directory_recovery_decision_required", "directory_recovery_changed", "local_ref_recovery_required",
   "replace_local_with_server_required", "server_recovery_required", "stale_device_ref",
   "same_device_non_fast_forward", "local_state_incomplete"]

/-- The label of a reported error. -/
def errorCodeLabel (label : Option String) (code : String) : String :=
  if code = "object_too_large_for_chunk" then
    if label = some "Out of sync — file exceeds upload limit" then "Out of sync — file exceeds upload limit"
    else "Out of sync — upload limit exceeded"
  else if code = "blocked_integrity" then "Server repair required"
  else if code = "initial_import_confirmation_required" then "Blocked"
  else if code = "unportable_target_paths" then "Out of sync — file names need repair"
  else if localRecoveryCodes.contains code then "Out of sync — local recovery required"
  else if code = "local_snapshot_changed" then "Checking"
  else if code = "stale_directory_proposal_base" then "Repairing baseline"
  else if ["git_error", "server_git_error", "server_processing_error"].contains code then "Server retrying"
  else "Out of sync"

/-- The empty texts are as good as absent ones. -/
def normalizedLocalDashboardLabel (label code : Option String) : String :=
  if code = some "conflict_review_required" || label = some "Conflict resolution needed" then "Out of sync"
  else match code.filter (· ≠ "") with
    | some code => errorCodeLabel label code
    | none =>
      match label.filter (· ≠ "") with
      | none => "Out of sync"
      | some label =>
        if ["Review needed", "Unsafe local state", "Needs recovery"].contains label then "Out of sync"
        else if ["Out of sync", "Out of sync — file exceeds upload limit", "Out of sync — upload limit exceeded",
            "Out of sync — local recovery required", "Out of sync — file names need repair", "Blocked", "Offline",
            "Ahead", "Behind", "Server repair required"].contains label then label
        else if normalizedActiveStatus label then label
        else match localStatusBaseLabel (some label) with
          | some progressBase => if statusBases.contains progressBase then progressBase else "Out of sync"
          | none => "Out of sync"

/-- `^(Applying \(listing vault files\)) [0-9]+ files · [0-9]+ directories( \(taking longer than expected\))?$` -/
def inventoryLabel : Option String :=
  let head := "Applying (listing vault files)"
  if (head ++ " ").toList.isPrefixOf label.toList then
    let text := label.toList.drop (head ++ " ").toList.length
    let files := text.takeWhile Char.isDigit
    let afterFiles := text.drop files.length
    let middle := " files · ".toList
    if isDigits files && middle.isPrefixOf afterFiles then
      let counted := afterFiles.drop middle.length
      let directories := counted.takeWhile Char.isDigit
      let rest := counted.drop directories.length
      if !isDigits directories then none
      else if rest = " directories".toList then some head
      else if rest = " directories".toList ++ takingLonger then some (head ++ String.ofList takingLonger)
      else none
    else none
  else none

def maxSafeInteger : Nat := 2 ^ 53 - 1

section Labels

variable (host : Host)

/-- The active status with its counts rounded to tenths. -/
def activeStatusLabel (head : String) (progress : Progress) (late : Bool) : String :=
  let bucket : Option String := match progress with
    | .none => Option.none
    | .percent bucket => some bucket
    | .counts completed total =>
      if completed ≤ maxSafeInteger && total ≤ maxSafeInteger && total > 0 && completed ≤ total then
        some (toString (host.tenths completed total * 10))
      else Option.none
  head ++ (match bucket with
    | some bucket => " (~" ++ bucket ++ "%)"
    | none => "") ++ (if late then String.ofList takingLonger else "")

def plainStatusLabels : List String :=
  ["Synced", "Ahead", "Behind", "Offline", "Out of sync", "Blocked", "Server repair required",
   "Out of sync — file exceeds upload limit", "Out of sync — upload limit exceeded",
   "Out of sync — local recovery required", "Out of sync — file names need repair"]

def safeReportedStatusLabel (label errorCode : Option String) : String :=
  if (errorCode.filter (· ≠ "")).isSome then normalizedLocalDashboardLabel label errorCode
  else match label with
    | none => "Checking"
    | some label =>
      if ["Unsafe local state", "Review needed", "Needs recovery"].contains label then "Out of sync"
      else if plainStatusLabels.contains label then label
      else match reportedActiveStatus ((inventoryLabel label).getD label) with
        | some (head, progress, late) => activeStatusLabel host head progress late
        | none => "Out of sync"

def isFreshDeviceStatus (reportedAt : Option String) : Bool :=
  match reportedAt.bind host.dateParse with
  | some time => host.now - time ≤ 5 * 60 * 1000
  | none => false

end Labels

def overrideLabels : List String :=
  ["Unsafe local state", "Out of sync", "Out of sync — file exceeds upload limit",
   "Out of sync — upload limit exceeded", "Out of sync — local recovery required",
   "Out of sync — file names need repair", "Conflict resolution needed", "Needs recovery", "Blocked",
   "Verifying contents", "Preparing upload", "Uploading", "Applying", "Checking", "Merging", "Server retrying",
   "Repairing baseline", "Finishing update", "Waiting for operation", "Behind", "Offline", "Ahead", "Review needed"]

def isLocalStatusOverride (label errorCode : Option String) : Bool :=
  (errorCode.filter (· ≠ "")).isSome || (localStatusBaseLabel label).any overrideLabels.contains

def isBlockingLocalReport (label errorCode : Option String) : Bool :=
  (errorCode.filter (· ≠ "")).isSome || ["Unsafe local state", "Needs recovery", "Blocked", "Review needed",
    "Conflict resolution needed", "Out of sync — file exceeds upload limit", "Out of sync — upload limit exceeded",
    "Out of sync — local recovery required", "Out of sync — file names need repair"].contains (label.getD "")

def deviceStatusLabel : DeviceStatus → String
  | .synced => "Synced"
  | .reviewNeeded => "Conflict resolution needed"
  | .blockedRecovery => "Needs recovery"
  | .paired => "Checking"
  | .revoked => "Blocked"
  | .ahead => "Ahead"

structure LabelState where
  (behindMain offline : Bool)
  (localStatusLabel localErrorCode : Option String)
  (pendingLocal convergenceProven : Bool)

def dashboardDeviceStatusLabel (status : DeviceStatus) (state : LabelState) : String :=
  if status = .reviewNeeded then "Conflict resolution needed"
  else if isLocalStatusOverride state.localStatusLabel state.localErrorCode then
    normalizedLocalDashboardLabel state.localStatusLabel state.localErrorCode
  else if status = .synced && state.offline then "Offline"
  else if status = .synced && state.behindMain then "Behind"
  else if status = .synced && state.pendingLocal then "Ahead"
  else if status = .synced && !state.convergenceProven then "Status unknown"
  else deviceStatusLabel status

structure RemovalSummary where
  state : RemovalState
  retryable : Bool
  errorCode : Option String
  deriving DecidableEq

def removalSummary (job : Option DeviceRemovalJob) : Option RemovalSummary :=
  job.map fun job => ⟨job.state, job.retryable, job.errorCode⟩

structure DeviceSummary where
  (deviceId deviceName : String)
  status : DeviceStatus
  statusLabel : String
  revokedAt : Option String
  removal : Option RemovalSummary
  (deviceRefHead lastAppliedMain localStatusLabel localErrorCode localQueueStatus localMain : Option String)
  (localHead pluginVersion : Option String)
  pathCapabilities : Option PathCapabilities
  statusReportFresh : Bool
  statusReportAgeSeconds : Option Int
  (aheadOfMain behindMain blocked offline : Bool)
  deriving DecidableEq

section Devices

variable (host : Host) (git : Git)

/-- Not seen for a day. -/
def isOffline (lastSeenAt : Option String) : Bool :=
  match lastSeenAt.bind host.dateParse with
  | some time => host.now - time > 24 * 60 * 60 * 1000
  | none => false

def reportAgeSeconds (reportedAt : Option String) : Option Int :=
  (reportedAt.bind host.dateParse).map fun time => max 0 ((host.now - time) / 1000)

/-- The row of a device in the response. -/
def deviceSummary (vault : VaultRow) (jobs : List DeviceRemovalJob) (device : DeviceRow) : DeviceSummary :=
  let aheadOfMain := match device.deviceRefHead with
    | some head => ancestryVerdict git head vault.currentMain ≠ .ancestor
    | none => false
  let dashboardStatus := if isDeviceRevoked device then .revoked else device.status
  let behindMain := dashboardStatus = .synced && device.lastAppliedMain ≠ some vault.currentMain
  let offline := isOffline host device.lastSeenAt
  let localStatusFresh := isFreshDeviceStatus host device.lastStatusReportAt
  let staleDeviceBlockReport := localStatusFresh && device.localErrorCode = some "device_blocked"
  let localErrorCode :=
    if localStatusFresh && !staleDeviceBlockReport then safeReportedErrorCode device.localErrorCode else none
  let localStatusLabel :=
    if localStatusFresh && !staleDeviceBlockReport then
      some (safeReportedStatusLabel host device.localStatusLabel localErrorCode) else none
  let localQueueStatus := if localStatusFresh then safeReportedQueueStatus device.localQueueStatus else none
  let pendingLocal := localStatusFresh && device.localHead.isSome && device.localHead ≠ device.localMain
  let convergenceProven := localStatusFresh && localStatusLabel = some "Synced" &&
    (localQueueStatus = some "idle" || localQueueStatus = some "merged") &&
    device.localMain = some vault.currentMain && device.localHead = some vault.currentMain &&
    device.lastAppliedMain = some vault.currentMain
  { deviceId := device.deviceId
    deviceName := device.deviceName
    status := dashboardStatus
    statusLabel := dashboardDeviceStatusLabel dashboardStatus
      { behindMain, offline, localStatusLabel, localErrorCode, pendingLocal, convergenceProven }
    revokedAt := device.revokedAt
    removal := removalSummary (jobs.find? fun job => job.deviceId = device.deviceId)
    deviceRefHead := device.deviceRefHead
    lastAppliedMain := device.lastAppliedMain
    localStatusLabel
    localErrorCode
    localQueueStatus
    localMain := if localStatusFresh then device.localMain else none
    localHead := if localStatusFresh then device.localHead else none
    pluginVersion := device.pluginVersion.map safeReportedPluginVersion
    pathCapabilities := if localStatusFresh then safePathCapabilities device.pathCapabilities else none
    statusReportFresh := localStatusFresh
    statusReportAgeSeconds := reportAgeSeconds host device.lastStatusReportAt
    aheadOfMain
    behindMain
    blocked := device.status = .reviewNeeded || device.status = .blockedRecovery ||
      isBlockingLocalReport localStatusLabel localErrorCode
    offline }

structure RestrictedDevice where
  (deviceId deviceName platform : String)
  blocked : Bool
  deriving DecidableEq

/-- The platform that the device reported, if it is one whose names are restricted. -/
def restrictedNamePlatform (device : DeviceRow) : Option String :=
  match device.pathCapabilities.bind fun value => propertyOf value "platform" with
  | some (.string platform) => if ["android"].contains platform then some platform else none
  | _ => none

def restrictedDevice (device : DeviceRow) : Option RestrictedDevice :=
  if isDeviceRevoked device then none
  else (restrictedNamePlatform device).map fun platform =>
    { deviceId := device.deviceId
      deviceName := device.deviceName
      platform
      blocked := isFreshDeviceStatus host device.lastStatusReportAt &&
        device.localErrorCode = some "unportable_target_paths" }

end Devices

def rootIgnorePath : Path := ⟨".gitignore"⟩

/-- Whether main moved, since the review, at something that the review covers; nothing where Git fails. -/
def computeReviewedMainAdvanceOverlap (git : Git) (conflict : ConflictRecord) (currentMain : String) : Option Bool :=
  if !([conflict.expectedMain, currentMain, conflict.deviceCommit].all git.commitExists) then some true
  else if !isAncestor git conflict.expectedMain currentMain then some true
  else do
    let advanced := changedPathSet (← git.changedPaths conflict.expectedMain currentMain)
    if advanced.isEmpty then return false
    let authoredBase := (git.mergeBase currentMain conflict.deviceCommit).getD conflict.baseCommit
    let authored := changedPathSet (← git.changedPaths authoredBase conflict.deviceCommit)
    let reviewed := rootIgnorePath :: conflict.affectedPaths ++
      ((conflict.directoryContext.map (·.affectedRoots)).getD []) ++ authored
    return advanced.any fun path => reviewed.any fun reviewedPath => changedPathsConflict path reviewedPath

def reviewedMainAdvanceOverlaps (git : Git) (conflict : ConflictRecord) (currentMain : String) : Bool :=
  if conflict.expectedMain = currentMain then false
  else (computeReviewedMainAdvanceOverlap git conflict currentMain).getD true

def isConflictReviewStale (git : Git) (directory : Option DirectoryStateRow) (vault : VaultRow)
    (conflict : ConflictRecord) : Bool :=
  if conflict.status ≠ .open then false
  else
    let directoryEventSeq := (directory.map (·.lastEventSeq)).getD 0
    if conflict.directoryContext.any fun context => context.expectedEventSeq ≠ directoryEventSeq then true
    else reviewedMainAdvanceOverlaps git conflict vault.currentMain

def conflictType (conflict : ConflictRecord) : String :=
  let endsWith (ending : String) : Bool :=
    conflict.affectedPaths.any fun path => ending.toList.isSuffixOf path.text.toList
  match conflict.conflictKind with
  | .directory => "Directory overlap"
  | .mixed => "File and directory overlap"
  | .content =>
    let present (record : Fields) : Option Json :=
      match propertyOf record "reason" with
      | some .null => none
      | reason => reason
    match (present conflict.validatorResults).or (propertyOf conflict.validatorSummary "reason") with
    | some (.string reason) => String.ofList (reason.toList.map fun c => if c = '_' then ' ' else c)
    | _ =>
      if endsWith ".md" then "Markdown overlap"
      else if endsWith ".canvas" then "Canvas overlap"
      else if endsWith ".base" then "Bases overlap"
      else "Path overlap"

structure ConflictSummary where
  conflict : ConflictRecord
  (deviceName conflictType : String)
  stale : Bool
  statusLabel : String
  deriving DecidableEq

section Conflicts

variable (host : Host) (git : Git)

/-- Open conflicts come first, then the latest. -/
def compareConflicts (left right : ConflictSummary) : Ordering :=
  if left.conflict.status ≠ right.conflict.status then
    if left.conflict.status = .open then .lt else .gt
  else host.localeCompare right.conflict.createdAt left.conflict.createdAt

def conflictSummary (devices : List DeviceRow) (directory : Option DirectoryStateRow) (vault : VaultRow)
    (conflict : ConflictRecord) : ConflictSummary :=
  let stale := conflict.status = .open && isConflictReviewStale git directory vault conflict
  { conflict
    deviceName := ((devices.find? fun device => device.deviceId = conflict.deviceId).map (·.deviceName)).getD
      "Unknown device"
    conflictType := conflictType conflict
    stale
    statusLabel := if stale then "Stale review" else if conflict.status = .open then "Review needed" else "Synced" }

def buildDashboardConflicts (devices : List DeviceRow) (directory : Option DirectoryStateRow) (vault : VaultRow)
    (conflicts : List ConflictRecord) : List ConflictSummary :=
  sortBy (compareConflicts host) (conflicts.map (conflictSummary git devices directory vault))

end Conflicts

structure Activity where
  eventId : String
  eventSeq : Nat
  eventType : EventType
  (label createdAt : String)
  (deviceId conflictId main : Option String)
  deriving DecidableEq

def activityLabel : EventType → String
  | .mainAdvanced => "Server main advanced"
  | .deviceRefUpdated => "Device changes uploaded"
  | .conflictCreated => "Conflict created"
  | .conflictReviewRefreshed => "Conflict review refreshed"
  | .conflictResolved => "Conflict resolved"
  | .noteRestored => "Note restored"
  | .vaultMaintenanceStarted => "Maintenance started"
  | .vaultMaintenanceFinished => "Maintenance completed"
  | .deviceSyncRejected => "Device sync rejected"
  | .deviceRecoveryRequired => "Device recovery required"
  | .deviceStateChanged => "Device state changed"

variable (events : List EventEnvelope)

/-- The twelve latest events. -/
def latestEvents : List EventEnvelope :=
  (sortBy (fun left right => compare right.eventSeq left.eventSeq) events).take 12

def activity (event : EventEnvelope) : Activity where
  eventId := event.eventId
  eventSeq := event.eventSeq
  eventType := event.eventType
  label := activityLabel event.eventType
  createdAt := event.createdAt
  deviceId := (valueAt event.resourceIds "device_id").filter (· ≠ "")
  conflictId := (valueAt event.resourceIds "conflict_id").filter (· ≠ "")
  main := (valueAt event.commitCursors "main").join

def buildRecentActivity (vaultId : String) : List Activity :=
  (latestEvents (events.filter fun event => event.vaultId = vaultId)).map activity

structure NamePortability where
  unportablePathCount : Nat
  restrictedDevices : List RestrictedDevice
  deriving DecidableEq

structure Response where
  (vaultId displayName currentMain : String)
  status : VaultStatus
  devices : List DeviceSummary
  unresolvedConflictCount : Nat
  conflicts : List ConflictSummary
  recentActivity : List Activity
  namePortability : Option NamePortability
  deriving DecidableEq

/-- What the request reads of the database. -/
structure Scoped where
  vault : VaultRow
  devices : List DeviceRow
  deviceRemovalJobs : List DeviceRemovalJob
  conflicts : List ConflictRecord
  directory : Option DirectoryStateRow
  events : List EventEnvelope

def scope (db : MetadataDb) (userId vaultId : String) : Option Scoped :=
  (db.vaults.find? fun vault => vault.vaultId = vaultId && vault.ownerUserId = userId).map fun found =>
    { vault := found
      devices := db.devices.filter fun device => device.vaultId = found.vaultId
      deviceRemovalJobs := db.deviceRemovalJobs.filter fun job => job.vaultId = found.vaultId
      conflicts := db.conflicts.filter fun conflict => conflict.vaultId = found.vaultId
      directory := valueAt db.directoryStateByVault found.vaultId
      events := latestEvents (db.events.filter fun event => event.vaultId = found.vaultId) }

section Dashboard

variable (host : Host) (git : Git)

def unportablePathCount (main : String) (explicitDirs : List Path) : Option Nat :=
  (git.treePaths main).map fun files =>
    (PortableNames.findUnportablePaths host.folding files (explicitDirs.map (·.text.toList))).length

def respond (userId : String) (view : Scoped) : Response :=
  let vault := view.vault
  let shown := view.devices.filter fun device => device.userId = userId
  { vaultId := vault.vaultId
    displayName := vault.displayName
    currentMain := vault.currentMain
    status := vault.status
    devices := shown.map (deviceSummary host git vault view.deviceRemovalJobs)
    unresolvedConflictCount := (view.conflicts.filter fun conflict => conflict.status = .open).length
    conflicts := buildDashboardConflicts host git view.devices view.directory vault view.conflicts
    recentActivity := buildRecentActivity view.events vault.vaultId
    namePortability := (unportablePathCount host git vault.currentMain
        ((view.directory.map (·.explicitDirs)).getD [])).map fun count =>
      ⟨count, shown.filterMap (restrictedDevice host)⟩ }

/-- The response for the vault, which is not found unless the user owns it. -/
def dashboardResponse (db : MetadataDb) (userId vaultId : String) : Option Response :=
  (scope db userId vaultId).map (respond host git userId)

end Dashboard

end DashboardResponse
