import Obts.DirectoryRecovery
import Obts.GitTrees

/-!
# Apply journals

Before the client writes a server tree into the vault it keeps a journal of what it is about to do, and
a bundle with what it is about to overwrite. Here are the journal, its reader, and the checks that a
restarted client makes of the journal against the bundle, the refs and the evidence it has set aside.
-/
namespace ApplyJournals

open InsertionOrder SlashPath DirectoryIntents ClientPaths StoredIntents
open DirectoryRecovery (Fingerprint RecoveryInventory isPreflightFingerprint isTargetFileSizeMap pathArray
  coveredBy)

/-- Written as `apply_`, the time, and sixteen hexadecimal digits. -/
structure ApplyId where
  time : Nat
  nonce : BitVec 64
  deriving DecidableEq

/-- Written as `rec_`, the time, and sixteen hexadecimal digits. -/
structure BundleId where
  time : Nat
  nonce : BitVec 64
  deriving DecidableEq

inductive Operation where
  | pullApply
  | initialImport
  | replaceLocalWithServer
  | rebuildFromServer
  deriving DecidableEq

inductive Phase where
  | planned
  | recoveryBundleWritten
  | writingFiles
  | verifying
  | committed
  | blockedRecovery
  deriving DecidableEq

structure ApplyJournal where
  journalVersion : Nat
  authoringBase : Option String
  touchedPaths : List Path
  targetRootIgnoreOid : Option String
  localOnlyPaths : List Path
  localOnlyPresence : List (Path × Bool)
  deferredLocalPaths : List Path
  applyId : ApplyId
  operationType : Operation
  targetMain : String
  targetFileSizes : List (Path × Nat)
  (expectedPriorLocalMain expectedPriorLocalDeviceRef : Option String)
  phase : Phase
  affectedPaths : List Path
  preflightSha256 : List (Path × Option String)
  preflightFingerprints : List (Path × Fingerprint)
  directoryIntents : List DirectoryIntent
  (explicitDirectories preApplyDirectories : List Path)
  preApplyDirectoryCtimes : List (Path × Option Nat)
  confirmedDirectoryRoots : List Path
  confirmedDirectoryInventory : Option RecoveryInventory
  preserveLocalChanges : Bool
  eventSeq : Option Nat
  recoveryBundleId : Option BundleId
  (lastCompletedStep redactedErrorCategory : Option String)

section Reading
variable (u : SegmentNormalization)

def isRecoverableApplyPath (filePath : Path) : Bool :=
  isSyncableVaultPath u filePath ||
    (!pathsOverlapWithinRoot filePath ⟨".obts"⟩ && !pathsOverlapWithinRoot filePath ⟨".git"⟩ &&
      !decide ("/.git/".toList <:+: filePath.text.toList))

def isValidDirectoryRecoveryInventory (inventory : RecoveryInventory) (roots : List Path) : Bool :=
  (inventory.directories.all fun entry =>
    isSafeJournalPath u entry.path && coveredBy roots entry.path && entry.creationTime.all (0 < ·)) &&
  (inventory.directories.map (·.path)).Nodup &&
  (inventory.files.all fun entry =>
    isSafeJournalPath u entry.path && coveredBy roots entry.path && isPreflightFingerprint entry.fingerprint) &&
  (inventory.files.map (·.path)).Nodup

variable (value : ApplyJournal)

def checkAffected : Bool :=
  1 ≤ value.journalVersion && value.journalVersion ≤ 7 &&
  isGitObjectId value.targetMain &&
  pathArray u value.affectedPaths &&
  (value.affectedPaths.all fun filePath =>
    (valueAt value.preflightSha256 filePath).any fun sha256 => sha256.all fun hash => isHex 64 hash.toList)

def checkFingerprints : Bool :=
  value.affectedPaths.all fun filePath =>
    (valueAt value.preflightFingerprints filePath).any isPreflightFingerprint

def checkDirectories : Bool :=
  (value.directoryIntents.all fun intent => isSafeJournalPath u intent.path) &&
  pathArray u value.explicitDirectories &&
  pathArray u value.preApplyDirectories &&
  value.preApplyDirectoryCtimes.length = value.preApplyDirectories.length &&
  (value.preApplyDirectories.all fun dirPath =>
    (valueAt value.preApplyDirectoryCtimes dirPath).isSome) &&
  pathArray u value.confirmedDirectoryRoots &&
  (value.confirmedDirectoryInventory.all fun inventory =>
    isValidDirectoryRecoveryInventory u inventory value.confirmedDirectoryRoots) &&
  !(value.confirmedDirectoryInventory.isNone && !value.confirmedDirectoryRoots.isEmpty) &&
  value.eventSeq.all (· ≤ maxSafeInteger)

/-- A list of paths as the writer keeps it: safe, recoverable, sorted, without repetitions. -/
def sortedPaths (paths : List Path) : Bool :=
  (paths.all fun filePath => isSafeJournalPath u filePath && isRecoverableApplyPath u filePath) &&
    paths = sort (ofList paths)

def checkLocalOnly : Bool :=
  value.targetRootIgnoreOid.all isGitObjectId &&
  sortedPaths u value.localOnlyPaths &&
  sort (value.localOnlyPresence.map Prod.fst) = value.localOnlyPaths &&
  !(value.localOnlyPaths.any fun filePath => value.affectedPaths.any fun affected =>
    affected = filePath || affected.startsWithDir filePath || filePath.startsWithDir affected)

def checkAuthoring : Bool :=
  value.authoringBase.all isGitObjectId && value.touchedPaths.all (isSafeJournalPath u)

/-- None stands for a journal that is refused. -/
def parseApplyJournal : Option ApplyJournal :=
  let version := value.journalVersion
  if !checkAffected u value then none
  else if 2 ≤ version && !checkFingerprints value then none
  else if 3 ≤ version && !checkDirectories u value then none
  else if 4 ≤ version && !isTargetFileSizeMap u value.targetFileSizes then none
  else if 5 ≤ version && !checkLocalOnly u value then none
  else if 6 ≤ version && !sortedPaths u value.deferredLocalPaths then none
  else if 7 ≤ version && !checkAuthoring u value then none
  else some value

end Reading

variable (fingerprint : Fingerprint)

def fingerprintMatchesTarget (targetOid : Option String) : Bool :=
  match targetOid with
  | none => fingerprint = .missing
  | some target =>
    match fingerprint with
    | .file _ oid => oid = target
    | _ => false

def fingerprintMatchesTreePath (filePath : Path) (entries : List (Path × String)) : Bool :=
  match valueAt entries filePath with
  | some target => fingerprintMatchesTarget fingerprint (some target)
  | none =>
    if entries.any fun entry => entry.1.startsWithDir filePath then fingerprint = .directory
    else fingerprint = .missing

/-- By kind, and for files by content; a journal without fingerprints has the content only. -/
def fingerprintMatchesPreflight (preflightHash : Option String) (typedPreflight : Option Fingerprint) : Bool :=
  match typedPreflight, fingerprint with
  | some (.file sha256 _), .file sha256' _ => sha256' = sha256
  | some typed, fingerprint => fingerprint = typed
  | none, .file sha256 _ => preflightHash = some sha256
  | none, _ => preflightHash = none

/-- The fingerprint of a path against the journal. -/
def matchesPreflight (journal : ApplyJournal) (filePath : Path) (fingerprint : Fingerprint) : Bool :=
  fingerprintMatchesPreflight fingerprint (valueAt journal.preflightSha256 filePath).join
    (valueAt journal.preflightFingerprints filePath)

structure BundleManifest where
  bundleId : BundleId
  (vaultId deviceId : String)
  operationType : Operation
  applyId : Option ApplyId
  targetMain : String
  affectedPaths : List Path

/-- The files of a bundle: its JSON files, and those with the contents it saves. -/
structure BundleFiles where
  complete : Option BundleId
  manifest : Option BundleManifest
  journal : Option ApplyJournal
  contents : List (String × List UInt8)

structure Bundle where
  files : BundleFiles
  /-- `checksums.sha256`. -/
  checksums : Option String

structure ClientState where
  (vaultId deviceId localMain serverDeviceRef : Option String)

/-- A copy of what stood at a path; of a folder with the files and the folders below it. -/
structure Evidence where
  fingerprint : Fingerprint
  files : List (Path × Fingerprint)
  directories : List Path

/-- What the client has on disk. The copies are those under the id of the apply at hand. -/
structure Disk where
  journal : Option ApplyJournal
  state : ClientState
  (pendingAcknowledgement mainRef : Option String)
  hasCommit : String → Bool
  bundles : List (BundleId × Bundle)
  evidence : List (Path × Evidence)
  live : Path → Fingerprint

/-- The text of a bundle's checksums, and how much of a file the client reads at once. -/
structure BundleReading where
  bundleChecksums : BundleFiles → String
  fileBufferBudgetBytes : Nat

inductive Reason where
  | evidenceMissing
  | stateCorrupt
  | identityMismatch
  | targetPolicyMismatch
  | checksumMismatch
  deriving DecidableEq

variable (journal : ApplyJournal) (filePath : Path)

/-- The files among the paths that the journal has contents of, below a folder. -/
def expectedFiles : List Path :=
  sort ((journal.preflightSha256.filter fun entry =>
    entry.1.startsWithDir filePath && entry.2.isSome).map Prod.fst)

def expectedDirectories : List Path :=
  sort (journal.preApplyDirectories.filter fun candidate => candidate.startsWithDir filePath)

def applyDisplacedEntryMatchesPreflight (displaced : Evidence) : Bool :=
  matchesPreflight journal filePath displaced.fingerprint &&
  (displaced.fingerprint ≠ .directory || sort (displaced.files.map Prod.fst) = expectedFiles journal filePath &&
    (journal.journalVersion < 3 || sort displaced.directories = expectedDirectories journal filePath) &&
    displaced.files.all fun entry => matchesPreflight journal entry.1 entry.2)

section Validating
variable (u : SegmentNormalization) (reading : BundleReading)

/-- The keys in which the journal saved in the bundle has to agree. -/
def sameOperation (saved journal : ApplyJournal) : Bool :=
  saved.targetMain = journal.targetMain &&
  saved.expectedPriorLocalMain = journal.expectedPriorLocalMain &&
  saved.expectedPriorLocalDeviceRef = journal.expectedPriorLocalDeviceRef &&
  saved.affectedPaths = journal.affectedPaths &&
  saved.preflightSha256 = journal.preflightSha256 &&
  saved.preflightFingerprints = journal.preflightFingerprints &&
  saved.directoryIntents = journal.directoryIntents &&
  saved.explicitDirectories = journal.explicitDirectories &&
  saved.preApplyDirectories = journal.preApplyDirectories &&
  saved.preApplyDirectoryCtimes = journal.preApplyDirectoryCtimes &&
  saved.confirmedDirectoryRoots = journal.confirmedDirectoryRoots &&
  saved.confirmedDirectoryInventory = journal.confirmedDirectoryInventory &&
  saved.preserveLocalChanges = journal.preserveLocalChanges &&
  saved.eventSeq = journal.eventSeq &&
  saved.targetFileSizes = journal.targetFileSizes &&
  saved.targetRootIgnoreOid = journal.targetRootIgnoreOid &&
  saved.localOnlyPaths = journal.localOnlyPaths &&
  saved.localOnlyPresence = journal.localOnlyPresence

def bundleIdentity (state : ClientState) (journal : ApplyJournal) (bundleId complete : BundleId)
    (manifest : BundleManifest) : Bool :=
  complete = bundleId && manifest.bundleId = bundleId &&
  manifest.vaultId = (nonEmpty state.vaultId).getD "unknown" &&
  manifest.deviceId = (nonEmpty state.deviceId).getD "unknown" &&
  manifest.operationType = journal.operationType &&
  (journal.journalVersion < 6 || manifest.applyId = some journal.applyId)

variable (disk : Disk) (journal : ApplyJournal)

/-- The bundle that the journal names. -/
def bundleReason (bundleId : BundleId) : Option Reason :=
  match valueAt disk.bundles bundleId with
  | none => some .evidenceMissing
  | some bundle =>
    match bundle.files.complete, bundle.files.manifest with
    | some complete, some manifest =>
      if !bundleIdentity disk.state journal bundleId complete manifest then some .identityMismatch
      else if !(manifest.targetMain = journal.targetMain &&
          manifest.affectedPaths = journal.affectedPaths) then some .targetPolicyMismatch
      else match bundle.files.journal.bind (parseApplyJournal u) with
        | none => some .stateCorrupt
        | some saved =>
          if saved.applyId ≠ journal.applyId then some .identityMismatch
          else if !sameOperation saved journal then some .targetPolicyMismatch
          else match bundle.checksums with
            | none => some .evidenceMissing
            | some recorded =>
              if reading.fileBufferBudgetBytes < recorded.utf8ByteSize then some .stateCorrupt
              else if recorded ≠ reading.bundleChecksums bundle.files then some .checksumMismatch
              else none
    | _, _ => some .evidenceMissing

/-- The refs, the state and the acknowledgement are those of before the apply or of its target. -/
def targetReason : Option Reason :=
  if !disk.hasCommit journal.targetMain then some .evidenceMissing
  else if (nonEmpty disk.state.localMain).any fun main =>
      main ≠ journal.targetMain && some main ≠ journal.expectedPriorLocalMain then
    some .targetPolicyMismatch
  else if disk.pendingAcknowledgement.any (· ≠ journal.targetMain) then some .targetPolicyMismatch
  else if disk.mainRef.any fun ref =>
      ref ≠ journal.targetMain && some ref ≠ journal.expectedPriorLocalMain then
    some .targetPolicyMismatch
  else none

def recordedReason : Option Reason :=
  match journal.recoveryBundleId with
  | some bundleId => bundleReason u reading disk journal bundleId
  | none =>
    if !journal.affectedPaths.isEmpty && !(journal.phase = .planned || journal.phase = .blockedRecovery) then
      some .evidenceMissing
    else none

def evidenceReason : Option Reason :=
  if journal.affectedPaths.any fun filePath => (valueAt disk.evidence filePath).any fun displaced =>
      !applyDisplacedEntryMatchesPreflight journal filePath displaced then
    some .checksumMismatch
  else none

/-- None when the apply can be resumed. -/
def applyRecoveryValidationReason : Option Reason :=
  ((targetReason disk journal).or (recordedReason u reading disk journal)).or (evidenceReason disk journal)

end Validating

end ApplyJournals
