import Obts.StoredIntents
import Obts.VaultInventory

/-!
# Directory recovery

A pending folder that the server has deleted is put to a decision, which is kept in a journal until it is
carried out. The classification asks for each folder whether it is there; the inventory is taken after
that; the reader of the journal derives it all again.
-/
namespace DirectoryRecovery

open ForestEdits InsertionOrder SlashPath DirectoryIntents ClientPaths VaultInventory StoredIntents

/-- Written as `dirrec_`, the time, and sixteen hexadecimal digits. -/
structure RecoveryId where
  time : Nat
  nonce : BitVec 64

inductive Phase where
  | awaitingDecision
  | executing
  deriving DecidableEq

inductive Step where
  | decisionRecorded
  | intentStateWritten
  | applyCompleted
  | acknowledged
  deriving DecidableEq

inductive Choice where
  | keepLocal
  | acceptServer
  deriving DecidableEq

inductive Fingerprint where
  | missing
  | file (sha256 oid : String)
  | directory
  | other
  deriving DecidableEq

structure DirectoryEntry where
  path : Path
  creationTime : Option Nat
  deriving DecidableEq

structure FileEntry where
  path : Path
  fingerprint : Fingerprint
  deriving DecidableEq

structure RecoveryInventory where
  directories : List DirectoryEntry
  files : List FileEntry
  deriving DecidableEq

structure Recovery where
  recoveryId : RecoveryId
  phase : Phase
  baseMain : Option String
  targetMain : String
  (localMainAtDecision localHeadAtDecision : Option String)
  eventSeq : Nat
  changedPaths : List Path
  targetFileSizes : List (Path × Nat)
  directoryIntents : List DirectoryIntent
  explicitDirectories : List Path
  originalPendingIntents : List StoredIntent
  nextGeneration : Nat
  (ambiguousIntents supersededIntents : List StoredIntent)
  ambiguousRoots : List Path
  decisions : Option (List (Path × Choice))
  inventory : RecoveryInventory
  archived : Bool
  lastCompletedStep : Step

def coveredBy (roots : List Path) (filePath : Path) : Bool :=
  roots.any fun root => pathsOverlapWithinRoot filePath root

variable (remoteIntents : List DirectoryIntent)

def deletePaths : List Path :=
  (remoteIntents.filter fun intent => intent.op = .delete).map (·.path)

def coveredByRemoteDelete (intent : StoredIntent) : Bool :=
  intent.op = .create && coveredBy (deletePaths remoteIntents) intent.path

/-- The fields of an intent, null for a field that is missing. -/
def directoryIntentRecordKey (intent : StoredIntent) : StoredIntent :=
  { intent with
    baseMain := some intent.baseMain.join
    replacesIntentId := some intent.replacesIntentId.join
    createdAt := some intent.createdAt.join }

/-- The ids in their order. -/
def sortedIds (intents : List StoredIntent) : List Path :=
  sort (intents.map fun intent => ⟨intent.intentId.getD ""⟩)

def isPreflightFingerprint : Fingerprint → Bool
  | .file sha256 oid => isHex 64 sha256.toList && isHex 40 oid.toList
  | .missing | .directory | .other => true

section Reading
variable (u : SegmentNormalization) (c : Collation)

def pathArray (items : List Path) : Bool := items.all (isSafeJournalPath u) && items.Nodup

def isTargetFileSizeMap (sizes : List (Path × Nat)) : Bool :=
  sizes.all fun entry =>
    isSafeJournalPath u entry.1 && isSyncableVaultPath u entry.1 && entry.2 ≤ maxSafeInteger

variable (value : Recovery)

def checkFields : Bool :=
  isGitObjectId value.targetMain && value.localMainAtDecision.any isGitObjectId &&
  value.localHeadAtDecision.any isGitObjectId &&
  value.baseMain.all isGitObjectId &&
  value.eventSeq ≤ maxSafeInteger &&
  pathArray u value.changedPaths && isTargetFileSizeMap u value.targetFileSizes &&
  pathArray u value.explicitDirectories && pathArray u value.ambiguousRoots &&
  (value.directoryIntents.all fun intent => isSafeJournalPath u intent.path) &&
  value.originalPendingIntents.all (isStoredDirectoryIntent u) &&
  value.ambiguousIntents.all (isStoredDirectoryIntent u) &&
  value.supersededIntents.all (isStoredDirectoryIntent u) &&
  value.nextGeneration ≤ maxSafeInteger && 1 ≤ value.nextGeneration

def checkClassification : Bool :=
  let classified := value.ambiguousIntents ++ value.supersededIntents
  (value.originalPendingIntents.map (·.intentId)).Nodup &&
  (classified.all fun intent =>
    (value.originalPendingIntents.find? fun original => original.intentId = intent.intentId).any
      fun original =>
        decide (directoryIntentRecordKey original = directoryIntentRecordKey intent)) &&
  (classified.map (·.intentId)).Nodup &&
  classified.all (coveredByRemoteDelete value.directoryIntents) &&
  sortedIds (value.originalPendingIntents.filter (coveredByRemoteDelete value.directoryIntents))
    = sortedIds classified

def checkInventory : Bool :=
  let derivedAmbiguousRoots := topmostDirectories c (value.ambiguousIntents.map (·.path))
  let inventoryRoots := topmostDirectories c (value.ambiguousRoots ++ value.supersededIntents.map (·.path))
  let directoryPaths := value.inventory.directories.map (·.path)
  let filePaths := value.inventory.files.map (·.path)
  derivedAmbiguousRoots = value.ambiguousRoots &&
  (value.inventory.directories.all fun entry =>
    isSafeJournalPath u entry.path && coveredBy inventoryRoots entry.path && entry.creationTime.all (0 < ·)) &&
  directoryPaths.Nodup &&
  (value.inventory.files.all fun entry =>
    isSafeJournalPath u entry.path && coveredBy inventoryRoots entry.path &&
      isPreflightFingerprint entry.fingerprint) &&
  filePaths.Nodup &&
  (value.ambiguousIntents.all fun intent => directoryPaths.contains intent.path) &&
  !(value.supersededIntents.any fun intent =>
    (directoryPaths ++ filePaths).any fun entryPath => pathsOverlapWithinRoot entryPath intent.path)

def checkPhase : Bool :=
  match value.phase with
  | .executing =>
    match value.decisions with
    | none => false
    | some decisions =>
      (value.lastCompletedStep = .decisionRecorded || value.archived) &&
        sort (decisions.map Prod.fst) = sort value.ambiguousRoots
  | .awaitingDecision =>
    value.decisions = none && value.lastCompletedStep = .decisionRecorded && !value.archived

/-- None stands for a journal that is refused. -/
def parseDirectoryRecoveryDecision : Option Recovery :=
  if !checkFields u value then none
  else if !checkClassification value then none
  else if !checkInventory u c value then none
  else if !checkPhase value then none
  else some value

end Reading

/-- What reading a file comes to. -/
inductive FileReading where
  | missing
  | directory
  | other
  /-- It changes while it is read. -/
  | changed
  | file (content : List UInt8)

structure FileHashes where
  (sha256 blob : List UInt8 → String)
  sha256_hex : ∀ content, isHex 64 (sha256 content).toList = true
  blob_hex : ∀ content, isHex 40 (blob content).toList = true

/-- What is read of the entries of an inventory after they are listed. -/
structure Readings where
  ctime : Path → Option Nat
  content : Path → FileReading

def recoveryFileFingerprint (hashes : FileHashes) : FileReading → Option Fingerprint
  | .missing => some .missing
  | .directory => some .directory
  | .other => some .other
  | .changed => none
  | .file content => some (.file (hashes.sha256 content) (hashes.blob content))

def fingerprintFiles (hashes : FileHashes) (content : Path → FileReading) : List Path → Option (List FileEntry)
  | [] => some []
  | filePath :: files => do
    let fingerprint ← recoveryFileFingerprint hashes (content filePath)
    let rest ← fingerprintFiles hashes content files
    return { path := filePath, fingerprint } :: rest

def adapterDirectoryCreationTime (readings : Readings) (dirPath : Path) : Option Nat :=
  (readings.ctime dirPath).filter (0 < ·)

/-- What a step of the recovery sees of the vault. -/
structure Sight where
  disk : Disk
  readings : Readings

structure Classification where
  directoryState : DirectoryState
  (unrelated superseded ambiguous : List StoredIntent)

def adapterIsDirectoryStrict (disk : Disk) (filePath : Path) : Bool :=
  filePath.text = "" || filePath.text = "." || disk.folders.contains filePath

section Gathering
variable (u : SegmentNormalization) (digest : EditOp → Path → String) (c : Collation)
variable (hashes : FileHashes)

def captureDirectoryRecoveryInventory (sight : Sight) (roots : List Path) : Option RecoveryInventory := do
  let inventory ← listLocalVaultInventory u sight.disk none false root
  let directories := (sort (inventory.directories.filter (coveredBy roots))).map fun dirPath =>
    { path := dirPath
      creationTime := adapterDirectoryCreationTime sight.readings dirPath : DirectoryEntry }
  let files ← fingerprintFiles hashes sight.readings.content
    (sort (inventory.files.filter fun candidate =>
      coveredBy roots candidate && isSyncableVaultPath u candidate))
  return { directories, files }

def classifyDirectoryIntentsForRecovery (file : Option StateFile) (disk : Disk)
    (remoteIntents : List DirectoryIntent) : Classification :=
  let directoryState := readDirectoryState u digest c file
  let pending := directoryState.pendingIntents
  let covered := pending.filter (coveredByRemoteDelete remoteIntents)
  { directoryState
    unrelated := pending.filter fun intent => !coveredByRemoteDelete remoteIntents intent
    superseded := covered.filter fun intent => !adapterIsDirectoryStrict disk intent.path
    ambiguous := covered.filter fun intent => adapterIsDirectoryStrict disk intent.path }

end Gathering

structure ClientState where
  (localMain localHead : Option String)
  lastAppliedEventSeq : Nat

structure Manifest where
  targetMain : String
  eventSeq : Option Nat
  changedPaths : Option (List Path)
  targetFileSizes : Option (List (Path × Nat))
  directoryIntents : Option (List DirectoryIntent)
  explicitDirectories : Option (List Path)

/-- `object[key] = value` for a value that is no object: the key `__proto__` stays as it is. -/
def assign {β : Type} (object : List (Path × β)) (key : Path) (value : β) : List (Path × β) :=
  if key.text = "__proto__" then object else set object key value

def normalizeDecisions (decisions : Path → Option Choice) (normalized : List (Path × Choice)) :
    List Path → Option (List (Path × Choice))
  | [] => some normalized
  | root :: roots => do
    let choice ← decisions root
    normalizeDecisions decisions (assign normalized root choice) roots

/-- What a reset meets: the directory state, the vault as it classifies and as it lists it. -/
structure ResetSurroundings where
  recoveryId : RecoveryId
  file : Option StateFile
  disk : Disk
  sight : Sight

/-- What carrying a decision out meets, step after step. -/
structure Surroundings where
  state : ClientState
  decisionSight : Sight
  decisionFile : Option StateFile
  appliedState : ClientState
  applySight : Sight
  /-- The answer of `applyTargetMain`, none when it fails. -/
  applied : Option Bool
  (keptChangesQueued mainAcknowledged : Bool)
  reset : ResetSurroundings

/-- A journal that is written, by a reset or by another step. -/
inductive Written where
  | step (journal : Recovery)
  | reset (journal : Recovery)

/-- The journals written so far, and the one that is in hand unless the run has ended. -/
structure Progress where
  written : List Written
  current : Option Recovery

def Progress.andThen (progress : Progress) (next : Recovery → Progress) : Progress :=
  match progress.current with
  | none => progress
  | some recovery =>
    { written := progress.written ++ (next recovery).written
      current := (next recovery).current }

def Progress.stopped (written : List Written) : Progress := { written, current := none }

section Writing
variable (u : SegmentNormalization) (digest : EditOp → Path → String) (c : Collation)
variable (hashes : FileHashes)

/-- None stands for writing nothing. -/
def stageDirectoryRecoveryDecision (existing : Option Recovery) (recoveryId : RecoveryId)
    (state : ClientState) (lastAppliedMain : Option String) (manifest : Manifest)
    (classification : Classification) (automatic : Bool) (sight : Sight) : Option Recovery :=
  if existing.isSome then none
  else do
    let ambiguousRoots := topmostDirectories c (classification.ambiguous.map (·.path))
    let supersededRoots := topmostDirectories c (classification.superseded.map (·.path))
    let inventory ← captureDirectoryRecoveryInventory u hashes sight
      (topmostDirectories c (ambiguousRoots ++ supersededRoots))
    return {
      recoveryId
      phase := if automatic then .executing else .awaitingDecision
      baseMain := (nonEmpty lastAppliedMain).or state.localMain
      targetMain := manifest.targetMain
      localMainAtDecision := state.localMain
      localHeadAtDecision := state.localHead
      eventSeq := manifest.eventSeq.getD 0
      changedPaths := manifest.changedPaths.getD []
      targetFileSizes :=
        if isTargetFileSizeMap u (manifest.targetFileSizes.getD []) then
          (manifest.targetFileSizes.getD []).foldl (fun sizes e => assign sizes e.1 e.2) []
        else []
      directoryIntents := manifest.directoryIntents.getD []
      explicitDirectories := manifest.explicitDirectories.getD []
      originalPendingIntents := classification.directoryState.pendingIntents
      nextGeneration := classification.directoryState.nextGeneration
      ambiguousIntents := classification.ambiguous
      supersededIntents := classification.superseded
      ambiguousRoots
      decisions := if automatic then some (ambiguousRoots.map fun root => (root, .keepLocal)) else none
      inventory
      archived := false
      lastCompletedStep := .decisionRecorded }

/-- The stored journal is read, and every ambiguous root is given its choice. -/
def resolveDirectoryRecovery (stored : Recovery) (decisions : Path → Option Choice) : Option Recovery := do
  let recovery ← parseDirectoryRecoveryDecision u c stored
  if recovery.phase ≠ .awaitingDecision then none
  else do
    let normalized ← normalizeDecisions decisions [] recovery.ambiguousRoots
    return { recovery with phase := .executing, decisions := some normalized }

/-- The directory state with the intents that the journal began with. -/
def restorePending (directoryState : DirectoryState) (recovery : Recovery) : DirectoryState :=
  let pendingByPath := directoryState.pendingIntents.foldl (fun m i => set m i.path i) []
  let merged := recovery.originalPendingIntents.foldl
    (fun m i => if (valueAt m i.path).isSome then m else set m i.path i) pendingByPath
  { nextGeneration := max directoryState.nextGeneration recovery.nextGeneration
    pendingIntents := compactDirectoryIntents u c (merged.map Prod.snd) }

/-- The directory state that a reset has written. -/
def restoredFile (reset : ResetSurroundings) (recovery : Recovery) : StateFile :=
  writeDirectoryState u digest c (restorePending u c (readDirectoryState u digest c reset.file) recovery)

/-- The journal that awaits a decision again. -/
def resetJournal (recovery : Recovery) (recoveryId : RecoveryId) (classification : Classification)
    (inventory : RecoveryInventory) : Recovery :=
  { recovery with
    recoveryId
    phase := .awaitingDecision
    decisions := none
    originalPendingIntents := classification.directoryState.pendingIntents
    nextGeneration := classification.directoryState.nextGeneration
    ambiguousIntents := classification.ambiguous
    supersededIntents := classification.superseded
    ambiguousRoots := topmostDirectories c (classification.ambiguous.map (·.path))
    inventory
    archived := false
    lastCompletedStep := .decisionRecorded }

def resetDirectoryRecoveryAfterChange (reset : ResetSurroundings) (recovery : Recovery) : Option Recovery := do
  let file := restoredFile u digest c reset recovery
  let classification :=
    classifyDirectoryIntentsForRecovery u digest c (some file) reset.disk recovery.directoryIntents
  let ambiguousRoots := topmostDirectories c (classification.ambiguous.map (·.path))
  let inventory ← captureDirectoryRecoveryInventory u hashes reset.sight
    (topmostDirectories c (ambiguousRoots ++ classification.superseded.map (·.path)))
  return resetJournal c recovery reset.recoveryId classification inventory

variable (surroundings : Surroundings) (recovery : Recovery)

/-- A reset ends the run. -/
def resetProgress : Progress :=
  match resetDirectoryRecoveryAfterChange u digest c hashes surroundings.reset recovery with
  | none => .stopped []
  | some journal => .stopped [.reset journal]

def recoveryRoots : List Path :=
  topmostDirectories c (recovery.ambiguousRoots ++ recovery.supersededIntents.map (·.path))

def choiceFor (root : Path) : Option Choice :=
  recovery.decisions.bind fun decisions => valueAt decisions root

def identityUnavailable : Bool :=
  let acceptedRoots := recovery.ambiguousRoots.filter fun root =>
    choiceFor recovery root = some .acceptServer
  acceptedRoots.any fun root => recovery.inventory.directories.any fun entry =>
    pathsOverlapWithinRoot entry.path root && entry.creationTime = none

/-- An intent that the journal does not know, for a folder that it decides about. -/
def pendingChanged (directoryState : DirectoryState) (recovery : Recovery) : Bool :=
  directoryState.pendingIntents.any fun intent =>
    !(recovery.originalPendingIntents.any fun original => original.intentId = intent.intentId) &&
      coveredBy recovery.ambiguousRoots intent.path

/-- The archive of the decision and the new directory state. -/
def recordDecision (surroundings : Surroundings) (recovery : Recovery) : Progress :=
  if recovery.lastCompletedStep ≠ .decisionRecorded then { written := [], current := some recovery }
  else
    match captureDirectoryRecoveryInventory u hashes surroundings.decisionSight
        (recoveryRoots c recovery) with
    | none => .stopped []
    | some currentInventory =>
      if currentInventory ≠ recovery.inventory then
        resetProgress u digest c hashes surroundings recovery
      else if identityUnavailable recovery then .stopped []
      else
        let archived := { recovery with archived := true }
        let archiving : Progress :=
          { written := if recovery.archived then [] else [.step archived], current := some archived }
        archiving.andThen fun recovery =>
          if pendingChanged (readDirectoryState u digest c surroundings.decisionFile) recovery then
            resetProgress u digest c hashes surroundings recovery
          else
            let recorded := { recovery with lastCompletedStep := .intentStateWritten }
            { written := [.step recorded], current := some recorded }

/-- The main of the server on disk. -/
def applyDecision : Progress :=
  if recovery.lastCompletedStep ≠ .intentStateWritten then
    { written := [], current := some recovery }
  else
    let completed := { recovery with lastCompletedStep := .applyCompleted }
    if surroundings.appliedState.localMain = some recovery.targetMain ∧
        recovery.eventSeq ≤ surroundings.appliedState.lastAppliedEventSeq then
      { written := [.step completed], current := some completed }
    else
      match captureDirectoryRecoveryInventory u hashes surroundings.applySight
          (recoveryRoots c recovery) with
      | none => .stopped []
      | some currentInventory =>
        if currentInventory ≠ recovery.inventory then
          resetProgress u digest c hashes surroundings recovery
        else
          match surroundings.applied with
          | none => .stopped []
          | some false => resetProgress u digest c hashes surroundings recovery
          | some true => { written := [.step completed], current := some completed }

/-- The changes that are kept are queued and the main is acknowledged. -/
def acknowledgeDecision : Progress :=
  if recovery.lastCompletedStep ≠ .applyCompleted then { written := [], current := some recovery }
  else if (recovery.ambiguousRoots.any fun root => choiceFor recovery root = some .keepLocal) &&
      !surroundings.keptChangesQueued then .stopped []
  else if !surroundings.mainAcknowledged then .stopped []
  else
    let acknowledged := { recovery with lastCompletedStep := .acknowledged }
    { written := [.step acknowledged], current := some acknowledged }

/-- The journals that are written while a decision is carried out. -/
def executeDirectoryRecoveryDecision : List Written :=
  if surroundings.state.localMain ≠ recovery.localMainAtDecision ∧
      surroundings.state.localMain ≠ some recovery.targetMain then []
  else if (recovery.lastCompletedStep = .applyCompleted ∨ recovery.lastCompletedStep = .acknowledged) ∧
      (surroundings.state.localMain ≠ some recovery.targetMain ∨
        surroundings.state.lastAppliedEventSeq < recovery.eventSeq) then []
  else
    (((recordDecision u digest c hashes surroundings recovery).andThen
      (applyDecision u digest c hashes surroundings)).andThen
      (acknowledgeDecision surroundings)).written

end Writing

end DirectoryRecovery
