import Obts.ApplyJournals

/-!
# Planning an apply

The journal of an apply is put together from the target tree, the tree that the vault was written from
and the vault as it stands, and it is filled in as these are read: what is retained since the target
ignores it, what is affected, what is deferred since it changes meanwhile.
-/
namespace ApplyJournals

open InsertionOrder SlashPath DirectoryIntents ClientPaths VaultInventory StoredIntents
open DirectoryRecovery (Fingerprint RecoveryInventory isTargetFileSizeMap assign FileHashes FileReading
  recoveryFileFingerprint)
open GitTrees (changedPathsConflict)

structure TargetPolicy where
  oid : Option String
  ignores : Path → Bool → Bool
  entries : List (Path × String)

structure ConfirmedRecovery where
  roots : List Path
  inventory : RecoveryInventory

structure Arguments where
  targetMain : String
  changedPaths : List Path
  allowDestructive : Bool
  extraAffectedPaths : List Path
  requireCleanVisibleState : Bool
  directoryIntents : List DirectoryIntent
  explicitDirectories : List Path
  eventSeq : Option Nat
  confirmedDirectoryRecovery : Option ConfirmedRecovery
  targetFileSizes : List (Path × Nat)
  consentBaselineBundleId : Option BundleId
  (preserveConsentLocalPaths rebuild : Bool)
  catchupExpectedTree : Option (List (Path × String))
  catchupPreservedPaths : List Path
  (catchupLegacyStrict deltaApply : Bool)

/-- What the apply reads while it plans. -/
structure Surroundings where
  applyId : ApplyId
  state : ClientState
  policy : TargetPolicy
  hasDirectoryWork : Bool
  /-- The answer of `preApplyAuthoringBase`, or the base of a catch-up. -/
  authoringBase : Option String
  authoringTree : List (Path × String)
  /-- The answers of `refOnlyApplyEligible` and of the checks of `deltaApplyScope`. -/
  refOnlyEligible : Bool
  deltaEligible : Bool
  isFile : Path → Bool
  vault : VaultInventory.Disk
  ctime : Path → Option Nat
  consentRecords : BundleId → Option (List (Path × Fingerprint))
  /-- The reads of the paths to save, one for each attempt; none for another failure. -/
  attempts : List (Option (Path → FileReading))
  visibleTrees : List (List (Path × String))

section Planning
variable (u : SegmentNormalization) (c : Collation) (hashes : FileHashes)

/-- The compaction passes over paths that are not synced. -/
def compactIntents (intents : List DirectoryIntent) : List DirectoryIntent :=
  DirectoryIntents.compactDirectoryIntents c (intents.filter fun intent => isSyncableVaultPath u intent.path)

variable (a : Arguments) (s : Surroundings)

def admittedIntents : List DirectoryIntent :=
  (compactIntents u c a.directoryIntents).filter fun intent =>
    isSyncableVaultPath u intent.path && !s.policy.ignores intent.path true

def explicitDirectorySet : List Path :=
  sort ((ofList a.explicitDirectories).filter fun dirPath =>
    isSyncableVaultPath u dirPath && !s.policy.ignores dirPath true)

def draftJournal (a : Arguments) (s : Surroundings) : ApplyJournal where
  journalVersion := 7
  authoringBase := s.authoringBase
  touchedPaths := []
  targetRootIgnoreOid := s.policy.oid
  localOnlyPaths := []
  localOnlyPresence := []
  deferredLocalPaths := []
  applyId := s.applyId
  operationType := if a.rebuild then .rebuildFromServer else .pullApply
  targetMain := a.targetMain
  targetFileSizes :=
    if isTargetFileSizeMap u a.targetFileSizes then
      a.targetFileSizes.foldl (fun sizes e => assign sizes e.1 e.2) []
    else []
  expectedPriorLocalMain := s.state.localMain
  expectedPriorLocalDeviceRef := s.state.serverDeviceRef
  phase := .planned
  affectedPaths := []
  preflightSha256 := []
  preflightFingerprints := []
  directoryIntents := admittedIntents u c a s
  explicitDirectories := explicitDirectorySet u a s
  preApplyDirectories := []
  preApplyDirectoryCtimes := []
  confirmedDirectoryRoots := (a.confirmedDirectoryRecovery.map (·.roots)).getD []
  confirmedDirectoryInventory := a.confirmedDirectoryRecovery.map (·.inventory)
  preserveLocalChanges := a.requireCleanVisibleState
  eventSeq := a.eventSeq.filter (· ≤ maxSafeInteger)
  recoveryBundleId := none
  lastCompletedStep := none
  redactedErrorCategory := none

/-- The arguments of an ordinary pull. -/
def ordinary : Bool :=
  a.requireCleanVisibleState && !a.rebuild && a.catchupExpectedTree.isNone &&
  a.consentBaselineBundleId.isNone && !a.preserveConsentLocalPaths &&
  a.confirmedDirectoryRecovery.isNone && a.extraAffectedPaths.isEmpty &&
  (admittedIntents u c a s).isEmpty && !s.hasDirectoryWork

/-- The files of the tree that the vault was written from. -/
def authoringEntries : List (Path × String) :=
  if (nonEmpty s.authoringBase).isSome then s.authoringTree else []

def previousFiles : List Path := sort ((authoringEntries s).map Prod.fst)

def targetFiles : List Path := s.policy.entries.map Prod.fst

def localOnlyApplyPaths (target : TargetPolicy) (previousFiles : List Path) (physical : Inventory) :
    List Path :=
  let targetFiles := target.entries.map Prod.fst
  let targetDirs := targetFiles.flatMap directoryPrefixes
  sort ((ofList (previousFiles ++ physical.files ++ physical.directories)).filter fun filePath =>
    isRecoverableApplyPath u filePath &&
    target.ignores filePath (physical.directories.contains filePath) &&
    !targetFiles.contains filePath &&
    !(targetDirs.contains filePath && !physical.files.contains filePath))

/-- A retained path at or below a file of the target. -/
def localOnlyCollision (paths : List Path) (targetEntries : List (Path × String)) : Bool :=
  paths.any fun retained => targetEntries.any fun entry => pathsOverlapWithinRoot retained entry.1

/-- The paths that `deltaApplyScope` finds changed. -/
def changedTreePaths (before after : List (Path × String)) : List Path :=
  sort ((ofList (before.map Prod.fst ++ after.map Prod.fst)).filter fun filePath =>
    valueAt before filePath ≠ valueAt after filePath)

/-- The files and folders of the paths that a delta apply keeps to. -/
def deltaApplyScope : Option Inventory :=
  let paths := changedTreePaths (authoringEntries s) s.policy.entries
  if a.deltaApply && ordinary u c a s && s.deltaEligible then
    some { files := paths.filter s.isFile
           directories := sort (ofList (paths.flatMap directoryPrefixes)) }
  else none

def materializationConflictFiles (targetFiles localVaultFiles : List Path) : List Path :=
  sort (ofList (targetFiles.flatMap fun targetFile =>
    localVaultFiles.filter (·.startsWithDir targetFile) ++
      (directoryPrefixes targetFile).filter localVaultFiles.contains))

variable (localOnly : List Path)

/-- A retained path at or below the path. -/
def protectsPath (filePath : Path) : Bool :=
  localOnly.any fun retained => pathsOverlapWithinRoot retained filePath

/-- The paths to write or to remove, before the local files in their way. -/
def plannedPaths (consent : List (Path × Fingerprint)) : List Path :=
  let authoring := authoringEntries s
  ofList ( (a.changedPaths.filter fun filePath => !protectsPath localOnly filePath &&
      valueAt authoring filePath ≠ valueAt s.policy.entries filePath) ++
    ((consent.filter fun entry => (match entry.2 with | .file _ _ => true | _ => false) &&
      !protectsPath localOnly entry.1).map Prod.fst) ++
    ((previousFiles s).filter fun previousPath =>
      !(targetFiles s).contains previousPath && !localOnly.contains previousPath) ++
    (a.extraAffectedPaths.filter fun localPath => !protectsPath localOnly localPath) ++
    ((s.policy.entries.filter fun entry => valueAt authoring entry.1 ≠ some entry.2).map Prod.fst))

/-- The intents with a deletion for each folder that is in the old tree only. -/
def intentsWithImplied : List DirectoryIntent :=
  let targetDirectories :=
    explicitDirectorySet u a s ++ (targetFiles s).flatMap directoryPrefixes
  let implied := topmostDirectories c (((previousFiles s).flatMap directoryPrefixes).filter fun dirPath =>
    !targetDirectories.contains dirPath && !protectsPath localOnly dirPath)
  compactIntents u c (
    ((admittedIntents u c a s).filter fun intent =>
      intent.op ≠ .delete || !protectsPath localOnly intent.path) ++
    implied.map fun path => { op := .delete, path })

/-- The loop over the queue: what conflicts with a deferred path is deferred. -/
def expandFrom (candidates : List Path) : Nat → List Path → List Path → List Path
  | 0, _, deferred => deferred
  | fuel + 1, queue, deferred =>
    match queue.getLast? with
    | none => deferred
    | some deferredPath =>
      let added := candidates.filter fun candidate =>
        !deferred.contains candidate && changedPathsConflict candidate deferredPath
      expandFrom candidates fuel (queue.dropLast ++ added) (addAll deferred added)

variable (journal : ApplyJournal)

def expandDeferredApplyPaths (targetMatchedPaths localPaths : List Path) : List Path :=
  let deferred := ofList (journal.deferredLocalPaths ++ localPaths)
  let candidates := journal.affectedPaths.filter fun filePath => !targetMatchedPaths.contains filePath
  sort (expandFrom candidates (deferred.length + candidates.length) deferred deferred)

/-- The journal with the paths deferred, and those that conflict with them. -/
def ApplyJournal.deferring (targetMatchedPaths localPaths : List Path) : ApplyJournal :=
  { journal with
    deferredLocalPaths := expandDeferredApplyPaths journal targetMatchedPaths localPaths }

/-- A path that changes while it is read ends the attempt. -/
def stageRecoveryBundleFiles (content : Path → FileReading) :
    List Path → Except Path (List (Path × Fingerprint))
  | [] => .ok []
  | filePath :: paths =>
    match recoveryFileFingerprint hashes (content filePath) with
    | none => .error filePath
    | some fingerprint =>
      match stageRecoveryBundleFiles content paths with
      | .ok results => .ok ((filePath, fingerprint) :: results)
      | .error changed => .error changed

/-- The paths of an attempt, in the order of the bundle. -/
def stagedPaths (pendingPaths : List Path) : List Path :=
  sort (pendingPaths.filter fun filePath => !filePath.startsWithDir ⟨".obts"⟩)

/-- A path that conflicts with a deferred one. -/
def isDeferred (deferredLocalPaths : List Path) (candidate : Path) : Bool :=
  deferredLocalPaths.any fun deferred => changedPathsConflict candidate deferred

def ApplyJournal.keeping (keeps : Path → Bool) : ApplyJournal :=
  { journal with affectedPaths := journal.affectedPaths.filter keeps }

/-- None stands for a failure that ends the apply. -/
def stageApplyRecoveryFiles (journal : ApplyJournal) (pendingPaths : List Path) :
    List (Option (Path → FileReading)) → Option (ApplyJournal × Option (List (Path × Fingerprint)))
  | [] => if pendingPaths.isEmpty then some (journal, none) else none
  | attempt :: attempts =>
    if pendingPaths.isEmpty then some (journal, none)
    else match attempt with
    | none => none
    | some content =>
      match stageRecoveryBundleFiles hashes content (stagedPaths pendingPaths) with
      | .ok results => some (journal, some results)
      | .error filePath =>
        let deferring := journal.deferring [] [filePath]
        if !pendingPaths.any (isDeferred deferring.deferredLocalPaths) then none
        else stageApplyRecoveryFiles
          (deferring.keeping fun candidate => !isDeferred deferring.deferredLocalPaths candidate)
          (pendingPaths.filter fun candidate => !isDeferred deferring.deferredLocalPaths candidate)
          attempts

def contentHash : Fingerprint → Option String
  | .file sha256 _ => some sha256
  | .missing | .directory | .other => none

variable (results : List (Path × Fingerprint))

/-- The preflight of the paths that are saved. -/
def ApplyJournal.withPreflight : ApplyJournal :=
  { journal with
    preflightSha256 := results.foldl (fun object result =>
      assign object result.1 (contentHash result.2)) []
    preflightFingerprints := results.foldl (fun object result => assign object result.1 result.2) [] }

def pathsWhere (differs : Path × Fingerprint → Bool) (results : List (Path × Fingerprint)) :
    List Path := (results.filter differs).map Prod.fst

/-- The saved paths that a catch-up finds changed. -/
def racedPaths : List Path :=
  match a.catchupExpectedTree with
  | none => []
  | some expected => pathsWhere (fun r => !fingerprintMatchesTreePath r.2 r.1 expected) results

/-- The deferrals that follow from the saved contents, one list for each check that is made. -/
def unexpectedPaths (consent : List (Path × Fingerprint))
    (results : List (Path × Fingerprint)) : List (List Path) :=
  (if (racedPaths a results).isEmpty then [] else [racedPaths a results]) ++
  (if consent.isEmpty then []
    else [pathsWhere (fun r => !fingerprintMatchesPreflight r.2 none
      (some ((valueAt consent r.1).getD .missing))) results]) ++
  (if !a.requireCleanVisibleState || s.visibleTrees.isEmpty then []
    else [pathsWhere (fun r => !fingerprintMatchesTarget r.2 (valueAt s.policy.entries r.1) &&
      !s.visibleTrees.any fun entries => fingerprintMatchesTreePath r.2 r.1 entries) results])

def readRecoveryBundleFingerprints (records : Option (List (Path × Fingerprint))) :
    Option (List (Path × Fingerprint)) :=
  records.filter fun records =>
    (records.all fun record => isSafeJournalPath u record.1 && isRecoverableApplyPath u record.1) &&
      (records.map Prod.fst).Nodup

/-- The consented contents, and whether all local paths are preserved instead. -/
def consentBaseline : List (Path × Fingerprint) × Bool :=
  match a.consentBaselineBundleId with
  | none => ([], a.preserveConsentLocalPaths)
  | some bundleId =>
    match readRecoveryBundleFingerprints u (s.consentRecords bundleId) with
    | none => ([], true)
    | some fingerprints => (fingerprints, a.preserveConsentLocalPaths)

/-- The vault as the apply sees it. -/
def localVaultInventory : Option Inventory :=
  (deltaApplyScope u c a s).or (listLocalVaultInventory u s.vault none false root)

variable (inventory : Inventory)

def retainedPaths : List Path :=
  if (deltaApplyScope u c a s).isSome then []
  else localOnlyApplyPaths u s.policy (previousFiles s) inventory

/-- The journal up to its affected paths. -/
def scopedJournal : ApplyJournal :=
  let localOnly := retainedPaths u c a s inventory
  let planned := plannedPaths a s localOnly (consentBaseline u a s).1
  let conflicts := materializationConflictFiles (ofList (targetFiles s ++ planned)) inventory.files
  let directories := sort (ofList inventory.directories)
  { draftJournal u c a s with
    localOnlyPaths := localOnly
    localOnlyPresence := localOnly.map fun filePath =>
      (filePath, inventory.files.contains filePath || inventory.directories.contains filePath)
    directoryIntents := intentsWithImplied u c a s localOnly
    deferredLocalPaths :=
      if (consentBaseline u a s).2 then
        expandDeferredApplyPaths (draftJournal u c a s) [] planned
      else []
    preApplyDirectories := directories
    preApplyDirectoryCtimes := directories.map fun dirPath => (dirPath, (s.ctime dirPath).filter (0 < ·))
    affectedPaths := sort ((addAll planned conflicts).filter (isRecoverableApplyPath u)) }

/-- The journal with what a catch-up preserves. -/
def catchupJournal : ApplyJournal :=
  if a.catchupExpectedTree.isSome then journal.deferring [] a.catchupPreservedPaths else journal

def withTouched (journal : ApplyJournal) : ApplyJournal :=
  let materializedDirectories :=
    if (deltaApplyScope u c a s).isSome then inventory.directories
    else explicitDirectorySet u a s ++ (targetFiles s).flatMap directoryPrefixes
  { journal with
    touchedPaths := sort (ofList (
      (journal.affectedPaths.filter fun p =>
        !fingerprintMatchesTarget ((valueAt journal.preflightFingerprints p).getD .other)
          (valueAt s.policy.entries p)) ++
      (if a.catchupExpectedTree.isSome then journal.deferredLocalPaths else []) ++
      journal.directoryIntents.map (·.path) ++
      materializedDirectories.filter fun dir => !journal.preApplyDirectories.contains dir)) }

/-- A collision of retained content with the target, or with a file in the target's way. -/
def collides : Bool :=
  let localOnly := retainedPaths u c a s inventory
  let planned := plannedPaths a s localOnly (consentBaseline u a s).1
  localOnlyCollision localOnly s.policy.entries ||
    (materializationConflictFiles (ofList (targetFiles s ++ planned)) inventory.files).any
      localOnly.contains

/-- The journal after saving, none when a strict catch-up is refused. -/
def settlePreflight (saved : Option (List (Path × Fingerprint))) : Option ApplyJournal :=
  match saved with
  | none => some journal
  | some results =>
    if a.catchupLegacyStrict && !(racedPaths a results).isEmpty then none
    else some ((unexpectedPaths a s (consentBaseline u a s).1 results).foldl
      (fun journal paths => journal.deferring [] paths) (journal.withPreflight results))

/-- The journal that is written before anything else; none when the apply ends without one. -/
def planJournal : Option ApplyJournal := do
  let inventory ← localVaultInventory u c a s
  if collides u c a s inventory then none
  else do
    let journal := catchupJournal a (scopedJournal u c a s inventory)
    let staged ← stageApplyRecoveryFiles hashes journal journal.affectedPaths s.attempts
    let settled ← settlePreflight u a s staged.1 staged.2
    return withTouched u c a s inventory settled

end Planning

end ApplyJournals
