import Obts.DirectoryResolution

/-!
# Operations that announce directory changes

Every metadata mutation that can change a vault's explicit directories, with its startup
roll-forward, and the mutations that only append events or write rows. Each is a function
on the database; a thrown error leaves the database as it was.

A mutation runs under its vault's lock, so the conflict that a resolution reads when it
commits is the one it was computed from. What Git verifies before a roll-forward comes in
as a flag, and identifiers are never empty. Roll-forwards of pushes, conflict creations and
refreshes append events without directory intents: they are `recordEvents`.
-/
namespace DirectoryOperations

open SlashPath DirectoryIntents Metadata DirectoryResolution
open InsertionOrder

/-- The fresh identifier of an appended event and the clock at that time. -/
structure Stamp where
  eventId : String
  now : Nat

def directoryEventPayload : Option DirectoryMergePlan → IntentsField
  | none => .absent
  | some plan => .array plan.proposal.directoryIntents

def directoryResolutionEventPayload (context : Option DirectoryConflictContext)
    (resolvedIntents : List DirectoryIntent) : IntentsField :=
  match context with
  | none => .absent
  | some _ => .array resolvedIntents

variable (db : MetadataDb)

def upsertDirectoryProposalResult (result : DirectoryProposalResultRow) : MetadataDb :=
  { db with
    directoryProposalResults :=
      if db.directoryProposalResults.any (·.proposalId = result.proposalId) then
        updateFirst (·.proposalId = result.proposalId) (fun _ => result) db.directoryProposalResults
      else db.directoryProposalResults ++ [result] }

def commitDirectoryPlan (vaultId deviceId deviceCommit : String)
    (plan : Option DirectoryMergePlan) (eventSeq now : Nat) : MetadataDb :=
  match plan with
  | none => db
  | some plan =>
    upsertDirectoryProposalResult (applyDirectoryIntents db vaultId plan.proposal.directoryIntents eventSeq now)
      { proposalId := plan.proposal.proposalId
        requestSha256 := plan.requestSha256
        vaultId, deviceId
        targetCommit := deviceCommit
        status := .accepted
        conflictId := none
        eventSeq
        acknowledgedIntents := proposalIntentAcknowledgements plan.proposal }

def resolveDirectoryProposalResult (context : Option DirectoryConflictContext) (eventSeq : Nat) : MetadataDb :=
  match context with
  | none => db
  | some context =>
    { db with
      directoryProposalResults :=
        updateFirst (·.proposalId = context.proposal.proposalId)
          (fun result => { result with status := .resolved, eventSeq }) db.directoryProposalResults }

variable (operationId : String)

def requireOperation : Except Failure SyncOperationRow :=
  match db.syncOperations.find? (·.operationId = operationId) with
  | some operation => .ok operation
  | none => .error (.error ("Operation not found: " ++ operationId))

def requireConflict (vaultId conflictId : String) : Except Failure ConflictRecord :=
  match db.conflicts.find? fun conflict =>
      conflict.vaultId = vaultId && conflict.conflictId = conflictId with
  | some conflict => .ok conflict
  | none => .error (.error ("Conflict not found: " ++ conflictId))

def setVault (vaultId : String) (f : VaultRow → VaultRow) : MetadataDb :=
  { db with vaults := updateFirst (·.vaultId = vaultId) f db.vaults }

def setOperation (f : SyncOperationRow → SyncOperationRow) : MetadataDb :=
  { db with syncOperations := updateFirst (·.operationId = operationId) f db.syncOperations }

/-- Marks the conflict that `requireConflict` finds as resolved. -/
def markResolved (vaultId conflictId : String) : MetadataDb :=
  { db with
    conflicts := updateFirst (fun conflict => conflict.vaultId = vaultId && conflict.conflictId = conflictId)
      (fun conflict => { conflict with status := .resolved }) db.conflicts }

def startRow (row : SyncOperationRow) : MetadataDb :=
  { db with syncOperations := db.syncOperations ++ [row] }

def blockVault (vaultId : String) : MetadataDb :=
  setVault db vaultId fun vault => { vault with status := .blockedIntegrity }

def advanceMain (operationId vaultId main : String) : MetadataDb :=
  setVault
    (setOperation db operationId fun operation =>
      { operation with status := .committed, targetMain := some main, targetCommit := some main })
    vaultId fun vault => { vault with currentMain := main }

def mainAdvanced (vaultId : String) (payload : IntentsField) (stamp : Stamp) : NewEvent where
  eventId := stamp.eventId
  eventType := .mainAdvanced
  vaultId
  directoryIntents := payload
  now := stamp.now

/-- The directory-only merge of `mergeDeviceCommit`. -/
def acceptDirectoryProposal (vaultId deviceId deviceCommit : String)
    (plan : DirectoryMergePlan) (stamp : Stamp) : Except Failure MetadataDb := do
  let _ ← requireDevice db deviceId
  let (db, event) := appendEvent db (mainAdvanced vaultId (directoryEventPayload (some plan)) stamp)
  return commitDirectoryPlan db vaultId deviceId deviceCommit (some plan) event.eventSeq stamp.now

/-- The last mutation of a disjoint, identity-only or clean merge. -/
def commitMerge (operationId vaultId deviceId deviceCommit mergeCommit : String)
    (plan : Option DirectoryMergePlan) (stamp : Stamp) : Except Failure MetadataDb := do
  let _ ← requireOperation db operationId
  let _ ← requireVault db vaultId
  let _ ← requireDevice db deviceId
  let db := advanceMain db operationId vaultId mergeCommit
  let (db, event) := appendEvent db (mainAdvanced vaultId (directoryEventPayload plan) stamp)
  return commitDirectoryPlan db vaultId deviceId deviceCommit plan event.eventSeq stamp.now

/-- The last mutation of `resolveConflict`: the main event, the directories, then the
conflict's own event. -/
def commitResolution (c : Collation) (db : MetadataDb)
    (operationId vaultId conflictId resolutionCommit : String) (kind : ConflictResolutionKind)
    (mainStamp : Stamp) (resolvedId : String) : Except Failure MetadataDb := do
  let _ ← requireOperation db operationId
  let _ ← requireVault db vaultId
  let conflict ← requireConflict db vaultId conflictId
  let _ ← requireDevice db conflict.deviceId
  let intents := resolvedConflictDirectoryIntents c conflict.directoryContext kind
  let db := markResolved (advanceMain db operationId vaultId resolutionCommit) vaultId conflictId
  let (db, event) := appendEvent db (mainAdvanced vaultId
    (directoryResolutionEventPayload conflict.directoryContext intents) mainStamp)
  let db := applyDirectoryIntents db vaultId intents event.eventSeq mainStamp.now
  let db := resolveDirectoryProposalResult db conflict.directoryContext event.eventSeq
  return (appendEvent db { eventId := resolvedId, eventType := .conflictResolved, vaultId, now := mainStamp.now }).1

def deleteIntents (removed : List Path) : List DirectoryIntent := removed.map (⟨.delete, ·⟩)

def commitVaultSettingsOperation (stamp : Stamp) : Except Failure MetadataDb := do
  let operation ← requireOperation db operationId
  let _ ← requireVault db operation.vaultId
  match operation.preparedManifest.targetMain, operation.preparedManifest.actorUserId,
      operation.preparedManifest.removedDirectories with
  | some targetMain, some _, some removed =>
    if operation.status ≠ .prepared || operation.targetMain ≠ some targetMain ||
        operation.targetCommit ≠ some targetMain then
      throw (.error "Prepared vault settings operation is invalid.")
    let db := advanceMain db operationId operation.vaultId targetMain
    let (db, event) := appendEvent db (mainAdvanced operation.vaultId (.array (deleteIntents removed)) stamp)
    return applyDirectoryIntents db operation.vaultId (deleteIntents removed) event.eventSeq stamp.now
  | _, _, _ => throw (.error "Prepared vault settings operation is invalid.")

variable (operation : SyncOperationRow)

/-- Commits a prepared name repair, or returns `none` when it no longer matches the metadata;
shared by the live path and the roll-forward. -/
def commitPreparedNameRepair (stamp : Stamp) : Option MetadataDb :=
  match db.vaults.find? (·.vaultId = operation.vaultId), operation.preparedManifest.previousMain,
      operation.preparedManifest.targetMain, operation.preparedManifest.actorUserId,
      operation.preparedManifest.directoryIntents with
  | some vault, some previousMain, some targetMain, some _, some intents =>
    if operation.operationType ≠ .nameRepair || operation.status ≠ .prepared ||
        vault.currentMain ≠ previousMain || operation.expectedMain ≠ some previousMain ||
        operation.targetMain ≠ some targetMain || operation.targetCommit ≠ some targetMain then none
    else
      let db := advanceMain db operation.operationId operation.vaultId targetMain
      let (db, event) := appendEvent db (mainAdvanced operation.vaultId (.array intents) stamp)
      some (applyDirectoryIntents db operation.vaultId intents event.eventSeq stamp.now)
  | _, _, _, _, _ => none

def recoveredDirectoryEventPayload : IntentsField :=
  match operation.preparedManifest.directoryPlan, operation.deviceId with
  | some plan, some _ => directoryEventPayload (some plan)
  | _, deviceId =>
    match operation.preparedManifest.directoryProposal, deviceId with
    | some _, some _ => .array operation.preparedManifest.resolvedDirectoryIntents
    | _, _ => .absent

def commitRecoveredDirectoryState (eventSeq now : Nat) : MetadataDb :=
  match operation.preparedManifest.directoryPlan, operation.deviceId, operation.targetCommit with
  | some plan, some deviceId, some targetCommit =>
    commitDirectoryPlan db operation.vaultId deviceId targetCommit (some plan) eventSeq now
  | _, _, _ =>
    match operation.preparedManifest.directoryProposal with
    | none => db
    | some _ =>
      let db := applyDirectoryIntents db operation.vaultId
        operation.preparedManifest.resolvedDirectoryIntents eventSeq now
      match operation.preparedManifest.conflictId with
      | none => db
      | some conflictId =>
        match db.conflicts.find? (·.conflictId = conflictId) with
        | none => db
        | some conflict => resolveDirectoryProposalResult db conflict.directoryContext eventSeq

/-- A resolution needs its actor, its kind, its conflict and its device. -/
def lacksResolutionEvidence : Bool :=
  let device := operation.deviceId.bind fun deviceId =>
    db.devices.find? (·.deviceId = deviceId)
  let conflict := operation.preparedManifest.conflictId.bind fun conflictId =>
    db.conflicts.find? fun conflict =>
      conflict.vaultId = operation.vaultId && conflict.conflictId = conflictId
  operation.operationType = .conflictResolve && (operation.preparedManifest.actorUserId.isNone ||
      operation.preparedManifest.resolutionKind.isNone || conflict.isNone || device.isNone)

def advanceRecovered (targetMain : String) : MetadataDb :=
  let advanced := advanceMain db operation.operationId operation.vaultId targetMain
  match operation.operationType, operation.preparedManifest.conflictId with
  | .conflictResolve, some conflictId => markResolved advanced operation.vaultId conflictId
  | _, _ => advanced

/-- The events and directories of a recovered operation, main being advanced already. -/
def recordRecovered (db : MetadataDb) (operation : SyncOperationRow) (mainStamp : Stamp)
    (secondId : String) : MetadataDb :=
  let appended := appendEvent db
    (mainAdvanced operation.vaultId (recoveredDirectoryEventPayload operation) mainStamp)
  let recovered := commitRecoveredDirectoryState appended.1 operation appended.2.eventSeq
    mainStamp.now
  match operation.operationType with
  | .conflictResolve => (appendEvent recovered
      { eventId := secondId, eventType := .conflictResolved, vaultId := operation.vaultId,
        now := mainStamp.now }).1
  | .noteRestore => (appendEvent recovered
      { eventId := secondId, eventType := .noteRestored, vaultId := operation.vaultId,
        now := mainStamp.now }).1
  | _ => recovered

/-- The roll-forward of a merge, a conflict resolution or a note restore. -/
def rollForwardMain (mainStamp : Stamp) (secondId : String) : MetadataDb :=
  match db.vaults.find? (·.vaultId = operation.vaultId), operation.targetMain with
  | some _, some targetMain =>
    if lacksResolutionEvidence db operation then blockVault db operation.vaultId
    else recordRecovered (advanceRecovered db operation targetMain)
      { operation with targetCommit := some targetMain } mainStamp secondId
  | _, _ => blockVault db operation.vaultId

/-- The roll-forward of a settings change writes the directory row itself: it keeps exactly
the paths outside the removed list, and it does so for an empty list as well. -/
def rollForwardVaultSettings (stamp : Stamp) : MetadataDb :=
  match db.vaults.find? (·.vaultId = operation.vaultId), operation.preparedManifest.previousMain,
      operation.preparedManifest.targetMain, operation.preparedManifest.actorUserId,
      operation.preparedManifest.removedDirectories with
  | some vault, some previousMain, some targetMain, some _, some removed =>
    if vault.currentMain ≠ previousMain || operation.expectedMain ≠ some previousMain ||
        operation.targetMain ≠ some targetMain || operation.targetCommit ≠ some targetMain then
      blockVault db operation.vaultId
    else
      let db := advanceMain db operation.operationId operation.vaultId targetMain
      let (db, event) := appendEvent db (mainAdvanced operation.vaultId (.array (deleteIntents removed)) stamp)
      { db with
        directoryStateByVault := Function.update db.directoryStateByVault operation.vaultId (some {
            explicitDirs := (db.explicitDirs operation.vaultId).filter fun path =>
              !removed.contains path
            updatedAt := stamp.now
            lastEventSeq := event.eventSeq }) }
  | _, _, _, _, _ => blockVault db operation.vaultId

/-- `verified` says whether Git and the stored evidence confirm the prepared operation. -/
def rollForwardPreparedOperation (operationId : String) (verified : Bool)
    (stamp : Stamp) (secondId : String) : MetadataDb :=
  match db.syncOperations.find? (·.operationId = operationId) with
  | none => db
  | some operation =>
    if operation.status ≠ .prepared then db
    else if !verified then blockVault db operation.vaultId
    else
      match operation.operationType with
      | .nameRepair =>
        match commitPreparedNameRepair db operation stamp with
        | some db => db
        | none => blockVault db operation.vaultId
      | .vaultSettings => rollForwardVaultSettings db operation stamp
      | .serverMerge | .conflictResolve | .noteRestore => rollForwardMain db operation stamp secondId
      | _ => db

def appendEvents (vaultId : String) (events : List (EventType × Stamp)) : MetadataDb :=
  events.foldl (fun db (eventType, stamp) =>
    (appendEvent db { eventId := stamp.eventId, eventType, vaultId, now := stamp.now }).1) db

/-- The end of a vault's deletion. -/
def finalizeDb (db : MetadataDb) (vaultId : String) : MetadataDb where
  vaults := db.vaults.filter (·.vaultId ≠ vaultId)
  devices := db.devices.filter (·.vaultId ≠ vaultId)
  conflicts := db.conflicts.filter (·.vaultId ≠ vaultId)
  syncOperations := db.syncOperations.filter (·.vaultId ≠ vaultId)
  events := db.events.filter (·.vaultId ≠ vaultId)
  eventSeqByVault := Function.update db.eventSeqByVault vaultId none
  directoryStateByVault := Function.update db.directoryStateByVault vaultId none
  directoryProposalResults := db.directoryProposalResults.filter (·.vaultId ≠ vaultId)

end DirectoryOperations
