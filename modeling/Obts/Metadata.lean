import Obts.DirectoryIntents

/-!
# Server metadata

The rows of the metadata database that the modelled operations read or write, and the
operations of the metadata store on them. Wall-clock times are natural numbers of
milliseconds handed in by the caller; an unparsable creation time is `none`. Tables that
no modelled operation uses (users, sessions, tokens, audit and diagnostics) are left out.
-/
namespace Metadata

open ForestEdits SlashPath DirectoryIntents List

structure AuthError where
  statusCode : Nat
  (code message : String)
  deriving DecidableEq

/-- What an operation can throw: an error shown to the client, or any other one. -/
inductive Failure where
  | auth (error : AuthError)
  | error (message : String)
  deriving DecidableEq

/-- A sequence of fallible steps succeeds exactly when each of them does. -/
lemma bind_eq_ok {ε α β : Type} {x : Except ε α} {f : α → Except ε β} {b : β} :
    (x >>= f) = .ok b ↔ ∃ a, x = .ok a ∧ f a = .ok b := by
  cases x with
  | error | ok => simp [bind, Except.bind]

inductive Provenance where
  | legacy
  | localV2
  deriving DecidableEq

structure DirectoryProposalIntent extends DirectoryIntent where
  intentId : String
  generation : Nat
  provenance : Provenance
  deriving DecidableEq

structure DirectoryProposal where
  proposalId : String
  baseMain : Option String
  baseEventSeq : Nat
  intents : List DirectoryProposalIntent
  deriving DecidableEq

variable (proposal : DirectoryProposal)

/-- The proposal's intents without their identities, as events and states use them. -/
def DirectoryProposal.directoryIntents : List DirectoryIntent :=
  proposal.intents.map DirectoryProposalIntent.toDirectoryIntent

structure IntentAcknowledgement where
  intentId : String
  generation : Nat
  deriving DecidableEq

def proposalIntentAcknowledgements : List IntentAcknowledgement :=
  proposal.intents.map fun intent => ⟨intent.intentId, intent.generation⟩

/-- The outcome of comparing a proposal with the server's directories. -/
structure DirectoryMergePlan where
  proposal : DirectoryProposal
  requestSha256 : String
  (baseExplicitDirs serverExplicitDirs : List Path)
  (cleanIntents conflictingIntents : List DirectoryProposalIntent)
  affectedRoots : List Path
  expectedEventSeq : Nat
  deriving DecidableEq

/-- The same comparison as a conflict record keeps it. -/
structure DirectoryConflictContext where
  proposal : DirectoryProposal
  (baseExplicitDirs serverExplicitDirs : List Path)
  (cleanIntentIds conflictingIntentIds : List String)
  affectedRoots : List Path
  expectedEventSeq : Nat
  deriving DecidableEq

inductive ConflictResolutionKind where
  | keepServer
  | useDevice
  | keepBothFiles
  | insertBothBlocks
  | manual
  | perFile
  deriving DecidableEq

structure DirectoryStateRow where
  explicitDirs : List Path
  (updatedAt lastEventSeq : Nat)
  deriving DecidableEq

inductive ProposalResultStatus where
  | accepted
  | conflicted
  | resolved
  deriving DecidableEq

structure DirectoryProposalResultRow where
  (proposalId requestSha256 vaultId deviceId targetCommit : String)
  status : ProposalResultStatus
  conflictId : Option String
  eventSeq : Nat
  acknowledgedIntents : List IntentAcknowledgement
  deriving DecidableEq

inductive VaultStatus where
  | active
  | blockedIntegrity
  | deleting
  deriving DecidableEq

structure VaultRow where
  vaultId : String
  status : VaultStatus
  currentMain : String
  deriving DecidableEq

inductive ConflictStatus where
  | open
  | resolved
  deriving DecidableEq

inductive ConflictReason where
  | renameRenameConflict
  | renameDeleteConflict
  | deleteEditConflict
  | renamePathCollision
  | ambiguousRenameConflict
  | renameDestinationOccupied
  | competingRename
  | rootIgnoreCapabilityRequired
  | rootIgnoreMergePolicy
  | directoryOverlap
  | mixedDirectoryOverlap
  | invalidProposalBase
  | noMergeBase
  | detachedProposalDeletes
  | overlappingPaths
  | sameDeviceHistoryDivergence
  deriving DecidableEq

inductive ConflictKind where
  | content
  | directory
  | mixed
  deriving DecidableEq

structure RenamePair where
  (sourcePath destinationPath : String)
  deriving DecidableEq

structure ConflictRecord where
  (conflictId vaultId deviceId : String)
  status : ConflictStatus
  (baseCommit currentMain deviceCommit expectedMain : String)
  affectedPaths : List Path
  conflictKind : ConflictKind
  renamePairs : List RenamePair
  reason : ConflictReason
  directoryContext : Option DirectoryConflictContext
  deriving DecidableEq

inductive OperationType where
  | devicePush
  | serverMerge
  | conflictCreate
  | conflictRefresh
  | conflictResolve
  | noteRestore
  | gitMaintenance
  | vaultSettings
  | nameRepair
  deriving DecidableEq

inductive OperationStatus where
  | started
  | prepared
  | committed
  | aborted
  deriving DecidableEq

/-- The entries of a prepared manifest that are read back; absent or null ones are `none`. -/
structure PreparedManifest where
  attemptId : Option String := none
  attemptHash : Option String := none
  proposalBase : Option String := none
  requestedBaseCommit : Option String := none
  renamePairs : Option (List RenamePair) := none
  actorUserId : Option String := none
  previousMain : Option String := none
  targetMain : Option String := none
  removedDirectories : Option (List Path) := none
  directoryIntents : Option (List DirectoryIntent) := none
  directoryPlan : Option DirectoryMergePlan := none
  directoryProposal : Option DirectoryProposal := none
  resolvedDirectoryIntents : List DirectoryIntent := []
  conflictId : Option String := none
  resolutionKind : Option ConflictResolutionKind := none
  deriving DecidableEq

structure SyncOperationRow where
  operationId : String
  operationSequence : Option Nat := none
  vaultId : String
  deviceId : Option String
  operationType : OperationType
  /-- The entry for the main branch of the expected and of the target refs. -/
  expectedMain : Option String
  (targetMain targetCommit : Option String)
  status : OperationStatus
  /-- Absent on legacy pushes; a null value binds the natural-base rule. -/
  proposalBase : Option (Option String) := none
  preparedManifest : PreparedManifest
  deriving DecidableEq

structure DeviceRow where
  (deviceId vaultId : String)
  (deviceRefHead lastAppliedMain : Option String)
  lastAppliedEventSeq : Nat
  lastAppliedExplicitDirs : Option (List Path)

inductive EventType where
  | mainAdvanced
  | deviceRefUpdated
  | deviceSyncRejected
  | deviceRecoveryRequired
  | conflictCreated
  | conflictReviewRefreshed
  | conflictResolved
  | noteRestored
  | deviceStateChanged
  | vaultMaintenanceStarted
  | vaultMaintenanceFinished
  deriving DecidableEq

/-- The `directory_intents` entry of an event's payload. -/
inductive IntentsField where
  | absent
  | array (intents : List DirectoryIntent)
  | notArray
  deriving DecidableEq

structure EventEnvelope where
  eventId : String
  eventSeq : Nat
  eventType : EventType
  vaultId : String
  directoryIntents : IntentsField
  createdAt : Option Nat
  deriving DecidableEq

/-- A row on its way to the ledger: its canonical text and the digest of that. -/
structure HistoryBatchEntry where
  operationId : String
  sequence : Nat
  (canonical sha256 : String)

structure HistoryBatch where
  (vaultId ledgerId batchId : String)
  (parentGeneration targetGeneration : Nat)
  rows : List HistoryBatchEntry

structure OperationHistoryState where
  ledgerId : String
  (generation nextSequence : Nat)
  initPending : Bool
  pendingBatch : Option HistoryBatch

structure MetadataDb where
  vaults : List VaultRow := []
  devices : List DeviceRow := []
  conflicts : List ConflictRecord := []
  syncOperations : List SyncOperationRow := []
  events : List EventEnvelope := []
  eventSeqByVault : String → Option Nat := fun _ => none
  directoryStateByVault : String → Option DirectoryStateRow := fun _ => none
  directoryProposalResults : List DirectoryProposalResultRow := []
  operationHistoryByVault : List (String × OperationHistoryState) := []

namespace MetadataDb

/-- The vault's event sequence, zero before its first event. -/
def eventSeq (db : MetadataDb) (vaultId : String) : Nat := (db.eventSeqByVault vaultId).getD 0

/-- The vault's explicit directories, none before the first directory change. -/
def explicitDirs (db : MetadataDb) (vaultId : String) : List Path :=
  match db.directoryStateByVault vaultId with
  | some row => row.explicitDirs
  | none => []

def lastDirectoryEventSeq (db : MetadataDb) (vaultId : String) : Nat :=
  match db.directoryStateByVault vaultId with
  | some row => row.lastEventSeq
  | none => 0

end MetadataDb

variable (db : MetadataDb)

def requireDevice (deviceId : String) : Except Failure DeviceRow :=
  match db.devices.find? (·.deviceId = deviceId) with
  | some device => .ok device
  | none => .error (.error ("Device not found: " ++ deviceId))

def requireVault (vaultId : String) : Except Failure VaultRow :=
  match db.vaults.find? (·.vaultId = vaultId) with
  | some vault => .ok vault
  | none => .error (.error ("Vault not found: " ++ vaultId))

def eventRetentionMs : Nat := 30 * 24 * 60 * 60 * 1000

def eventRetentionLimit : Nat := 100000

/-- Expired events of the vault go, and only its newest events up to the limit stay. -/
def pruneVaultEvents (vaultId : String) (now : Nat) : MetadataDb :=
  let cutoff := now - eventRetentionMs
  let fresh := (db.events.filter (·.vaultId = vaultId)).filter fun event =>
    match event.createdAt with
    | none => true
    | some createdAt => cutoff ≤ createdAt
  let retainedIds := (fresh.drop (fresh.length - eventRetentionLimit)).map (·.eventId)
  { db with
    events := db.events.filter fun event =>
      event.vaultId ≠ vaultId || retainedIds.contains event.eventId }

/-- What the caller of `appendEvent` supplies, with the fresh identifier and the clock. -/
structure NewEvent where
  eventId : String
  eventType : EventType
  vaultId : String
  directoryIntents : IntentsField := .absent
  now : Nat

def appendEvent (event : NewEvent) : MetadataDb × EventEnvelope :=
  let eventSeq := db.eventSeq event.vaultId + 1
  let envelope : EventEnvelope :=
    { eventId := event.eventId
      eventSeq
      eventType := event.eventType
      vaultId := event.vaultId
      directoryIntents := event.directoryIntents
      createdAt := some event.now }
  let db := { db with
    eventSeqByVault := Function.update db.eventSeqByVault event.vaultId (some eventSeq)
    events := db.events ++ [envelope] }
  (pruneVaultEvents db event.vaultId event.now, envelope)

section Append

variable (db : MetadataDb) (event : NewEvent) {e : EventEnvelope}

@[simp] lemma appendEvent_eventSeq (vaultId : String) : (appendEvent db event).1.eventSeq vaultId
      = db.eventSeq vaultId + if vaultId = event.vaultId then 1 else 0 := by
  by_cases h : vaultId = event.vaultId
  · subst h
    simp [appendEvent, pruneVaultEvents, MetadataDb.eventSeq]
  · simp [appendEvent, pruneVaultEvents, MetadataDb.eventSeq, h]

@[simp] lemma appendEvent_directoryState :
    (appendEvent db event).1.directoryStateByVault = db.directoryStateByVault := rfl

@[simp] lemma appendEvent_explicitDirs (vaultId : String) :
    (appendEvent db event).1.explicitDirs vaultId = db.explicitDirs vaultId := rfl

@[simp] lemma appendEvent_syncOperations : (appendEvent db event).1.syncOperations = db.syncOperations := rfl

@[simp] lemma appendEvent_snd_eventSeq : (appendEvent db event).2.eventSeq = db.eventSeq event.vaultId + 1 := rfl

/-- Pruning keeps the newest events of the vault, up to the limit. -/
lemma mem_pruneVaultEvents {db : MetadataDb} {vaultId : String} {now : Nat}
    {older newer : List EventEnvelope} (hevs : db.events = older ++ newer)
    (hlimit : newer.length ≤ eventRetentionLimit) (he : e ∈ newer) (hvault : e.vaultId = vaultId)
    (hnow : e.createdAt = some now) : e ∈ (pruneVaultEvents db vaultId now).events := by
  set fresh : EventEnvelope → Bool := fun event =>
    match event.createdAt with
    | none => true
    | some createdAt => now - eventRetentionMs ≤ createdAt with hfresh
  have hkept : e ∈ (newer.filter (·.vaultId = vaultId)).filter fresh := by
    simp [he, hvault, hfresh, hnow]
  have hlen : ((newer.filter (·.vaultId = vaultId)).filter fresh).length
      ≤ eventRetentionLimit :=
    ((length_filter_le _ _).trans (length_filter_le _ _)).trans hlimit
  have hsplit : (db.events.filter (·.vaultId = vaultId)).filter fresh
      = (older.filter (·.vaultId = vaultId)).filter fresh ++
        (newer.filter (·.vaultId = vaultId)).filter fresh := by
    rw [hevs, filter_append, filter_append]
  have hret : e ∈ ((db.events.filter (·.vaultId = vaultId)).filter fresh).drop
      (((db.events.filter (·.vaultId = vaultId)).filter fresh).length - eventRetentionLimit) := by
    rw [hsplit, length_append, drop_append_of_le_length (by omega)]
    exact mem_append_right _ hkept
  have hmem : e ∈ db.events := by
    rw [hevs]
    exact mem_append_right _ he
  simp only [pruneVaultEvents, mem_filter, Bool.or_eq_true]
  exact ⟨hmem, Or.inr (contains_iff_mem.mpr (mem_map_of_mem hret))⟩

lemma mem_appendEvent_events (he : e ∈ (appendEvent db event).1.events) :
    e ∈ db.events ∨ e = (appendEvent db event).2 := by
  have hmem := (mem_filter.mp he).1
  rcases mem_append.mp hmem with h | h
  · exact Or.inl h
  · exact Or.inr (mem_singleton.mp h)

lemma appendEvent_snd_mem : (appendEvent db event).2 ∈ (appendEvent db event).1.events :=
  mem_pruneVaultEvents rfl (by simp [eventRetentionLimit]) (mem_singleton_self _) rfl rfl

/-- The new event stands last in the pruned log. -/
lemma appendEvent_events_eq : ∃ older, (appendEvent db event).1.events = older ++ [(appendEvent db event).2] := by
  obtain ⟨keep, hkeep⟩ : ∃ keep, (appendEvent db event).1.events
      = (db.events ++ [(appendEvent db event).2]).filter keep := ⟨_, rfl⟩
  have hmem := appendEvent_snd_mem db event
  rw [hkeep, mem_filter] at hmem
  refine ⟨db.events.filter keep, ?_⟩
  rw [hkeep, filter_append, filter_cons_of_pos hmem.2, filter_nil]

end Append

def applyDirectoryIntents (db : MetadataDb) (vaultId : String) (intents : List DirectoryIntent)
    (eventSeq now : Nat) : MetadataDb :=
  if intents.length = 0 then db
  else
    let explicitDirs := intents.foldl applyIntent (InsertionOrder.ofList (db.explicitDirs vaultId))
    { db with
      directoryStateByVault := Function.update db.directoryStateByVault vaultId
        (some { explicitDirs := sort explicitDirs, updatedAt := now, lastEventSeq := eventSeq }) }

/-- The live application of intents and the pure one on the stored snapshot agree. -/
lemma dirs_applyDirectoryIntents (db : MetadataDb) (vaultId : String)
    (intents : List DirectoryIntent) (eventSeq now : Nat) :
    dirs ((applyDirectoryIntents db vaultId intents eventSeq now).explicitDirs vaultId)
      = run (dirs (db.explicitDirs vaultId)) (edits intents) := by
  by_cases h : intents.length = 0
  · rw [applyDirectoryIntents, if_pos h, length_eq_zero_iff.mp h]
    rfl
  · rw [← dirs_applyDirectoryIntentsToSnapshot, applyDirectoryIntents, if_neg h]
    simp [MetadataDb.explicitDirs, applyDirectoryIntentsToSnapshot]

end Metadata
