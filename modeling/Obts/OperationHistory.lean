import Obts.DurableTasks
import Obts.OperationLedger

/-!
# Hand-off of operations to the ledger

The metadata file and the ledgers of the vaults are separate durable stores. Completed
operations move from the one to the other in three durable steps: the metadata with the pending
batch, the ledger's transaction, and the metadata without the rows. A process may be cut off
after any step of any task, recovery included.

The process writes through an atomic rename, so between tasks its metadata is what the file
holds; a write that fails in any other way stops the store until the next start, as a crash does.
Device removal, the handles of open ledgers and their scratch directories are left out.
-/
namespace OperationHistory

open Metadata InsertionOrder OperationLedger DurableTasks

/-- The durable stores, with a history of the operations that the metadata file ever held: the
last content of each, and the first sequence number it had there. -/
structure Disk where
  metadata : MetadataDb
  ledgers : String → Option Ledger
  record : String → Option SyncOperationRow
  original : String → Option Nat

def findRow (db : MetadataDb) (operationId : String) : Option SyncOperationRow :=
  db.syncOperations.find? (·.operationId = operationId)

namespace Disk

def persist (disk : Disk) (db : MetadataDb) : Disk :=
  { disk with
    metadata := db
    record := fun id => (findRow db id).or (disk.record id)
    original := fun id => (disk.original id).or ((findRow db id).bind (·.operationSequence)) }

def setLedger (disk : Disk) (vaultId : String) (ledger : Ledger) : Disk :=
  { disk with ledgers := Function.update disk.ledgers vaultId (some ledger) }

end Disk

abbrev StoreTask (α : Type) : Type := Task Disk Failure α

def persist (db : MetadataDb) : StoreTask Unit := .write (·.persist db)

def orThrow {α : Type} (value : Option α) (message : String) : StoreTask α :=
  .ofExcept (match value with
    | some a => .ok a
    | none => .error (.error message))

variable (db : MetadataDb) (vaultId : String)

def hotRows : List SyncOperationRow :=
  db.syncOperations.filter (·.vaultId = vaultId)

def stateOf : Option OperationHistoryState :=
  valueAt db.operationHistoryByVault vaultId

def setState (state : OperationHistoryState) : MetadataDb :=
  { db with operationHistoryByVault := set db.operationHistoryByVault vaultId state }

/-- A fresh identifier: its kind and a part that no other identifier has. -/
def newId (kind unique : String) : String := kind ++ "_" ++ unique

variable (codec : Codec) (vaultId : String)

/-- The ledger file of a vault that is open. -/
def ledgerOf : StoreTask Ledger := do
  orThrow ((← Task.read).ledgers vaultId) "Operation history ledger is missing."

/-- The checks that opening an existing ledger makes. -/
def verifyOpened (ledger : Ledger) (vaultId ledgerId : String) (validateContents : Bool)
    (state : HistoryOpenState) : Except Failure Unit := do
  ledger.verifyIdentity vaultId ledgerId none none
  if validateContents then ledger.verifyContents codec vaultId
  ledger.verifyOpenState vaultId ledgerId state

variable (state : OperationHistoryState)

def openStateOf : HistoryOpenState :=
  ⟨state.generation, state.nextSequence, state.pendingBatch⟩

/-- Opens the ledger of a vault; a vault that is being initialized may create it. -/
def openLedger (validateContents : Bool) :
    StoreTask Unit := do
  .check (state.initPending → state.generation = 0 ∧ state.pendingBatch = none)
    (.error "Operation history initialization state is inconsistent.")
  match (← Task.read).ledgers vaultId with
  | none =>
    .check (state.initPending = true) (.error "Acknowledged operation history ledger is missing.")
    .write (·.setLedger vaultId { vaultId, ledgerId := state.ledgerId })
  | some ledger =>
    -- The preflight opens the file without writing to it.
    .ofExcept (verifyOpened codec ledger vaultId state.ledgerId false (openStateOf state))
  let ledger ← ledgerOf vaultId
  .ofExcept (verifyOpened codec ledger vaultId state.ledgerId validateContents (openStateOf state))

def verifyAvailable : StoreTask Unit := do
  let ledger ← ledgerOf vaultId
  .ofExcept (ledger.verifyIdentity vaultId state.ledgerId (some state.generation) (some state.nextSequence))

def ensureHistory : StoreTask Unit := do
  let state ← orThrow (stateOf (← Task.read).metadata vaultId) "Operation history metadata is missing."
  openLedger codec vaultId state false
  verifyAvailable vaultId state

def commitBatch (vaultId ledgerId : String) (batch : HistoryBatch) : StoreTask Unit := do
  let ledger ← ledgerOf vaultId
  let ledger ← .ofExcept (ledger.commitBatch codec vaultId ledgerId batch)
  .write (·.setLedger vaultId ledger)

def sourceMismatch : Failure :=
  .error "Operation history source row does not match its handoff descriptor."

/-- One entry of the pending batch against the rows, with the numbers and identifiers before it. -/
def validateEntry (rows : List SyncOperationRow) (seen : Nat × List String)
    (entry : HistoryBatchEntry) : Except Failure (Nat × List String) :=
  match rows.reverse.find? (·.operationId = entry.operationId) with
  | none => .error sourceMismatch
  | some row =>
    if isTerminal row.status ∧ row.operationSequence = some entry.sequence ∧
        seen.1 < entry.sequence ∧ entry.operationId ∉ seen.2 ∧
        codec.canonical row = entry.canonical ∧
        codec.sha256 (codec.canonical row) = entry.sha256 then
      .ok (entry.sequence, entry.operationId :: seen.2)
    else .error sourceMismatch

variable (db : MetadataDb)

def validateHistoryBatch (vaultId : String) (state : OperationHistoryState)
    (batch : HistoryBatch) : Except Failure Unit := do
  unless batch.vaultId = vaultId ∧ batch.ledgerId = state.ledgerId ∧
      batch.parentGeneration = state.generation ∧ batch.targetGeneration = state.generation + 1 ∧
      batch.rows.length ≠ 0 ∧ batch.rows.length ≤ 256 do
    throw (.error "Operation history handoff descriptor is inconsistent.")
  let _ ← batch.rows.foldlM (validateEntry codec (hotRows db vaultId)) (0, [])

/-- The metadata without the rows of a batch that the ledger holds. -/
def withoutBatch (vaultId : String) (batch : HistoryBatch)
    (state : OperationHistoryState) : MetadataDb :=
  setState
    { db with
      syncOperations := db.syncOperations.filter fun row =>
        row.vaultId ≠ vaultId || !batch.rows.any (·.operationId = row.operationId) }
    vaultId { state with generation := batch.targetGeneration, pendingBatch := none }

def finishHistoryBatch (vaultId : String) (batch : HistoryBatch) :
    StoreTask Unit := do
  let state ← orThrow (stateOf db vaultId) "Operation history metadata is missing."
  persist (withoutBatch db vaultId batch state)

def recoverHistoryBatch (vaultId : String) (state : OperationHistoryState)
    (batch : HistoryBatch) : StoreTask Unit := do
  .ofExcept (validateHistoryBatch codec db vaultId state batch)
  let ledger ← ledgerOf vaultId
  .check (ledger.generation = batch.parentGeneration ∨ ledger.generation = batch.targetGeneration)
    (.error "Operation history archive proof is missing.")
  commitBatch codec vaultId state.ledgerId batch
  finishHistoryBatch db vaultId batch

def publishHistoryBatch (vaultId unique : String) (rows : List SyncOperationRow) :
    StoreTask Unit := do
  let db := (← Task.read).metadata
  let state ← orThrow (stateOf db vaultId) "Operation history metadata is missing."
  ensureHistory codec vaultId
  let ledger ← ledgerOf vaultId
  .check (state.pendingBatch = none ∧ state.generation = ledger.generation)
    (.error "Operation history handoff is unavailable.")
  .check (∀ row ∈ rows, row.operationSequence ≠ none) (.error "Operation history sequence is missing.")
  let batch : HistoryBatch :=
    { vaultId
      ledgerId := state.ledgerId
      batchId := newId "batch" unique
      parentGeneration := state.generation
      targetGeneration := state.generation + 1
      rows := rows.map (entryOf codec) }
  let db := setState db vaultId { state with pendingBatch := some batch }
  persist db
  commitBatch codec vaultId state.ledgerId batch
  finishHistoryBatch db vaultId batch

/-- The rows of a vault that may be archived, in order, at most 256 of them. A committed push that
is its device's head stays while its merge is pending. -/
def eligibleRows (db : MetadataDb) (vaultId : String) (isPendingMerge : SyncOperationRow → Bool) :
    List SyncOperationRow :=
  let currentDeviceHead (deviceId : String) : Option (Option String) :=
    (db.devices.reverse.find? fun device =>
      device.vaultId = vaultId && device.deviceId = deviceId).map (·.deviceRefHead)
  let eligible := (hotRows db vaultId).filter fun row =>
    isTerminal row.status && !(row.operationType = .devicePush && row.status = .committed &&
        (row.deviceId.filter (· ≠ "")).any (fun deviceId => currentDeviceHead deviceId = some row.targetCommit) &&
        isPendingMerge row)
  (sortBy (compareOn sequenceNumber) eligible).take 256

def archiveEligibleUnqueued (vaultId unique : String) (isPendingMerge : SyncOperationRow → Bool) :
    StoreTask Nat := do
  let db := (← Task.read).metadata
  match db.vaults.find? (·.vaultId = vaultId) with
  | none => return 0
  | some vault =>
    if vault.status ≠ .active then return 0
    ensureHistory codec vaultId
    let ledger ← ledgerOf vaultId
    let state ← orThrow (stateOf db vaultId) "Operation history metadata is missing."
    .check (state.pendingBatch = none) (.error "Operation history handoff requires recovery.")
    .check (ledger.generation = state.generation ∧ ledger.maxSequence < state.nextSequence)
      generationMismatch
    let eligible := eligibleRows db vaultId isPendingMerge
    if eligible.length = 0 then return 0
    publishHistoryBatch codec vaultId unique eligible
    return eligible.length

/-- Numbers the vault's rows in the order of the array. -/
def numberRows (vaultId : String) : Nat → List SyncOperationRow → List SyncOperationRow
  | _, [] => []
  | next, row :: rows =>
    if row.vaultId = vaultId then
      { row with operationSequence := some next } :: numberRows vaultId (next + 1) rows
    else row :: numberRows vaultId next rows

/-- The rows' numbers increase; returns the last of them. -/
def verifyOrder (rows : List SyncOperationRow) : Except Failure Nat :=
  rows.foldlM (fun previousSequence row =>
    match row.operationSequence with
    | some sequence =>
      if previousSequence < sequence then .ok sequence
      else .error (.error "Operation history hot-row ordering is inconsistent.")
    | none => .error (.error "Operation history hot-row ordering is inconsistent.")) 0

def newState (ledgerId : String) (count : Nat) : OperationHistoryState :=
  { ledgerId, generation := 0, nextSequence := count + 1, initPending := true, pendingBatch := none }

variable (newLedgerId : String → String)

/-- A vault without history state gets one and its rows their numbers; otherwise both are checked. -/
def initializeState (db : MetadataDb) (vault : VaultRow) :
    Except Failure MetadataDb := do
  let rows := hotRows db vault.vaultId
  match stateOf db vault.vaultId with
  | none =>
    if rows.any (·.operationSequence.isSome) then
      throw (.error "Unacknowledged operation history sequence state is inconsistent.")
    let db := { db with syncOperations := numberRows vault.vaultId 1 db.syncOperations }
    return setState db vault.vaultId (newState (newId "hist" (newLedgerId vault.vaultId)) rows.length)
  | some state =>
    let previousSequence ← verifyOrder rows
    unless previousSequence < state.nextSequence ∧ state.ledgerId ≠ "" do
      throw (.error "Operation history metadata is inconsistent.")
    return db

/-- Clears `init_pending` in the process's metadata. -/
def finishInitialization : StoreTask MetadataDb := do
  let db := (← Task.read).metadata
  let state ← orThrow (stateOf db vaultId) "TypeError"
  let initialized := setState db vaultId { state with initPending := false }
  persist initialized
  return initialized

/-- Opens the ledger of one vault at start and completes its pending batch. The metadata that the
loop works on is not reread after a recovery. -/
def initializeLedger (candidate : MetadataDb) (vault : VaultRow) : StoreTask MetadataDb := do
  let state ← orThrow (stateOf candidate vault.vaultId)
    "Operation history initialization state is missing."
  if vault.status = .deleting then return candidate
  .check (state.initPending → state.generation = 0 ∧ state.pendingBatch = none)
    (.error "Operation history initialization state is inconsistent.")
  match state.pendingBatch with
  | some batch => .ofExcept (validateHistoryBatch codec candidate vault.vaultId state batch)
  | none => pure ()
  openLedger codec vault.vaultId state true
  match state.pendingBatch with
  | some batch => recoverHistoryBatch codec candidate vault.vaultId state batch
  | none =>
    let ledger ← ledgerOf vault.vaultId
    .check (ledger.generation = state.generation ∧ ledger.maxSequence < state.nextSequence)
      generationMismatch
  if state.initPending then finishInitialization vault.vaultId
  else return candidate

def initializeOperationHistory : StoreTask Unit := do
  let current := (← Task.read).metadata
  .check ((∀ row ∈ current.syncOperations, row.vaultId ∈ current.vaults.map (·.vaultId)) ∧
      ∀ entry ∈ current.operationHistoryByVault, entry.1 ∈ current.vaults.map (·.vaultId))
    (.error "Operation history references an unknown vault.")
  let candidate ← .ofExcept (current.vaults.foldlM (initializeState newLedgerId) current)
  if current.vaults.any (fun vault => (stateOf current vault.vaultId).isNone) then
    persist candidate
  let _ ← candidate.vaults.foldlM (initializeLedger codec) candidate

/-- What starts an operation. -/
structure OperationInput where
  vaultId : String
  deviceId : Option String
  operationType : OperationType
  (expectedMain targetMain targetCommit : Option String)

def startOperation (db : MetadataDb) (operationId newLedgerId : String) (input : OperationInput) :
    MetadataDb :=
  let state := (stateOf db input.vaultId).getD
    (newState (newId "hist" newLedgerId) (hotRows db input.vaultId).length)
  let operation : SyncOperationRow :=
    { operationId
      operationSequence := some state.nextSequence
      vaultId := input.vaultId
      deviceId := input.deviceId
      operationType := input.operationType
      expectedMain := input.expectedMain
      targetMain := input.targetMain
      targetCommit := input.targetCommit
      status := .started
      preparedManifest := {} }
  { setState db input.vaultId { state with nextSequence := state.nextSequence + 1 } with
    syncOperations := db.syncOperations ++ [operation] }

/-- The parts of a mutation that touch vaults or operations, and one for every other table. Callers
start operations of vaults they have looked up, and keep an operation's identifier, number and
vault when they change it. Vaults under deletion have status `deleting` until they are removed. -/
inductive Change where
  | createVault (vaultId currentMain : String)
  | setVault (vaultId currentMain : String) (blocked : Bool)
  | beginDeletion (vaultId : String)
  | finalizeDb (vaultId : String)
  | startOperation (unique newLedgerId : String) (input : OperationInput)
  | updateOperation (operationId : String) (update : SyncOperationRow → SyncOperationRow)
  | otherTables (db : MetadataDb)

def updateVault (db : MetadataDb) (vaultId : String) (update : VaultRow → VaultRow) : MetadataDb :=
  { db with vaults := updateFirst (·.vaultId = vaultId) update db.vaults }

/-- An operation's update keeps what identifies it. -/
def keepIdentity (update : SyncOperationRow → SyncOperationRow) (row : SyncOperationRow) :
    SyncOperationRow :=
  { update row with
    operationId := row.operationId
    operationSequence := row.operationSequence
    vaultId := row.vaultId }

def Change.apply (db : MetadataDb) : Change → Except Failure MetadataDb
  | createVault vaultId currentMain =>
    .ok { db with vaults := db.vaults ++ [{ vaultId, status := .active, currentMain }] }
  | setVault vaultId currentMain blocked =>
    .ok (updateVault db vaultId fun vault => { vault with
      currentMain
      status := if vault.status = .deleting then .deleting
        else if blocked then .blockedIntegrity else .active })
  | beginDeletion vaultId => .ok (updateVault db vaultId ({ · with status := .deleting }))
  | finalizeDb vaultId => do
    let vault ← requireVault db vaultId
    unless vault.status = .deleting do throw (.error "metadata_unavailable")
    return { db with
      vaults := db.vaults.filter (·.vaultId ≠ vaultId)
      syncOperations := db.syncOperations.filter (·.vaultId ≠ vaultId)
      operationHistoryByVault := delete db.operationHistoryByVault vaultId }
  | startOperation unique newLedgerId input => do
    let _ ← requireVault db input.vaultId
    return OperationHistory.startOperation db (newId "op" unique) newLedgerId input
  | updateOperation operationId update =>
    .ok { db with
      syncOperations := updateFirst (·.operationId = operationId) (keepIdentity update)
        db.syncOperations }
  | otherTables tables =>
    .ok { tables with
      vaults := db.vaults
      syncOperations := db.syncOperations
      operationHistoryByVault := db.operationHistoryByVault }

/-- The identifiers that a change takes from `newId`. -/
def Change.ids : Change → List String
  | createVault vaultId _ => [vaultId]
  | startOperation unique _ _ => [newId "op" unique]
  | _ => []

variable (newLedgerId : String → String)

def prepareVault (db : MetadataDb) (vault : VaultRow) : MetadataDb :=
  match stateOf db vault.vaultId with
  | some _ => db
  | none => setState db vault.vaultId
      (newState (newId "hist" (newLedgerId vault.vaultId)) (hotRows db vault.vaultId).length)

def prepareOperationHistoryMetadata (db : MetadataDb) : MetadataDb :=
  db.vaults.foldl (prepareVault newLedgerId) db

/-- Creates the ledger of a vault whose initialization is pending. -/
def initializePendingHistory (vault : VaultRow) : StoreTask Unit := do
  if vault.status = .deleting then return ()
  let state ← orThrow (stateOf (← Task.read).metadata vault.vaultId) "TypeError"
  if state.initPending = false then return ()
  ensureHistory codec vault.vaultId
  let ledger ← ledgerOf vault.vaultId
  .check (ledger.generation = state.generation ∧ ledger.maxSequence < state.nextSequence)
    generationMismatch
  let _ ← finishInitialization vault.vaultId

def initializePendingHistories : StoreTask Unit := do
  (← Task.read).metadata.vaults.foldlM (fun _ vault => initializePendingHistory codec vault) ()

/-- A vault that is not being deleted has an initialized ledger and no pending batch. -/
def assertVault (db : MetadataDb) (vault : VaultRow) : StoreTask Unit := do
  if vault.status = .deleting then return ()
  let state ← orThrow (stateOf db vault.vaultId) "MetadataPublicationError"
  .check (state.initPending = false ∧ state.pendingBatch = none) (.error "MetadataPublicationError")
  verifyAvailable vault.vaultId state

def assertOperational : StoreTask Unit := do
  let db := (← Task.read).metadata
  db.vaults.foldlM (fun _ vault => assertVault db vault) ()

/-- Publishes the metadata that a mutation's changes produced. -/
def mutate (candidate : MetadataDb) : StoreTask Unit := do
  assertOperational
  persist (prepareOperationHistoryMetadata newLedgerId candidate)
  initializePendingHistories codec

def archiveCompletedHistory (vaultId unique : String) (isPendingMerge : SyncOperationRow → Bool) :
    StoreTask Unit := do
  assertOperational
  let _ ← archiveEligibleUnqueued codec vaultId unique isPendingMerge

/-- The durable stores, whether a process serves them, and the identifiers taken so far. -/
structure World where
  disk : Disk
  running : Bool
  used : List String

/-- One task of the store's queue, cut off after a number of its durable steps if that is given. -/
inductive Label where
  | mutate (changes : List Change) (newLedgerId : String → String) (crash : Option Nat)
  | archive (vaultId unique : String) (isPendingMerge : SyncOperationRow → Bool) (crash : Option Nat)
  | eraseOperationHistory (vaultId : String)
  | restart (newLedgerId : String → String) (crash : Option Nat)

def Label.ids : Label → List String
  | mutate changes _ _ => changes.flatMap Change.ids
  | archive _ unique _ _ => [newId "batch" unique]
  | _ => []

namespace World

/-- A task that throws leaves the store unusable until the next start. -/
def perform {α : Type} (world : World) (task : StoreTask α) : Option Nat → World
  | some writes => { world with disk := task.cutOff world.disk writes, running := false }
  | none =>
    { world with disk := task.final world.disk, running := (task world.disk).2.toBool }

variable (world : World)

/-- What a label does, once its identifiers are known to be fresh. -/
def act : Label → World
  | .mutate changes newLedgerId crash =>
    if world.running then
      match changes.foldlM Change.apply world.disk.metadata with
      | .ok candidate => world.perform (OperationHistory.mutate codec newLedgerId candidate) crash
      | .error _ => world
    else world
  | .archive vaultId unique isPendingMerge crash =>
    if world.running then
      world.perform (archiveCompletedHistory codec vaultId unique isPendingMerge) crash
    else world
  | .eraseOperationHistory vaultId =>
    if world.disk.metadata.vaults.any fun vault =>
        vault.vaultId = vaultId && vault.status = .deleting then
      { world with disk := { world.disk with
          ledgers := Function.update world.disk.ledgers vaultId none } }
    else world
  | .restart newLedgerId crash =>
    world.perform (initializeOperationHistory codec newLedgerId) crash

/-- Identifiers come from `newId`, which never returns one twice. -/
def step (label : Label) : World :=
  if label.ids.Nodup ∧ ∀ id ∈ label.ids, id ∉ world.used then
    { world.act codec label with used := label.ids ++ world.used }
  else world

def run (labels : List Label) : World := labels.foldl (step codec) world

end World

/-- A database from before operation histories: no operation is numbered, no vault has a history
state, and operations belong to vaults of the database. -/
structure LegacyDb where
  db : MetadataDb
  nodup_vaults : (db.vaults.map VaultRow.vaultId).Nodup
  nodup_ids : (db.syncOperations.map SyncOperationRow.operationId).Nodup
  known : ∀ row ∈ db.syncOperations, row.vaultId ∈ db.vaults.map VaultRow.vaultId
  unnumbered : ∀ row ∈ db.syncOperations, row.operationSequence = none
  noHistory : db.operationHistoryByVault = []

/-- The store before its first start on such a database. -/
def World.initial (legacy : LegacyDb) : World where
  disk :=
    { metadata := legacy.db
      ledgers := fun _ => none
      record := findRow legacy.db
      original := fun _ => none }
  running := false
  used := legacy.db.vaults.map VaultRow.vaultId ++ legacy.db.syncOperations.map SyncOperationRow.operationId

/-- A vault with a push from before. -/
def sampleLegacy : LegacyDb where
  db :=
    { vaults := [⟨"vault", .active, "m1"⟩]
      syncOperations := [{
        operationId := "push"
        vaultId := "vault"
        deviceId := some "phone"
        operationType := .devicePush
        expectedMain := none
        targetMain := none
        targetCommit := some "c1"
        status := .committed
        preparedManifest := {} }] }
  nodup_vaults := by decide
  nodup_ids := by decide
  known := by decide
  unnumbered := by decide
  noHistory := rfl

example : (World.initial sampleLegacy).used = ["vault", "push"] := rfl

end OperationHistory
