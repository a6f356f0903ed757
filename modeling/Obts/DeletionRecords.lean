import Obts.Metadata

/-!
# Deletion records

The durable side of a vault's deletion: its rows in the metadata, the job with its phase, the
receipt that replaces the job, and the changes the lifecycle makes to them. Every change is a
function on the whole database, as it is handed to the metadata store. Timestamps are texts;
`dateParse` is what reads them, and gives none for a text that is no date.
-/
namespace DeletionRecords

open InsertionOrder List Bool
open Metadata (AuthError VaultStatus)

inductive DeletionErrorCode where
  | storageUnavailable
  | unattributedResidue
  | metadataUnavailable
  deriving DecidableEq

inductive DeletionPhase where
  | intent
  | draining
  | erasing
  | finalizing
  deriving DecidableEq

structure DeletionJob where
  (vaultId ownerUserId requestedAt : String)
  phase : DeletionPhase
  retryAt : Option String
  errorCode : Option DeletionErrorCode
  deriving DecidableEq

structure DeletionReceipt where
  (vaultId ownerUserId requestedAt completedAt : String)
  deriving DecidableEq

structure VaultRow where
  (vaultId ownerUserId : String)
  status : VaultStatus
  updatedAt : String

inductive DeviceStatus where
  | paired
  | synced
  | ahead
  | reviewNeeded
  | blockedRecovery
  | revoked
  deriving DecidableEq

structure DeviceRow where
  (deviceId vaultId : String)
  status : DeviceStatus
  revokedAt : Option String

structure TokenRow where
  tokenId : String
  (vaultId deviceId revokedAt : Option String)

inductive ConnectionStatus where
  | pending
  | approved
  | consumed
  | denied
  | expired
  deriving DecidableEq

structure ConnectionRequestRow where
  connectionId : String
  status : ConnectionStatus
  (selectedVaultId createdDeviceId : Option String)

/-- A row that belongs to its vault alone: an operation, a conflict, an event or the result of
a directory proposal. -/
structure OwnedRow where
  (id vaultId : String)

structure AuditRow where
  auditId : String
  (actorDeviceId vaultId : Option String)

structure DiagnosticEventRow where
  (connectionId vaultId deviceId : Option String)

structure DeviceRemovalJob where
  (deviceId vaultId : String)

structure OperationHistoryMetadata where
  ledgerId : String
  (generation nextSequence : Nat)
  initPending : Bool

structure MetadataDb where
  vaults : List VaultRow := []
  devices : List DeviceRow := []
  tokens : List TokenRow := []
  connections : List ConnectionRequestRow := []
  syncOperations : List OwnedRow := []
  conflicts : List OwnedRow := []
  events : List OwnedRow := []
  auditLog : List AuditRow := []
  diagnosticEvents : List DiagnosticEventRow := []
  eventSeqByVault : List (String × Nat) := []
  mergeSequenceByVault : List (String × Nat) := []
  directoryStateByVault : List (String × List String) := []
  derivedHistoryByVault : List (String × List String) := []
  operationHistoryByVault : List (String × OperationHistoryMetadata) := []
  directoryProposalResults : List OwnedRow := []
  deviceRemovalJobs : List DeviceRemovalJob := []
  deletionJobs : List DeletionJob := []
  deletionReceipts : List DeletionReceipt := []

namespace MetadataDb

def vault (db : MetadataDb) (vaultId : String) : Option VaultRow :=
  db.vaults.find? fun vault => vault.vaultId = vaultId

variable (db : MetadataDb) (vaultId : String)

def deletionJob : Option DeletionJob :=
  db.deletionJobs.find? fun job => job.vaultId = vaultId

def deletionReceipt : Option DeletionReceipt :=
  db.deletionReceipts.find? fun receipt => receipt.vaultId = vaultId

def deviceIds : List String :=
  (db.devices.filter fun device => device.vaultId = vaultId).map (·.deviceId)

/-- The connections that chose the vault or created one of its devices. -/
def connectionIds : List String :=
  (db.connections.filter fun connection => connection.selectedVaultId = some vaultId ||
    connection.createdDeviceId.any (db.deviceIds vaultId).contains).map (·.connectionId)

def hasDeletionJobOrReceipt : Bool :=
  db.deletionJobs.any (fun job => job.vaultId = vaultId) ||
    db.deletionReceipts.any fun receipt => receipt.vaultId = vaultId

/-- Whether a row of the vault says that it is being deleted. -/
def hasDeletingRow : Bool :=
  db.vaults.any fun vault => vault.vaultId = vaultId && vault.status = .deleting

def hasDurableDeletionRecord : Bool :=
  db.hasDeletingRow vaultId || db.hasDeletionJobOrReceipt vaultId

end MetadataDb

variable (db : MetadataDb)

/-- Revocation is sticky: a device with a revocation time has the status that says so. -/
def enforceRevocationInvariant : MetadataDb :=
  { db with devices := db.devices.map fun device =>
      if device.revokedAt.isSome then { device with status := .revoked } else device }

/-- Every vault has history metadata; `newId` draws the identifier of a new ledger. -/
def prepareOperationHistoryMetadata (newId : String → String) (db : MetadataDb) : MetadataDb :=
  { db with operationHistoryByVault := db.vaults.foldl (fun histories vault =>
      if (valueAt histories vault.vaultId).isSome then histories
      else set histories vault.vaultId
        { ledgerId := newId vault.vaultId
          generation := 0
          nextSequence :=
            (db.syncOperations.filter fun row => row.vaultId = vault.vaultId).length + 1
          initPending := true }) db.operationHistoryByVault }

def prepareCandidate (newId : String → String) (db : MetadataDb) : MetadataDb :=
  prepareOperationHistoryMetadata newId (enforceRevocationInvariant db)

/-- What accepting a deletion does beside its job: pending device removals are superseded, the
vault's devices and tokens are revoked and its waiting connections denied. -/
def withdrawVault (vaultId revokedAt : String) : MetadataDb :=
  let deviceIds := db.deviceIds vaultId
  { db with
    deviceRemovalJobs := db.deviceRemovalJobs.filter fun job => job.vaultId ≠ vaultId
    devices := db.devices.map fun device =>
      if deviceIds.contains device.deviceId then
        { device with status := .revoked, revokedAt := some (device.revokedAt.getD revokedAt) }
      else device
    tokens := db.tokens.map fun token =>
      if token.vaultId = some vaultId || token.deviceId.any deviceIds.contains then
        { token with revokedAt := some (token.revokedAt.getD revokedAt) }
      else token
    connections := db.connections.map fun connection =>
      if connection.selectedVaultId = some vaultId &&
          (connection.status = .pending || connection.status = .approved) then
        { connection with status := .denied }
      else connection }

def newJob (vaultId ownerUserId requestedAt : String) : DeletionJob where
  vaultId
  ownerUserId
  requestedAt
  phase := .intent
  retryAt := none
  errorCode := none

def addJob (job : DeletionJob) : MetadataDb :=
  { db with deletionJobs := db.deletionJobs ++ [job] }

def notFound : AuthError := ⟨404, "not_found", "Resource not found."⟩

def noLifecycleRecord : AuthError :=
  ⟨503, "deletion_unavailable", "Vault deletion has no durable lifecycle record."⟩

/-- The change that makes a requested deletion durable. -/
def acceptDeletion (vaultId ownerUserId requestedAt : String) : Except AuthError MetadataDb :=
  match db.vault vaultId with
  | none => .error notFound
  | some current =>
    if current.ownerUserId ≠ ownerUserId then .error notFound
    else if current.status = .deleting then .error noLifecycleRecord
    else
      let db := { db with
        vaults := updateFirst (fun vault => vault.vaultId = vaultId)
          (fun vault => { vault with status := .deleting, updatedAt := requestedAt }) db.vaults }
      .ok (withdrawVault (addJob db (newJob vaultId ownerUserId requestedAt)) vaultId requestedAt)

/-- The change that gives a job to a vault whose row says deleting and that has none. -/
def reconcileDeletingVaultRow (vaultId requestedAt : String) : MetadataDb :=
  match db.vault vaultId with
  | none => db
  | some current =>
    if current.status ≠ .deleting then db
    else if db.hasDeletionJobOrReceipt vaultId then db
    else withdrawVault (addJob db (newJob vaultId current.ownerUserId requestedAt)) vaultId
      requestedAt

def updateJob (f : DeletionJob → DeletionJob) (db : MetadataDb) (vaultId : String) : MetadataDb :=
  { db with deletionJobs := updateFirst (fun job => job.vaultId = vaultId) f db.deletionJobs }

def setPhase (vaultId : String) (phase : DeletionPhase) (errorCode : Option DeletionErrorCode) : MetadataDb :=
  updateJob (fun job => { job with phase, retryAt := none, errorCode }) db vaultId

def recordRetry (vaultId retryAt : String) (code : DeletionErrorCode) : MetadataDb :=
  updateJob (fun job => { job with retryAt := some retryAt, errorCode := some code }) db vaultId

/-- The change that erases the vault: the rows it finds by its identifier and by those of its
devices and connections go, and a receipt takes the place of the job. -/
def finalizeDb (db : MetadataDb) (vaultId completedAt : String) : Except DeletionErrorCode MetadataDb :=
  match db.deletionJob vaultId with
  | none =>
    match db.deletionReceipt vaultId with
    | some _ => .ok db
    | none => .error .metadataUnavailable
  | some job =>
    let deviceIds := db.deviceIds vaultId
    let connectionIds := db.connectionIds vaultId
    let receipt : DeletionReceipt :=
      { vaultId, ownerUserId := job.ownerUserId, requestedAt := job.requestedAt, completedAt }
    .ok {
      vaults := db.vaults.filter fun vault => vault.vaultId ≠ vaultId
      devices := db.devices.filter fun device => !deviceIds.contains device.deviceId
      tokens := db.tokens.filter fun token =>
        token.vaultId ≠ some vaultId && !token.deviceId.any deviceIds.contains
      connections := db.connections.filter fun connection =>
        !connectionIds.contains connection.connectionId
      syncOperations := db.syncOperations.filter fun row => row.vaultId ≠ vaultId
      conflicts := db.conflicts.filter fun row => row.vaultId ≠ vaultId
      events := db.events.filter fun row => row.vaultId ≠ vaultId
      auditLog := db.auditLog.filter fun audit =>
        audit.vaultId ≠ some vaultId && !deviceIds.contains (audit.actorDeviceId.getD "")
      diagnosticEvents := db.diagnosticEvents.filter fun event =>
        event.vaultId ≠ some vaultId && !deviceIds.contains (event.deviceId.getD "") &&
          !connectionIds.contains (event.connectionId.getD "")
      eventSeqByVault := delete db.eventSeqByVault vaultId
      mergeSequenceByVault := delete db.mergeSequenceByVault vaultId
      directoryStateByVault := delete db.directoryStateByVault vaultId
      derivedHistoryByVault := delete db.derivedHistoryByVault vaultId
      operationHistoryByVault := delete db.operationHistoryByVault vaultId
      directoryProposalResults := db.directoryProposalResults.filter fun row =>
        row.vaultId ≠ vaultId
      deviceRemovalJobs := db.deviceRemovalJobs.filter fun job => job.vaultId ≠ vaultId
      deletionJobs := db.deletionJobs.filter fun job => job.vaultId ≠ vaultId
      deletionReceipts :=
        (db.deletionReceipts.filter fun receipt => receipt.vaultId ≠ vaultId) ++ [receipt] }

def receiptRetentionMs : Int := 30 * 24 * 60 * 60 * 1000

def maxDate : Int := 8640000000000000

section
variable (dateParse : String → Option Int)

def receiptExpiryTimestamp (completedAt : String) : Option Int :=
  match dateParse completedAt with
  | none => none
  | some time =>
    if time > maxDate - receiptRetentionMs then none
    else
      let expiry := time + receiptRetentionMs
      if expiry < -maxDate then none else some expiry

/-- The change that drops the receipts that have expired by `now`. -/
def expireReceipts (db : MetadataDb) (now : Int) : MetadataDb :=
  { db with deletionReceipts := db.deletionReceipts.filter fun receipt =>
      match receiptExpiryTimestamp dateParse receipt.completedAt with
      | none => true
      | some expiry => expiry > now }

end

/-- A vault nobody deleted, the phase of its job, the receipt that replaced the job, and a vault
of which nothing is left. -/
inductive Progress where
  | kept
  | job (phase : DeletionPhase)
  | receipt
  | gone
  deriving DecidableEq

def Progress.rank : Progress → Nat
  | .kept => 0
  | .job .intent => 1
  | .job .draining => 2
  | .job .erasing => 3
  | .job .finalizing => 4
  | .receipt => 5
  | .gone => 6

/-- Staying where it is, or moving on by one. -/
def Progress.Next (a b : Progress) : Prop := b = a ∨ b.rank = a.rank + 1

namespace MetadataDb

def progress (db : MetadataDb) (vaultId : String) : Progress :=
  match db.deletionJob vaultId with
  | some job => .job job.phase
  | none =>
    if (db.deletionReceipt vaultId).isSome then .receipt
    else if (db.vault vaultId).isSome then .kept
    else .gone

/-- The vault's row does not outlive its job. -/
def Kept (db : MetadataDb) (vaultId : String) : Prop :=
  db.progress vaultId = .receipt → db.vault vaultId = none

end MetadataDb

section
variable {db db' : MetadataDb} {vaultId ownerUserId requestedAt : String} {phase : DeletionPhase}
  {f : DeletionJob → DeletionJob} {job : DeletionJob}

lemma Progress.Next.le {a b : Progress} (h : a.Next b) : a.rank ≤ b.rank := by
  rcases h with rfl | h
  · exact le_rfl
  · omega

lemma progress_of_job (h : db.deletionJob vaultId = some job) : db.progress vaultId = .job job.phase := by
  simp [MetadataDb.progress, h]

lemma deletionJob_of_progress (h : db.progress vaultId = .job phase) :
    ∃ job, db.deletionJob vaultId = some job ∧ job.phase = phase := by
  cases hjob : db.deletionJob vaultId with
  | none =>
    rw [MetadataDb.progress, hjob] at h
    dsimp only at h
    split at h
    · exact Progress.noConfusion h
    · split at h <;> exact Progress.noConfusion h
  | some job =>
    rw [progress_of_job hjob] at h
    exact ⟨job, rfl, Progress.job.inj h⟩

lemma progress_of_no_job (h : db.deletionJob vaultId = none) :
    db.progress vaultId = if (db.deletionReceipt vaultId).isSome then .receipt
      else if (db.vault vaultId).isSome then .kept else .gone := by
  simp [MetadataDb.progress, h]

/-- A vault that is present without a job was never deleted. -/
lemma Kept.progress_of_vault (hkept : db.Kept vaultId) (hjob : db.deletionJob vaultId = none)
    (hvault : (db.vault vaultId).isSome) : db.progress vaultId = .kept := by
  have hprog := progress_of_no_job hjob
  by_cases hrcp : (db.deletionReceipt vaultId).isSome
  · rw [if_pos hrcp] at hprog
    have hnone := hkept hprog
    rw [hnone] at hvault
    exact absurd hvault false_ne_true
  · rw [if_neg hrcp, if_pos hvault] at hprog
    exact hprog

lemma vaultId_of_deletionJob (h : db.deletionJob vaultId = some job) : decide (job.vaultId = vaultId) := by
  have hid := find?_some h
  exact hid

lemma hasDurableDeletionRecord_of_progress
    (h : db.progress vaultId = .job phase) : db.hasDurableDeletionRecord vaultId := by
  obtain ⟨job, hjob, -⟩ := deletionJob_of_progress h
  have hany : db.deletionJobs.any (fun job => job.vaultId = vaultId) = true :=
    any_eq_true.mpr ⟨job, mem_of_find?_eq_some hjob, vaultId_of_deletionJob hjob⟩
  simp [MetadataDb.hasDurableDeletionRecord, MetadataDb.hasDeletionJobOrReceipt, hany]

@[simp] lemma progress_prepareCandidate (newId : String → String) (db : MetadataDb)
    (vaultId : String) : (prepareCandidate newId db).progress vaultId = db.progress vaultId := rfl

/-- What a change does that is not a worker's: the vault moves on by one phase at most, and a
job stays in its phase. -/
structure Outside (db db' : MetadataDb) (vaultId : String) : Prop where
  next : (db.progress vaultId).Next (db'.progress vaultId)
  kept : db'.Kept vaultId
  job : ∀ phase, db.progress vaultId = .job phase → db'.progress vaultId = .job phase

section
variable (hkept : db.Kept vaultId)
include hkept

lemma Outside.refl : Outside db db vaultId :=
  ⟨.inl rfl, hkept, fun _ => id⟩

lemma Outside.of_eq (hprog : db'.progress vaultId = db.progress vaultId)
    (hvault : db.vault vaultId = none → db'.vault vaultId = none) : Outside db db' vaultId where
  next := .inl hprog
  kept h := hvault (hkept (hprog.symm.trans h))
  job _ h := hprog.trans h

/-- A job added for a vault that has a row: an older job stays in front of it. -/
lemma progress_addJob (hvault : (db.vault vaultId).isSome)
    (hjobs : db'.deletionJobs = db.deletionJobs ++ [newJob vaultId ownerUserId requestedAt]) :
    Outside db db' vaultId := by
  have hjob : db'.deletionJob vaultId =
      (db.deletionJob vaultId).or (some (newJob vaultId ownerUserId requestedAt)) := by
    rw [MetadataDb.deletionJob, hjobs, find?_append]
    simp [newJob, MetadataDb.deletionJob]
  cases hold : db.deletionJob vaultId with
  | none =>
    rw [hold, Option.none_or] at hjob
    have hbef := Kept.progress_of_vault hkept hold hvault
    have hafter := progress_of_job hjob
    refine ⟨.inr ?_, fun h => ?_, fun phase h => ?_⟩
    · rw [hbef, hafter]
      rfl
    · rw [hafter] at h
      exact Progress.noConfusion h
    · rw [hbef] at h
      exact Progress.noConfusion h
  | some job =>
    rw [hold, Option.some_or] at hjob
    have hafter := (progress_of_job hjob).trans (progress_of_job hold).symm
    refine ⟨.inl hafter, fun h => ?_, fun phase h => hafter.trans h⟩
    rw [progress_of_job hjob] at h
    exact Progress.noConfusion h

lemma acceptDeletion_spec
    (h : acceptDeletion db vaultId ownerUserId requestedAt = .ok db') : Outside db db' vaultId := by
  unfold acceptDeletion at h
  cases hvault : db.vault vaultId with
  | none => simp [hvault] at h
  | some current =>
    rw [hvault] at h
    dsimp only at h
    split at h
    · cases h
    split at h
    · cases h
    · cases h
      exact progress_addJob hkept (by simp [hvault]) rfl

lemma reconcileDeletingVaultRow_spec (requestedAt : String) :
    Outside db (reconcileDeletingVaultRow db vaultId requestedAt) vaultId := by
  unfold reconcileDeletingVaultRow
  cases hvault : db.vault vaultId with
  | none => exact .refl hkept
  | some current =>
    dsimp only
    split
    · exact .refl hkept
    split
    · exact .refl hkept
    · exact progress_addJob hkept (by simp [hvault]) rfl

end

/-- A record appears only with a row that already says deleting. -/
lemma hasDurableDeletionRecord_of_reconcile (requestedAt : String)
    (h : (reconcileDeletingVaultRow db vaultId requestedAt).hasDurableDeletionRecord vaultId) :
    db.hasDurableDeletionRecord vaultId := by
  unfold reconcileDeletingVaultRow at h
  cases hvault : db.vault vaultId with
  | none => simpa [hvault] using h
  | some current =>
    rw [hvault] at h
    dsimp only at h
    split at h
    · exact h
    rename_i hstat
    have hdel : db.hasDeletingRow vaultId = true := by
      refine any_eq_true.mpr ⟨current, mem_of_find?_eq_some hvault, ?_⟩
      have hid := find?_some hvault
      simpa using ⟨by simpa using hid, not_not.mp hstat⟩
    simp [MetadataDb.hasDurableDeletionRecord, hdel]

lemma deletionJob_updateJob (hf : ∀ job, (f job).vaultId = job.vaultId) :
    (updateJob f db vaultId).deletionJob vaultId = (db.deletionJob vaultId).map f :=
  find?_updateFirst (fun job => by simp only [hf]) _

/-- An update of the job neither makes nor ends a record. -/
lemma hasDurableDeletionRecord_updateJob (hf : ∀ job, (f job).vaultId = job.vaultId) :
    (updateJob f db vaultId).hasDurableDeletionRecord vaultId = db.hasDurableDeletionRecord vaultId := by
  have hids : ((updateJob f db vaultId).deletionJobs.map (·.vaultId)) =
      db.deletionJobs.map (·.vaultId) := map_updateFirst hf _
  have hany : ∀ jobs : List DeletionJob, jobs.any (fun job => job.vaultId = vaultId) =
      (jobs.map (·.vaultId)).any fun id => id = vaultId := by
    intro jobs
    rw [any_map]
    rfl
  simp only [MetadataDb.hasDurableDeletionRecord, MetadataDb.hasDeletionJobOrReceipt, hany, hids]
  rfl

lemma hasDurableDeletionRecord_recordRetry (db : MetadataDb) (vaultId retryAt : String)
    (code : DeletionErrorCode) : (recordRetry db vaultId retryAt code).hasDurableDeletionRecord vaultId =
      db.hasDurableDeletionRecord vaultId :=
  hasDurableDeletionRecord_updateJob fun _ => rfl

lemma progress_updateJob (hf : ∀ job, (f job).vaultId = job.vaultId) (h : db.progress vaultId = .job phase) :
    ∃ job, db.deletionJob vaultId = some job ∧ (updateJob f db vaultId).progress vaultId = .job (f job).phase := by
  obtain ⟨job, hjob, -⟩ := deletionJob_of_progress h
  refine ⟨job, hjob, progress_of_job ?_⟩
  rw [deletionJob_updateJob hf, hjob]
  rfl

lemma progress_setPhase (h : db.progress vaultId = .job phase)
    (next : DeletionPhase) (errorCode : Option DeletionErrorCode) :
    (setPhase db vaultId next errorCode).progress vaultId = .job next := by
  obtain ⟨job, -, hafter⟩ := progress_updateJob (f := fun job =>
    { job with phase := next, retryAt := none, errorCode }) (fun _ => rfl) h
  exact hafter

/-- A recorded retry changes no vault's progress. -/
lemma progress_recordRetry (db : MetadataDb) (vaultId retryAt : String) (code : DeletionErrorCode) :
    (recordRetry db vaultId retryAt code).progress vaultId = db.progress vaultId := by
  have hupd : (recordRetry db vaultId retryAt code).deletionJob vaultId =
      (db.deletionJob vaultId).map fun job =>
        { job with retryAt := some retryAt, errorCode := some code } :=
    deletionJob_updateJob fun _ => rfl
  cases hjob : db.deletionJob vaultId with
  | none =>
    have hafter : (recordRetry db vaultId retryAt code).deletionJob vaultId = none := by
      rw [hupd, hjob]
      rfl
    rw [progress_of_no_job hjob, progress_of_no_job hafter]
    rfl
  | some job =>
    have hafter : (recordRetry db vaultId retryAt code).deletionJob vaultId =
        some { job with retryAt := some retryAt, errorCode := some code } := by
      rw [hupd, hjob]
      rfl
    rw [progress_of_job hjob, progress_of_job hafter]

/-- `db'` holds nothing of the vault that `db` had but one receipt. -/
structure Erased (db db' : MetadataDb) (vaultId : String) : Prop where
  vaults : ∀ vault ∈ db'.vaults, vault.vaultId ≠ vaultId
  devices : ∀ device ∈ db'.devices, device.vaultId ≠ vaultId
  tokens : ∀ token ∈ db'.tokens, token.vaultId ≠ some vaultId ∧ ∀ id ∈ token.deviceId, id ∉ db.deviceIds vaultId
  connections : ∀ connection ∈ db'.connections, connection.selectedVaultId ≠ some vaultId ∧
    ∀ id ∈ connection.createdDeviceId, id ∉ db.deviceIds vaultId
  rows : ∀ row ∈ db'.syncOperations ++ db'.conflicts ++ db'.events ++
    db'.directoryProposalResults, row.vaultId ≠ vaultId
  auditLog : ∀ audit ∈ db'.auditLog, audit.vaultId ≠ some vaultId
  diagnosticEvents : ∀ event ∈ db'.diagnosticEvents, event.vaultId ≠ some vaultId
  counters : ∀ entry ∈ db'.eventSeqByVault ++ db'.mergeSequenceByVault, entry.1 ≠ vaultId
  directoryState : ∀ entry ∈ db'.directoryStateByVault, entry.1 ≠ vaultId
  derivedHistory : ∀ entry ∈ db'.derivedHistoryByVault, entry.1 ≠ vaultId
  operationHistory : ∀ entry ∈ db'.operationHistoryByVault, entry.1 ≠ vaultId
  deviceRemovalJobs : ∀ job ∈ db'.deviceRemovalJobs, job.vaultId ≠ vaultId
  deletionJobs : ∀ job ∈ db'.deletionJobs, job.vaultId ≠ vaultId
  receipt : ∃ receipt, db'.deletionReceipts.filter (fun r => r.vaultId = vaultId) = [receipt]

lemma Erased.progress_eq (h : Erased db db' vaultId) :
    db'.progress vaultId = .receipt ∧ db'.vault vaultId = none := by
  have hjob : db'.deletionJob vaultId = none :=
    find?_eq_none.mpr fun job hmem => by simpa using h.deletionJobs job hmem
  have hvault : db'.vault vaultId = none :=
    find?_eq_none.mpr fun vault hmem => by simpa using h.vaults vault hmem
  refine ⟨?_, hvault⟩
  obtain ⟨receipt, hrcp⟩ := h.receipt
  have hmem : receipt ∈ db'.deletionReceipts.filter fun r => r.vaultId = vaultId :=
    hrcp ▸ mem_singleton_self receipt
  rw [progress_of_no_job hjob, if_pos]
  exact find?_isSome.mpr ⟨receipt, mem_filter.mp hmem⟩

/-- History metadata is only added for vaults that have a row. -/
lemma prepareOperationHistoryMetadata_keys (newId : String → String)
    (hvs : ∀ vault ∈ db.vaults, vault.vaultId ≠ vaultId)
    (hhist : ∀ entry ∈ db.operationHistoryByVault, entry.1 ≠ vaultId) :
    ∀ entry ∈ (prepareOperationHistoryMetadata newId db).operationHistoryByVault, entry.1 ≠ vaultId := by
  refine foldlRecOn
    (motive := fun histories : List (String × OperationHistoryMetadata) =>
      ∀ entry ∈ histories, entry.1 ≠ vaultId)
    db.vaults _ hhist fun histories ih vault hvault => ?_
  split
  · exact ih
  intro entry hentry
  rcases mem_set.mp hentry with hnew | ⟨-, hold⟩
  · rw [hnew]
    exact hvs vault hvault
  · exact ih entry hold

lemma erased_finalizeDb {completedAt : String} (hphase : db.progress vaultId = .job phase)
    (h : finalizeDb db vaultId completedAt = .ok db') (newId : String → String) :
    Erased db (prepareCandidate newId db') vaultId := by
  obtain ⟨job, hjob, -⟩ := deletionJob_of_progress hphase
  rw [finalizeDb, hjob] at h
  cases h
  have hother : ∀ {α : Type} (owner : α → String) (as : List α),
      ∀ a ∈ as.filter (fun a => owner a ≠ vaultId), owner a ≠ vaultId :=
    fun owner as a hmem => of_decide_eq_true (mem_filter.mp hmem).2
  constructor
  case vaults => exact hother VaultRow.vaultId _
  case devices =>
    intro device hmem
    obtain ⟨device, hold, rfl⟩ := mem_map.mp hmem
    obtain ⟨hdev, hkept⟩ := mem_filter.mp hold
    have hne : device.vaultId ≠ vaultId := by
      rintro rfl
      simp only [MetadataDb.deviceIds, not_eq_true', contains_eq_mem, decide_eq_false_iff_not] at hkept
      exact hkept (mem_map_of_mem (mem_filter.mpr ⟨hdev, decide_eq_true rfl⟩))
    split <;> exact hne
  case tokens =>
    intro token hmem
    have hkept := (mem_filter.mp hmem).2
    simp only [and_eq_true, decide_eq_true_eq, not_eq_true'] at hkept
    refine ⟨hkept.1, fun id hid hdev => ?_⟩
    have hcr : token.deviceId = some id := hid
    simp [hcr, hdev] at hkept
  case connections =>
    intro connection hmem
    obtain ⟨hconn, hkept⟩ := mem_filter.mp hmem
    simp only [MetadataDb.connectionIds, not_eq_true', contains_eq_mem, decide_eq_false_iff_not] at hkept
    refine ⟨fun hsel => hkept ?_, fun id hid hdev => hkept ?_⟩
    · refine mem_map_of_mem (mem_filter.mpr ⟨hconn, ?_⟩)
      simp [hsel]
    refine mem_map_of_mem (mem_filter.mpr ⟨hconn, ?_⟩)
    have hcr : connection.createdDeviceId = some id := hid
    simp [hcr, hdev]
  case rows =>
    intro row hmem
    simp only [mem_append] at hmem
    rcases hmem with ((hmem | hmem) | hmem) | hmem <;> exact hother OwnedRow.vaultId _ row hmem
  case auditLog =>
    intro audit hmem
    have hkept := (mem_filter.mp hmem).2
    exact of_decide_eq_true (and_eq_true _ _ ▸ hkept).1
  case diagnosticEvents =>
    intro event hmem
    have hkept := (mem_filter.mp hmem).2
    simp only [and_eq_true] at hkept
    exact of_decide_eq_true hkept.1.1
  case counters =>
    intro entry hmem
    rcases mem_append.mp hmem with hmem | hmem <;> exact hother Prod.fst _ entry hmem
  case directoryState => exact hother Prod.fst _
  case derivedHistory => exact hother Prod.fst _
  case operationHistory =>
    exact prepareOperationHistoryMetadata_keys newId (hother VaultRow.vaultId _) (hother Prod.fst _)
  case deviceRemovalJobs => exact hother DeviceRemovalJob.vaultId _
  case deletionJobs => exact hother DeletionJob.vaultId _
  case receipt =>
    refine ⟨⟨vaultId, job.ownerUserId, job.requestedAt, completedAt⟩, ?_⟩
    have hnone : ((db.deletionReceipts.filter fun r => r.vaultId ≠ vaultId).filter
        fun r => r.vaultId = vaultId) = [] :=
      filter_eq_nil_iff.mpr fun receipt hmem => by
        simpa using hother DeletionReceipt.vaultId _ receipt hmem
    change filter _ (_ ++ [_]) = _
    simp

/-- Expired receipts leave nothing behind, and the job is untouched. -/
lemma expireReceipts_spec (dateParse : String → Option Int) (now : Int)
    (hkept : db.Kept vaultId) : Outside db (expireReceipts dateParse db now) vaultId := by
  have hvault : (expireReceipts dateParse db now).vault vaultId = db.vault vaultId := rfl
  cases hjob : db.deletionJob vaultId with
  | some job =>
    have hafter : (expireReceipts dateParse db now).deletionJob vaultId = some job := hjob
    exact .of_eq hkept ((progress_of_job hafter).trans (progress_of_job hjob).symm) id
  | none =>
    have hafter : (expireReceipts dateParse db now).deletionJob vaultId = none := hjob
    have hrcp : ((expireReceipts dateParse db now).deletionReceipt vaultId).isSome →
        (db.deletionReceipt vaultId).isSome := by
      simp only [MetadataDb.deletionReceipt, find?_isSome]
      rintro ⟨receipt, hmem, hid⟩
      exact ⟨receipt, (mem_filter.mp hmem).1, hid⟩
    have hbef := progress_of_no_job hjob
    have hexp := progress_of_no_job hafter
    rw [hvault] at hexp
    by_cases hnew : ((expireReceipts dateParse db now).deletionReceipt vaultId).isSome
    · rw [if_pos (hrcp hnew)] at hbef
      rw [if_pos hnew] at hexp
      exact .of_eq hkept (hexp.trans hbef.symm) id
    rw [if_neg hnew] at hexp
    by_cases hold : (db.deletionReceipt vaultId).isSome
    · rw [if_pos hold] at hbef
      rw [hkept hbef] at hexp
      refine ⟨.inr ?_, fun h => ?_, fun phase h => ?_⟩
      · rw [hbef, hexp]
        rfl
      · rw [hexp] at h
        exact Progress.noConfusion h
      · rw [hbef] at h
        exact Progress.noConfusion h
    · rw [if_neg hold] at hbef
      exact .of_eq hkept (hexp.trans hbef.symm) id

lemma hasDurableDeletionRecord_of_expire (dateParse : String → Option Int) (now : Int)
    (h : (expireReceipts dateParse db now).hasDurableDeletionRecord vaultId) :
    db.hasDurableDeletionRecord vaultId := by
  simp only [MetadataDb.hasDurableDeletionRecord, MetadataDb.hasDeletionJobOrReceipt, or_eq_true] at h ⊢
  rcases h with hrow | hjob | hrcp
  · exact .inl hrow
  · exact .inr (.inl hjob)
  · refine .inr (.inr ?_)
    obtain ⟨receipt, hmem, hid⟩ := any_eq_true.mp hrcp
    exact any_eq_true.mpr ⟨receipt, (mem_filter.mp hmem).1, hid⟩

end

end DeletionRecords
