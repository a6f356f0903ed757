import Mathlib.Logic.Equiv.List
import Mathlib.Tactic.DeriveEncodable
import Obts.Metadata

/-!
# The operation ledger

The database file that holds the archived operations of one vault: its tables, the checks made
when it is opened, and the transaction that takes over a batch of rows. The indexes and the
schema text are left out. Rows are archived under their canonical JSON text and its digest;
both come with the environment, of which only the round trip of the text is used.
-/
namespace OperationLedger

open Metadata InsertionOrder List

/-- Canonical JSON with its parser, and the digest of texts. -/
structure Codec where
  canonical : SyncOperationRow → String
  parse : String → Option SyncOperationRow
  sha256 : String → String
  parse_canonical : ∀ row, parse (canonical row) = some row

instance encodableChar : Encodable Char := Encodable.ofLeftInverse Char.toNat Char.ofNat Char.ofNat_toNat

instance encodableString : Encodable String :=
  Encodable.ofLeftInverse String.toList String.ofList fun _ => String.ofList_toList

deriving instance Encodable for ForestEdits.EditOp, SlashPath.Path,
  DirectoryIntents.DirectoryIntent, Provenance, DirectoryProposalIntent, DirectoryProposal,
  DirectoryMergePlan, ConflictResolutionKind, RenamePair, PreparedManifest, OperationType,
  OperationStatus, SyncOperationRow

/-- Rows have texts that can be read back, whatever their format. -/
instance : Nonempty Codec :=
  ⟨{ canonical := fun row => String.ofList (List.replicate (Encodable.encode row) 'a')
     parse := fun text => Encodable.decode text.length
     sha256 := id
     parse_canonical := fun row => by simp }⟩

def isTerminal (status : OperationStatus) : Bool := status = .committed || status = .aborted

structure HistoryRecord where
  operationId : String
  sequence : Nat
  vaultId : String
  (deviceId targetCommit : Option String)
  status : OperationStatus
  operationType : OperationType
  (attemptId attemptHash : Option String)
  hasProposalBase : Bool
  (canonicalJson canonicalHash : String)

structure BatchProof where
  batchId : String
  (parentGeneration targetGeneration rowCount : Nat)

structure Ledger where
  (vaultId ledgerId : String)
  generation : Nat := 0
  maxSequence : Nat := 0
  operations : List HistoryRecord := []
  counts : List ((OperationType × OperationStatus) × Nat) := []
  batches : List BatchProof := []

/-- The state of the metadata that a ledger is opened against. -/
structure HistoryOpenState where
  (generation nextSequence : Nat)
  pendingBatch : Option HistoryBatch

def generationMismatch : Failure := .error "Operation history generation or sequence mismatch."

def payloadCorrupt : Failure := .error "Operation history row payload is corrupt."

variable (codec : Codec) {row : SyncOperationRow} {vaultId ledgerId : String}

/-- The record that the transaction inserts for an operation and its batch entry. -/
def recordOf (operation : SyncOperationRow) (entry : HistoryBatchEntry) : HistoryRecord :=
  { operationId := operation.operationId
    sequence := entry.sequence
    vaultId := operation.vaultId
    deviceId := operation.deviceId
    targetCommit := operation.targetCommit
    status := operation.status
    operationType := operation.operationType
    attemptId := operation.preparedManifest.attemptId
    attemptHash := operation.preparedManifest.attemptHash
    hasProposalBase := operation.proposalBase.isSome
    canonicalJson := entry.canonical
    canonicalHash := entry.sha256 }

def decodeRow (vaultId : String) (record : HistoryRecord) : Except Failure SyncOperationRow :=
  match codec.parse record.canonicalJson with
  | none => .error payloadCorrupt
  | some row =>
    let canonical := codec.canonical row
    if canonical = record.canonicalJson ∧ codec.sha256 canonical = record.canonicalHash ∧
        row.operationId = record.operationId ∧ row.operationSequence = some record.sequence ∧
        row.vaultId = vaultId ∧ record.vaultId = vaultId ∧ record.deviceId = row.deviceId ∧
        record.targetCommit = row.targetCommit ∧ record.status = row.status ∧
        record.operationType = row.operationType ∧
        record.attemptId = row.preparedManifest.attemptId ∧
        record.attemptHash = row.preparedManifest.attemptHash ∧
        record.hasProposalBase = row.proposalBase.isSome then
      .ok row
    else .error payloadCorrupt

namespace Ledger

variable (ledger : Ledger)

def lastSequence : Nat := (ledger.operations.map HistoryRecord.sequence).foldl max 0

def verifyIdentity (vaultId ledgerId : String) (generation nextSequence : Option Nat) : Except Failure Unit := do
  unless ledger.vaultId = vaultId ∧ ledger.ledgerId = ledgerId do
    throw (.error "Operation history ledger identity mismatch.")
  unless ledger.maxSequence = ledger.lastSequence ∧
      (∀ g ∈ generation, ledger.generation = g) ∧ (∀ n ∈ nextSequence, ledger.maxSequence < n) do
    throw generationMismatch

/-- The number of rows of a type and status; a group without rows does not appear. -/
def actualCount (key : OperationType × OperationStatus) : Option Nat :=
  let count := ledger.operations.countP fun record => (record.operationType, record.status) = key
  if count = 0 then none else some count

def countsDiffer : Bool :=
  (ledger.counts.map Prod.fst ++ ledger.operations.map fun record => (record.operationType, record.status)).any
      fun key => valueAt ledger.counts key ≠ ledger.actualCount key

/-- One step of the walk over the batch proofs, with the generation and rows so far. -/
def verifyProof (walk : Nat × Nat) (batch : BatchProof) : Except Failure (Nat × Nat) :=
  if batch.parentGeneration = walk.1 ∧ batch.targetGeneration = walk.1 + 1 ∧ 0 < batch.rowCount ∧
      batch.rowCount ≤ 256 then
    .ok (walk.1 + 1, walk.2 + batch.rowCount)
  else .error (.error "Operation history batch proof is inconsistent.")

def verifyRecord (vaultId : String) (record : HistoryRecord) : Except Failure Unit := do
  let row ← decodeRow codec vaultId record
  unless 0 < record.sequence ∧ isTerminal row.status do throw payloadCorrupt

def verifyContents (vaultId : String) : Except Failure Unit := do
  ledger.operations.forM (verifyRecord codec vaultId)
  let walk ← (sortBy (compareOn BatchProof.targetGeneration) ledger.batches).foldlM verifyProof (0, 0)
  unless ledger.generation = walk.1 ∧ ledger.maxSequence = ledger.lastSequence do
    throw generationMismatch
  unless ledger.countsDiffer = false ∧ walk.2 = ledger.operations.length do
    throw (.error "Operation history aggregate or batch proof is inconsistent.")

/-- The entry's row is in the ledger with the same text, digest and sequence. -/
def holdsEntry (entry : HistoryBatchEntry) : Bool :=
  match ledger.operations.find? (·.operationId = entry.operationId) with
  | some prior =>
    prior.canonicalHash = entry.sha256 && prior.sequence = entry.sequence && prior.canonicalJson = entry.canonical
  | none => false

def hasBatch (batch : HistoryBatch) : Bool :=
  match ledger.batches.find? (·.batchId = batch.batchId) with
  | some proof =>
    proof.parentGeneration = batch.parentGeneration &&
      proof.targetGeneration = batch.targetGeneration && proof.rowCount = batch.rows.length &&
      batch.rows.all ledger.holdsEntry
  | none => false

def verifyOpenState (vaultId ledgerId : String) (state : HistoryOpenState) : Except Failure Unit := do
  unless ledger.maxSequence < state.nextSequence do throw generationMismatch
  match state.pendingBatch with
  | none => unless ledger.generation = state.generation do throw generationMismatch
  | some batch =>
    unless batch.vaultId = vaultId ∧ batch.ledgerId = ledgerId ∧ batch.parentGeneration = state.generation ∧
        batch.targetGeneration = state.generation + 1 ∧
        (ledger.generation = batch.parentGeneration ∨
          ledger.generation = batch.targetGeneration ∧ ledger.hasBatch batch) do
      throw (.error "Operation history archive proof is missing.")
    if ledger.generation = batch.parentGeneration then
      if ledger.batches.any (·.batchId = batch.batchId) ∨
          batch.rows.any fun row => ledger.operations.any fun record =>
            record.operationId = row.operationId || record.sequence = row.sequence then
        throw (.error "Operation history pending batch collides with existing evidence.")

/-- Inserting one row; a trigger counts it under its type and status. -/
def insertEntry (vaultId : String) (ledger : Ledger) (entry : HistoryBatchEntry) :
    Except Failure Ledger := do
  if ledger.operations.any (·.operationId = entry.operationId) then
    throw (.error "Operation history identity collision.")
  match codec.parse entry.canonical with
  | none => throw (.error "SyntaxError")
  | some operation =>
    let canonical := codec.canonical operation
    unless canonical = entry.canonical ∧ codec.sha256 canonical = entry.sha256 ∧
        operation.operationId = entry.operationId ∧
        operation.operationSequence = some entry.sequence ∧ operation.vaultId = vaultId ∧
        isTerminal operation.status do
      throw (.error "Operation history row payload is invalid.")
    if ledger.operations.any (·.sequence = entry.sequence) then
      throw (.error "UNIQUE constraint failed: operations.sequence")
    let key := (operation.operationType, operation.status)
    return { ledger with
      operations := ledger.operations ++ [recordOf operation entry]
      counts := set ledger.counts key ((valueAt ledger.counts key).getD 0 + 1) }

def commitBatch (vaultId ledgerId : String) (batch : HistoryBatch) : Except Failure Ledger := do
  unless batch.vaultId = vaultId ∧ batch.ledgerId = ledgerId ∧
      batch.targetGeneration = batch.parentGeneration + 1 do
    throw (.error "Invalid operation history batch identity.")
  match ledger.batches.find? (·.batchId = batch.batchId) with
  | some priorBatch =>
    unless priorBatch.parentGeneration = batch.parentGeneration ∧
        priorBatch.targetGeneration = batch.targetGeneration ∧
        priorBatch.rowCount = batch.rows.length ∧ ledger.generation = batch.targetGeneration do
      throw (.error "Operation history batch proof mismatch.")
    unless batch.rows.all ledger.holdsEntry do
      throw (.error "Operation history batch contents mismatch.")
    return ledger
  | none =>
    unless ledger.generation = batch.parentGeneration do
      throw (.error "Operation history generation mismatch.")
    let ledger ← batch.rows.foldlM (insertEntry codec vaultId) ledger
    return { ledger with
      batches := ledger.batches ++
        [⟨batch.batchId, batch.parentGeneration, batch.targetGeneration, batch.rows.length⟩]
      generation := batch.targetGeneration
      maxSequence := max ledger.maxSequence ((batch.rows.map HistoryBatchEntry.sequence).foldl max 0) }

end Ledger

/-- The number of a row, zero when it has none. -/
def sequenceNumber (row : SyncOperationRow) : Nat := row.operationSequence.getD 0

def entryOf (row : SyncOperationRow) : HistoryBatchEntry :=
  { operationId := row.operationId
    sequence := sequenceNumber row
    canonical := codec.canonical row
    sha256 := codec.sha256 (codec.canonical row) }

/-- The record under which a row is archived. -/
def archivedRecord (row : SyncOperationRow) : HistoryRecord := recordOf row (entryOf codec row)

structure Archivable (vaultId : String) (row : SyncOperationRow) : Prop where
  vault : row.vaultId = vaultId
  terminal : isTerminal row.status = true
  numbered : 0 < sequenceNumber row

lemma operationSequence_of_numbered (h : 0 < sequenceNumber row) :
    row.operationSequence = some (sequenceNumber row) := by
  cases hseq : row.operationSequence with
  | none => simp [sequenceNumber, hseq] at h
  | some n => simp [sequenceNumber, hseq]

/-- No two rows share their identifier or their number. -/
structure Distinct (rows : List SyncOperationRow) : Prop where
  ids : (rows.map SyncOperationRow.operationId).Nodup
  numbers : (rows.map sequenceNumber).Nodup

/-- The table of operations holds exactly these rows. -/
structure HoldsRows (ledger : Ledger) (rows : List SyncOperationRow) : Prop where
  operations : ledger.operations = rows.map (archivedRecord codec)
  archivable : ∀ row ∈ rows, Archivable ledger.vaultId row
  distinct : Distinct rows
  counts : ∀ key, valueAt ledger.counts key = ledger.actualCount key

/-- The ledger holds exactly these rows, with the proofs of the batches that brought them. -/
structure Holds (ledger : Ledger) (rows : List SyncOperationRow) : Prop extends HoldsRows codec ledger rows where
  maxSequence : ledger.maxSequence = (rows.map sequenceNumber).foldl max 0
  proofs : ledger.batches.foldlM Ledger.verifyProof (0, 0) = .ok (ledger.generation, rows.length)
  ordered : ledger.batches.Pairwise fun a b => a.targetGeneration ≤ b.targetGeneration
  bounded : ∀ proof ∈ ledger.batches, proof.targetGeneration ≤ ledger.generation

lemma holds_new (vaultId ledgerId : String) : Holds codec { vaultId, ledgerId } [] where
  operations := rfl
  archivable := by simp
  distinct := ⟨nodup_nil, nodup_nil⟩
  counts := by simp [valueAt, Ledger.actualCount]
  maxSequence := rfl
  proofs := rfl
  ordered := List.Pairwise.nil
  bounded := by simp

section Opening

variable {codec} {ledger : Ledger} {rows : List SyncOperationRow}

lemma decodeRow_archivedRecord
    (h : Archivable vaultId row) : decodeRow codec vaultId (archivedRecord codec row) = .ok row := by
  have hseq := operationSequence_of_numbered h.numbered
  simp [decodeRow, archivedRecord, recordOf, entryOf, codec.parse_canonical, h.vault, hseq]

lemma HoldsRows.lastSequence (h : HoldsRows codec ledger rows) :
    ledger.lastSequence = (rows.map sequenceNumber).foldl max 0 := by
  rw [Ledger.lastSequence, h.operations, map_map]
  rfl

lemma Holds.verifyIdentity (h : Holds codec ledger rows) {generation nextSequence : Option Nat}
    (hgen : ∀ g ∈ generation, ledger.generation = g) (hnext : ∀ n ∈ nextSequence, ledger.maxSequence < n) :
    ledger.verifyIdentity ledger.vaultId ledger.ledgerId generation nextSequence = .ok () := by
  have hmax : ledger.maxSequence = ledger.lastSequence := h.maxSequence.trans h.lastSequence.symm
  rw [Ledger.verifyIdentity, if_pos ⟨rfl, rfl⟩, if_pos ⟨hmax, hgen, hnext⟩]
  rfl

lemma forM_verifyRecord (h : ∀ row ∈ rows, Archivable ledger.vaultId row) :
    (rows.map (archivedRecord codec)).forM (Ledger.verifyRecord codec ledger.vaultId) = .ok () := by
  induction rows with
  | nil => rfl
  | cons row rows ih =>
    obtain ⟨hrow, hrows⟩ := forall_mem_cons.mp h
    have hver : Ledger.verifyRecord codec ledger.vaultId (archivedRecord codec row) = .ok () := by
      rw [Ledger.verifyRecord, decodeRow_archivedRecord hrow]
      exact if_pos ⟨hrow.numbered, hrow.terminal⟩
    rw [List.map_cons, List.forM, hver]
    exact ih hrows

lemma Holds.verifyContents (h : Holds codec ledger rows) : ledger.verifyContents codec ledger.vaultId = .ok () := by
  have hsort : sortBy (compareOn BatchProof.targetGeneration) ledger.batches = ledger.batches :=
    sortBy_of_pairwise (h.ordered.imp fun hle => by rwa [compareOn, Nat.isLE_compare])
  have hmax : ledger.maxSequence = ledger.lastSequence := h.maxSequence.trans h.lastSequence.symm
  have hcoun : ledger.countsDiffer = false := by
    rw [Ledger.countsDiffer, any_eq_false]
    intro key _
    simp [h.counts key]
  have hlen : rows.length = ledger.operations.length := by rw [h.operations, length_map]
  have hrec : ledger.operations.forM (Ledger.verifyRecord codec ledger.vaultId) = .ok () := by
    rw [h.operations, forM_verifyRecord h.archivable]
  rw [Ledger.verifyContents, hrec, hsort, h.proofs]
  simp only [bind, Except.bind]
  rw [if_pos ⟨trivial, hmax⟩]
  exact if_pos ⟨hcoun, hlen⟩

lemma HoldsRows.find_operation (h : HoldsRows codec ledger rows) (hrow : row ∈ rows) :
    ledger.operations.find? (·.operationId = row.operationId) = some (archivedRecord codec row) := by
  rw [h.operations, find?_map]
  have hfind : rows.find? (fun other => other.operationId = row.operationId) = some row :=
    find?_of_nodup h.distinct.ids hrow
  exact congrArg (Option.map (archivedRecord codec)) hfind

lemma HoldsRows.holdsEntry (h : HoldsRows codec ledger rows)
    (hrow : row ∈ rows) : ledger.holdsEntry (entryOf codec row) := by
  have hfind := h.find_operation hrow
  change (match ledger.operations.find? (·.operationId = row.operationId) with
    | some prior => _
    | none => false) = true
  rw [hfind]
  simp [archivedRecord, recordOf, entryOf]

end Opening

section Transaction

variable {codec} {ledger : Ledger} {rows moved : List SyncOperationRow}

lemma Distinct.of_append (h : Distinct (rows ++ moved)) : Distinct rows where
  ids := (map_append ▸ h.ids).of_append_left
  numbers := (map_append ▸ h.numbers).of_append_left

lemma Distinct.of_nodup {all rows : List SyncOperationRow} (h : Distinct all) (hsub : rows ⊆ all)
    (hrows : rows.Nodup) : Distinct rows where
  ids := hrows.map_on fun _ ha _ hb => inj_on_of_nodup_map h.ids (hsub ha) (hsub hb)
  numbers := hrows.map_on fun _ ha _ hb => inj_on_of_nodup_map h.numbers (hsub ha) (hsub hb)

lemma Distinct.id_ne (h : Distinct (rows ++ moved)) {a b : SyncOperationRow} (ha : a ∈ rows)
    (hb : b ∈ moved) : a.operationId ≠ b.operationId := by
  have hids := h.ids
  rw [map_append] at hids
  exact (nodup_append.mp hids).2.2 _ (mem_map_of_mem ha) _ (mem_map_of_mem hb)

lemma Distinct.number_ne (h : Distinct (rows ++ moved)) {a b : SyncOperationRow} (ha : a ∈ rows)
    (hb : b ∈ moved) : sequenceNumber a ≠ sequenceNumber b := by
  have hnums := h.numbers
  rw [map_append] at hnums
  exact (nodup_append.mp hnums).2.2 _ (mem_map_of_mem ha) _ (mem_map_of_mem hb)

lemma actualCount_concat (ledger : Ledger) (record : HistoryRecord) (key : OperationType × OperationStatus) :
    Ledger.actualCount { ledger with operations := ledger.operations ++ [record] } key
      = if (record.operationType, record.status) = key then
          some ((ledger.actualCount key).getD 0 + 1)
        else ledger.actualCount key := by
  simp only [Ledger.actualCount, countP_append, countP_singleton, decide_eq_true_eq]
  by_cases hkey : (record.operationType, record.status) = key
  · rw [if_pos hkey, if_pos hkey, if_neg (by omega)]
    split <;> simp_all
  · rw [if_neg hkey, if_neg hkey, Nat.add_zero]

/-- What `insertEntry` does to a ledger that does not hold the row yet. -/
def Ledger.withRow (codec : Codec) (ledger : Ledger) (row : SyncOperationRow) : Ledger :=
  { ledger with
    operations := ledger.operations ++ [archivedRecord codec row]
    counts := set ledger.counts (row.operationType, row.status)
      ((valueAt ledger.counts (row.operationType, row.status)).getD 0 + 1) }

section
variable (h : HoldsRows codec ledger rows)
include h

lemma insertEntry_ok (hrow : Archivable ledger.vaultId row) (hdist : Distinct (rows ++ [row])) :
    Ledger.insertEntry codec ledger.vaultId ledger (entryOf codec row) = .ok (ledger.withRow codec row) := by
  have hids : ¬ ledger.operations.any (·.operationId = (entryOf codec row).operationId) = true := by
    rw [any_eq_true]
    rintro ⟨record, hrec, heq⟩
    rw [h.operations] at hrec
    obtain ⟨other, hother, rfl⟩ := mem_map.mp hrec
    exact hdist.id_ne hother (mem_singleton_self row) (of_decide_eq_true heq)
  have hnums : ¬ ledger.operations.any (·.sequence = (entryOf codec row).sequence) = true := by
    rw [any_eq_true]
    rintro ⟨record, hrec, heq⟩
    rw [h.operations] at hrec
    obtain ⟨other, hother, rfl⟩ := mem_map.mp hrec
    exact hdist.number_ne hother (mem_singleton_self row) (of_decide_eq_true heq)
  have hparse : codec.parse (entryOf codec row).canonical = some row := codec.parse_canonical row
  have hvalid : codec.canonical row = (entryOf codec row).canonical ∧
      codec.sha256 (codec.canonical row) = (entryOf codec row).sha256 ∧
      row.operationId = (entryOf codec row).operationId ∧
      row.operationSequence = some (entryOf codec row).sequence ∧
      row.vaultId = ledger.vaultId ∧ isTerminal row.status = true :=
    ⟨rfl, rfl, rfl, operationSequence_of_numbered hrow.numbered, hrow.vault, hrow.terminal⟩
  simp only [Ledger.insertEntry, hparse]
  rw [if_neg hids, if_pos hvalid, if_neg hnums]
  rfl

lemma HoldsRows.withRow (hrow : Archivable ledger.vaultId row) (hdist : Distinct (rows ++ [row])) :
    HoldsRows codec (ledger.withRow codec row) (rows ++ [row]) where
  operations := by simp [Ledger.withRow, h.operations]
  archivable := by
    exact forall_mem_concat.mpr ⟨h.archivable, hrow⟩
  distinct := hdist
  counts := by
    intro key
    have hcount := actualCount_concat ledger (archivedRecord codec row) key
    change valueAt (InsertionOrder.set ledger.counts _ _) key = Ledger.actualCount
      { ledger with operations := ledger.operations ++ [archivedRecord codec row] } key
    rw [hcount]
    by_cases hkey : (row.operationType, row.status) = key
    · subst hkey
      rw [valueAt_set_self, h.counts]
      exact (if_pos rfl).symm
    · rw [valueAt_set_of_ne _ _ (Ne.symm hkey), h.counts]
      exact (if_neg hkey).symm

/-- The rows of a batch are inserted one after the other. -/
lemma foldlM_insertEntry
    (hmoved : ∀ row ∈ moved, Archivable ledger.vaultId row) (hdist : Distinct (rows ++ moved)) :
    ∃ ledger', (moved.map (entryOf codec)).foldlM (Ledger.insertEntry codec ledger.vaultId) ledger
        = .ok ledger' ∧ HoldsRows codec ledger' (rows ++ moved) ∧ ledger'.vaultId = ledger.vaultId ∧
      ledger'.ledgerId = ledger.ledgerId ∧ ledger'.generation = ledger.generation ∧
      ledger'.maxSequence = ledger.maxSequence ∧ ledger'.batches = ledger.batches := by
  induction moved generalizing ledger rows with
  | nil => exact ⟨ledger, rfl, by rwa [append_nil], rfl, rfl, rfl, rfl, rfl⟩
  | cons row moved ih =>
    obtain ⟨hrow, hmoved⟩ := forall_mem_cons.mp hmoved
    have happ : rows ++ row :: moved = (rows ++ [row]) ++ moved := by simp
    rw [happ] at hdist
    obtain ⟨ledger', hfold, hheld, hrest⟩ :=
      ih (h.withRow hrow hdist.of_append) hmoved hdist
    refine ⟨ledger', ?_, happ ▸ hheld, hrest⟩
    rw [map_cons, foldlM_cons, insertEntry_ok h hrow hdist.of_append]
    exact hfold

end

/-- A batch that carries these rows from a generation of the ledger to the next. -/
structure Descriptor (codec : Codec) (vaultId ledgerId : String) (generation : Nat)
    (moved : List SyncOperationRow) (batch : HistoryBatch) : Prop where
  vault : batch.vaultId = vaultId
  ledger : batch.ledgerId = ledgerId
  parent : batch.parentGeneration = generation
  target : batch.targetGeneration = generation + 1
  rows : batch.rows = moved.map (entryOf codec)
  nonempty : 0 < moved.length
  atMost : moved.length ≤ 256
  archivable : ∀ row ∈ moved, Archivable vaultId row
  increasing : moved.Pairwise fun a b => sequenceNumber a < sequenceNumber b

/-- The proof that a batch leaves in the ledger. -/
def proofOf (batch : HistoryBatch) : BatchProof :=
  ⟨batch.batchId, batch.parentGeneration, batch.targetGeneration, batch.rows.length⟩

lemma foldl_max_append (l l' : List Nat) : (l ++ l').foldl max 0 = max (l.foldl max 0) (l'.foldl max 0) := by
  have hfold : ∀ (l : List Nat) (a : Nat), l.foldl max a = max a (l.foldl max 0) := by
    intro l
    induction l with
    | nil => simp
    | cons b l ih =>
      intro a
      rw [foldl_cons, foldl_cons, ih, ih (max 0 b)]
      omega
  rw [foldl_append, hfold l']

variable {batch : HistoryBatch}

section
variable (h : Holds codec ledger rows) {generation : Nat}
include h

/-- A batch is committed once: the ledger then holds its rows after the earlier ones. -/
lemma commitBatch_ok (hbatch : Descriptor codec ledger.vaultId ledger.ledgerId ledger.generation moved batch)
    (hdist : Distinct (rows ++ moved)) (hfresh : ∀ proof ∈ ledger.batches, proof.batchId ≠ batch.batchId) :
    ∃ ledger', ledger.commitBatch codec ledger.vaultId ledger.ledgerId batch = .ok ledger' ∧
      Holds codec ledger' (rows ++ moved) ∧ ledger'.vaultId = ledger.vaultId ∧
      ledger'.ledgerId = ledger.ledgerId ∧ ledger'.generation = ledger.generation + 1 ∧
      ledger'.batches = ledger.batches ++ [proofOf batch] := by
  obtain ⟨ledger', hfold, hheld, hvault, hledg, hgen, hmax, hbats⟩ :=
    foldlM_insertEntry h.toHoldsRows hbatch.archivable hdist
  have hfind : ledger.batches.find? (·.batchId = batch.batchId) = none :=
    find?_eq_none.mpr fun proof hproof => by simpa using hfresh proof hproof
  have hlen : batch.rows.length = moved.length := by rw [hbatch.rows, length_map]
  have hseq : (batch.rows.map HistoryBatchEntry.sequence).foldl max 0
      = (moved.map sequenceNumber).foldl max 0 := by
    rw [hbatch.rows, map_map]
    rfl
  refine ⟨{ ledger' with
      batches := ledger'.batches ++ [proofOf batch]
      generation := batch.targetGeneration
      maxSequence := max ledger'.maxSequence ((batch.rows.map HistoryBatchEntry.sequence).foldl max 0) }, ?_,
    ⟨{ hheld with }, ?_, ?_, ?_, ?_⟩,
    hvault, hledg, hbatch.target, congrArg (· ++ [proofOf batch]) hbats⟩
  · rw [← hbatch.rows] at hfold
    rw [Ledger.commitBatch, if_pos ⟨hbatch.vault, hbatch.ledger, by rw [hbatch.parent, hbatch.target]⟩,
      hfind]
    rw [if_pos hbatch.parent.symm, hfold]
    rfl
  · rw [hseq, hmax, h.maxSequence, map_append, foldl_max_append]
  · rw [hbats, foldlM_append, h.proofs]
    change (Ledger.verifyProof (ledger.generation, rows.length) (proofOf batch) >>= pure) = _
    rw [Ledger.verifyProof, if_pos]
    · rw [proofOf, hlen, length_append]
      change Except.ok _ = Except.ok (batch.targetGeneration, _)
      rw [hbatch.target]
    · rw [proofOf, hlen]
      exact ⟨hbatch.parent, hbatch.target, hbatch.nonempty, hbatch.atMost⟩
  · rw [hbats, pairwise_append]
    refine ⟨h.ordered, pairwise_singleton _ _, fun a ha b hb => ?_⟩
    rw [mem_singleton.mp hb]
    have hle := h.bounded a ha
    have htgt := hbatch.target
    change a.targetGeneration ≤ batch.targetGeneration
    omega
  · intro proof hproof
    change proof.targetGeneration ≤ batch.targetGeneration
    have htgt := hbatch.target
    rcases mem_append.mp hproof with hproof | hproof
    · rw [hbats] at hproof
      have hle := h.bounded proof hproof
      omega
    · rw [mem_singleton.mp hproof]
      exact le_rfl

lemma all_holdsEntry (hbatch : Descriptor codec vaultId ledgerId generation moved batch) (hmoved : moved ⊆ rows) :
    batch.rows.all ledger.holdsEntry := by
  rw [hbatch.rows, all_eq_true]
  intro entry hentry
  obtain ⟨row, hrow, rfl⟩ := mem_map.mp hentry
  exact h.holdsEntry (hmoved hrow)

/-- Committing it again finds the proof and changes nothing. -/
lemma commitBatch_again (hbatch : Descriptor codec ledger.vaultId ledger.ledgerId generation moved batch)
    (hgen : ledger.generation = generation + 1) (hmoved : moved ⊆ rows)
    (hproof : ledger.batches.find? (·.batchId = batch.batchId) = some (proofOf batch)) :
    ledger.commitBatch codec ledger.vaultId ledger.ledgerId batch = .ok ledger := by
  have hall := all_holdsEntry h hbatch hmoved
  rw [Ledger.commitBatch, if_pos ⟨hbatch.vault, hbatch.ledger, by rw [hbatch.parent, hbatch.target]⟩,
    hproof]
  simp only []
  rw [if_pos ⟨rfl, rfl, rfl, hgen.trans hbatch.target.symm⟩, if_pos hall]
  rfl

lemma hasBatch_of_proof (hbatch : Descriptor codec vaultId ledgerId generation moved batch)
    (hmoved : moved ⊆ rows) (hproof : ledger.batches.find? (·.batchId = batch.batchId) = some (proofOf batch)) :
    ledger.hasBatch batch := by
  have hall := all_holdsEntry h hbatch hmoved
  rw [Ledger.hasBatch, hproof]
  simpa [proofOf] using all_eq_true.mp hall

end

end Transaction

end OperationLedger
