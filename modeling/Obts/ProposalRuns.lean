import Obts.LabelledRuns
import Obts.PushAdmission
import Obts.StableJson

/-!
# Admitted proposals

What a vault's operation rows say about the proposals of its devices: an upload is admitted
against the earlier rows of its target, its base and rename pairs are copied when it is
started, prepared or found to be there already, and a restarted server resumes merges from the
rows alone. Uploads hold the vault's lock one after another, may be cut off between any two
changes of the metadata, and rows move to the ledger at any time.
-/
namespace ProposalRuns

open Metadata PushAdmission List Bool Option
open InsertionOrder (forall_mem_concat mem_sortBy sortBy)

/-- What `mergeDeviceCommit` is called with. -/
structure MergeCall where
  (deviceId target : String)
  proposalBase : Option String
  renamePairs : Option (List RenamePair)
  deriving DecidableEq

/-- How far the upload that holds the lock has come. -/
inductive Stage where
  | started
  | prepared
  | committed
  | finishing
  | done
  deriving DecidableEq

/-- The upload that holds the lock. Its manifest carries the admitted pairs, and `proposalBase`
is the base its row had when it was started. -/
structure Upload where
  (operationId deviceId : String)
  manifest : DevicePushManifest
  proposalBase : Option (Option String)
  stage : Stage

structure State where
  /-- The operations of the vault by sequence, hot or archived. -/
  rows : List SyncOperationRow
  archived : List String
  nextSequence : Nat
  upload : Option Upload
  /-- The manifests that were admitted, each with its operation. -/
  admissions : List (String × DevicePushManifest)
  merges : List MergeCall

inductive Label where
  | push (operationId deviceId : String) (manifest : DevicePushManifest)
  | prepare (directoryProposal : Option DirectoryProposal)
  | acceptDivergent
  | commit
  | finishExisting (directoryProposal : Option DirectoryProposal)
  | merge
  | return
  | fail
  | restart
  | recover (operationId : String) (rollForward : Bool)
  | archive (operationIds : List String)
  | resume (operationId : String)
  | otherOperation (operationId : String) (deviceId : Option String) (type : OperationType)

/-- The services of admission, with the canonical JSON it compares pairs by. -/
def services (collation : SlashPath.Collation) (attemptHash : DevicePushManifest → String) : Services where
  collation
  attemptHash
  stableJson := StableJson.stableJson

namespace State

variable (collation : SlashPath.Collation) (attemptHash : DevicePushManifest → String) (vaultId : String)

variable (s : State)

def isArchived (row : SyncOperationRow) : Bool := row.operationId ∈ s.archived

def hot : List SyncOperationRow :=
  s.rows.filter fun row => !(row.vaultId = vaultId && s.isArchived row)

def ledger : List SyncOperationRow :=
  s.rows.filter fun row => row.vaultId = vaultId && s.isArchived row

variable (operationId : String)

/-- `requireOperation` followed by an assignment. -/
def setOperation (f : SyncOperationRow → SyncOperationRow) : State :=
  { s with rows := s.rows.map fun row => if row.operationId = operationId then f row else row }

def setStatus (status : OperationStatus) : State :=
  s.setOperation operationId fun row => { row with status }

def setStage (upload : Upload) (stage : Stage) : State :=
  { s with upload := some { upload with stage } }

/-- `abortOperation`: a committed row stays committed. -/
def abortOperation : State :=
  s.setOperation operationId fun row =>
    if row.status = .committed then row else { row with status := .aborted }

def startOperation (deviceId : Option String) (type : OperationType) (targetCommit : Option String)
    (proposalBase : Option (Option String)) (preparedManifest : PreparedManifest) : State :=
  { s with
    rows := s.rows ++ [{
      operationId
      operationSequence := some s.nextSequence
      vaultId
      deviceId
      operationType := type
      expectedMain := none
      targetMain := none
      targetCommit
      status := .started
      proposalBase
      preparedManifest }]
    nextSequence := s.nextSequence + 1 }

/-- The admission of an upload, up to the pairs it goes on with. -/
def push (operationId deviceId : String) (manifest : DevicePushManifest) : Except Failure State := do
  let started ← admitPush (services collation attemptHash) (s.hot vaultId) (s.ledger vaultId)
    vaultId deviceId manifest
  let s := s.startOperation vaultId operationId (some deviceId) .devicePush
    (some manifest.targetCommit) started.proposalBase started.preparedManifest
  let admitted :=
    match started.preparedManifest.renamePairs with
    | some pairs => { manifest with renamePairs := some pairs }
    | none => manifest
  return { s with
    upload := some {
      operationId
      deviceId
      manifest := admitted
      proposalBase := started.proposalBase
      stage := .started }
    admissions := s.admissions ++ [(operationId, manifest)] }

variable (upload : Upload) (directoryProposal : Option DirectoryProposal) (row : SyncOperationRow)

/-- The row of an upload whose objects were found valid. -/
def prepareRow : SyncOperationRow :=
  let proposalBase := upload.proposalBase.getD upload.manifest.baseCommit
  { row with
    status := .prepared
    proposalBase := some proposalBase
    preparedManifest := { row.preparedManifest with
      proposalBase
      requestedBaseCommit := upload.manifest.baseCommit
      renamePairs := upload.manifest.renamePairs
      directoryProposal } }

/-- The row of an upload whose target the device already has. -/
def finishRow : SyncOperationRow :=
  let proposalBase := upload.proposalBase.join
  { row with
    status := .committed
    proposalBase := some proposalBase
    preparedManifest := { row.preparedManifest with
      proposalBase
      requestedBaseCommit := upload.manifest.baseCommit
      renamePairs := row.preparedManifest.renamePairs.or upload.manifest.renamePairs
      directoryProposal } }

/-- The base an upload merges with, which depends on how it got there. -/
def mergeBase : Option (Option String) :=
  match upload.stage with
  | .committed => some (upload.proposalBase.getD upload.manifest.baseCommit)
  | .finishing => some upload.proposalBase.join
  | _ => none

def mergeDeviceCommit (call : MergeCall) : State :=
  { s with merges := s.merges ++ [call] }

def callMerge (proposalBase : Option String) : State :=
  (s.mergeDeviceCommit {
    deviceId := upload.deviceId
    target := upload.manifest.targetCommit
    proposalBase
    renamePairs := upload.manifest.renamePairs }).setStage upload .done

/-- A merge taken up from a committed row. -/
def resumeRow : Option State :=
  match row.deviceId, row.targetCommit with
  | some deviceId, some target =>
    if row.operationType = .devicePush && row.status = .committed then
      some (s.mergeDeviceCommit {
        deviceId
        target
        proposalBase := row.proposalBase.join
        renamePairs := row.preparedManifest.renamePairs })
    else none
  | _, _ => none

/-- What a restarted server makes of a row that was cut off: one that was never prepared is
aborted, a prepared one whose ref has moved is rolled forward. -/
def recoverRow (rollForward : Bool) (row : SyncOperationRow) : SyncOperationRow :=
  match row.status with
  | .started => { row with status := .aborted }
  | .prepared => { row with status := if rollForward then .committed else .aborted }
  | _ => row

/-- The step of the upload that holds the lock, if it is at the stage. -/
def atStage (stage : Stage) (f : Upload → State) : Option State :=
  match s.upload with
  | some upload => if upload.stage = stage then some (f upload) else none
  | none => none

def step : Label → Option State
  | .push operationId deviceId manifest =>
    if s.upload.isNone && operationId ∉ s.rows.map SyncOperationRow.operationId then
      match s.push collation attemptHash vaultId operationId deviceId manifest with
      | .ok s => some s
      | .error _ => some s
    else none
  | .prepare directoryProposal => s.atStage .started fun upload =>
    (s.setOperation upload.operationId (prepareRow upload directoryProposal)).setStage upload .prepared
  | .acceptDivergent => s.atStage .prepared fun upload =>
    (s.setStatus upload.operationId .committed).setStage upload .done
  | .commit => s.atStage .prepared fun upload =>
    (s.setStatus upload.operationId .committed).setStage upload .committed
  | .finishExisting directoryProposal => s.atStage .started fun upload =>
    (s.setOperation upload.operationId (finishRow upload directoryProposal)).setStage upload
      .finishing
  | .merge =>
    match s.upload with
    | some upload => (mergeBase upload).map (s.callMerge upload)
    | none => none
  | .return => some { s with upload := none }
  | .fail =>
    match s.upload with
    | some upload => some { s.abortOperation upload.operationId with upload := none }
    | none => none
  | .restart => some { s with upload := none }
  | .recover operationId rollForward =>
    if s.upload.isNone then some (s.setOperation operationId (recoverRow rollForward)) else none
  | .archive operationIds =>
    if s.upload.isNone && operationIds.all fun id => s.rows.all fun row =>
        row.operationId ≠ id || row.status = .committed || row.status = .aborted then
      some { s with archived := s.archived ++ operationIds }
    else none
  | .resume operationId =>
    if s.upload.isNone then
      match s.rows.find? fun row => row.operationId = operationId with
      | some row => s.resumeRow row
      | none => none
    else none
  | .otherOperation operationId deviceId type =>
    if type ≠ .devicePush && operationId ∉ s.rows.map SyncOperationRow.operationId then
      some (s.startOperation vaultId operationId deviceId type none none {})
    else none

def run (s : State) : List Label → Option State
  | [] => some s
  | label :: labels => (s.step collation attemptHash vaultId label).bind fun s => s.run labels

end State

/-- Where a vault starts from: rows of older servers, which recorded neither base nor pairs. -/
def State.start (legacy : List SyncOperationRow) (nextSequence : Nat) : State where
  rows := legacy
  archived := []
  nextSequence
  upload := none
  admissions := []
  merges := []

lemma throw_bind_ne_ok {ε α β : Type} {e : ε} {f : α → Except ε β} {b : β}
    (h : ((throw e : Except ε α) >>= f) = .ok b) : False := by
  cases h

def pairsOf (row : SyncOperationRow) : Option (List RenamePair) := row.preparedManifest.renamePairs

/-- A row without a base that takes part in admission all the same. -/
def Settled (row : SyncOperationRow) : Prop :=
  row.proposalBase = none ∧ (row.status = .prepared ∨ row.status = .committed)

variable {manifest : DevicePushManifest} {started : StartedPush}

section Admission
variable {deviceId vaultId : String} {env : Services}

/-- What an admitted upload agrees on with the admission before it, if there is one. -/
lemma admitPush_ok {hot ledger : List SyncOperationRow}
    (h : admitPush env hot ledger vaultId deviceId manifest = .ok started) :
    (admittedOf (priorAdmissions env.collation hot ledger vaultId deviceId manifest.targetCommit) =
        none ∧ started.proposalBase = none ∧ started.preparedManifest.renamePairs = none) ∨
      ∃ admitted, admittedOf (priorAdmissions env.collation hot ledger vaultId deviceId
          manifest.targetCommit) = some admitted ∧ (∀ base, admitted.proposalBase = some base →
          admitted.preparedManifest.requestedBaseCommit.or base = manifest.baseCommit) ∧
        env.stableJson (pairsOf admitted) = env.stableJson manifest.renamePairs ∧
        started.proposalBase = some admitted.proposalBase.join ∧
        started.preparedManifest.renamePairs = pairsOf admitted ∧
        started.preparedManifest.requestedBaseCommit = manifest.baseCommit := by
  unfold admitPush at h
  cases hadm : admittedOf (priorAdmissions env.collation hot ledger vaultId deviceId
      manifest.targetCommit) with
  | none =>
    simp only [hadm] at h
    refine .inl ⟨rfl, ?_⟩
    repeat' split at h
    all_goals first
      | exact (throw_bind_ne_ok h).elim
      | skip
    all_goals
      cases h
      exact ⟨rfl, rfl⟩
  | some a =>
    simp only [hadm] at h
    refine .inr ⟨a, rfl, ?_⟩
    cases hbase : a.proposalBase with
    | none =>
      simp only [hbase] at h
      repeat' split at h
      all_goals first
        | exact (throw_bind_ne_ok h).elim
        | skip
      all_goals
        cases h
        refine ⟨fun b hb => ?_, not_not.mp ‹_›, rfl, rfl, rfl⟩
        cases hb
    | some base =>
      simp only [hbase] at h
      repeat' split at h
      all_goals first
        | exact (throw_bind_ne_ok h).elim
        | skip
      all_goals
        cases h
        refine ⟨fun b hb => ?_, not_not.mp ‹_›, rfl, rfl, rfl⟩
        cases hb
        exact not_not.mp ‹_›

/-- The texts of a refused upload. -/
lemma admitPush_error {hot ledger : List SyncOperationRow}
    {failure : Failure} (h : admitPush env hot ledger vaultId deviceId manifest = .error failure) :
    failure ∈ [attemptMismatch, proposalBaseMismatch, renamePairsMismatch] := by
  unfold admitPush at h
  dsimp only at h
  repeat' split at h
  all_goals cases h
  all_goals simp

end Admission

variable (vaultId : String)

/-- The rows are those of the vault, in the order of their sequence numbers. -/
structure Ordered (rows : List SyncOperationRow) (nextSequence : Nat) : Prop where
  vault : ∀ row ∈ rows, row.vaultId = vaultId
  nodup : (rows.map SyncOperationRow.operationId).Nodup
  sorted : rows.Pairwise fun a b => sequenceOf a < sequenceOf b
  bounded : ∀ row ∈ rows, sequenceOf row < nextSequence

/-- The rows of one target say the same about its proposal. -/
structure Agree (rows : List SyncOperationRow) (deviceId target : String) : Prop where
  recorded : ∀ x ∈ rows, ∀ y ∈ rows, isAdmission deviceId target x = true →
    isAdmission deviceId target y = true → ∀ a b, x.proposalBase = some a →
    y.proposalBase = some b → a = b ∧ pairsOf x = pairsOf y
  legacy : ∀ x ∈ rows, isAdmission deviceId target x = true → x.proposalBase = none → pairsOf x = none
  settled : ∀ x ∈ rows, ∀ y ∈ rows, isAdmission deviceId target x = true →
    isAdmission deviceId target y = true → Settled x → ∀ b, y.proposalBase = some b →
    b = none ∧ pairsOf y = none

variable (rows : List SyncOperationRow)

/-- No row of the target decides anything yet. -/
def Unbound (deviceId target : String) : Prop :=
  ∀ x ∈ rows, isAdmission deviceId target x = true → x.proposalBase = none ∧ ¬ Settled x

/-- A recorded base and pairs come from an admitted manifest, and a base that is not the
manifest's is the natural one. -/
def Origin (admissions : List (String × DevicePushManifest)) (row : SyncOperationRow) : Prop :=
  ∀ base, row.proposalBase = some base → ∃ manifest, (row.operationId, manifest) ∈ admissions ∧
    row.targetCommit = some manifest.targetCommit ∧
    row.preparedManifest.requestedBaseCommit.or base = manifest.baseCommit ∧
    pairsOf row = manifest.renamePairs ∧ (base = manifest.baseCommit ∨ base = none)

/-- A merge was called as a row of its target says. -/
def Founded (call : MergeCall) : Prop :=
  ∃ x ∈ rows, isAdmission call.deviceId call.target x = true ∧ pairsOf x = call.renamePairs ∧
    (x.proposalBase = some call.proposalBase ∨
      x.proposalBase = none ∧ x.status = .committed ∧ call.proposalBase = none)

structure Core (s : State) : Prop extends Ordered vaultId s.rows s.nextSequence where
  agree : ∀ deviceId target, Agree s.rows deviceId target
  origin : ∀ row ∈ s.rows, Origin s.admissions row
  founded : ∀ call ∈ s.merges, Founded s.rows call

/-- The base that the row of an upload records at its stage. -/
def recordedBase (upload : Upload) : Option (Option String) :=
  match upload.stage with
  | .prepared | .committed => some (upload.proposalBase.getD upload.manifest.baseCommit)
  | .finishing => some upload.proposalBase.join
  | .started | .done => none

/-- What the upload that holds the lock may rely on. -/
structure Holds (s : State) (upload : Upload) : Prop where
  admitted : (upload.operationId, upload.manifest) ∈ s.admissions
  natural : ∀ base, upload.proposalBase = some base → base = upload.manifest.baseCommit ∨ base = none
  row : ∃ row ∈ s.rows, row.operationId = upload.operationId ∧
    isAdmission upload.deviceId upload.manifest.targetCommit row = true ∧
    (∀ base, recordedBase upload = some base →
      row.proposalBase = some base ∧ pairsOf row = upload.manifest.renamePairs) ∧
    (upload.stage = .started → row.status = .started ∧ row.proposalBase = upload.proposalBase ∧
      (upload.proposalBase = none → Unbound s.rows upload.deviceId upload.manifest.targetCommit) ∧
      (upload.proposalBase.isSome → pairsOf row = upload.manifest.renamePairs))

structure Inv (s : State) : Prop extends Core vaultId s where
  holds : ∀ upload, s.upload = some upload → Holds s upload

variable {vaultId} {s s' : State} {f : SyncOperationRow → SyncOperationRow}
  {row first row' : SyncOperationRow} {operationId deviceId : String} {rows : List SyncOperationRow}
  {call : MergeCall} {base : Option String} {nextSequence : Nat}
  {admissions : List (String × DevicePushManifest)}

section Finding
variable {deviceId target : String}

lemma Ordered.eq_of_sequenceOf (h : Ordered vaultId rows nextSequence) {a b : SyncOperationRow} (ha : a ∈ rows)
    (hb : b ∈ rows) (heq : sequenceOf a = sequenceOf b) : a = b := by
  by_contra hne
  have hpair : rows.Pairwise fun a b => sequenceOf a ≠ sequenceOf b :=
    h.sorted.imp fun hlt => hlt.ne
  have : Std.Symm fun a b => sequenceOf a ≠ sequenceOf b := ⟨fun _ _ => Ne.symm⟩
  exact hpair.forall ha hb hne heq

/-- The rows with the identities that tell archived copies apart. -/
def Ordered.table {rows : List SyncOperationRow} {nextSequence : Nat}
    (h : Ordered vaultId rows nextSequence) : OperationTable where
  rows
  nodup_ids := h.nodup
  distinct _ ha _ hb _ := h.eq_of_sequenceOf ha hb

variable {c : SlashPath.Collation}

section
variable (h : Ordered vaultId s.rows s.nextSequence)
include h

/-- Admission looks through the rows of the target in order, archived or not. -/
lemma admittedOf_eq : admittedOf (priorAdmissions c (s.hot vaultId) (s.ledger vaultId) vaultId deviceId target)
      = admittedOf (sortBy (compareRows c) (s.rows.filter fun row => isAdmission deviceId target row)) := by
  have hhot := @admittedOf_hot h.table vaultId s.isArchived c deviceId target
  have hrows := @inOrder_rows h.table c
    fun row => row.vaultId = vaultId && isAdmission deviceId target row
  have hflt : h.table.rows.filter (fun row => row.vaultId = vaultId && isAdmission deviceId target row)
      = s.rows.filter fun row => isAdmission deviceId target row := by
    refine filter_congr fun row hrow => ?_
    simp [h.vault row hrow]
  exact hhot.trans (congrArg admittedOf (hrows.trans (congrArg _ hflt)))

/-- What admission finds is a row of the target: one with a recorded base, or a settled one
where no base is recorded. Where it finds nothing, nothing is decided. -/
lemma admittedOf_cases :
    (admittedOf (priorAdmissions c (s.hot vaultId) (s.ledger vaultId) vaultId deviceId target) =
        none ∧ Unbound s.rows deviceId target) ∨
      ∃ row ∈ s.rows, admittedOf (priorAdmissions c (s.hot vaultId) (s.ledger vaultId) vaultId
          deviceId target) = some row ∧ isAdmission deviceId target row ∧
        (row.proposalBase.isSome ∨ Settled row) := by
  rw [admittedOf_eq h]
  set sorted := sortBy (compareRows c) (s.rows.filter fun row => isAdmission deviceId target row) with hsort
  have hmem : ∀ row, row ∈ sorted ↔ row ∈ s.rows ∧ isAdmission deviceId target row = true := by
    intro row
    rw [hsort, mem_sortBy, mem_filter]
  cases hrec : sorted.find? (fun row => row.proposalBase.isSome) with
  | some row =>
    obtain ⟨hrow, hadm⟩ := (hmem row).mp (mem_of_find?_eq_some hrec)
    refine .inr ⟨row, hrow, ?_, hadm, .inl (by simpa using find?_some hrec)⟩
    rw [admittedOf, hrec]
    rfl
  | none =>
    have hleg : ∀ row ∈ sorted, row.proposalBase = none := by
      intro row hrow
      simpa using find?_eq_none.mp hrec row hrow
    cases hstl : sorted.find? (fun row => row.status = .prepared || row.status = .committed) with
    | some row =>
      have hrow := mem_of_find?_eq_some hstl
      obtain ⟨hrows, hadm⟩ := (hmem row).mp hrow
      refine .inr ⟨row, hrows, ?_, hadm, .inr ⟨hleg row hrow, ?_⟩⟩
      · rw [admittedOf, hrec, hstl]
        rfl
      · simpa using find?_some hstl
    | none =>
      refine .inl ⟨?_, fun row hrow hadm => ?_⟩
      · rw [admittedOf, hrec, hstl]
        rfl
      have hin := (hmem row).mpr ⟨hrow, hadm⟩
      refine ⟨hleg row hin, fun hset => ?_⟩
      have hopen := find?_eq_none.mp hstl row hin
      simp only [or_eq_true, decide_eq_true_eq] at hopen
      exact hopen hset.2

/-- The first row of the target with a recorded base is what admission finds. -/
lemma admittedOf_first (hfirst : FirstByKey.IsFirst sequenceOf (fun row => row.proposalBase.isSome)
      (s.rows.filter fun row => isAdmission deviceId target row) first) :
    admittedOf (priorAdmissions c (s.hot vaultId) (s.ledger vaultId) vaultId deviceId target) = some first := by
  have hfind : (sortBy (compareRows c) (s.rows.filter fun row => isAdmission deviceId target row)).find?
        (fun row => row.proposalBase.isSome) = some first := by
    refine FirstByKey.find?_sortBy_of_isFirst le_of_compareRows ?_ hfirst
    intro a ha b hb
    exact h.eq_of_sequenceOf (mem_filter.mp ha).1 (mem_filter.mp hb).1
  rw [admittedOf_eq h, admittedOf, hfind]
  rfl

end

end Finding

/-- The part of a row that never changes. -/
structure SameIdentity (row row' : SyncOperationRow) : Prop where
  operationId : row'.operationId = row.operationId
  vaultId : row'.vaultId = row.vaultId
  operationSequence : row'.operationSequence = row.operationSequence
  deviceId : row'.deviceId = row.deviceId
  operationType : row'.operationType = row.operationType
  targetCommit : row'.targetCommit = row.targetCommit

lemma SameIdentity.sequenceOf_eq (h : SameIdentity row row') : sequenceOf row' = sequenceOf row := by
  rw [sequenceOf, sequenceOf, h.operationSequence]

lemma SameIdentity.isAdmission_eq (h : SameIdentity row row') (deviceId target : String) :
    isAdmission deviceId target row' = isAdmission deviceId target row := by
  rw [isAdmission, isAdmission, h.deviceId, h.operationType, h.targetCommit]

/-- The status of a row changes and nothing else: a committed row stays committed, and a row
without a base is only settled by having been settled. -/
structure StatusChange (row row' : SyncOperationRow) : Prop extends SameIdentity row row' where
  proposalBase : row'.proposalBase = row.proposalBase
  preparedManifest : row'.preparedManifest = row.preparedManifest
  settled : Settled row' → Settled row
  committed : row.status = .committed → row'.status = .committed

lemma SameIdentity.refl (row : SyncOperationRow) : SameIdentity row row :=
  ⟨rfl, rfl, rfl, rfl, rfl, rfl⟩

lemma StatusChange.refl (row : SyncOperationRow) : StatusChange row row :=
  ⟨.refl row, rfl, rfl, id, id⟩

section Rows
variable {rows : List SyncOperationRow} {nextSequence : Nat}
  {f : SyncOperationRow → SyncOperationRow}

lemma Ordered.map (h : Ordered vaultId rows nextSequence)
    (hf : ∀ row ∈ rows, SameIdentity row (f row)) : Ordered vaultId (rows.map f) nextSequence := by
  constructor
  · intro row' hrow'
    obtain ⟨row, hrow, rfl⟩ := mem_map.mp hrow'
    exact (hf row hrow).vaultId.trans (h.vault row hrow)
  · have hids : (rows.map f).map SyncOperationRow.operationId
        = rows.map SyncOperationRow.operationId := by
      rw [List.map_map]
      exact map_congr_left fun row hrow => (hf row hrow).operationId
    rw [hids]
    exact h.nodup
  · rw [pairwise_map]
    refine h.sorted.imp_of_mem fun ha hb hlt => ?_
    rw [(hf _ ha).sequenceOf_eq, (hf _ hb).sequenceOf_eq]
    exact hlt
  · intro row' hrow'
    obtain ⟨row, hrow, rfl⟩ := mem_map.mp hrow'
    rw [(hf row hrow).sequenceOf_eq]
    exact h.bounded row hrow

lemma Ordered.append (h : Ordered vaultId rows nextSequence)
    (hvault : row.vaultId = vaultId) (hseq : row.operationSequence = some nextSequence)
    (hfresh : row.operationId ∉ rows.map SyncOperationRow.operationId) :
    Ordered vaultId (rows ++ [row]) (nextSequence + 1) := by
  have hnext : sequenceOf row = nextSequence := by
    rw [sequenceOf, hseq]
    rfl
  constructor
  · exact forall_mem_concat.mpr ⟨h.vault, hvault⟩
  · exact InsertionOrder.nodup_map_concat h.nodup hfresh
  · refine pairwise_append.mpr ⟨h.sorted, pairwise_singleton _ _, ?_⟩
    intro a ha b hb
    rw [mem_singleton.mp hb, hnext]
    exact h.bounded a ha
  · refine forall_mem_concat.mpr ⟨fun row' hrow' => ?_, ?_⟩
    · have := h.bounded row' hrow'
      omega
    · omega

variable {deviceId target : String}

lemma Agree.statusChange (h : Agree rows deviceId target)
    (hf : ∀ row ∈ rows, StatusChange row (f row)) : Agree (rows.map f) deviceId target := by
  have hpairs : ∀ row ∈ rows, pairsOf (f row) = pairsOf row := fun row hrow => by
    rw [pairsOf, pairsOf, (hf row hrow).preparedManifest]
  have hadm : ∀ row ∈ rows, isAdmission deviceId target (f row) = true →
      isAdmission deviceId target row = true := fun row hrow hadmission => by
    rwa [(hf row hrow).isAdmission_eq] at hadmission
  constructor
  · intro x' hx' y' hy' hadmx hadmy a b ha hb
    obtain ⟨x, hx, rfl⟩ := mem_map.mp hx'
    obtain ⟨y, hy, rfl⟩ := mem_map.mp hy'
    rw [(hf x hx).proposalBase] at ha
    rw [(hf y hy).proposalBase] at hb
    rw [hpairs x hx, hpairs y hy]
    exact h.recorded x hx y hy (hadm x hx hadmx) (hadm y hy hadmy) a b ha hb
  · intro x' hx' hadmx hbase
    obtain ⟨x, hx, rfl⟩ := mem_map.mp hx'
    rw [(hf x hx).proposalBase] at hbase
    rw [hpairs x hx]
    exact h.legacy x hx (hadm x hx hadmx) hbase
  · intro x' hx' y' hy' hadmx hadmy hstl b hb
    obtain ⟨x, hx, rfl⟩ := mem_map.mp hx'
    obtain ⟨y, hy, rfl⟩ := mem_map.mp hy'
    rw [(hf y hy).proposalBase] at hb
    rw [hpairs y hy]
    exact h.settled x hx y hy (hadm x hx hadmx) (hadm y hy hadmy) ((hf x hx).settled hstl) b hb

lemma Origin.statusChange (h : Origin admissions row) (hrow : StatusChange row row') : Origin admissions row' := by
  intro base hbase
  rw [hrow.proposalBase] at hbase
  rw [hrow.operationId, hrow.targetCommit, pairsOf, hrow.preparedManifest]
  exact h base hbase

lemma Founded.statusChange (h : Founded rows call)
    (hf : ∀ row ∈ rows, StatusChange row (f row)) : Founded (rows.map f) call := by
  obtain ⟨x, hx, hadm, hpairs, hbase⟩ := h
  refine ⟨f x, mem_map_of_mem hx, ?_, ?_, ?_⟩
  · rw [(hf x hx).isAdmission_eq]
    exact hadm
  · rw [pairsOf, (hf x hx).preparedManifest]
    exact hpairs
  · rw [(hf x hx).proposalBase]
    exact hbase.imp id fun ⟨hnone, hcmt, hcall⟩ =>
      ⟨hnone, (hf x hx).committed hcmt, hcall⟩

end Rows

/-- A change of one row, seen as a change of each. -/
lemma setOperation_statusChange (hf : ∀ row ∈ s.rows, row.operationId = operationId → StatusChange row (f row)) :
    ∀ row ∈ s.rows, StatusChange row (if row.operationId = operationId then f row else row) := by
  intro row hrow
  by_cases h : row.operationId = operationId
  · rw [if_pos h]
    exact hf row hrow h
  · rw [if_neg h]
    exact .refl row

lemma Core.statusChange (h : Core vaultId s)
    (hf : ∀ row ∈ s.rows, row.operationId = operationId → StatusChange row (f row)) :
    Core vaultId (s.setOperation operationId f) := by
  have hall := setOperation_statusChange hf
  constructor
  · exact h.toOrdered.map fun row hrow => (hall row hrow).toSameIdentity
  · exact fun deviceId target => (h.agree deviceId target).statusChange hall
  · intro row' hrow'
    obtain ⟨row, hrow, rfl⟩ := mem_map.mp hrow'
    exact (h.origin row hrow).statusChange (hall row hrow)
  · exact fun call hcall => (h.founded call hcall).statusChange hall

/-- The rows of a target leave room for a base and pairs. -/
def Fits (rows : List SyncOperationRow) (deviceId target : String) (base : Option String)
    (pairs : Option (List RenamePair)) : Prop :=
  ∀ y ∈ rows, isAdmission deviceId target y = true → (∀ b, y.proposalBase = some b → b = base ∧ pairsOf y = pairs) ∧
    (Settled y → base = none ∧ pairs = none)

section Fitting
variable {rows : List SyncOperationRow} {deviceId target : String} {base : Option String}
  {pairs : Option (List RenamePair)} {x : SyncOperationRow}

lemma Unbound.fits (h : Unbound rows deviceId target) : Fits rows deviceId target base pairs := by
  intro y hy hadm
  obtain ⟨hbase, hstl⟩ := h y hy hadm
  refine ⟨fun b hb => ?_, fun hset => absurd hset hstl⟩
  rw [hbase] at hb
  cases hb

section
variable (h : Agree rows deviceId target)
include h

lemma Agree.fits_recorded (hx : x ∈ rows)
    (hadm : isAdmission deviceId target x) (hbase : x.proposalBase = some base) :
    Fits rows deviceId target base (pairsOf x) := by
  intro y hy hadmy
  refine ⟨fun b hb => h.recorded y hy x hx hadmy hadm b base hb hbase, fun hstl => ?_⟩
  exact h.settled y hy x hx hadmy hadm hstl base hbase

lemma Agree.fits_settled (hx : x ∈ rows) (hadm : isAdmission deviceId target x) (hstl : Settled x) :
    Fits rows deviceId target none none := by
  intro y hy hadmy
  exact ⟨fun b hb => h.settled x hx y hy hadm hadmy hstl b hb, fun _ => ⟨rfl, rfl⟩⟩

/-- A row that records the base keeps the target's rows in agreement, wherever it comes in. -/
lemma Agree.of_fits {rows' : List SyncOperationRow} (base : Option String) (pairs : Option (List RenamePair))
    (hrows : ∀ row' ∈ rows', row' ∈ rows ∨ isAdmission deviceId target row' = false ∨
      Fits rows deviceId target base pairs ∧ row'.proposalBase = some base ∧ pairsOf row' = pairs) :
    Agree rows' deviceId target := by
  have hadm : ∀ row' ∈ rows', isAdmission deviceId target row' = true → row' ∈ rows ∨
      Fits rows deviceId target base pairs ∧ row'.proposalBase = some base ∧ pairsOf row' = pairs := by
    intro row' hrow' hadmission
    rcases hrows row' hrow' with hold | hother | hnew
    · exact .inl hold
    · rw [hadmission] at hother
      cases hother
    · exact .inr hnew
  constructor
  · intro x hx y hy hadmx hadmy a b ha hb
    rcases hadm x hx hadmx with hxold | ⟨hfits, hxbase, hxpa⟩ <;>
      rcases hadm y hy hadmy with hyold | ⟨hfits', hybase, hypa⟩
    · exact h.recorded x hxold y hyold hadmx hadmy a b ha hb
    · obtain ⟨rfl, hpairs⟩ := (hfits' x hxold hadmx).1 a ha
      rw [hybase] at hb
      exact ⟨some.inj hb, hpairs.trans hypa.symm⟩
    · obtain ⟨rfl, hpairs⟩ := (hfits y hyold hadmy).1 b hb
      rw [hxbase] at ha
      exact ⟨(some.inj ha).symm, hxpa.trans hpairs.symm⟩
    · rw [hxbase] at ha
      rw [hybase] at hb
      exact ⟨(some.inj ha).symm.trans (some.inj hb), hxpa.trans hypa.symm⟩
  · intro x hx hadmx hnone
    rcases hadm x hx hadmx with hxold | ⟨-, hxbase, -⟩
    · exact h.legacy x hxold hadmx hnone
    · rw [hnone] at hxbase
      cases hxbase
  · intro x hx y hy hadmx hadmy hstl b hb
    rcases hadm x hx hadmx with hxold | ⟨-, hxbase, -⟩
    · rcases hadm y hy hadmy with hyold | ⟨hfits, hybase, hypa⟩
      · exact h.settled x hxold y hyold hadmx hadmy hstl b hb
      obtain ⟨hbase, hpairs⟩ := (hfits x hxold hadmx).2 hstl
      rw [hybase] at hb
      exact ⟨(some.inj hb).symm.trans hbase, hypa.trans hpairs⟩
    · rw [hstl.1] at hxbase
      cases hxbase

/-- A started row that records nothing keeps the target's rows in agreement. -/
lemma Agree.append_started (hbase : x.proposalBase = none)
    (hpairs : pairsOf x = none) (hstat : x.status = .started) : Agree (rows ++ [x]) deviceId target := by
  have hopen : ¬ Settled x := by
    rintro ⟨-, hprep | hcmt⟩
    · rw [hstat] at hprep
      cases hprep
    · rw [hstat] at hcmt
      cases hcmt
  have hold : ∀ y ∈ rows ++ [x], y = x ∨ y ∈ rows := fun y hy =>
    (mem_append.mp hy).elim .inr fun hy => .inl (mem_singleton.mp hy)
  constructor
  · intro y hy z hz hadmy hadmz a b ha hb
    rcases hold y hy with rfl | hyold
    · rw [hbase] at ha
      cases ha
    rcases hold z hz with rfl | hzold
    · rw [hbase] at hb
      cases hb
    · exact h.recorded y hyold z hzold hadmy hadmz a b ha hb
  · intro y hy hadmy hnone
    rcases hold y hy with rfl | hyold
    · exact hpairs
    · exact h.legacy y hyold hadmy hnone
  · intro y hy z hz hadmy hadmz hstl b hb
    rcases hold y hy with rfl | hyold
    · exact absurd hstl hopen
    rcases hold z hz with rfl | hzold
    · rw [hbase] at hb
      cases hb
    · exact h.settled y hyold z hzold hadmy hadmz hstl b hb

end

end Fitting

lemma isAdmission_inj {target deviceId' target' : String}
    (h : isAdmission deviceId target row) (h' : isAdmission deviceId' target' row) :
    deviceId' = deviceId ∧ target' = target := by
  simp only [isAdmission, and_eq_true, decide_eq_true_eq] at h h'
  obtain ⟨⟨hdev, -⟩, htgt⟩ := h
  obtain ⟨⟨hdev', -⟩, htgt'⟩ := h'
  exact ⟨some.inj (hdev'.symm.trans hdev), some.inj (htgt'.symm.trans htgt)⟩

/-- What is written when a row records its base and pairs. -/
structure Recording (s : State) (base : Option String) (pairs : Option (List RenamePair))
    (row row' : SyncOperationRow) : Prop extends SameIdentity row row' where
  proposalBase : row'.proposalBase = some base
  renamePairs : pairsOf row' = pairs
  origin : Origin s.admissions row'
  fits : ∀ deviceId target, isAdmission deviceId target row = true → Fits s.rows deviceId target base pairs

lemma Core.record (h : Core vaultId s) {pairs : Option (List RenamePair)}
    (hf : ∀ row ∈ s.rows, row.operationId = operationId → Recording s base pairs row (f row)) :
    Core vaultId (s.setOperation operationId f) := by
  constructor
  · refine h.toOrdered.map fun row hrow => ?_
    by_cases hid : row.operationId = operationId
    · rw [if_pos hid]
      exact (hf row hrow hid).toSameIdentity
    · rw [if_neg hid]
      exact .refl row
  · intro deviceId target
    refine (h.agree deviceId target).of_fits base pairs fun row' hrow' => ?_
    obtain ⟨row, hrow, rfl⟩ := mem_map.mp hrow'
    by_cases hid : row.operationId = operationId
    · rw [if_pos hid]
      have hrec := hf row hrow hid
      rw [hrec.isAdmission_eq]
      cases hadm : isAdmission deviceId target row with
      | false => exact .inr (.inl rfl)
      | true => exact .inr (.inr ⟨hrec.fits deviceId target hadm, hrec.proposalBase, hrec.renamePairs⟩)
    · rw [if_neg hid]
      exact .inl hrow
  · intro row' hrow'
    obtain ⟨row, hrow, rfl⟩ := mem_map.mp hrow'
    by_cases hid : row.operationId = operationId
    · rw [if_pos hid]
      exact (hf row hrow hid).origin
    · rw [if_neg hid]
      exact h.origin row hrow
  · intro call hcall
    obtain ⟨x, hx, hadm, hpairs, hbase⟩ := h.founded call hcall
    refine ⟨_, mem_map_of_mem hx, ?_⟩
    by_cases hid : x.operationId = operationId
    · rw [if_pos hid]
      have hrec := hf x hx hid
      have hfits := hrec.fits _ _ hadm x hx hadm
      refine ⟨by rw [hrec.isAdmission_eq, hadm], ?_, .inl ?_⟩
      · rcases hbase with hbase | ⟨hnone, hcmt, -⟩
        · rw [hrec.renamePairs, ← (hfits.1 _ hbase).2, hpairs]
        · have hleg := (h.agree _ _).legacy x hx hadm hnone
          rw [hrec.renamePairs, (hfits.2 ⟨hnone, .inr hcmt⟩).2, ← hpairs, hleg]
      · rcases hbase with hbase | ⟨hnone, hcmt, hcall⟩
        · rw [hrec.proposalBase, (hfits.1 _ hbase).1]
        · rw [hrec.proposalBase, (hfits.2 ⟨hnone, .inr hcmt⟩).1, hcall]
    · rw [if_neg hid]
      exact ⟨hadm, hpairs, hbase⟩

lemma Origin.mono (h : Origin admissions row) (more : List (String × DevicePushManifest)) :
    Origin (admissions ++ more) row := by
  intro base hbase
  obtain ⟨manifest, hmem, hrest⟩ := h base hbase
  exact ⟨manifest, mem_append_left _ hmem, hrest⟩

lemma Founded.append (h : Founded rows call) (more : List SyncOperationRow) : Founded (rows ++ more) call := by
  obtain ⟨x, hx, hrest⟩ := h
  exact ⟨x, mem_append_left _ hx, hrest⟩

lemma Core.append (h : Core vaultId s)
    (more : List (String × DevicePushManifest)) (hrows : s'.rows = s.rows ++ [row])
    (hnext : s'.nextSequence = s.nextSequence + 1)
    (hadm : s'.admissions = s.admissions ++ more) (hmerg : s'.merges = s.merges)
    (hord : Ordered vaultId (s.rows ++ [row]) (s.nextSequence + 1))
    (hagree : ∀ deviceId target, Agree (s.rows ++ [row]) deviceId target)
    (horig : Origin (s.admissions ++ more) row) : Core vaultId s' := by
  constructor
  · rw [hrows, hnext]
    exact hord
  · rw [hrows]
    exact hagree
  · rw [hrows, hadm]
    exact forall_mem_concat.mpr ⟨fun row' hold => (h.origin row' hold).mono more, horig⟩
  · rw [hrows, hmerg]
    exact fun call hcall => (h.founded call hcall).append [row]

lemma mem_setOperation (hrow : row ∈ s.rows) (hid : row.operationId = operationId) :
    f row ∈ (s.setOperation operationId f).rows :=
  mem_map.mpr ⟨row, hrow, if_pos hid⟩

section Steps
variable {collation : SlashPath.Collation} {attemptHash : DevicePushManifest → String}
  {stage : Stage}

/-- The row that an admitted push starts with. -/
def startedRow (vaultId : String) (nextSequence : Nat) (operationId deviceId : String)
    (manifest : DevicePushManifest) (started : StartedPush) : SyncOperationRow where
  operationId
  operationSequence := some nextSequence
  vaultId
  deviceId := some deviceId
  operationType := .devicePush
  expectedMain := none
  targetMain := none
  targetCommit := some manifest.targetCommit
  status := .started
  proposalBase := started.proposalBase
  preparedManifest := started.preparedManifest

lemma isAdmission_startedRow : isAdmission deviceId manifest.targetCommit
      (startedRow vaultId nextSequence operationId deviceId manifest started) := by
  simp [isAdmission, startedRow]

/-- What the admission of a push finds and takes over. -/
structure Admitted (s : State) (deviceId : String) (manifest : DevicePushManifest)
    (started : StartedPush) : Prop where
  unbound : started.proposalBase = none →
    Unbound s.rows deviceId manifest.targetCommit ∧ started.preparedManifest.renamePairs = none
  bound : ∀ base, started.proposalBase = some base →
    Fits s.rows deviceId manifest.targetCommit base manifest.renamePairs ∧
    started.preparedManifest.renamePairs = manifest.renamePairs ∧
    started.preparedManifest.requestedBaseCommit = manifest.baseCommit ∧
    (base = manifest.baseCommit ∨ base = none)

lemma admitPush_spec (h : Core vaultId s)
    (hpush : admitPush (services collation attemptHash) (s.hot vaultId) (s.ledger vaultId) vaultId
      deviceId manifest = .ok started) : Admitted s deviceId manifest started := by
  rcases admitPush_ok hpush with ⟨hnone, hbase, hpairs⟩ | ⟨a, ha, hagr, hpairs, hbase, hstrt, hreq⟩
  · rcases admittedOf_cases h.toOrdered with ⟨-, hunb⟩ | ⟨row, -, hrow, -⟩
    · refine ⟨fun _ => ⟨hunb, hpairs⟩, fun base hsome => ?_⟩
      rw [hbase] at hsome
      cases hsome
    · rw [show (services collation attemptHash).collation = collation from rfl, hrow] at hnone
      cases hnone
  · rcases admittedOf_cases h.toOrdered with ⟨hnone, -⟩ | ⟨row, hmem, hrow, hadm, hkind⟩
    · rw [show (services collation attemptHash).collation = collation from rfl, hnone] at ha
      cases ha
    rw [show (services collation attemptHash).collation = collation from rfl, hrow] at ha
    obtain rfl := some.inj ha
    have hequal : pairsOf row = manifest.renamePairs := StableJson.stableJson_injective hpairs
    refine ⟨fun hnone => ?_, fun base hsome => ?_⟩
    · rw [hbase] at hnone
      cases hnone
    rw [hbase] at hsome
    obtain rfl := some.inj hsome
    refine ⟨?_, hstrt.trans hequal, hreq, ?_⟩
    · rw [← hequal]
      rcases hrec : row.proposalBase with - | base
      · have hstl : Settled row := by
          refine hkind.resolve_left ?_
          rw [hrec]
          exact false_ne_true
        rw [(h.agree _ _).legacy row hmem hadm hrec]
        exact (h.agree _ _).fits_settled hmem hadm hstl
      · exact (h.agree _ _).fits_recorded hmem hadm hrec
    · rcases hrec : row.proposalBase with - | base
      · exact .inr rfl
      obtain ⟨first, -, -, hfirst, -, hnat⟩ := h.origin row hmem base hrec
      have hfirst := hfirst.symm.trans (hagr base hrec)
      rw [← hfirst]
      exact hnat

/-- The state after an admitted push. -/
def pushed (vaultId : String) (s : State) (operationId deviceId : String)
    (manifest : DevicePushManifest) (started : StartedPush) : State :=
  { s with
    rows := s.rows ++ [startedRow vaultId s.nextSequence operationId deviceId manifest started]
    nextSequence := s.nextSequence + 1
    upload := some {
      operationId
      deviceId
      manifest
      proposalBase := started.proposalBase
      stage := .started }
    admissions := s.admissions ++ [(operationId, manifest)] }

/-- The admitted pairs are those of the manifest itself. -/
lemma push_spec (h : Core vaultId s)
    (hpush : s.push collation attemptHash vaultId operationId deviceId manifest = .ok s') :
    ∃ started, Admitted s deviceId manifest started ∧
      s' = pushed vaultId s operationId deviceId manifest started := by
  obtain ⟨started, hstrt, hpush⟩ := bind_eq_ok.mp hpush
  have hadm := admitPush_spec h hstrt
  refine ⟨started, hadm, ?_⟩
  cases hpush
  have hman : (match started.preparedManifest.renamePairs with
      | some pairs => { manifest with renamePairs := some pairs }
      | none => manifest) = manifest := by
    cases hbase : started.proposalBase with
    | none => rw [(hadm.unbound hbase).2]
    | some base =>
      rw [(hadm.bound base hbase).2.1]
      obtain ⟨target, attemptId, baseCommit, pairs⟩ := manifest
      cases pairs <;> rfl
  simp only [hman]
  rfl

lemma Inv.pushed (h : Inv vaultId s) (hfresh : operationId ∉ s.rows.map SyncOperationRow.operationId)
    (hadm : Admitted s deviceId manifest started) :
    Inv vaultId (pushed vaultId s operationId deviceId manifest started) := by
  set row := startedRow vaultId s.nextSequence operationId deviceId manifest started with hrow
  have hagree : ∀ deviceId' target', Agree (s.rows ++ [row]) deviceId' target' := by
    intro deviceId' target'
    cases hbase : started.proposalBase with
    | none =>
      exact (h.agree deviceId' target').append_started hbase (hadm.unbound hbase).2 rfl
    | some base =>
      obtain ⟨hfits, hpairs, -, -⟩ := hadm.bound base hbase
      refine (h.agree deviceId' target').of_fits base manifest.renamePairs
        fun row' hrow' => ?_
      rcases mem_append.mp hrow' with hold | hnew
      · exact .inl hold
      rw [mem_singleton.mp hnew]
      cases hadmission : isAdmission deviceId' target' row with
      | false => exact .inr (.inl rfl)
      | true =>
        obtain ⟨rfl, rfl⟩ := isAdmission_inj isAdmission_startedRow hadmission
        exact .inr (.inr ⟨hfits, hbase, hpairs⟩)
  have horig : Origin (s.admissions ++ [(operationId, manifest)]) row := by
    intro base hbase
    obtain ⟨-, hpairs, hreq, hnat⟩ := hadm.bound base hbase
    refine ⟨manifest, mem_append_right _ (mem_singleton.mpr rfl), rfl, ?_, hpairs, hnat⟩
    change started.preparedManifest.requestedBaseCommit.or base = _
    rw [hreq]
    rcases hnat with rfl | rfl
    · exact or_self
    · exact or_none
  refine ⟨h.toCore.append _ rfl rfl rfl rfl (h.toOrdered.append rfl rfl hfresh) hagree horig, ?_⟩
  intro upload hupl
  cases hupl
  refine ⟨mem_append_right _ (mem_singleton.mpr rfl), fun base hbase => (hadm.bound base hbase).2.2.2, row,
    mem_append_right _ (mem_singleton.mpr rfl), rfl, isAdmission_startedRow,
    fun base hbase => (by cases hbase), fun _ => ⟨rfl, rfl, fun hbase => ?_, fun hbase => ?_⟩⟩
  · intro x hx hadmission
    rcases mem_append.mp hx with hold | hnew
    · exact (hadm.unbound hbase).1 x hold hadmission
    rw [mem_singleton.mp hnew]
    refine ⟨hbase, ?_⟩
    rintro ⟨-, hprep | hcmt⟩
    · cases hprep
    · cases hcmt
  · obtain ⟨base, hbase⟩ := isSome_iff_exists.mp hbase
    exact (hadm.bound base hbase).2.1

lemma Holds.row_eq (h : Core vaultId s) {a b : SyncOperationRow} (ha : a ∈ s.rows)
    (hb : b ∈ s.rows) (hid : a.operationId = b.operationId) : a = b :=
  inj_on_of_nodup_map h.nodup ha hb hid

/-- An upload that records its base goes on relying on its row. -/
lemma Inv.recordUpload (h : Inv vaultId s) {upload : Upload} (base : Option String)
    (hupl : s.upload = some upload) (hstrt : upload.stage = .started)
    (hstage : recordedBase { upload with stage } = some base) (hopen : stage ≠ .started)
    (hsame : ∀ row, SameIdentity row (f row)) (hbase : ∀ row, (f row).proposalBase = some base)
    (hpairs : ∀ row, (upload.proposalBase = none → pairsOf row = none) →
      (upload.proposalBase.isSome → pairsOf row = upload.manifest.renamePairs) →
      pairsOf (f row) = upload.manifest.renamePairs)
    (hreq : ∀ row, (f row).preparedManifest.requestedBaseCommit = upload.manifest.baseCommit)
    (hprior : ∀ prior, upload.proposalBase = some prior → base = prior)
    (hnat : base = upload.manifest.baseCommit ∨ base = none) :
    Inv vaultId ((s.setOperation upload.operationId f).setStage upload stage) := by
  have hholds := h.holds upload hupl
  obtain ⟨row, hrow, hid, hadm, -, hfresh⟩ := hholds.row
  obtain ⟨-, hrowB, hunb, hrowP⟩ := hfresh hstrt
  have hleg : upload.proposalBase = none → pairsOf row = none := fun hnone =>
    (h.agree _ _).legacy row hrow hadm (hrowB.trans hnone)
  have hrowP' := hpairs row hleg hrowP
  have hrec : Recording s base upload.manifest.renamePairs row (f row) := by
    refine ⟨hsame row, hbase row, hrowP', ?_, ?_⟩
    · intro base' hbase'
      rw [hbase] at hbase'
      cases hbase'
      refine ⟨upload.manifest, ?_, ?_, ?_, hrowP', hnat⟩
      · rw [(hsame row).operationId, hid]
        exact hholds.admitted
      · rw [(hsame row).targetCommit]
        simp only [isAdmission, and_eq_true, decide_eq_true_eq] at hadm
        exact hadm.2
      · rw [hreq]
        rcases hnat with rfl | rfl
        · exact or_self
        · exact or_none
    · intro deviceId target hother
      obtain ⟨rfl, rfl⟩ := isAdmission_inj hadm hother
      cases hprior' : upload.proposalBase with
      | none => exact (hunb hprior').fits
      | some prior =>
        obtain rfl := hprior prior hprior'
        have hfits := (h.agree _ _).fits_recorded hrow hadm (hrowB.trans hprior')
        rwa [hrowP (by rw [hprior']; rfl)] at hfits
  have hcore : Core vaultId (s.setOperation upload.operationId f) := by
    have heach : ∀ other ∈ s.rows, other.operationId = upload.operationId →
        Recording s base upload.manifest.renamePairs other (f other) := by
      intro other hother hid'
      obtain rfl := Holds.row_eq h.toCore hother hrow (hid'.trans hid.symm)
      exact hrec
    exact h.toCore.record heach
  refine ⟨{ hcore with }, ?_⟩
  intro upload' hupl'
  cases hupl'
  refine ⟨hholds.admitted, hholds.natural, f row, mem_setOperation hrow hid,
    (hsame row).operationId.trans hid, ?_, fun base' hbase' => ?_, fun h => absurd h hopen⟩
  · rw [(hsame row).isAdmission_eq]
    exact hadm
  rw [hstage] at hbase'
  cases hbase'
  exact ⟨hbase row, hrowP'⟩

section Moves
variable {upload : Upload}

lemma prepareRow_same (directoryProposal : Option DirectoryProposal) (row : SyncOperationRow) :
    SameIdentity row (State.prepareRow upload directoryProposal row) :=
  ⟨rfl, rfl, rfl, rfl, rfl, rfl⟩

lemma finishRow_same (directoryProposal : Option DirectoryProposal) (row : SyncOperationRow) :
    SameIdentity row (State.finishRow upload directoryProposal row) :=
  ⟨rfl, rfl, rfl, rfl, rfl, rfl⟩

lemma Inv.prepare (h : Inv vaultId s) (hupl : s.upload = some upload)
    (hstrt : upload.stage = .started) (directoryProposal : Option DirectoryProposal) :
    Inv vaultId ((s.setOperation upload.operationId
      (State.prepareRow upload directoryProposal)).setStage upload .prepared) := by
  refine h.recordUpload (upload.proposalBase.getD upload.manifest.baseCommit) hupl
    hstrt rfl (by simp) (prepareRow_same directoryProposal) (fun _ => rfl)
    (fun _ _ _ => rfl) (fun _ => rfl) ?_ ?_
  · intro prior hprior
    rw [hprior]
    rfl
  cases hprior : upload.proposalBase with
  | none => exact .inl rfl
  | some prior => exact (h.holds upload hupl).natural prior hprior

lemma Inv.finishExisting (h : Inv vaultId s) (hupl : s.upload = some upload)
    (hstrt : upload.stage = .started) (directoryProposal : Option DirectoryProposal) :
    Inv vaultId ((s.setOperation upload.operationId
      (State.finishRow upload directoryProposal)).setStage upload .finishing) := by
  refine h.recordUpload upload.proposalBase.join hupl
    hstrt rfl (by simp) (finishRow_same directoryProposal) (fun _ => rfl)
    (fun row hleg hrec => ?_) (fun _ => rfl) ?_ ?_
  · change (pairsOf row).or upload.manifest.renamePairs = _
    cases hprior : upload.proposalBase with
    | none =>
      rw [hleg hprior]
      rfl
    | some prior =>
      rw [hrec (by rw [hprior]; rfl)]
      exact or_self
  · intro prior hprior
    rw [hprior]
    rfl
  · cases hprior : upload.proposalBase with
    | none => exact .inr rfl
    | some prior => exact (h.holds upload hupl).natural prior hprior

/-- The row of an upload that has recorded its base is committed. -/
lemma Inv.commitUpload (h : Inv vaultId s) (hupl : s.upload = some upload) (hprep : upload.stage = .prepared)
    (hstage : ∀ base, recordedBase { upload with stage } = some base → recordedBase upload = some base)
    (hopen : stage ≠ .started) :
    Inv vaultId ((s.setStatus upload.operationId .committed).setStage upload stage) := by
  have hholds := h.holds upload hupl
  obtain ⟨row, hrow, hid, hadm, hrec, -⟩ := hholds.row
  obtain ⟨hbase, -⟩ := hrec (upload.proposalBase.getD upload.manifest.baseCommit) (by rw [recordedBase, hprep])
  have hchg : ∀ other ∈ s.rows, other.operationId = upload.operationId →
      StatusChange other { other with status := .committed } := by
    intro other hother hid'
    obtain rfl := Holds.row_eq h.toCore hother hrow (hid'.trans hid.symm)
    refine ⟨⟨rfl, rfl, rfl, rfl, rfl, rfl⟩, rfl, rfl, fun hstl => ?_, fun _ => rfl⟩
    rw [show other.proposalBase = none from hstl.1] at hbase
    cases hbase
  have hcore := h.toCore.statusChange hchg
  refine ⟨{ hcore with }, ?_⟩
  intro upload' hupl'
  cases hupl'
  exact ⟨hholds.admitted, hholds.natural, _, mem_setOperation hrow hid, hid, hadm,
    fun base hbase => hrec base (hstage base hbase), fun h => absurd h hopen⟩

/-- A merge is called as the row of its upload says. -/
lemma Inv.callMerge (h : Inv vaultId s) (hupl : s.upload = some upload)
    (hbase : State.mergeBase upload = some base) : Inv vaultId (s.callMerge upload base) := by
  have hholds := h.holds upload hupl
  obtain ⟨row, hrow, hid, hadm, hrec, -⟩ := hholds.row
  have hstage : recordedBase upload = some base := by
    revert hbase
    unfold State.mergeBase recordedBase
    cases upload.stage <;> intro hbase
    all_goals first
      | exact hbase
      | cases hbase
  obtain ⟨hrowB, hpairs⟩ := hrec base hstage
  refine ⟨{ h with founded := ?_ }, ?_⟩
  · exact forall_mem_concat.mpr ⟨h.founded, ⟨row, hrow, hadm, hpairs, .inl hrowB⟩⟩
  intro upload' hupl'
  cases hupl'
  exact ⟨hholds.admitted, hholds.natural, row, hrow, hid, hadm,
    fun base hbase => (by cases hbase), fun h => (by cases h)⟩

lemma Core.idle (h : Core vaultId s) : Inv vaultId { s with upload := none } :=
  ⟨{ h with }, fun _ hupl => by cases hupl⟩

lemma abortOperation_statusChange (row : SyncOperationRow) : StatusChange row
      (if row.status = .committed then row else { row with status := .aborted }) := by
  by_cases hcmt : row.status = .committed
  · rw [if_pos hcmt]
    exact .refl row
  rw [if_neg hcmt]
  refine ⟨⟨rfl, rfl, rfl, rfl, rfl, rfl⟩, rfl, rfl, ?_, fun h => absurd h hcmt⟩
  rintro ⟨-, hprep | hcmt⟩
  · cases hprep
  · cases hcmt

lemma recoverRow_statusChange (rollForward : Bool) (row : SyncOperationRow) :
    StatusChange row (State.recoverRow rollForward row) := by
  cases hstat : row.status with
  | started =>
    rw [State.recoverRow, hstat]
    refine ⟨⟨rfl, rfl, rfl, rfl, rfl, rfl⟩, rfl, rfl, ?_, fun h => ?_⟩
    · rintro ⟨-, hprep | hcmt⟩
      · cases hprep
      · cases hcmt
    · rw [hstat] at h
      cases h
  | prepared =>
    rw [State.recoverRow, hstat]
    refine ⟨⟨rfl, rfl, rfl, rfl, rfl, rfl⟩, rfl, rfl, fun h => ⟨h.1, .inl hstat⟩, fun h => ?_⟩
    rw [hstat] at h
    cases h
  | committed | aborted =>
    rw [State.recoverRow, hstat]
    exact .refl row

/-- The other operations of the vault take no part in admission. -/
lemma Inv.otherOperation (h : Inv vaultId s) {deviceId : Option String}
    {type : OperationType} (htype : type ≠ .devicePush)
    (hfresh : operationId ∉ s.rows.map SyncOperationRow.operationId) :
    Inv vaultId (s.startOperation vaultId operationId deviceId type none none {}) := by
  have hother : ∀ x : SyncOperationRow, x.operationType = type →
      ∀ deviceId target, isAdmission deviceId target x = false := by
    intro x hx deviceId target
    simp [isAdmission, hx, htype]
  have hcore : Core vaultId (s.startOperation vaultId operationId deviceId type none none {}) := by
    refine h.toCore.append [] rfl rfl (append_nil _).symm rfl
      (h.toOrdered.append rfl rfl hfresh) ?_ (fun base hbase => by cases hbase)
    intro deviceId' target
    exact (h.agree deviceId' target).append_started rfl rfl rfl
  refine ⟨hcore, fun upload hupl => ?_⟩
  have hholds := h.holds upload hupl
  obtain ⟨row, hrow, hid, hadmission, hrec, hstrt⟩ := hholds.row
  refine ⟨hholds.admitted, hholds.natural, row, mem_append_left _ hrow, hid, hadmission, hrec, fun hstage => ?_⟩
  obtain ⟨hstat, hbase, hunb, hpairs⟩ := hstrt hstage
  refine ⟨hstat, hbase, fun hnone x hx hadm => ?_, hpairs⟩
  rcases mem_append.mp hx with hold | hnew
  · exact hunb hnone x hold hadm
  · rw [mem_singleton.mp hnew, hother _ rfl] at hadm
    cases hadm

/-- A resumed merge is called as its own row says. -/
lemma Core.resumeRow (h : Core vaultId s) (hrow : row ∈ s.rows)
    (hres : s.resumeRow row = some s') : Core vaultId s' ∧ s'.upload = s.upload := by
  unfold State.resumeRow at hres
  split at hres
  · rename_i deviceId target hdev htgt
    split at hres
    · rename_i hcmt
      cases hres
      simp only [and_eq_true, decide_eq_true_eq] at hcmt
      have hadm : isAdmission deviceId target row = true := by
        simp [isAdmission, hdev, hcmt.1, htgt]
      refine ⟨{ h with founded := fun call hcall => ?_ }, rfl⟩
      rcases mem_append.mp hcall with hold | hnew
      · exact h.founded call hold
      rw [mem_singleton.mp hnew]
      refine ⟨row, hrow, hadm, rfl, ?_⟩
      cases hbase : row.proposalBase with
      | none => exact .inr ⟨rfl, hcmt.2, rfl⟩
      | some base => exact .inl rfl
    · cases hres
  · cases hres

end Moves

lemma atStage_eq_some {f : Upload → State} (h : s.atStage stage f = some s') :
    ∃ upload, s.upload = some upload ∧ upload.stage = stage ∧ s' = f upload := by
  unfold State.atStage at h
  split at h
  · rename_i upload hupl
    split at h
    · exact ⟨upload, hupl, ‹_›, (some.inj h).symm⟩
    · cases h
  · cases h

lemma inv_of_idle (h : Core vaultId s) (hidle : s.upload = none) : Inv vaultId s :=
  ⟨h, fun upload hupl => by rw [hidle] at hupl; cases hupl⟩

lemma Inv.step (h : Inv vaultId s) {label : Label}
    (hstep : s.step collation attemptHash vaultId label = some s') : Inv vaultId s' := by
  cases label with
  | push operationId deviceId manifest =>
    obtain ⟨hidle, hstep⟩ := ite_none_right_eq_some.mp hstep
    simp only [and_eq_true, decide_eq_true_eq] at hidle
    split at hstep
    · rename_i hpush
      cases hstep
      obtain ⟨started, hadm, rfl⟩ := push_spec h.toCore hpush
      exact h.pushed hidle.2 hadm
    · cases hstep
      exact h
  | prepare directoryProposal =>
    obtain ⟨upload, hupl, hstage, rfl⟩ := atStage_eq_some hstep
    exact h.prepare hupl hstage directoryProposal
  | acceptDivergent =>
    obtain ⟨upload, hupl, hstage, rfl⟩ := atStage_eq_some hstep
    exact h.commitUpload hupl hstage (fun base hbase => by cases hbase) (by simp)
  | commit =>
    obtain ⟨upload, hupl, hstage, rfl⟩ := atStage_eq_some hstep
    refine h.commitUpload hupl hstage (fun base hbase => ?_) (by simp)
    rw [recordedBase, hstage]
    exact hbase
  | finishExisting directoryProposal =>
    obtain ⟨upload, hupl, hstage, rfl⟩ := atStage_eq_some hstep
    exact h.finishExisting hupl hstage directoryProposal
  | merge =>
    simp only [State.step] at hstep
    split at hstep
    · rename_i upload hupl
      obtain ⟨base, hbase, rfl⟩ := map_eq_some_iff.mp hstep
      exact h.callMerge hupl hbase
    · cases hstep
  | «return» | restart =>
    cases hstep
    exact h.toCore.idle
  | fail =>
    simp only [State.step] at hstep
    split at hstep
    · rename_i upload hupl
      cases hstep
      exact (h.toCore.statusChange fun row _ _ => abortOperation_statusChange row).idle
    · cases hstep
  | recover operationId rollForward =>
    obtain ⟨hidle, ⟨⟩⟩ := ite_none_right_eq_some.mp hstep
    exact inv_of_idle (h.toCore.statusChange fun row _ _ => recoverRow_statusChange rollForward row)
      (isNone_iff_eq_none.mp hidle)
  | archive operationIds =>
    obtain ⟨-, ⟨⟩⟩ := ite_none_right_eq_some.mp hstep
    exact ⟨{ h with }, fun upload hupl =>
      { h.holds upload hupl with }⟩
  | resume operationId =>
    obtain ⟨hidle, hstep⟩ := ite_none_right_eq_some.mp hstep
    split at hstep
    · rename_i row hrow
      obtain ⟨hcore, hupl⟩ := h.toCore.resumeRow (mem_of_find?_eq_some hrow) hstep
      exact inv_of_idle hcore (hupl.trans (isNone_iff_eq_none.mp hidle))
    · cases hstep
  | otherOperation operationId deviceId type =>
    obtain ⟨hother, hstep⟩ := ite_none_right_eq_some.mp hstep
    simp only [and_eq_true, decide_eq_true_eq] at hother
    cases hstep
    exact h.otherOperation hother.1 hother.2

lemma Inv.run {labels : List Label} (h : Inv vaultId s)
    (hrun : s.run collation attemptHash vaultId labels = some s') : Inv vaultId s' :=
  LabelledRuns.inv_run hrun (fun _ => rfl) (fun _ _ _ => rfl) (·.step ·) h

end Steps

/-- Rows of older servers: no base and no pairs are recorded. -/
structure Legacy (vaultId : String) (rows : List SyncOperationRow) (nextSequence : Nat) : Prop
    extends Ordered vaultId rows nextSequence where
  proposalBase : ∀ row ∈ rows, row.proposalBase = none
  renamePairs : ∀ row ∈ rows, pairsOf row = none

lemma Legacy.inv (h : Legacy vaultId rows nextSequence) : Inv vaultId (.start rows nextSequence) := by
  have hnone : ∀ row ∈ rows, ∀ base, row.proposalBase ≠ some base := by
    intro row hrow base hbase
    rw [h.proposalBase row hrow] at hbase
    cases hbase
  refine inv_of_idle ⟨h.toOrdered, fun deviceId target => ⟨?_, ?_, ?_⟩, ?_, ?_⟩ rfl
  · intro x hx _ _ _ _ a _ ha _
    exact absurd ha (hnone x hx a)
  · intro x hx _ _
    exact h.renamePairs x hx
  · intro _ _ y hy _ _ _ b hb
    exact absurd hb (hnone y hy b)
  · intro row hrow base hbase
    exact absurd hbase (hnone row hrow base)
  · intro call hcall
    cases hcall

/-- `first` is the first admission of the target that recorded its base. -/
def FirstRecorded (s : State) (deviceId target : String) (first : SyncOperationRow) : Prop :=
  FirstByKey.IsFirst sequenceOf (fun row => row.proposalBase.isSome)
    (s.rows.filter fun row => isAdmission deviceId target row) first

/-- A call for the target of a recorded admission uses its base and pairs. -/
lemma Core.call_first (h : Core vaultId s)
    (hfirst : FirstRecorded s call.deviceId call.target first) (hcall : call ∈ s.merges) :
    first.proposalBase = some call.proposalBase ∧ pairsOf first = call.renamePairs := by
  obtain ⟨base, hbase⟩ := isSome_iff_exists.mp hfirst.test
  obtain ⟨hmem, hadm⟩ := mem_filter.mp hfirst.mem
  obtain ⟨x, hx, hadmx, hpairs, hkind⟩ := h.founded call hcall
  have hagree := h.agree call.deviceId call.target
  rcases hkind with hrec | ⟨hnone, hcmt, hcall⟩
  · obtain ⟨rfl, hsame⟩ := hagree.recorded first hmem x hx hadm hadmx base _ hbase hrec
    exact ⟨hbase, hsame.trans hpairs⟩
  obtain ⟨rfl, hsame⟩ :=
    hagree.settled x hx first hmem hadmx hadm ⟨hnone, .inr hcmt⟩ base hbase
  rw [hbase, hcall, hsame, ← hpairs]
  exact ⟨rfl, (hagree.legacy x hx hadmx hnone).symm⟩

/-- Without a recorded admission every call is made by the legacy rule. -/
lemma Core.call_legacy (h : Core vaultId s)
    (hnone : ∀ first, ¬ FirstRecorded s call.deviceId call.target first) (hcall : call ∈ s.merges) :
    call.proposalBase = none ∧ call.renamePairs = none := by
  obtain ⟨x, hx, hadmx, hpairs, hkind⟩ := h.founded call hcall
  rcases hkind with hrec | ⟨hleg, -, hcall⟩
  · obtain ⟨first, hfirst⟩ : ∃ first, FirstRecorded s call.deviceId call.target first :=
      FirstByKey.exists_isFirst (mem_filter.mpr ⟨hx, hadmx⟩) (by rw [hrec]; rfl)
    exact absurd hfirst (hnone first)
  · exact ⟨hcall, hpairs.symm.trans ((h.agree _ _).legacy x hx hadmx hleg)⟩

/-- A retry with another base or other pairs than a recorded admission is refused. -/
lemma Core.push_refused (h : Core vaultId s) {collation : SlashPath.Collation}
    {attemptHash : DevicePushManifest → String} {admission : DevicePushManifest}
    (hfirst : FirstRecorded s deviceId manifest.targetCommit first) (hbase : first.proposalBase = some base)
    (hreq : first.preparedManifest.requestedBaseCommit.or base = admission.baseCommit)
    (hpairs : pairsOf first = admission.renamePairs) (hother : manifest.baseCommit ≠ admission.baseCommit ∨
      manifest.renamePairs ≠ admission.renamePairs) (operationId : String) :
    ∃ failure ∈ [attemptMismatch, proposalBaseMismatch, renamePairsMismatch],
      s.push collation attemptHash vaultId operationId deviceId manifest = .error failure := by
  cases hpush : admitPush (services collation attemptHash) (s.hot vaultId) (s.ledger vaultId)
      vaultId deviceId manifest with
  | error failure =>
    refine ⟨failure, admitPush_error hpush, ?_⟩
    rw [State.push, hpush]
    rfl
  | ok started =>
    have hfound : admittedOf (priorAdmissions (services collation attemptHash).collation
        (s.hot vaultId) (s.ledger vaultId) vaultId deviceId manifest.targetCommit) = some first :=
      admittedOf_first h.toOrdered hfirst
    rcases admitPush_ok hpush with ⟨hnone, -⟩ | ⟨a, ha, hagr, hsame, -⟩
    · rw [hfound] at hnone
      cases hnone
    rw [hfound] at ha
    cases ha
    have hsame : pairsOf first = manifest.renamePairs := StableJson.stableJson_injective hsame
    rcases hother with hother | hother
    · exact absurd ((hagr base hbase).symm.trans hreq) hother
    · exact absurd (hsame.symm.trans hpairs) hother

/-- The admitted proposal is immutable: in every run, whatever is pushed, aborted, cut off,
archived or resumed, a merge is called with the base and the pairs of the target's first
admission that recorded them. These come from an admitted manifest, and a push that differs from
it is refused. Where nothing is recorded, merges follow the legacy rule. -/
theorem admitted_proposal_immutable {collation : SlashPath.Collation}
    {attemptHash : DevicePushManifest → String} {vaultId : String} {legacy : List SyncOperationRow}
    {nextSequence : Nat} (hlegacy : Legacy vaultId legacy nextSequence) {labels : List Label} {s : State}
    (hrun : (State.start legacy nextSequence).run collation attemptHash vaultId labels = some s)
    (deviceId target : String) : (∀ first, FirstRecorded s deviceId target first →
      (∀ call ∈ s.merges, call.deviceId = deviceId → call.target = target →
        first.proposalBase = some call.proposalBase ∧ pairsOf first = call.renamePairs) ∧
      ∃ admission, (first.operationId, admission) ∈ s.admissions ∧
        admission.targetCommit = target ∧ pairsOf first = admission.renamePairs ∧
        (first.proposalBase = some admission.baseCommit ∨ first.proposalBase = some none) ∧
        ∀ operationId manifest, manifest.targetCommit = target → (manifest.baseCommit ≠ admission.baseCommit ∨
            manifest.renamePairs ≠ admission.renamePairs) →
          ∃ failure ∈ [attemptMismatch, proposalBaseMismatch, renamePairsMismatch],
            s.push collation attemptHash vaultId operationId deviceId manifest = .error failure) ∧
    ((∀ first, ¬ FirstRecorded s deviceId target first) →
      ∀ call ∈ s.merges, call.deviceId = deviceId → call.target = target →
        call.proposalBase = none ∧ call.renamePairs = none) := by
  have h := hlegacy.inv.run hrun
  refine ⟨fun first hfirst => ⟨?_, ?_⟩, ?_⟩
  · rintro call hcall rfl rfl
    exact h.call_first hfirst hcall
  · obtain ⟨base, hbase⟩ := isSome_iff_exists.mp hfirst.test
    obtain ⟨hmem, hadm⟩ := mem_filter.mp hfirst.mem
    obtain ⟨admission, hin, htgt, hreq, hpairs, hnat⟩ := h.origin first hmem base hbase
    refine ⟨admission, hin, ?_, hpairs, ?_, ?_⟩
    · simp only [isAdmission, and_eq_true, decide_eq_true_eq] at hadm
      exact some.inj (htgt.symm.trans hadm.2)
    · rw [hbase]
      exact hnat.imp (congrArg some) (congrArg some)
    · rintro operationId manifest rfl hother
      exact h.push_refused hfirst hbase hreq hpairs hother operationId
  · rintro hnone call hcall rfl rfl
    exact h.call_legacy hnone hcall

section Sample

def sampleLegacy : SyncOperationRow where
  operationId := "old"
  operationSequence := some 1
  vaultId := "vault"
  deviceId := some "phone"
  operationType := .devicePush
  expectedMain := none
  targetMain := none
  targetCommit := some "c1"
  status := .committed
  preparedManifest := {}

def samplePush (baseCommit : Option String) : DevicePushManifest where
  targetCommit := "c2"
  attemptId := none
  baseCommit
  renamePairs := some [⟨"a.md", "b.md"⟩]

/-- The process stops between the commit and the merge, the merge is resumed, the row is
archived, the device retries and then comes with another base. -/
def sampleLabels : List Label :=
  [.push "one" "phone" (samplePush (some "c0")), .prepare none, .commit, .restart, .resume "one",
    .archive ["one"], .push "two" "phone" (samplePush (some "c0")), .finishExisting none, .merge,
    .return, .push "three" "phone" (samplePush (some "c1"))]

def sampleRun : Option State :=
  (State.start [sampleLegacy] 2).run SlashPath.codePointCollation (fun _ => "") "vault" sampleLabels

lemma sampleRun_isSome : sampleRun.isSome := by decide +kernel

lemma sampleLegacy_legacy : Legacy "vault" [sampleLegacy] 2 where
  vault _ hrow := by rw [mem_singleton.mp hrow]; rfl
  nodup := nodup_singleton _
  sorted := pairwise_singleton _ _
  bounded _ hrow := by rw [mem_singleton.mp hrow]; decide
  proposalBase _ hrow := by rw [mem_singleton.mp hrow]; rfl
  renamePairs _ hrow := by rw [mem_singleton.mp hrow]; rfl

theorem admitted_proposal_immutable_sample : ∃ s, sampleRun = some s ∧
    s.merges = List.replicate 2 ⟨"phone", "c2", some "c0", some [⟨"a.md", "b.md"⟩]⟩ ∧
    s.rows.map SyncOperationRow.operationId = ["old", "one", "two"] ∧
    ∀ first, FirstRecorded s "phone" "c2" first → ∀ call ∈ s.merges, call.deviceId = "phone" →
      call.target = "c2" → first.proposalBase = some call.proposalBase ∧ pairsOf first = call.renamePairs := by
  have hrun := (some_get sampleRun_isSome).symm
  refine ⟨sampleRun.get sampleRun_isSome, hrun, by decide +kernel, by decide +kernel,
    fun first hfirst => ?_⟩
  exact ((admitted_proposal_immutable sampleLegacy_legacy hrun "phone" "c2").1 first hfirst).1

end Sample

end ProposalRuns
