import Obts.DeletionRecords
import Obts.LabelledRuns

/-!
# Vault deletion

The lifecycle of one vault in a running server: the barrier that admissions pass, the requests
and workers that delete the vault, the metadata in memory and on disk, and the vault's Git
repository. Every stretch of code between two awaits is one step. A metadata change says how
far its file got and what failed; the rest of the server is any change that leaves the
deletion records of this vault alone.
-/
namespace VaultDeletion

open DeletionRecords Option List Bool Nat MetadataDb

/-- `drained` is the promise a worker waits for, and `releaseDrain` that its resolver is set. -/
structure Barrier where
  active : Nat
  (closing closed drained releaseDrain worker : Bool)

def Barrier.fresh : Barrier := ⟨0, false, false, true, false, false⟩

inductive GitRepository where
  | intact
  | damaged
  | absent
  deriving DecidableEq

/-- A call of `acquireAdmission` after its first look at the barrier. -/
inductive Acquirer where
  | reading
  | answered (durablyClosed : Bool)
  deriving DecidableEq

/-- The deletion request that holds the vault's transition: it has read the metadata, or it is
about to make the deletion durable. -/
inductive Transition where
  | decide (ownerUserId : String) (confirmation : Option String) (initial : MetadataDb)
  | accept (ownerUserId requestedAt : String)

/-- Where the loop of a worker stands. -/
inductive WorkerStage where
  | loop
  | chosen (phase : Option DeletionPhase) (deletingRow : Bool)
  | reconciling
  | setDraining
  | drainVault
  | waitForDrain
  | awaitDrain
  | checkPhase
  | eraseResidue
  | inspectGit
  | setErasing (targetGitPresent : Bool)
  | removeGit (targetGitPresent : Bool)
  | removeTemps
  | cleanupTemps
  | setFinalizing
  | eraseHistory
  | finalize
  | recordRetry (code : DeletionErrorCode)
  | finished
  deriving DecidableEq

structure State where
  (memory disk : MetadataDb)
  (durabilityUncertain cleanupFailed : Bool)
  barrier : Barrier
  stopping : Bool
  acquirers : List Acquirer
  /-- The admissions that are not released yet. -/
  admissions : List Nat
  /-- How many admissions were ever granted, and the identity of the next one. -/
  granted : Nat
  transition : Option Transition
  /-- Reconciliations under way, with the time their job will carry. -/
  reconciliations : List String
  workers : List WorkerStage
  git : GitRepository

/-- How a change of the metadata ends. -/
inductive MutationOutcome where
  | committed
  /-- The file is in place and in use, and what follows the change throws. -/
  | committedThenFailed (uncertain : Bool)
  /-- The new file never replaced the old one. -/
  | unpublished (uncleaned : Bool)
  /-- The replacement or its synchronisation failed, and the disk has either file. -/
  | ambiguous (published : Bool)
  /-- The new file is in place, and removing its temporary name failed. -/
  | publishedUncleaned

structure Write where
  outcome : MutationOutcome
  newId : String → String

inductive WorkerEvent where
  | proceed
  | fail (code : DeletionErrorCode)
  /-- A removal that fails after it took something away. -/
  | failPartway (code : DeletionErrorCode)
  | inspected (targetValid othersAttributed : Bool)
  | mutated (write : Write) (now : String)

inductive Label where
  | acquireAdmission
  | readRecord (acquirer : Nat)
  | settleAdmission (acquirer : Nat)
  | release (admission : Nat)
  | beginDeletion (ownerUserId : String) (confirmation : Option String)
  | decideDeletion (requestedAt : String)
  | acceptDeletion (write : Write)
  | reconcile
  | commitReconciliation (index : Nat) (write : Write)
  | expireReceipts (now : Int) (write : Write)
  | startWorker
  | worker (index : Nat) (event : WorkerEvent)
  | otherMutation (db : MetadataDb) (write : Write)
  | storeFails (uncertain uncleaned : Bool)
  | cleanupPersistenceTemps
  | close
  | restart

section
variable (db : MetadataDb) (vaultId : String) (barrier : Barrier)

def restoreVault (vault : VaultRow) : Barrier :=
  if vault.vaultId = vaultId && db.hasDurableDeletionRecord vaultId then
    { barrier with
      closing := true
      closed := db.deletionReceipts.any fun receipt => receipt.vaultId = vaultId }
  else barrier

def restoreJob (job : DeletionJob) : Barrier :=
  if job.vaultId = vaultId then { barrier with closing := true, closed := false } else barrier

def restoreReceipt (receipt : DeletionReceipt) : Barrier :=
  if receipt.vaultId = vaultId then { barrier with closing := true, closed := true } else barrier

/-- The barrier of the vault that a starting server builds from its metadata. -/
def restoreDurableBarriers : Barrier :=
  db.deletionReceipts.foldl (restoreReceipt vaultId) (db.deletionJobs.foldl (restoreJob vaultId)
      (db.vaults.foldl (restoreVault db vaultId) .fresh))

/-- A server that starts on the given metadata. -/
def start (git : GitRepository) : State where
  memory := db
  disk := db
  durabilityUncertain := false
  cleanupFailed := false
  barrier := restoreDurableBarriers db vaultId
  stopping := false
  acquirers := []
  admissions := []
  granted := 0
  transition := none
  reconciliations := []
  workers := []
  git

end

namespace State

variable (vaultId : String) (s : State)

def restart : State :=
  { start s.disk vaultId s.git with granted := s.granted }

/-- Whether the store still reads and writes. -/
def operational : Bool := !s.durabilityUncertain && !s.cleanupFailed

/-- `mutateDurably`, with whether it returned; a change that throws leaves everything. -/
def mutateDurably (change : MetadataDb → Option MetadataDb) (write : Write) : State × Bool :=
  if s.operational then
    match change s.memory with
    | none => (s, false)
    | some changed =>
      let candidate := prepareCandidate write.newId changed
      match write.outcome with
      | .committed => ({ s with memory := candidate, disk := candidate }, true)
      | .committedThenFailed uncertain =>
        ({ s with memory := candidate, disk := candidate, durabilityUncertain := uncertain }, false)
      | .unpublished uncleaned => ({ s with cleanupFailed := uncleaned }, false)
      | .ambiguous published =>
        ({ s with
          disk := if published then candidate else s.disk
          durabilityUncertain := true }, false)
      | .publishedUncleaned => ({ s with disk := candidate, cleanupFailed := true }, false)
  else (s, false)

def acquireAdmission : State :=
  if s.barrier.closing || s.barrier.closed then s
  else { s with acquirers := s.acquirers ++ [.reading] }

variable (i : Nat)

/-- The durable state is read; a store that does not read refuses the admission. -/
def readRecord : State :=
  if s.operational then
    { s with acquirers :=
        s.acquirers.set i (.answered (s.memory.hasDurableDeletionRecord vaultId)) }
  else { s with acquirers := s.acquirers.eraseIdx i }

def settleAdmission (durablyClosed : Bool) : State :=
  let s := { s with acquirers := s.acquirers.eraseIdx i }
  if durablyClosed || s.barrier.closing || s.barrier.closed then s
  else
    { s with
      barrier := { s.barrier with active := s.barrier.active + 1 }
      admissions := s.admissions ++ [s.granted]
      granted := s.granted + 1 }

/-- The first release of an admission; the last one of all wakes the worker that waits. -/
def release (admission : Nat) : State :=
  if admission ∈ s.admissions then
    let active := s.barrier.active - 1
    let barrier :=
      if active = 0 && s.barrier.releaseDrain then
        { s.barrier with active, drained := true, releaseDrain := false }
      else { s.barrier with active }
    { s with barrier, admissions := s.admissions.erase admission }
  else s

def close (closed : Bool) : State :=
  { s with barrier := { s.barrier with closing := true, closed } }

def startWorker : State :=
  if s.barrier.worker || s.stopping then s
  else
    { s with
      barrier := { s.barrier with worker := true }
      workers := s.workers ++ [.loop] }

def endTransition : State := { s with transition := none }

/-- `beginDeletion` from its snapshot to the next await or its end. -/
def decideDeletion (ownerUserId : String) (confirmation : Option String)
    (initial : MetadataDb) (requestedAt : String) : State :=
  match initial.deletionJob vaultId, initial.deletionReceipt vaultId with
  | some job, _ =>
    if job.ownerUserId ≠ ownerUserId then s.endTransition
    else ((s.close false).startWorker).endTransition
  | none, some receipt =>
    if receipt.ownerUserId ≠ ownerUserId then s.endTransition
    else (s.close true).endTransition
  | none, none =>
    match initial.vault vaultId with
    | none => s.endTransition
    | some vault =>
      if vault.ownerUserId ≠ ownerUserId then s.endTransition
      else if s.barrier.closed then s.endTransition
      else if confirmation ≠ some ("DELETE " ++ vaultId) then s.endTransition
      else { s.close false with transition := some (.accept ownerUserId requestedAt) }

def acceptDeletion (s : State) (ownerUserId requestedAt : String) (write : Write) : State :=
  let (s, ok) := s.mutateDurably
    (fun db => (DeletionRecords.acceptDeletion db vaultId ownerUserId requestedAt).toOption) write
  if ok then s.startWorker.endTransition else s.endTransition

/-- `reconcileDeletingVaultRows` for this vault up to its change. -/
def reconcile : State :=
  match s.memory.vaults.find? fun vault => vault.vaultId = vaultId && vault.status = .deleting with
  | none => s
  | some vault =>
    let s := s.close false
    if s.memory.hasDeletionJobOrReceipt vaultId then s
    else { s with reconciliations := s.reconciliations ++ [vault.updatedAt] }

def commitReconciliation (requestedAt : String) (write : Write) : State :=
  let s := { s with reconciliations := s.reconciliations.eraseIdx i }
  let (s, ok) := s.mutateDurably (fun db => some (reconcileDeletingVaultRow db vaultId requestedAt)) write
  if ok then s else s.close false

def goTo (stage : WorkerStage) : State :=
  { s with workers := s.workers.set i stage }

/-- A change made by a worker, and where its iteration goes on. -/
def workerMutation (change : MetadataDb → Option MetadataDb) (write : Write) (next : WorkerStage) : State :=
  let (s, ok) := s.mutateDurably change write
  s.goTo i (if ok then next else .recordRetry .storageUnavailable)

/-- The start of an iteration, up to what it does about the job it found. -/
def beginIteration : State :=
  if s.stopping then s.goTo i .finished
  else if s.operational then
    s.goTo i (.chosen ((s.memory.deletionJob vaultId).map (·.phase)) (s.memory.hasDeletingRow vaultId))
  else s.close false

variable (phase : Option DeletionPhase)

def chooseWork (deletingRow : Bool) : State :=
  match phase with
  | some phase => s.goTo i (if phase = .intent then .setDraining else .drainVault)
  | none => if deletingRow then s.goTo i .reconciling else (s.close true).goTo i .finished

/-- `waitForDrain`: nothing to wait for, or a new promise that the last release resolves. -/
def waitForDrain : State :=
  if s.barrier.active = 0 then s.goTo i .checkPhase
  else
    { s with barrier := { s.barrier with drained := false, releaseDrain := true } }.goTo i .awaitDrain

def checkPhase : State :=
  if s.operational then
    s.goTo i (if (s.memory.deletionJob vaultId).isSome then .eraseResidue else .loop)
  else s.goTo i (.recordRetry .storageUnavailable)

def erasureWasDurablyEntered : Bool :=
  phase = some .erasing || phase = some .finalizing

/-- `eraseGitAndTemp` up to the first thing it changes. The target may be anything but a
repository once erasing has begun, and everything else found there must be attributed. -/
def inspectGit (targetValid othersAttributed : Bool) : State :=
  if s.operational then
    let entered := erasureWasDurablyEntered ((s.memory.deletionJob vaultId).map (·.phase))
    let present : Bool := s.git ≠ .absent
    if present && !targetValid && !entered then s.goTo i (.recordRetry .unattributedResidue)
    else if !othersAttributed then s.goTo i (.recordRetry .unattributedResidue)
    else if !present && !entered then s.goTo i (.recordRetry .storageUnavailable)
    else s.goTo i (if entered then .removeGit present else .setErasing present)
  else s.goTo i (.recordRetry .storageUnavailable)

def removeGit (targetGitPresent : Bool) : State :=
  { s with git := if targetGitPresent then .absent else s.git }.goTo i .removeTemps

def cleanupTemps : State :=
  if s.durabilityUncertain then s.goTo i (.recordRetry .storageUnavailable)
  else { s with cleanupFailed := false }.goTo i .setFinalizing

/-- The change that finalises the deletion, after which the worker is done. -/
def finalize (completedAt : String) (write : Write) : State :=
  let (s, ok) := s.mutateDurably (fun db => (finalizeDb db vaultId completedAt).toOption) write
  if ok then (s.close true).goTo i .finished else s.goTo i (.recordRetry .storageUnavailable)

def settleWorker : State :=
  { s with
    barrier := { s.barrier with worker := false }
    workers := s.workers.eraseIdx i }

/-- One step of worker `i` at the given stage; none when the event is not one of the stage. -/
def workerStep : WorkerStage → WorkerEvent → Option State
  | .loop, .proceed => some (s.beginIteration vaultId i)
  | .chosen phase deletingRow, .proceed => some (s.chooseWork i phase deletingRow)
  | .reconciling, .proceed => some (s.goTo i .loop)
  | .reconciling, .fail _ => some ((s.close false).goTo i .loop)
  | .setDraining, .mutated write _ => some <| s.workerMutation i
      (fun db => some (setPhase db vaultId .draining none)) write .drainVault
  | .drainVault, .proceed => some (s.goTo i .waitForDrain)
  | .drainVault, .fail code => some (s.goTo i (.recordRetry code))
  | .waitForDrain, .proceed => some (s.waitForDrain i)
  | .awaitDrain, .proceed => if s.barrier.drained then some (s.goTo i .checkPhase) else none
  | .checkPhase, .proceed => some (s.checkPhase vaultId i)
  | .eraseResidue, .proceed => some (s.goTo i .inspectGit)
  | .eraseResidue, .fail code => some (s.goTo i (.recordRetry code))
  | .inspectGit, .inspected targetValid othersAttributed =>
    some (s.inspectGit vaultId i targetValid othersAttributed)
  | .inspectGit, .fail code => some (s.goTo i (.recordRetry code))
  | .setErasing present, .mutated write _ => some <| s.workerMutation i
      (fun db => some (setPhase db vaultId .erasing none)) write (.removeGit present)
  | .removeGit present, .proceed => some (s.removeGit i present)
  | .removeGit _, .fail code => some (s.goTo i (.recordRetry code))
  | .removeGit true, .failPartway code =>
    some ({ s with git := .damaged }.goTo i (.recordRetry code))
  | .removeTemps, .proceed => some (s.goTo i .cleanupTemps)
  | .removeTemps, .fail code => some (s.goTo i (.recordRetry code))
  | .cleanupTemps, .proceed => some (s.cleanupTemps i)
  | .cleanupTemps, .fail code =>
    some ({ s with cleanupFailed := true }.goTo i (.recordRetry code))
  | .setFinalizing, .mutated write _ => some <| s.workerMutation i
      (fun db => some (setPhase db vaultId .finalizing none)) write .eraseHistory
  | .eraseHistory, .proceed => some (s.goTo i .finalize)
  | .eraseHistory, .fail code => some (s.goTo i (.recordRetry code))
  | .finalize, .mutated write now => some (s.finalize vaultId i now write)
  | .recordRetry code, .mutated write now =>
    some ((s.mutateDurably (fun db => some (DeletionRecords.recordRetry db vaultId now code)) write).1.goTo i .loop)
  | .finished, .proceed => some (s.settleWorker i)
  | _, _ => none

/-- Whether a change of the rest of the server leaves this vault's deletion alone: it creates
no vault under an identifier in use, and only the lifecycle marks a vault as deleting. -/
def keepsDeletion (db db' : MetadataDb) : Bool :=
  (db'.deletionJobs.filter fun job => job.vaultId = vaultId) =
      (db.deletionJobs.filter fun job => job.vaultId = vaultId) &&
    (db'.deletionReceipts.filter fun receipt => receipt.vaultId = vaultId) =
      (db.deletionReceipts.filter fun receipt => receipt.vaultId = vaultId) &&
    (db'.vault vaultId).isSome = (db.vault vaultId).isSome &&
    (!db'.hasDeletingRow vaultId || db.hasDeletingRow vaultId)

variable (dateParse : String → Option Int)

def step (s : State) : Label → Option State
  | .acquireAdmission => some s.acquireAdmission
  | .readRecord i => if s.acquirers[i]? = some .reading then some (s.readRecord vaultId i) else none
  | .settleAdmission i =>
    match s.acquirers[i]? with
    | some (.answered durablyClosed) => some (s.settleAdmission i durablyClosed)
    | _ => none
  | .release admission => some (s.release admission)
  | .beginDeletion ownerUserId confirmation =>
    if s.transition.isNone && s.operational then
      some { s with transition := some (.decide ownerUserId confirmation s.memory) }
    else none
  | .decideDeletion requestedAt =>
    match s.transition with
    | some (.decide ownerUserId confirmation initial) =>
      some (s.decideDeletion vaultId ownerUserId confirmation initial requestedAt)
    | _ => none
  | .acceptDeletion write =>
    match s.transition with
    | some (.accept ownerUserId requestedAt) =>
      some (s.acceptDeletion vaultId ownerUserId requestedAt write)
    | _ => none
  | .reconcile => if s.operational then some (s.reconcile vaultId) else none
  | .commitReconciliation i write =>
    (s.reconciliations[i]?).map fun requestedAt =>
      s.commitReconciliation vaultId i requestedAt write
  | .expireReceipts now write =>
    some (s.mutateDurably (fun db => some (DeletionRecords.expireReceipts dateParse db now)) write).1
  | .startWorker => some s.startWorker
  | .worker i event =>
    match s.workers[i]? with
    | some stage => s.workerStep vaultId i stage event
    | none => none
  | .otherMutation db write =>
    if keepsDeletion vaultId s.memory db then some (s.mutateDurably (fun _ => some db) write).1
    else none
  | .storeFails uncertain uncleaned =>
    some { s with
      durabilityUncertain := s.durabilityUncertain || uncertain
      cleanupFailed := s.cleanupFailed || uncleaned }
  | .cleanupPersistenceTemps =>
    if s.durabilityUncertain then none else some { s with cleanupFailed := false }
  | .close => some { s with stopping := true }
  | .restart => some (s.restart vaultId)

def run (s : State) : List Label → Option State
  | [] => some s
  | label :: labels => (s.step vaultId dateParse label).bind fun s => s.run labels

end State

/-- The ranks of the job's progress that a stage relies on. -/
def WorkerStage.ranks : WorkerStage → Option (Nat × Nat)
  | .chosen (some phase) _ => some ((Progress.job phase).rank, (Progress.job phase).rank)
  | .setDraining => some (1, 1)
  | .drainVault | .waitForDrain | .awaitDrain | .checkPhase | .eraseResidue | .inspectGit =>
    some (2, 4)
  | .setErasing _ => some (2, 2)
  | .removeGit _ | .removeTemps | .cleanupTemps | .setFinalizing => some (3, 4)
  | .eraseHistory | .finalize => some (4, 4)
  | .loop | .chosen none _ | .reconciling | .recordRetry _ | .finished => none

/-- The stages after the wait for admissions. -/
def WorkerStage.drained : WorkerStage → Bool
  | .checkPhase | .eraseResidue | .inspectGit | .setErasing _ | .removeGit _ | .removeTemps
  | .cleanupTemps | .setFinalizing | .eraseHistory | .finalize => true
  | _ => false

variable (vaultId : String)

/-- What a worker at the stage may rely on. -/
structure StageOk (s : State) (stage : WorkerStage) : Prop where
  phase : ∀ ranks ∈ stage.ranks, ∃ phase, s.memory.progress vaultId = .job phase ∧
    ranks.1 ≤ (Progress.job phase).rank ∧ (Progress.job phase).rank ≤ ranks.2
  drained : stage.drained = true → s.barrier.active = 0
  waiting : stage = .awaitDrain → s.barrier.drained = true → s.barrier.active = 0

/-- The barrier counts the admissions and is closing as soon as there is a record anywhere;
one worker at most holds its slot. -/
structure Core (s : State) : Prop where
  active : s.barrier.active = s.admissions.length
  memoryRecord : s.memory.hasDurableDeletionRecord vaultId = true → s.barrier.closing = true
  diskRecord : s.disk.hasDurableDeletionRecord vaultId = true → s.barrier.closing = true
  memoryKept : s.memory.Kept vaultId
  diskKept : s.disk.Kept vaultId
  transition : ∀ ownerUserId requestedAt,
    s.transition = some (.accept ownerUserId requestedAt) → s.barrier.closing = true
  slot : s.barrier.worker = !s.workers.isEmpty
  single : s.workers.length ≤ 1

structure Inv (s : State) : Prop extends Core vaultId s where
  stages : ∀ stage ∈ s.workers, StageOk vaultId s stage

variable {vaultId} {s s' : State} {phase : DeletionPhase} {stage : WorkerStage}

lemma Core.closing_of_job (h : Core vaultId s)
    (hphase : s.memory.progress vaultId = .job phase) : s.barrier.closing :=
  h.memoryRecord (hasDurableDeletionRecord_of_progress hphase)

lemma stageOk_of_free (hranks : stage.ranks = none)
    (hdrn : stage.drained = false) (hwait : stage ≠ .awaitDrain) : StageOk vaultId s stage where
  phase ranks h := by
    rw [hranks] at h
    cases h
  drained h := by
    rw [hdrn] at h
    cases h
  waiting h := absurd h hwait

/-- A stage stays sound while the job keeps its phase and no admission is granted. -/
lemma StageOk.mono (h : StageOk vaultId s stage) (hphase : ∀ phase, s.memory.progress vaultId = .job phase →
      s'.memory.progress vaultId = .job phase) (hact : (∃ phase, s.memory.progress vaultId = .job phase) →
      s'.barrier.active ≤ s.barrier.active)
    (hdrn : s'.barrier.drained → s.barrier.drained ∨ s'.barrier.active = 0) : StageOk vaultId s' stage where
  phase ranks hranks := by
    obtain ⟨phase, hp, hr⟩ := h.phase ranks hranks
    exact ⟨phase, hphase phase hp, hr⟩
  drained hstage := by
    have hzero := h.drained hstage
    have hjob : ∃ phase, s.memory.progress vaultId = .job phase := by
      cases stage with
      | checkPhase | eraseResidue | inspectGit | setErasing | removeGit | removeTemps
      | cleanupTemps | setFinalizing | eraseHistory | finalize =>
        obtain ⟨phase, hp, -⟩ := h.phase _ rfl
        exact ⟨phase, hp⟩
      | _ => cases hstage
    have := hact hjob
    omega
  waiting hstage hd := by
    subst hstage
    obtain ⟨phase, hp, -⟩ := h.phase _ rfl
    have hle := hact ⟨phase, hp⟩
    rcases hdrn hd with hd | hd
    · have := h.waiting rfl hd
      omega
    · exact hd

section
variable {change : MetadataDb → Option MetadataDb} {write : Write}

/-- A change touches the metadata and the flags of the store alone, and what is then in memory
or on disk is what was there or the new file. -/
lemma mutateDurably_cases (s : State) (change : MetadataDb → Option MetadataDb) (write : Write)
    (P : MetadataDb → Prop) (hP : ∀ db, change s.memory = some db → P (prepareCandidate write.newId db)) :
    ∃ memory disk uncertain uncleaned, (s.mutateDurably change write).1 = { s with
        memory, disk, durabilityUncertain := uncertain, cleanupFailed := uncleaned } ∧
      (memory = s.memory ∨ P memory) ∧ (disk = s.disk ∨ P disk) ∧
      ((s.mutateDurably change write).2 = true → P memory) := by
  unfold State.mutateDurably
  by_cases hop : s.operational
  · rw [if_pos hop]
    cases hchg : change s.memory with
    | none => exact ⟨_, _, _, _, rfl, .inl rfl, .inl rfl, fun h => Bool.noConfusion h⟩
    | some db =>
      have hdb := hP db hchg
      cases write.outcome with
      | committed => exact ⟨_, _, _, _, rfl, .inr hdb, .inr hdb, fun _ => hdb⟩
      | committedThenFailed uncertain =>
        exact ⟨_, _, _, _, rfl, .inr hdb, .inr hdb, fun h => Bool.noConfusion h⟩
      | unpublished uncleaned =>
        exact ⟨_, _, _, _, rfl, .inl rfl, .inl rfl, fun h => Bool.noConfusion h⟩
      | ambiguous published =>
        refine ⟨_, _, _, _, rfl, .inl rfl, ?_, fun h => Bool.noConfusion h⟩
        cases published with
        | false => exact .inl rfl
        | true => exact .inr hdb
      | publishedUncleaned =>
        exact ⟨_, _, _, _, rfl, .inl rfl, .inr hdb, fun h => Bool.noConfusion h⟩
  · rw [if_neg hop]
    exact ⟨_, _, _, _, rfl, .inl rfl, .inl rfl, fun h => Bool.noConfusion h⟩

/-- A file that may be written while the barrier stands as it does. -/
structure Sound (vaultId : String) (s : State) (db : MetadataDb) : Prop where
  record : db.hasDurableDeletionRecord vaultId = true → s.barrier.closing = true
  kept : db.Kept vaultId

lemma Core.mutateDurably (h : Core vaultId s) (hsound : ∀ db, change s.memory = some db → Sound vaultId s db) :
    Core vaultId (s.mutateDurably change write).1 := by
  obtain ⟨memory, disk, uncertain, uncleaned, heq, hmem, hdisk, -⟩ :=
    mutateDurably_cases s change write (Sound vaultId s) fun db hdb =>
      { hsound db hdb with }
  have hmem : Sound vaultId s memory := by
    rcases hmem with rfl | hmem
    · exact ⟨h.memoryRecord, h.memoryKept⟩
    · exact hmem
  have hdisk : Sound vaultId s disk := by
    rcases hdisk with rfl | hdisk
    · exact ⟨h.diskRecord, h.diskKept⟩
    · exact hdisk
  rw [heq]
  exact ⟨h.active, hmem.record, hdisk.record, hmem.kept, hdisk.kept, h.transition, h.slot, h.single⟩

/-- A change that is not a worker's keeps the phase of the job. -/
lemma Inv.mutateDurably_outside (h : Inv vaultId s)
    (houts : ∀ db, change s.memory = some db → Outside s.memory db vaultId ∧
      (db.hasDurableDeletionRecord vaultId → s.barrier.closing)) :
    Inv vaultId (s.mutateDurably change write).1 := by
  refine ⟨h.toCore.mutateDurably fun db hdb =>
    ⟨(houts db hdb).2, (houts db hdb).1.kept⟩, ?_⟩
  obtain ⟨memory, disk, uncertain, uncleaned, heq, hmem, -, -⟩ :=
    mutateDurably_cases s change write (fun db => ∀ phase,
      s.memory.progress vaultId = .job phase → db.progress vaultId = .job phase)
      fun db hdb => (houts db hdb).1.job
  rw [heq]
  intro stage hstage
  refine (h.stages stage hstage).mono ?_ (fun _ => le_rfl) .inl
  rcases hmem with rfl | hmem
  · exact fun _ => id
  · exact hmem

end

/-- Nothing but the metadata, the barrier, the admissions, the transition and the workers
matters to the invariant. -/
lemma Inv.congr (h : Inv vaultId s) (hmem : s'.memory = s.memory)
    (hdisk : s'.disk = s.disk) (hbar : s'.barrier = s.barrier)
    (hadm : s'.admissions = s.admissions) (htran : ∀ ownerUserId requestedAt,
      s'.transition = some (.accept ownerUserId requestedAt) →
        s.transition = some (.accept ownerUserId requestedAt))
    (hwkrs : s'.workers = s.workers) : Inv vaultId s' := by
  refine ⟨⟨?_, ?_, ?_, ?_, ?_, fun o r ht => ?_, ?_, ?_⟩, fun stage hstage => ?_⟩
  · rw [hbar, hadm]
    exact h.active
  · rw [hbar, hmem]
    exact h.memoryRecord
  · rw [hbar, hdisk]
    exact h.diskRecord
  · rw [hmem]
    exact h.memoryKept
  · rw [hdisk]
    exact h.diskKept
  · rw [hbar]
    exact h.transition o r (htran o r ht)
  · rw [hbar, hwkrs]
    exact h.slot
  · rw [hwkrs]
    exact h.single
  rw [hwkrs] at hstage
  refine (h.stages stage hstage).mono (fun phase => ?_) (fun _ => ?_) fun hd => .inl ?_
  · rw [hmem]
    exact id
  · rw [hbar]
  · rwa [hbar] at hd

lemma Core.close (h : Core vaultId s) (closed : Bool) : Core vaultId (s.close closed) := { h with
  memoryRecord := fun _ => rfl
  diskRecord := fun _ => rfl
  transition := fun _ _ _ => rfl }

section
variable (h : Inv vaultId s)
include h

lemma Inv.close (closed : Bool) : Inv vaultId (s.close closed) :=
  ⟨h.toCore.close closed, fun stage hstage => (h.stages stage hstage).mono (fun _ => id) (fun _ => le_rfl) .inl⟩

lemma Inv.startWorker : Inv vaultId s.startWorker := by
  unfold State.startWorker
  split
  · exact h
  rename_i hfree
  have hslot : s.barrier.worker = false := by
    cases hwork : s.barrier.worker with
    | false => rfl
    | true => simp [hwork] at hfree
  have hwkrs : s.workers = [] := by
    have := h.slot
    rw [hslot] at this
    simpa using this
  refine ⟨{ h with slot := ?_, single := ?_ }, ?_⟩
  · simp
  · simp [hwkrs]
  intro stage hstage
  rw [hwkrs, nil_append, mem_singleton] at hstage
  rw [hstage]
  exact stageOk_of_free rfl rfl (by decide)

lemma Inv.endTransition : Inv vaultId s.endTransition := by
  refine h.congr rfl rfl rfl rfl (fun _ _ hnone => ?_) rfl
  cases hnone

/-- Admissions are granted only while the barrier is open, so no job is in memory. -/
lemma Inv.settleAdmission (i : Nat) (durablyClosed : Bool) : Inv vaultId (s.settleAdmission i durablyClosed) := by
  unfold State.settleAdmission
  dsimp only
  split
  · exact h.congr rfl rfl rfl rfl (fun _ _ => id) rfl
  rename_i hopen
  have hcls : s.barrier.closing ≠ true := fun hcls => hopen (by simp [hcls])
  refine ⟨{ h with active := ?_ }, fun stage hstage => (h.stages stage hstage).mono (fun _ => id) ?_ .inl⟩
  · simp [h.active]
  · rintro ⟨phase, hphase⟩
    exact absurd (h.closing_of_job hphase) hcls

lemma Inv.release (admission : Nat) : Inv vaultId (s.release admission) := by
  unfold State.release
  split
  · rename_i hmem
    have hlen := length_erase_of_mem hmem
    have hact := h.active
    dsimp only
    split
    · rename_i hlast
      have hzero : s.barrier.active - 1 = 0 := by simp_all
      exact ⟨{ h with active := by simp [hlen, hact] }, fun stage hstage =>
        (h.stages stage hstage).mono (fun _ => id) (fun _ => sub_le _ _) fun _ => .inr hzero⟩
    · exact ⟨{ h with active := by simp [hlen, hact] }, fun stage hstage =>
        (h.stages stage hstage).mono (fun _ => id) (fun _ => sub_le _ _) .inl⟩
  · exact h

lemma Inv.decideDeletion (ownerUserId : String)
    (confirmation : Option String) (initial : MetadataDb) (requestedAt : String) :
    Inv vaultId (s.decideDeletion vaultId ownerUserId confirmation initial requestedAt) := by
  unfold State.decideDeletion
  split
  · split
    · exact h.endTransition
    · exact (h.close false).startWorker.endTransition
  · split
    · exact h.endTransition
    · exact (h.close true).endTransition
  · split
    · exact h.endTransition
    split
    · exact h.endTransition
    split
    · exact h.endTransition
    split
    · exact h.endTransition
    have hcls := h.close false
    exact ⟨{ hcls with transition := fun _ _ _ => rfl },
      fun stage hstage =>
        (hcls.stages stage hstage).mono (fun _ => id) (fun _ => le_rfl) .inl⟩

lemma Inv.acceptDeletion {ownerUserId requestedAt : String}
    (htran : s.transition = some (.accept ownerUserId requestedAt)) (write : Write) :
    Inv vaultId (s.acceptDeletion vaultId ownerUserId requestedAt write) := by
  have hinv : Inv vaultId (s.mutateDurably (fun db =>
      (DeletionRecords.acceptDeletion db vaultId ownerUserId requestedAt).toOption) write).1 := by
    refine h.mutateDurably_outside fun db hdb => ⟨?_, fun _ => h.transition _ _ htran⟩
    cases hok : DeletionRecords.acceptDeletion s.memory vaultId ownerUserId requestedAt with
    | error e => simp [hok, Except.toOption] at hdb
    | ok accepted =>
      rw [hok] at hdb
      cases hdb
      exact acceptDeletion_spec h.memoryKept hok
  unfold State.acceptDeletion
  dsimp only
  split
  · exact hinv.startWorker.endTransition
  · exact hinv.endTransition

lemma Inv.reconcile : Inv vaultId (s.reconcile vaultId) := by
  unfold State.reconcile
  split
  · exact h
  have hcls := h.close false
  dsimp only
  split
  · exact hcls
  · exact hcls.congr rfl rfl rfl rfl (fun _ _ => id) rfl

lemma Inv.commitReconciliation (i : Nat) (requestedAt : String)
    (write : Write) : Inv vaultId (s.commitReconciliation vaultId i requestedAt write) := by
  have hstart : Inv vaultId { s with reconciliations := s.reconciliations.eraseIdx i } :=
    h.congr rfl rfl rfl rfl (fun _ _ => id) rfl
  have hinv : Inv vaultId (State.mutateDurably { s with reconciliations := s.reconciliations.eraseIdx i }
      (fun db => some (reconcileDeletingVaultRow db vaultId requestedAt)) write).1 := by
    refine hstart.mutateDurably_outside fun db hdb => ?_
    cases hdb
    exact ⟨reconcileDeletingVaultRow_spec h.memoryKept requestedAt, fun hrec =>
      h.memoryRecord (hasDurableDeletionRecord_of_reconcile requestedAt hrec)⟩
  unfold State.commitReconciliation
  dsimp only
  split
  · exact hinv
  · exact hinv.close false

lemma Inv.expireReceipts (dateParse : String → Option Int) (now : Int)
    (write : Write) : Inv vaultId (s.mutateDurably
      (fun db => some (DeletionRecords.expireReceipts dateParse db now)) write).1 := by
  refine h.mutateDurably_outside fun db hdb => ?_
  cases hdb
  exact ⟨expireReceipts_spec dateParse now h.memoryKept, fun hrec =>
    h.memoryRecord (hasDurableDeletionRecord_of_expire dateParse now hrec)⟩

end

/-- What a change of the rest of the server is allowed to do. -/
lemma keepsDeletion_spec {db db' : MetadataDb} (hkept : db.Kept vaultId)
    (h : State.keepsDeletion vaultId db db') : Outside db db' vaultId ∧ (db'.hasDurableDeletionRecord vaultId →
      db.hasDurableDeletionRecord vaultId) := by
  simp only [State.keepsDeletion, and_eq_true, decide_eq_true_eq] at h
  obtain ⟨⟨⟨hjobs, hrcps⟩, hvault⟩, hrow⟩ := h
  have hjob : db'.deletionJob vaultId = db.deletionJob vaultId := by
    have := congrArg head? hjobs
    rwa [head?_filter, head?_filter] at this
  have hrcp : db'.deletionReceipt vaultId = db.deletionReceipt vaultId := by
    have := congrArg head? hrcps
    rwa [head?_filter, head?_filter] at this
  have hprog : db'.progress vaultId = db.progress vaultId := by
    simp [progress, hjob, hrcp, hvault]
  refine ⟨.of_eq hkept hprog fun hnone => ?_, fun hrec => ?_⟩
  · rw [hnone] at hvault
    exact not_isSome_iff_eq_none.mp (by simp [hvault])
  have hany : ∀ {α : Type} (p : α → Bool) (as : List α),
      as.any p = (as.filter p).any fun _ => true := by
    intro α p as
    simp
  simp only [hasDurableDeletionRecord, hasDeletionJobOrReceipt, or_eq_true] at hrec ⊢
  rw [hany _ db.deletionJobs, hany _ db.deletionReceipts]
  rw [hany _ db'.deletionJobs, hany _ db'.deletionReceipts, hjobs, hrcps] at hrec
  rcases hrec with hdel | hrest
  · refine .inl ?_
    simpa [hdel] using hrow
  · exact .inr hrest

lemma Inv.otherMutation (h : Inv vaultId s) {db : MetadataDb}
    (hkeeps : State.keepsDeletion vaultId s.memory db) (write : Write) :
    Inv vaultId (s.mutateDurably (fun _ => some db) write).1 := by
  obtain ⟨houts, hrec⟩ := keepsDeletion_spec h.memoryKept hkeeps
  refine h.mutateDurably_outside fun db' hdb => ?_
  cases hdb
  exact ⟨houts, fun hr => h.memoryRecord (hrec hr)⟩

section Workers
variable {i : Nat} {stage next : WorkerStage}

lemma Core.workers_eq (h : Core vaultId s) (hi : s.workers[i]? = some stage) : i = 0 ∧ s.workers = [stage] := by
  have hlt : i < s.workers.length := (List.getElem?_eq_some_iff.mp hi).1
  have hsing := h.single
  obtain ⟨only, honly⟩ := List.length_eq_one_iff.mp (show s.workers.length = 1 by omega)
  have hzero : i = 0 := by omega
  rw [honly, hzero] at hi
  exact ⟨hzero, by rw [honly, Option.some.inj hi]⟩

lemma Core.goTo (h : Core vaultId s) (i : Nat) (next : WorkerStage) : Core vaultId (s.goTo i next) := { h with
  slot := by
    have hempty : (s.workers.set i next).isEmpty = s.workers.isEmpty := by
      cases s.workers with
      | nil => rfl
      | cons => cases i <;> rfl
    exact h.slot.trans (congrArg (!·) hempty.symm)
  single := by
    have := h.single
    simpa [State.goTo] using this }

lemma Core.inv_goTo (h : Core vaultId s) (hi : s.workers[i]? = some stage)
    (hnext : StageOk vaultId s next) : Inv vaultId (s.goTo i next) := by
  refine ⟨h.goTo i next, fun x hx => ?_⟩
  obtain ⟨rfl, hwkrs⟩ := h.workers_eq hi
  rw [State.goTo, hwkrs] at hx
  obtain rfl := mem_singleton.mp hx
  exact hnext.mono (fun _ => id) (fun _ => le_rfl) .inl

/-- A stage that relies on no more than the one before it. -/
lemma StageOk.advance (h : StageOk vaultId s stage) (hranks : next.ranks = stage.ranks)
    (hdrn : next.drained → stage.drained) (hwait : next ≠ .awaitDrain) : StageOk vaultId s next where
  phase := hranks ▸ h.phase
  drained hd := h.drained (hdrn hd)
  waiting hw := absurd hw hwait

lemma stageOk_of_phase (hphase : s.memory.progress vaultId = .job phase) (hranks : ∀ ranks ∈ next.ranks,
      ranks.1 ≤ (Progress.job phase).rank ∧ (Progress.job phase).rank ≤ ranks.2)
    (hdrn : next.drained → s.barrier.active = 0) (hwait : next ≠ .awaitDrain) : StageOk vaultId s next where
  phase ranks h := ⟨phase, hphase, hranks ranks h⟩
  drained := hdrn
  waiting hw := absurd hw hwait

section
variable (h : Inv vaultId s)
include h

section
variable (hi : s.workers[i]? = some stage)
include hi

lemma Inv.stageOk : StageOk vaultId s stage :=
  h.stages stage (mem_of_getElem? hi)

/-- A change of phase by a worker: the next stage starts from the new phase. -/
lemma Inv.setPhase {old new : DeletionPhase} (hold : s.memory.progress vaultId = .job old) (write : Write)
    (hranks : ∀ ranks ∈ next.ranks, ranks.1 ≤ (Progress.job new).rank ∧ (Progress.job new).rank ≤ ranks.2)
    (hdrn : next.drained → s.barrier.active = 0) (hwait : next ≠ .awaitDrain) : Inv vaultId (s.workerMutation i
      (fun db => some (DeletionRecords.setPhase db vaultId new none)) write next) := by
  have hcls := h.closing_of_job hold
  have hnew := progress_setPhase hold new none
  have hcore : Core vaultId (s.mutateDurably
      (fun db => some (DeletionRecords.setPhase db vaultId new none)) write).1 := by
    refine h.toCore.mutateDurably fun db hdb => ?_
    cases hdb
    refine ⟨fun _ => hcls, fun hrcp => ?_⟩
    rw [hnew] at hrcp
    exact Progress.noConfusion hrcp
  obtain ⟨memory, disk, uncertain, uncleaned, heq, -, -, hok⟩ :=
    mutateDurably_cases s (fun db => some (DeletionRecords.setPhase db vaultId new none)) write
      (fun db => db.progress vaultId = .job new) fun db hdb => by
        cases hdb
        exact hnew
  unfold State.workerMutation
  rw [heq] at hcore
  dsimp only
  split
  · rename_i hret
    rw [heq]
    exact hcore.inv_goTo hi (stageOk_of_phase (hok hret) hranks hdrn hwait)
  · rw [heq]
    exact hcore.inv_goTo hi (stageOk_of_free rfl rfl (by decide))

lemma Inv.beginIteration : Inv vaultId (s.beginIteration vaultId i) := by
  unfold State.beginIteration
  split
  · exact h.inv_goTo hi (stageOk_of_free rfl rfl (by decide))
  split
  · refine h.inv_goTo hi ?_
    cases hjob : s.memory.deletionJob vaultId with
    | none => exact stageOk_of_free rfl rfl (by simp)
    | some job =>
      refine stageOk_of_phase (progress_of_job hjob) (fun ranks hranks => ?_)
        (fun hdrn => Bool.noConfusion hdrn) (by simp)
      cases hranks
      exact ⟨le_rfl, le_rfl⟩
  · exact h.close false

end

lemma Inv.chooseWork {phase : Option DeletionPhase} {deletingRow : Bool}
    (hi : s.workers[i]? = some (.chosen phase deletingRow)) : Inv vaultId (s.chooseWork i phase deletingRow) := by
  unfold State.chooseWork
  cases phase with
  | none =>
    dsimp only
    split
    · exact h.inv_goTo hi (stageOk_of_free rfl rfl (by decide))
    · exact (h.close true).inv_goTo hi (stageOk_of_free rfl rfl (by decide))
  | some phase =>
    obtain ⟨current, hcur, hlow, hhigh⟩ := (h.stageOk hi).phase _ rfl
    refine h.inv_goTo hi ?_
    split
    · refine stageOk_of_phase hcur (fun ranks hranks => ?_) (fun hdrn => Bool.noConfusion hdrn) (by decide)
      cases hranks
      subst phase
      exact ⟨hlow, hhigh⟩
    · rename_i hphase
      refine stageOk_of_phase hcur (fun ranks hranks => ?_) (fun hdrn => Bool.noConfusion hdrn) (by decide)
      cases hranks
      cases phase with
      | intent => exact absurd rfl hphase
      | draining | erasing | finalizing =>
        dsimp only [Progress.rank] at hlow hhigh ⊢
        omega

lemma Inv.waitForDrain (hi : s.workers[i]? = some .waitForDrain) : Inv vaultId (s.waitForDrain i) := by
  have hstage := h.stageOk hi
  unfold State.waitForDrain
  split
  · rename_i hzero
    exact h.inv_goTo hi ⟨hstage.phase, fun _ => hzero, fun hw => by cases hw⟩
  have hcore : Core vaultId
      { s with barrier := { s.barrier with drained := false, releaseDrain := true } } :=
    { h with }
  refine hcore.inv_goTo hi ⟨hstage.phase, fun hd => ?_, fun _ hd => ?_⟩
  · cases hd
  · cases hd

lemma Inv.checkPhase (hi : s.workers[i]? = some .checkPhase) : Inv vaultId (s.checkPhase vaultId i) := by
  unfold State.checkPhase
  split
  · refine h.inv_goTo hi ?_
    split
    · exact (h.stageOk hi).advance rfl (fun _ => rfl) (by decide)
    · exact stageOk_of_free rfl rfl (by decide)
  · exact h.inv_goTo hi (stageOk_of_free rfl rfl (by decide))

lemma Inv.inspectGit (hi : s.workers[i]? = some .inspectGit) (targetValid othersAttributed : Bool) :
    Inv vaultId (s.inspectGit vaultId i targetValid othersAttributed) := by
  have hretry : ∀ code, Inv vaultId (s.goTo i (.recordRetry code)) := fun code =>
    h.inv_goTo hi (stageOk_of_free rfl rfl (by simp))
  have hzero := (h.stageOk hi).drained rfl
  obtain ⟨phase, hphase, hlow, hhigh⟩ := (h.stageOk hi).phase _ rfl
  obtain ⟨job, hjob, rfl⟩ := deletionJob_of_progress hphase
  have hgo : ∀ present, Inv vaultId (s.goTo i
      (if State.erasureWasDurablyEntered ((s.memory.deletionJob vaultId).map (·.phase)) then
        .removeGit present else .setErasing present)) := by
    intro present
    rw [hjob, map_some]
    refine h.inv_goTo hi ?_
    cases hp : job.phase with
    | intent =>
      rw [hp] at hlow
      exact absurd hlow (by decide)
    | draining =>
      rw [hp] at hphase
      exact stageOk_of_phase hphase (fun ranks hr => by cases hr; decide) (fun _ => hzero)
        (by simp [State.erasureWasDurablyEntered])
    | erasing | finalizing =>
      rw [hp] at hphase
      exact stageOk_of_phase hphase (fun ranks hr => by cases hr; decide) (fun _ => hzero)
        (by simp [State.erasureWasDurablyEntered])
  unfold State.inspectGit
  split
  · dsimp only
    split
    · exact hretry _
    split
    · exact hretry _
    split
    · exact hretry _
    · exact hgo _
  · exact hretry _

/-- Finalising either leaves the job or replaces it; the slot is free again once it has. -/
lemma Inv.finalize (hi : s.workers[i]? = some .finalize) (write : Write)
    (now : String) : Inv vaultId (s.finalize vaultId i now write) ∧
      ((s.finalize vaultId i now write).memory = s.memory ∨
        Erased s.memory (s.finalize vaultId i now write).memory vaultId) ∧
      ((s.finalize vaultId i now write).disk = s.disk ∨
        Erased s.memory (s.finalize vaultId i now write).disk vaultId) := by
  obtain ⟨phase, hphase, -, -⟩ := (h.stageOk hi).phase _ rfl
  have hcls := h.closing_of_job hphase
  have heras : ∀ db, (finalizeDb s.memory vaultId now).toOption = some db →
      Erased s.memory (prepareCandidate write.newId db) vaultId := by
    intro db hdb
    cases hok : finalizeDb s.memory vaultId now with
    | error e =>
      rw [hok] at hdb
      cases hdb
    | ok finalized =>
      rw [hok] at hdb
      cases hdb
      exact erased_finalizeDb hphase hok write.newId
  have hcore : Core vaultId (s.mutateDurably
      (fun db => (finalizeDb db vaultId now).toOption) write).1 :=
    h.toCore.mutateDurably fun db hdb =>
      ⟨fun _ => hcls, fun _ => (heras db hdb).progress_eq.2⟩
  obtain ⟨memory, disk, uncertain, uncleaned, heq, hmem, hdisk, -⟩ :=
    mutateDurably_cases s (fun db => (finalizeDb db vaultId now).toOption) write
      (fun db => Erased s.memory db vaultId) heras
  unfold State.finalize
  dsimp only
  rw [heq] at hcore ⊢
  split
  · exact ⟨(hcore.close true).inv_goTo hi (stageOk_of_free rfl rfl (by decide)), hmem, hdisk⟩
  · exact ⟨hcore.inv_goTo hi (stageOk_of_free rfl rfl (by decide)), hmem, hdisk⟩

lemma Inv.recordRetry (hi : s.workers[i]? = some stage) (write : Write)
    (now : String) (code : DeletionErrorCode) : Inv vaultId ((s.mutateDurably
      (fun db => some (DeletionRecords.recordRetry db vaultId now code)) write).1.goTo i .loop) := by
  have hinv : Inv vaultId (s.mutateDurably
      (fun db => some (DeletionRecords.recordRetry db vaultId now code)) write).1 := by
    refine h.mutateDurably_outside fun db hdb => ?_
    cases hdb
    refine ⟨.of_eq h.memoryKept (progress_recordRetry _ _ _ _) id, fun hrec => ?_⟩
    rw [hasDurableDeletionRecord_recordRetry] at hrec
    exact h.memoryRecord hrec
  obtain ⟨memory, disk, uncertain, uncleaned, heq, -, -, -⟩ :=
    mutateDurably_cases s (fun db => some (DeletionRecords.recordRetry db vaultId now code)) write
      (fun _ => True) fun _ _ => trivial
  rw [heq] at hinv ⊢
  exact hinv.inv_goTo hi (stageOk_of_free rfl rfl (by decide))

lemma Inv.settleWorker (hi : s.workers[i]? = some stage) : Inv vaultId (s.settleWorker i) := by
  obtain ⟨rfl, hwkrs⟩ := h.workers_eq hi
  have hempty : (s.settleWorker 0).workers = [] := by
    rw [State.settleWorker, hwkrs]
    rfl
  refine ⟨{ h with slot := ?_, single := ?_ }, ?_⟩
  · rw [hempty]
    rfl
  · rw [hempty]
    exact zero_le _
  · rw [hempty]
    exact fun _ hnil => absurd hnil not_mem_nil

lemma Inv.workerStep (hi : s.workers[i]? = some stage)
    {event : WorkerEvent} (hstep : s.workerStep vaultId i stage event = some s') : Inv vaultId s' := by
  have hstage := h.stageOk hi
  have hretry : ∀ code, Inv vaultId (s.goTo i (.recordRetry code)) := fun code =>
    h.inv_goTo hi (stageOk_of_free rfl rfl (by simp))
  cases stage with
  | loop =>
    cases event with
    | proceed => exact some.inj hstep ▸ h.beginIteration hi
    | _ => cases hstep
  | chosen phase deletingRow =>
    cases event with
    | proceed => exact some.inj hstep ▸ h.chooseWork hi
    | _ => cases hstep
  | reconciling =>
    cases event with
    | proceed => exact some.inj hstep ▸ h.inv_goTo hi (stageOk_of_free rfl rfl (by decide))
    | fail code =>
      exact some.inj hstep ▸ (h.close false).inv_goTo hi (stageOk_of_free rfl rfl (by decide))
    | _ => cases hstep
  | setDraining =>
    obtain ⟨phase, hphase, -⟩ := hstage.phase _ rfl
    cases event with
    | mutated write now =>
      exact some.inj hstep ▸ h.setPhase hi hphase write
        (fun ranks hr => by cases hr; decide) (fun hd => by cases hd) (by decide)
    | _ => cases hstep
  | drainVault =>
    cases event with
    | proceed =>
      exact some.inj hstep ▸ h.inv_goTo hi (hstage.advance rfl id (by decide))
    | fail code => exact some.inj hstep ▸ hretry code
    | _ => cases hstep
  | waitForDrain =>
    cases event with
    | proceed => exact some.inj hstep ▸ h.waitForDrain hi
    | _ => cases hstep
  | awaitDrain =>
    cases event with
    | proceed =>
      obtain ⟨hdrn, hstep⟩ := ite_none_right_eq_some.mp hstep
      exact some.inj hstep ▸ h.inv_goTo hi ⟨hstage.phase, fun _ => hstage.waiting rfl hdrn, fun hw => by cases hw⟩
    | _ => cases hstep
  | checkPhase =>
    cases event with
    | proceed => exact some.inj hstep ▸ h.checkPhase hi
    | _ => cases hstep
  | eraseResidue | removeTemps | eraseHistory =>
    cases event with
    | proceed =>
      exact some.inj hstep ▸ h.inv_goTo hi (hstage.advance rfl (fun _ => rfl) (by decide))
    | fail code => exact some.inj hstep ▸ hretry code
    | _ => cases hstep
  | inspectGit =>
    cases event with
    | inspected targetValid othersAttributed =>
      exact some.inj hstep ▸ h.inspectGit hi targetValid othersAttributed
    | fail code => exact some.inj hstep ▸ hretry code
    | _ => cases hstep
  | setErasing present =>
    obtain ⟨phase, hphase, -⟩ := hstage.phase _ rfl
    cases event with
    | mutated write now =>
      exact some.inj hstep ▸ h.setPhase hi hphase write
        (fun ranks hr => by cases hr; decide) (fun _ => hstage.drained rfl) (by simp)
    | _ => cases hstep
  | removeGit present =>
    have hgit : ∀ git, Inv vaultId { s with git } := fun git =>
      h.congr rfl rfl rfl rfl (fun _ _ => id) rfl
    cases event with
    | proceed =>
      have hnext : StageOk vaultId s .removeTemps := hstage.advance rfl (fun _ => rfl) (by simp)
      exact some.inj hstep ▸ (hgit _).inv_goTo hi (hnext.mono (fun _ => id) (fun _ => le_rfl) .inl)
    | fail code =>
      cases present <;> exact some.inj hstep ▸ hretry code
    | failPartway code =>
      cases present with
      | false => cases hstep
      | true =>
        exact some.inj hstep ▸ (hgit _).inv_goTo hi (stageOk_of_free rfl rfl (by simp))
    | _ => cases present <;> cases hstep
  | cleanupTemps =>
    have hclean : ∀ cleanupFailed, Inv vaultId { s with cleanupFailed } := fun _ =>
      h.congr rfl rfl rfl rfl (fun _ _ => id) rfl
    cases event with
    | proceed =>
      cases hstep
      unfold State.cleanupTemps
      split
      · exact hretry _
      have hnext : StageOk vaultId s .setFinalizing :=
        hstage.advance rfl (fun _ => rfl) (by decide)
      exact (hclean false).inv_goTo hi (hnext.mono (fun _ => id) (fun _ => le_rfl) .inl)
    | fail code =>
      exact some.inj hstep ▸ (hclean true).inv_goTo hi (stageOk_of_free rfl rfl (by simp))
    | _ => cases hstep
  | setFinalizing =>
    obtain ⟨phase, hphase, -⟩ := hstage.phase _ rfl
    cases event with
    | mutated write now =>
      exact some.inj hstep ▸ h.setPhase hi hphase write
        (fun ranks hr => by cases hr; decide) (fun _ => hstage.drained rfl) (by decide)
    | _ => cases hstep
  | finalize =>
    cases event with
    | mutated write now => exact some.inj hstep ▸ (h.finalize hi write now).1
    | _ => cases hstep
  | recordRetry code =>
    cases event with
    | mutated write now => exact some.inj hstep ▸ h.recordRetry hi write now code
    | _ => cases hstep
  | finished =>
    cases event with
    | proceed => exact some.inj hstep ▸ h.settleWorker hi
    | _ => cases hstep

end

end Workers

section Restart
variable {α : Type} {f : Barrier → α → Barrier}

lemma foldl_closing (hkeep : ∀ b a, b.closing → (f b a).closing) (as : List α)
    (b : Barrier) (h : b.closing ∨ ∃ a ∈ as, ∀ b, (f b a).closing) : (as.foldl f b).closing := by
  induction as generalizing b with
  | nil =>
    rcases h with h | ⟨a, hmem, -⟩
    · exact h
    · exact absurd hmem not_mem_nil
  | cons a as ih =>
    refine ih (f b a) ?_
    rcases h with h | ⟨x, hmem, hx⟩
    · exact .inl (hkeep b a h)
    rcases mem_cons.mp hmem with rfl | hmem
    · exact .inl (hx b)
    · exact .inr ⟨x, hmem, hx⟩

lemma foldl_idle (hkeep : ∀ b a, (f b a).active = b.active ∧ (f b a).worker = b.worker)
    (as : List α) (b : Barrier) : (as.foldl f b).active = b.active ∧ (as.foldl f b).worker = b.worker := by
  induction as generalizing b with
  | nil => exact ⟨rfl, rfl⟩
  | cons a as ih =>
    obtain ⟨hact, hwork⟩ := ih (f b a)
    obtain ⟨ha, hw⟩ := hkeep b a
    exact ⟨hact.trans ha, hwork.trans hw⟩

variable (db : MetadataDb) (vaultId : String)

lemma restoreDurableBarriers_idle : (restoreDurableBarriers db vaultId).active = 0 ∧
    (restoreDurableBarriers db vaultId).worker = false := by
  have hvs := foldl_idle (f := restoreVault db vaultId)
    (fun b a => by unfold restoreVault; split <;> exact ⟨rfl, rfl⟩) db.vaults .fresh
  have hjobs := foldl_idle (f := restoreJob vaultId)
    (fun b a => by unfold restoreJob; split <;> exact ⟨rfl, rfl⟩) db.deletionJobs
    (db.vaults.foldl (restoreVault db vaultId) .fresh)
  have hrcps := foldl_idle (f := restoreReceipt vaultId)
    (fun b a => by unfold restoreReceipt; split <;> exact ⟨rfl, rfl⟩) db.deletionReceipts
    (db.deletionJobs.foldl (restoreJob vaultId) (db.vaults.foldl (restoreVault db vaultId) .fresh))
  exact ⟨hrcps.1.trans (hjobs.1.trans hvs.1), hrcps.2.trans (hjobs.2.trans hvs.2)⟩

/-- Whatever record the metadata holds, the restored barrier is closing. -/
lemma restoreDurableBarriers_closing (h : db.hasDurableDeletionRecord vaultId) :
    (restoreDurableBarriers db vaultId).closing := by
  have hrec := h
  have hkeeJ : ∀ b a, b.closing = true → (restoreJob vaultId b a).closing = true := by
    intro b a hb
    unfold restoreJob
    split <;> simp [hb]
  have hkeeR : ∀ b a, b.closing = true → (restoreReceipt vaultId b a).closing = true := by
    intro b a hb
    unfold restoreReceipt
    split <;> simp [hb]
  simp only [hasDurableDeletionRecord, hasDeletionJobOrReceipt, or_eq_true] at h
  rcases h with hrow | hjob | hrcp
  · obtain ⟨vault, hmem, hvault⟩ := any_eq_true.mp hrow
    refine foldl_closing hkeeR _ _ (.inl (foldl_closing hkeeJ _ _ (.inl ?_)))
    refine foldl_closing (fun b a hb => ?_) _ _ (.inr ⟨vault, hmem, fun b => ?_⟩)
    · unfold restoreVault
      split <;> simp [hb]
    rw [restoreVault, if_pos]
    have hid := (and_eq_true _ _ ▸ hvault).1
    rw [hid, hrec]
    rfl
  · obtain ⟨job, hmem, hid⟩ := any_eq_true.mp hjob
    refine foldl_closing hkeeR _ _ (.inl (foldl_closing hkeeJ _ _ (.inr ⟨job, hmem, fun b => ?_⟩)))
    rw [restoreJob, if_pos (of_decide_eq_true hid)]
  · obtain ⟨receipt, hmem, hid⟩ := any_eq_true.mp hrcp
    refine foldl_closing hkeeR _ _ (.inr ⟨receipt, hmem, fun b => ?_⟩)
    rw [restoreReceipt, if_pos (of_decide_eq_true hid)]

lemma inv_start (git : GitRepository) (hkept : db.Kept vaultId) : Inv vaultId (start db vaultId git) where
  active := (restoreDurableBarriers_idle db vaultId).1
  memoryRecord := restoreDurableBarriers_closing db vaultId
  diskRecord := restoreDurableBarriers_closing db vaultId
  memoryKept := hkept
  diskKept := hkept
  transition _ _ hnone := by cases hnone
  slot := (restoreDurableBarriers_idle db vaultId).2
  single := zero_le _
  stages _ hnil := absurd hnil not_mem_nil

end Restart

lemma Inv.restart (h : Inv vaultId s) : Inv vaultId (s.restart vaultId) :=
  (inv_start s.disk vaultId s.git h.diskKept).congr rfl rfl rfl rfl (fun _ _ => id) rfl

variable {dateParse : String → Option Int}

lemma Inv.step (h : Inv vaultId s) {label : Label}
    (hstep : s.step vaultId dateParse label = some s') : Inv vaultId s' := by
  cases label with
  | acquireAdmission =>
    cases hstep
    unfold State.acquireAdmission
    split
    · exact h
    · exact h.congr rfl rfl rfl rfl (fun _ _ => id) rfl
  | readRecord i =>
    obtain ⟨-, ⟨⟩⟩ := ite_none_right_eq_some.mp hstep
    unfold State.readRecord
    split <;> exact h.congr rfl rfl rfl rfl (fun _ _ => id) rfl
  | settleAdmission i =>
    rw [State.step] at hstep
    split at hstep
    · exact some.inj hstep ▸ h.settleAdmission i _
    · cases hstep
  | release admission => exact some.inj hstep ▸ h.release admission
  | beginDeletion ownerUserId confirmation =>
    obtain ⟨-, ⟨⟩⟩ := ite_none_right_eq_some.mp hstep
    refine h.congr rfl rfl rfl rfl (fun _ _ hdec => ?_) rfl
    cases hdec
  | decideDeletion requestedAt =>
    rw [State.step] at hstep
    split at hstep
    · exact some.inj hstep ▸ h.decideDeletion _ _ _ _
    · cases hstep
  | acceptDeletion write =>
    rw [State.step] at hstep
    split at hstep
    · rename_i htran
      exact some.inj hstep ▸ h.acceptDeletion htran write
    · cases hstep
  | reconcile =>
    obtain ⟨-, hstep⟩ := ite_none_right_eq_some.mp hstep
    exact some.inj hstep ▸ h.reconcile
  | commitReconciliation i write =>
    obtain ⟨requestedAt, -, rfl⟩ := map_eq_some_iff.mp hstep
    exact h.commitReconciliation i requestedAt write
  | expireReceipts now write => exact some.inj hstep ▸ h.expireReceipts dateParse now write
  | startWorker => exact some.inj hstep ▸ h.startWorker
  | worker i event =>
    rw [State.step] at hstep
    split at hstep
    · rename_i hi
      exact h.workerStep hi hstep
    · cases hstep
  | otherMutation db write =>
    obtain ⟨hkeeps, hstep⟩ := ite_none_right_eq_some.mp hstep
    exact some.inj hstep ▸ h.otherMutation hkeeps write
  | storeFails | close =>
    exact some.inj hstep ▸ h.congr rfl rfl rfl rfl (fun _ _ => id) rfl
  | cleanupPersistenceTemps =>
    obtain ⟨-, hstep⟩ := ite_none_left_eq_some.mp hstep
    exact some.inj hstep ▸ h.congr rfl rfl rfl rfl (fun _ _ => id) rfl
  | restart => exact some.inj hstep ▸ h.restart

lemma Inv.run (h : Inv vaultId s) {labels : List Label}
    (hrun : s.run vaultId dateParse labels = some s') : Inv vaultId s' :=
  LabelledRuns.inv_run hrun (fun _ => rfl) (fun _ _ _ => rfl) (·.step ·) h

end VaultDeletion
