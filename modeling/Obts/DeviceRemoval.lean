import Mathlib.Order.Defs.PartialOrder

/-!
# Device removal

Permanent removal of one revoked device: a durable journal, the barrier and the drain, the deletion of
the device ref under the vault sync lock, and the cleanup that ends with the device row. The commits
are ordered by ancestry.
-/
namespace DeviceRemoval

def deviceRefPrefix : String := "refs/obts/devices/"

def maxGenerationsPerRun : Nat := 3

inductive Phase where
  | intent
  | refDeleting
  | cleanup
  deriving DecidableEq

structure Failure where
  statusCode : Nat
  (code message : String)
  retryable : Bool
  reason : Option String := none
  deriving DecidableEq

namespace Failure

/-- An `AuthError` as `classify` records it: only trouble of the server is retryable. -/
def authError (statusCode : Nat) (code message : String) (reason : Option String := none) : Failure :=
  ⟨statusCode, code, message, decide (500 ≤ statusCode), reason⟩

def notFound : Failure := authError 404 "not_found" "Resource not found."

def vaultDeleting : Failure := authError 409 "vault_deleting" "Vault deletion is in progress."

def notRevoked : Failure :=
  authError 409 "device_not_revoked" "Revoke the device before removing it."

def confirmationMismatch : Failure :=
  authError 400 "confirmation_mismatch" "Type the exact device removal confirmation phrase."

def openConflict : Failure :=
  authError 409 "device_has_open_work" "Resolve the device conflicts before removing it." (some "open_conflict")

def unsettledOperation : Failure :=
  authError 409 "device_has_open_work" "Wait for the device operations to settle before removing it."
    (some "unsettled_operation")

def unmergedRef : Failure :=
  authError 409 "device_has_unmerged_work"
    "The device has work that is not in the vault main history." (some "device_ref")

def unmergedTransfer : Failure :=
  authError 409 "device_has_unmerged_work"
    "The device has staged transfers that are not in the vault main history." (some "staged_transfer")

def refMismatch : Failure :=
  ⟨409, "device_ref_inconsistent", "The device ref does not match its identity.", false, none⟩

def refMissing : Failure :=
  ⟨409, "device_ref_inconsistent", "The recorded device ref is missing. If nothing is left to delete, " ++
      "repeat the request with the discard phrase to confirm.",
    false, some "ref_missing"⟩

def refUnavailable : Failure :=
  ⟨503, "device_removal_unavailable", "The device ref could not be verified. Retry later.", true, none⟩

def historyUnavailable : Failure :=
  ⟨503, "device_removal_unavailable", "Device history could not be verified. Retry later.", true, none⟩

def transfersUnavailable : Failure :=
  ⟨503, "device_removal_unavailable", "Staged transfers could not be verified. Retry later.", true, none⟩

def draining : Failure :=
  ⟨503, "device_removal_incomplete", "Device work is still draining. Retry later.", true, none⟩

def keepsChanging : Failure :=
  ⟨503, "device_removal_incomplete", "The device ref keeps changing. Retry later.", true, none⟩

def incomplete : Failure :=
  ⟨503, "device_removal_incomplete", "Device removal is incomplete and can be retried.", true, none⟩

end Failure

/-- The journal: what a removal durably intends, and what its last run ended with. -/
structure Job (Oid : Type) where
  phase : Phase
  generation : Nat
  expectedRefOid : Option Oid
  (discardUnmerged failed : Bool)
  errorCode : Option String
  retryable : Bool
  deriving DecidableEq

inductive SessionStatus where
  | open
  | processing
  | aborted
  | completed
  | rejected
  deriving DecidableEq

/-- A transfer session that is attributed to the device. -/
structure Session (Oid : Type) where
  transferId : String
  targetCommit : Oid
  status : SessionStatus

/-- What a removal read of the metadata before it went on. -/
structure Selected (Oid : Type) where
  currentMain : Oid
  deviceRefHead : Option Oid
  (openConflict unsettledOperation : Bool)
  job : Option (Job Oid)
  deriving DecidableEq

/-- What a removal does next. Each stage ends with one durable step or one answer of Git. The stages up
to `commitIntent` belong to a request, the others to the run of a journal. -/
inductive Stage (Oid : Type) where
  | idle
  | persistGrant (confirmation : Option String) (discard : Bool) (selected : Selected Oid)
  | readForIntent (discard : Bool) (selected : Selected Oid)
  | coverForIntent (discard : Bool) (selected : Selected Oid) (oid : Oid)
  | stagedForIntent (discard : Bool) (selected : Selected Oid) (oid : Option Oid)
  | commitIntent (discard : Bool) (oid : Option Oid)
  | markPending
  | drainTransfers
  | drainLeases
  | selectForStep (moves : Nat)
  | readRef (moves : Nat) (selected : Selected Oid) (job : Job Oid)
  | rebind (moves : Nat) (selected : Selected Oid) (current : Option Oid)
  | cover (moves : Nat) (selected : Selected Oid) (job : Job Oid) (oid : Oid)
  | staged (moves : Nat) (selected : Selected Oid) (job : Job Oid) (current : Option Oid)
  | enterDelete (moves : Nat)
  | deleteRef (moves : Nat) (expected : Option Oid)
  | rereadRef (moves : Nat) (expected : Oid)
  | syncRepository
  | acceptAbsent
  | enterCleanup
  | sweepCredentials
  | sweepReplay
  | eraseTransfers
  | sweepBookkeeping
  | complete
  | recordFailure (failure : Failure)
  deriving DecidableEq

/-- What happened, as far as it matters later. -/
inductive Entry (Oid : Type) where
  /-- A request passed the owner's scope, with this grant to discard. -/
  | asked (grant : Bool)
  /-- The grant of a request is what the journal, where there is one, durably says. -/
  | recorded (grant : Bool)
  | refused (failure : Option Failure)
  | superseded
  /-- A run of the journal begins. -/
  | driven
  /-- A strict read found no device ref. -/
  | readAbsent
  /-- The device ref is deleted at a commit, with main and the staged targets of that moment. -/
  | deleted (oid main : Oid) (staged : List Oid)
  | erased (unreadable : List String)
  /-- The device row is deleted, with the transfer sessions that are left. -/
  | removed (left : List String)
  deriving DecidableEq

structure State (Oid : Type) where
  (deviceId ownerUserId deviceRef : String)
  /-- A durable record of the vault's deletion. -/
  deleting : Bool
  (device revoked : Bool)
  deviceRefHead : Option Oid
  (openConflict unsettledOperation : Bool)
  job : Option (Job Oid)
  ref : Option Oid
  main : Oid
  /-- The commits that the repository has. -/
  objects : List Oid
  sessions : List (Session Oid)
  /-- The sessions that the last inspection of the staged transfers took for none of the device's. -/
  unread : List String
  stage : Stage Oid
  closing : Bool
  /-- Leases whose holder has yet to read the durable state. -/
  acquiring : Nat
  /-- Leases under which the device works. -/
  working : Nat
  /-- Latest first. -/
  log : List (Entry Oid)

/-- How an awaited call ends. -/
inductive Answer where
  | done
  /-- It fails and the code says so with a failure of its own. -/
  | unavailable
  /-- The vault's admission is refused. -/
  | denied
  | throws

inductive Label (Oid : Type) where
  | request (ownerUserId : String) (confirmation : Option String) (discardUnmerged : Bool)
  | resumePending
  | advance (answer : Answer)
  /-- `stagedTargetCommits` returns: a session with a record that is malformed or fails to be read is skipped. -/
  | inspectTransfers (unread : List String)
  | eraseDeviceResidue (unreadable : List String)
  | crash
  | tryAcquireDeviceLease
  | settleLease
  | detach
  | releaseLease
  | createPush (session : Session Oid)
  | settlePush (transferId : String) (status : SessionStatus)
  | dropPush (transferId : String)
  | moveRef (ref : Option Oid)
  | advanceMain (main : Oid)
  | importObjects (oids : List Oid)
  | recordHead (oid : Option Oid)
  | setWork (openConflict unsettledOperation : Bool)
  | revoke
  | deleteVault

def expectedPhrase (deviceId : String) (discardUnmerged : Bool) : String :=
  if discardUnmerged then "DELETE " ++ deviceId ++ " AND DISCARD UNMERGED WORK" else "DELETE " ++ deviceId

def Session.isStaged {Oid : Type} (session : Session Oid) : Bool :=
  session.status ≠ .completed && session.status ≠ .rejected

def stagedTargetCommits {Oid : Type} (unread : List String) (sessions : List (Session Oid)) : List Oid :=
  (sessions.filter fun session => session.isStaged && !unread.contains session.transferId).map
    Session.targetCommit

def assertNoOpenWork {Oid : Type} (selected : Selected Oid) : Option Failure :=
  if selected.openConflict then some .openConflict
  else if selected.unsettledOperation then some .unsettledOperation
  else none

namespace State
variable {Oid : Type} (s : State Oid)

def goTo (stage : Stage Oid) : State Oid := { s with stage }

def refuse (failure : Option Failure) : State Oid :=
  { s with stage := .idle, log := .refused failure :: s.log }

def supersede : State Oid := { s with stage := .idle, log := .superseded :: s.log }

def selected (s : State Oid) : Selected Oid where
  currentMain := s.main
  deviceRefHead := s.deviceRefHead
  openConflict := s.openConflict
  unsettledOperation := s.unsettledOperation
  job := s.job

/-- The checks that `select` and `commitIntent` share. -/
def refusal : Option Failure :=
  if s.deleting then some .vaultDeleting
  else if !s.device then some .notFound
  else if !s.revoked then some .notRevoked
  else none

def refMatches : Bool := s.deviceRef = deviceRefPrefix ++ s.deviceId

/-- Applies a change to the journal, and goes on where there is one. -/
def updateJob (answer : Answer) (change : Job Oid → Job Oid) (next : Job Oid → Stage Oid) : Option (State Oid) :=
  match answer with
  | .done => match s.job with
    | none => some s.supersede
    | some job => some { s with job := some (change job), stage := next (change job) }
  | .throws => some (s.goTo (.recordFailure .incomplete))
  | _ => none

/-- A cleanup mutation, which needs a journal in its cleanup phase. -/
def sweep (answer : Answer) (next : State Oid → State Oid) : Option (State Oid) :=
  match answer with
  | .done => match s.job with
    | some job => if job.phase = .cleanup then some (next s) else some s.supersede
    | none => some s.supersede
  | .throws => some (s.goTo (.recordFailure .incomplete))
  | .denied => some (s.goTo (.recordFailure .vaultDeleting))
  | .unavailable => none

section Coverage
variable [Preorder Oid] [DecidableLE Oid]

/-- `assertCovered`, given that the ancestry could be verified. -/
def assertCovered (currentMain oid : Oid) (discard : Bool) : Option Failure :=
  if oid ≤ currentMain ∨ discard = true then none else some .unmergedRef

/-- `assertStagedCovered`, given that the transfers were inspected and their ancestry could be verified. -/
def assertStagedCovered [DecidableEq Oid] (s : State Oid) (currentMain : Oid) : Option Failure :=
  if ∀ commit ∈ stagedTargetCommits s.unread s.sessions, commit ∈ s.objects ∧ commit ≤ currentMain then none
  else some .unmergedTransfer

end Coverage

variable (s : State Oid)

/-- A request of the owner, up to what `select` read. -/
def request (ownerUserId : String) (confirmation : Option String) (discardUnmerged : Bool) : State Oid :=
  if ownerUserId ≠ s.ownerUserId then s.refuse (some .notFound)
  else match s.refusal with
  | some failure => s.refuse (some failure)
  | none =>
    let grant : Bool := confirmation = some (expectedPhrase s.deviceId discardUnmerged) && discardUnmerged
    { s with
      stage := .persistGrant confirmation discardUnmerged s.selected
      log := .asked grant :: s.log }

/-- What follows once the grant is recorded. -/
def afterGrant (phraseMatches discard : Bool) (selected : Selected Oid) : State Oid :=
  if !phraseMatches then s.refuse (some .confirmationMismatch)
  else match assertNoOpenWork selected with
  | some failure => s.refuse (some failure)
  | none => match selected.job with
    | none => s.goTo (.readForIntent discard selected)
    | some job =>
      if job.phase = .intent then s.goTo (.readForIntent discard selected)
      else s.goTo (.commitIntent discard job.expectedRefOid)

variable (answer : Answer)

def persistGrant (confirmation : Option String) (discard : Bool)
    (selected : Selected Oid) : Option (State Oid) :=
  let phraseMatches : Bool := confirmation = some (expectedPhrase s.deviceId discard)
  let grant := phraseMatches && discard
  match answer with
  | .done =>
    let differs := match selected.job with
      | some job => job.discardUnmerged != grant
      | none => false
    let s := if differs then
        { s with job := s.job.map fun job => { job with discardUnmerged := grant } }
      else s
    some ({ s with log := .recorded grant :: s.log }.afterGrant phraseMatches discard selected)
  | .throws => some (s.refuse none)
  | _ => none

/-- `verifyRefForIntent` up to the strict read. -/
def readForIntent (discard : Bool) (selected : Selected Oid) : Option (State Oid) :=
  if !s.refMatches then some (s.refuse (some .refMismatch))
  else match answer with
  | .done => match s.ref with
    | none =>
      if selected.deviceRefHead.isSome && selected.job.isNone && !discard then
        some (s.refuse (some .refMissing))
      else some (s.goTo (.stagedForIntent discard selected none))
    | some oid => some (s.goTo (.coverForIntent discard selected oid))
  | .unavailable => some (s.refuse (some .refUnavailable))
  | _ => none

def commitIntent (discard : Bool) (oid : Option Oid) : Option (State Oid) :=
  match answer with
  | .done => match s.refusal with
    | some failure => some (s.refuse (some failure))
    | none =>
      let job : Job Oid := match s.job with
        | none =>
          { phase := .intent
            generation := 1
            expectedRefOid := oid
            discardUnmerged := discard
            failed := false
            errorCode := none
            retryable := true }
        | some existing =>
          { existing with
            discardUnmerged := discard
            failed := false
            errorCode := none
            retryable := true }
      some { s with job := some job, closing := true, stage := .markPending }
  | .throws => some (s.refuse none)
  | _ => none

/-- `deleteRefStep` once the journal is of the generation that the ref has. -/
def eligible (moves : Nat) (selected : Selected Oid) (job : Job Oid) (current : Option Oid) : Stage Oid :=
  match job.phase with
  | .intent => match assertNoOpenWork selected with
    | some failure => .recordFailure failure
    | none => match current with
      | some oid => .cover moves selected job oid
      | none => .staged moves selected job none
  | _ => match current with
    | some oid => .cover moves selected job oid
    | none => .deleteRef moves job.expectedRefOid

/-- `deleteRefStep` once it read the ref. -/
def afterRead [DecidableEq Oid] (moves : Nat) (selected : Selected Oid) (job : Job Oid)
    (current : Option Oid) : Stage Oid :=
  if job.phase ≠ .intent ∧ current = none then .staged moves selected job none
  else if job.phase = .cleanup ∨ current ≠ job.expectedRefOid then
    if job.phase = .intent ∧ current = none then
      match assertNoOpenWork selected with
      | some failure => .recordFailure failure
      | none => if !job.discardUnmerged then .recordFailure .refMissing else .acceptAbsent
    else if maxGenerationsPerRun < moves + 1 then .recordFailure .keepsChanging
    else .rebind (moves + 1) selected current
  else eligible moves selected job current

/-- `deleteRefStep` once the staged transfers are covered. -/
def afterStaged (moves : Nat) (job : Job Oid) (current : Option Oid) : Stage Oid :=
  match job.phase, current with
  | .cleanup, _ => .sweepCredentials
  | _, none => .enterCleanup
  | .intent, some _ => .enterDelete moves
  | .refDeleting, some _ => .deleteRef moves job.expectedRefOid

def readRef [DecidableEq Oid] (s : State Oid) (answer : Answer) (moves : Nat)
    (selected : Selected Oid) (job : Job Oid) : Option (State Oid) :=
  if !s.refMatches then some (s.goTo (.recordFailure .refMismatch))
  else match answer with
  | .done => match s.ref with
    | none => some { s with
        stage := afterRead moves selected job none
        log := .readAbsent :: s.log }
    | some oid => some (s.goTo (afterRead moves selected job (some oid)))
  | .unavailable => some (s.goTo (.recordFailure .refUnavailable))
  | _ => none

/-- `deleteRefCas` up to the end of `update-ref`, which may also fail where the ref is as expected. -/
def deleteRef [DecidableEq Oid] (s : State Oid) (answer : Answer) (moves : Nat)
    (expected : Option Oid) : Option (State Oid) :=
  match expected with
  | none => some (s.goTo (.recordFailure .incomplete))
  | some oid => match answer with
    | .done =>
      if s.ref = some oid then
        some { s with
          ref := none
          stage := .syncRepository
          log := .deleted oid s.main (stagedTargetCommits s.unread s.sessions) :: s.log }
      else some (s.goTo (.rereadRef moves oid))
    | .throws => some (s.goTo (.rereadRef moves oid))
    | .unavailable => some (s.goTo (.recordFailure .incomplete))
    | .denied => none

/-- `deleteRefCas` after `update-ref` failed. -/
def rereadRef [DecidableEq Oid] (s : State Oid) (answer : Answer) (moves : Nat) (expected : Oid) :
    Option (State Oid) :=
  match answer with
  | .done => match s.ref with
    | none => some { s with stage := .enterCleanup, log := .readAbsent :: s.log }
    | some current =>
      if current = expected then some (s.goTo (.recordFailure .incomplete))
      else some (s.goTo (.selectForStep moves))
  | .throws => some (s.goTo (.recordFailure .incomplete))
  | _ => none

def drainTransfers : Option (State Oid) :=
  match answer with
  | .done => some { s with
      stage := .drainLeases
      sessions := s.sessions.map fun session =>
        if session.status = .processing ∨ session.status = .open then
          { session with status := .aborted } else session }
  | .unavailable => some (s.goTo (.recordFailure .draining))
  | .throws => some (s.goTo (.recordFailure .incomplete))
  | .denied => none

def drainLeases : Option (State Oid) :=
  match answer with
  | .done => if s.acquiring = 0 ∧ s.working = 0 then some (s.goTo (.selectForStep 0)) else none
  | .unavailable => some (s.goTo (.recordFailure .draining))
  | _ => none

def selectForStep (moves : Nat) : Option (State Oid) :=
  match answer with
  | .done => match s.job with
    | none => some s.supersede
    | some job =>
      if s.deleting || !s.device then some s.supersede
      else some (s.goTo (.readRef moves s.selected job))
  | .denied => some (s.goTo (.recordFailure .vaultDeleting))
  | .throws => some (s.goTo (.recordFailure .incomplete))
  | .unavailable => none

/-- The last mutation: the device row and the journal go together. -/
def remove : State Oid :=
  { s with
    device := false
    job := none
    closing := false
    stage := .idle
    log := .removed (s.sessions.map Session.transferId) :: s.log }

def recordFailure (failure : Failure) : Option (State Oid) :=
  match answer with
  | .done =>
    let job := s.job.map fun job =>
      { job with failed := true, errorCode := some failure.code, retryable := failure.retryable }
    some ({ s with job }.refuse (some failure))
  | .throws => some (s.refuse (some failure))
  | _ => none

section Steps
variable [Preorder Oid] [DecidableLE Oid] [DecidableEq Oid]

/-- What a removal does when the call it awaits is answered. -/
def advance (answer : Answer) : Option (State Oid) :=
  match s.stage with
  | .idle => none
  | .persistGrant confirmation discard selected => s.persistGrant answer confirmation discard selected
  | .readForIntent discard selected => s.readForIntent answer discard selected
  | .coverForIntent discard selected oid => match answer with
    | .done => match assertCovered selected.currentMain oid discard with
      | some failure => some (s.refuse (some failure))
      | none => some (s.goTo (.stagedForIntent discard selected (some oid)))
    | .unavailable => some (s.refuse (some .historyUnavailable))
    | _ => none
  | .stagedForIntent discard _ oid =>
    if discard then some (s.goTo (.commitIntent discard oid))
    else match answer with
    | .unavailable => some (s.refuse (some .transfersUnavailable))
    | _ => none
  | .commitIntent discard oid => s.commitIntent answer discard oid
  | .markPending =>
    { s with log := .driven :: s.log }.updateJob answer
      (fun job => { job with failed := false, errorCode := none, retryable := true })
      fun _ => .drainTransfers
  | .drainTransfers => s.drainTransfers answer
  | .drainLeases => s.drainLeases answer
  | .selectForStep moves => s.selectForStep answer moves
  | .readRef moves selected job => s.readRef answer moves selected job
  | .rebind moves selected current =>
    s.updateJob answer
      (fun job => { job with
        phase := .intent, generation := job.generation + 1, expectedRefOid := current })
      fun job => eligible moves selected job current
  | .cover moves selected job oid => match answer with
    | .done => match assertCovered selected.currentMain oid job.discardUnmerged with
      | some failure => some (s.goTo (.recordFailure failure))
      | none => some (s.goTo (.staged moves selected job (some oid)))
    | .unavailable => some (s.goTo (.recordFailure .historyUnavailable))
    | _ => none
  | .staged moves _ job current =>
    if job.discardUnmerged then some (s.goTo (afterStaged moves job current))
    else match answer with
    | .unavailable => some (s.goTo (.recordFailure .transfersUnavailable))
    | _ => none
  | .enterDelete moves =>
    s.updateJob answer (fun job => { job with phase := .refDeleting })
      fun job => .deleteRef moves job.expectedRefOid
  | .deleteRef moves expected => s.deleteRef answer moves expected
  | .rereadRef moves expected => s.rereadRef answer moves expected
  | .syncRepository => match answer with
    | .done => some (s.goTo .enterCleanup)
    | .throws => some (s.goTo (.recordFailure .incomplete))
    | _ => none
  | .acceptAbsent =>
    s.updateJob answer
      (fun job => { job with
        phase := .cleanup, generation := job.generation + 1, expectedRefOid := none })
      fun _ => .sweepCredentials
  | .enterCleanup =>
    s.updateJob answer (fun job => { job with phase := .cleanup }) fun _ => .sweepCredentials
  | .sweepCredentials => s.sweep answer fun s => s.goTo .sweepReplay
  | .sweepReplay => s.sweep answer fun s => s.goTo .eraseTransfers
  | .eraseTransfers => match answer with
    | .throws => some (s.goTo (.recordFailure .incomplete))
    | _ => none
  | .sweepBookkeeping => s.sweep answer fun s => s.goTo .complete
  | .complete => s.sweep answer remove
  | .recordFailure failure => s.recordFailure answer failure

/-- What a removal that has no consent does once it inspected the staged transfers. -/
def inspectTransfers (unread : List String) : Option (State Oid) :=
  let s := { s with unread }
  match s.stage with
  | .stagedForIntent false selected oid => match s.assertStagedCovered selected.currentMain with
    | some failure => some (s.refuse (some failure))
    | none => some (s.goTo (.commitIntent false oid))
  | .staged moves selected job current =>
    if job.discardUnmerged then none
    else match s.assertStagedCovered selected.currentMain with
    | some failure => some (s.goTo (.recordFailure failure))
    | none => some (s.goTo (afterStaged moves job current))
  | _ => none

/-- `resumePending` for the device, where no request runs. -/
def resumePending : State Oid :=
  match s.job with
  | none => s
  | some job =>
    if s.deleting then s
    else if !s.device then { s with job := none, closing := false }
    else if job.failed && !job.retryable then { s with closing := true }
    else { s with closing := true, stage := .markPending }

/-- The process ends and another begins, which restores the barriers before it serves. -/
def crash : State Oid :=
  { s with
    stage := .idle
    acquiring := 0
    working := 0
    closing := s.job.isSome && !s.deleting }

def step : Label Oid → Option (State Oid)
  | .request ownerUserId confirmation discardUnmerged =>
    if s.stage = .idle then some (s.request ownerUserId confirmation discardUnmerged) else none
  | .resumePending => if s.stage = .idle then some s.resumePending else none
  | .advance answer => s.advance answer
  | .inspectTransfers unread => s.inspectTransfers unread
  | .eraseDeviceResidue unreadable =>
    if s.stage = .eraseTransfers then
      some { s with
        stage := .sweepBookkeeping
        sessions := s.sessions.filter fun session => unreadable.contains session.transferId
        log := .erased unreadable :: s.log }
    else none
  | .crash => some s.crash
  | .tryAcquireDeviceLease =>
    if s.closing then none else some { s with acquiring := s.acquiring + 1 }
  | .settleLease =>
    if 0 < s.acquiring then
      let allowed := s.device && !s.revoked && s.job.isNone
      some { s with
        acquiring := s.acquiring - 1
        working := if allowed then s.working + 1 else s.working }
    else none
  | .detach => if 0 < s.working ∧ s.closing = false then some { s with working := s.working + 1 } else none
  | .releaseLease => if 0 < s.working then some { s with working := s.working - 1 } else none
  | .createPush session =>
    if 0 < s.working then some { s with sessions := s.sessions ++ [session] } else none
  | .settlePush transferId status =>
    if 0 < s.working then
      some { s with sessions := s.sessions.map fun session =>
        if session.transferId = transferId then { session with status } else session }
    else none
  | .dropPush transferId =>
    some { s with sessions := s.sessions.filter fun session => session.transferId ≠ transferId }
  | .moveRef ref => some { s with ref }
  | .advanceMain main => if s.main ≤ main then some { s with main } else none
  | .importObjects oids => some { s with objects := s.objects ++ oids }
  | .recordHead oid => some { s with deviceRefHead := oid }
  | .setWork openConflict unsettledOperation => some { s with openConflict, unsettledOperation }
  | .revoke => some { s with revoked := true }
  | .deleteVault => some { s with deleting := true, revoked := true, job := none, closing := false }

def run (s : State Oid) : List (Label Oid) → Option (State Oid)
  | [] => some s
  | label :: labels => (s.step label).bind fun s => s.run labels

end Steps

/-- The device before its removal is asked for. -/
def start (deviceId ownerUserId deviceRef : String) (revoked : Bool) (main : Oid) (ref : Option Oid)
    (objects : List Oid) (sessions : List (Session Oid)) : State Oid where
  deviceId := deviceId
  ownerUserId := ownerUserId
  deviceRef := deviceRef
  deleting := false
  device := true
  revoked := revoked
  deviceRefHead := ref
  openConflict := false
  unsettledOperation := false
  job := none
  ref := ref
  main := main
  objects := objects
  sessions := sessions
  unread := []
  stage := .idle
  closing := false
  acquiring := 0
  working := 0
  log := []

end State

end DeviceRemoval
