import Mathlib.Logic.Relation
import Mathlib.Logic.Function.Basic
import Obts.Metadata

/-!
# Ref moves

How the main branch and the device refs of one vault are moved. Every operation records what it
is about to do, moves its ref by compare-and-swap, and commits the metadata. Each of these may
fail, the process may stop between any two of them, and a restarted server reconciles the
operations it finds prepared with the refs it finds in Git.

Operations hold the vault's lock one after another. Audit rows, events, results and timestamps
are left out, and so is what recovery re-reads from immutable content before it rolls a name
repair, settings or a policy merge forward.
-/
namespace RefMoves

open Metadata InsertionOrder List Option

/-- `ancestor` is among the commits that `descendant` was made on. -/
def Ancestor (parents : String → List String) (ancestor descendant : String) : Prop :=
  Relation.ReflTransGen (fun child parent => parent ∈ parents child) descendant ancestor

/-- The history in a repository. A commit's identifier is a digest over its parents, so it
determines them and differs from theirs; an ancestry that Git confirms holds. `rootCommit` answers
only where all the history of a commit goes back to one root. -/
structure Git where
  parents : String → List String
  isAncestor : String → String → Bool
  rootCommit : String → Option String
  parent_ne : ∀ {commit parent}, parent ∈ parents commit → parent ≠ commit
  isAncestor_sound : ∀ {ancestor descendant}, isAncestor ancestor descendant = true →
    Ancestor parents ancestor descendant
  rootCommit_sound : ∀ {commit root}, rootCommit commit = some root →
    ∀ {ancestor}, Ancestor parents ancestor commit → Ancestor parents root ancestor

inductive ConflictRefKind where
  | base
  | current
  | device
  deriving DecidableEq

inductive Ref where
  | main
  | device (deviceId : String)
  | conflict (conflictId : String) (kind : ConflictRefKind)
  deriving DecidableEq

/-- Refs whose value is recorded with the vault or a device. -/
def Ref.isTracked : Ref → Bool
  | .main | .device _ => true
  | .conflict _ _ => false

def Ref.isDevice : Ref → Bool
  | .device _ => true
  | _ => false

/-- The entries of a prepared manifest that recovery reads. -/
structure Manifest where
  targetRefs : List (Ref × Option String) := []
  previousMain : Option String := none
  targetMain : Option String := none
  conflictId : Option String := none
  refreshedMain : Option String := none

structure Operation where
  operationId : String
  type : OperationType
  deviceId : Option String := none
  status : OperationStatus
  (expectedRefs targetRefs : List (Ref × Option String))
  targetCommit : Option String := none
  manifest : Manifest := {}

structure Vault where
  currentMain : String
  rootCommit : Option String
  blockedIntegrity : Bool

structure Conflict where
  (conflictId deviceId : String)
  isOpen : Bool
  (baseCommit currentMain deviceCommit expectedMain : String)

structure Db where
  vault : Vault
  /-- `device_ref_head` by device. -/
  devices : List (String × Option String)
  conflicts : List Conflict
  operations : List Operation

/-- The commit that a conflict's ref keeps. -/
def Conflict.protectedCommit (conflict : Conflict) : ConflictRefKind → String
  | .base => conflict.baseCommit
  | .current => conflict.currentMain
  | .device => conflict.deviceCommit

namespace Db

variable (db : Db)

def deviceRefHead (deviceId : String) : Option String := (valueAt db.devices deviceId).join

def findConflict (conflictId : String) : Option Conflict :=
  db.conflicts.find? fun conflict => conflict.conflictId = conflictId

variable (operationId : String)

def setOperation (f : Operation → Operation) : Db :=
  { db with operations := db.operations.map fun operation =>
      if operation.operationId = operationId then f operation else operation }

def setConflict (conflictId : String) (f : Conflict → Conflict) : Db :=
  { db with conflicts := db.conflicts.map fun conflict =>
      if conflict.conflictId = conflictId then f conflict else conflict }

def setCurrentMain (main : String) : Db :=
  { db with vault := { db.vault with currentMain := main } }

def setDeviceRefHead (deviceId head : String) : Db :=
  { db with devices := set db.devices deviceId (some head) }

def setStatus (status : OperationStatus) : Db :=
  db.setOperation operationId fun operation => { operation with status }

/-- What the metadata records for a tracked ref. -/
def recorded : Ref → Option String
  | .main => some db.vault.currentMain
  | .device deviceId => db.deviceRefHead deviceId
  | .conflict _ _ => none

def blockVault : Db := { db with vault := { db.vault with blockedIntegrity := true } }

/-- `abortOperation`: a committed operation stays committed. -/
def abortOperation : Db :=
  db.setOperation operationId fun operation =>
    if operation.status = .committed then operation else { operation with status := .aborted }

end Db

def addTargetRefs (refs : List (Ref × String)) (targetRefs : List (Ref × Option String)) : List (Ref × String) :=
  targetRefs.foldl (fun refs entry =>
    match entry.2 with
    | some target => set refs entry.1 target
    | none => refs) refs

variable (operation : Operation)

def recoverableTargetRefs : List (Ref × String) :=
  let refs := addTargetRefs (addTargetRefs [] operation.targetRefs) operation.manifest.targetRefs
  match operation.type, operation.targetCommit with
  | .serverMerge, some target | .conflictResolve, some target | .noteRestore, some target =>
    if .main ∈ refs.map Prod.fst then refs else set refs .main target
  | _, _ => refs

def expectedRef (ref : Ref) : Option String :=
  (valueAt operation.expectedRefs ref).join

def targetRef (ref : Ref) : Option String :=
  (valueAt operation.targetRefs ref).join

variable (refs : Ref → Option String)

def expectedRefsStillCurrent (operation : Operation) : Bool :=
  operation.expectedRefs.all fun entry => refs entry.1 = entry.2

/-- The commit of a name repair, live or recovered; `none` where it reports that it cannot. -/
def commitPreparedNameRepair (db : Db) : Option Db :=
  match operation.manifest.previousMain, operation.manifest.targetMain with
  | some previousMain, some targetMain =>
    if operation.status = .prepared ∧ db.vault.currentMain = previousMain ∧
        expectedRef operation .main = some previousMain ∧
        targetRef operation .main = some targetMain ∧ operation.targetCommit = some targetMain then
      some ((db.setCurrentMain targetMain).setStatus operation.operationId .committed)
    else none
  | _, _ => none

/-- `rollForwardPreparedOperation`, on a row that is still prepared. -/
def rollForwardPreparedOperation (db : Db) : Db :=
  match operation.type with
  | .nameRepair => (commitPreparedNameRepair operation db).getD db.blockVault
  | .vaultSettings =>
    match operation.manifest.previousMain, operation.manifest.targetMain with
    | some previousMain, some targetMain =>
      if db.vault.currentMain = previousMain ∧ expectedRef operation .main = some previousMain ∧
          targetRef operation .main = some targetMain ∧ operation.targetCommit = some targetMain then
        (db.setCurrentMain targetMain).setStatus operation.operationId .committed
      else db.blockVault
    | _, _ => db.blockVault
  | .conflictRefresh =>
    match operation.manifest.conflictId, operation.manifest.previousMain,
        operation.manifest.refreshedMain with
    | some conflictId, some previousMain, some refreshedMain =>
      match db.findConflict conflictId with
      | some conflict =>
        if conflict.isOpen ∧ targetRef operation (.conflict conflictId .current) = some refreshedMain ∧
            operation.targetCommit = some refreshedMain ∧
            operation.deviceId = some conflict.deviceId ∧
            operation.expectedRefs = [(.conflict conflictId .current, some previousMain)] ∧
            recoverableTargetRefs operation = [(.conflict conflictId .current, refreshedMain)] ∧
            conflict.currentMain = previousMain ∧ conflict.expectedMain = previousMain then
          (db.setConflict conflictId fun conflict =>
            { conflict with currentMain := refreshedMain, expectedMain := refreshedMain }).setStatus
              operation.operationId .committed
        else db.blockVault
      | none => db.blockVault
    | _, _, _ => db.blockVault
  | .devicePush =>
    match operation.targetRefs.find? (fun entry => entry.1.isDevice && entry.2.isSome),
        operation.deviceId with
    | some (_, some target), some deviceId =>
      if deviceId ∈ db.devices.map Prod.fst then
        (db.setDeviceRefHead deviceId target).setStatus operation.operationId .committed
      else db.blockVault
    | _, _ => db.blockVault
  | .serverMerge | .conflictResolve | .noteRestore =>
    match targetRef operation .main with
    | some targetMain =>
      if operation.type = .conflictResolve ∧ ¬ ((operation.manifest.conflictId.bind db.findConflict).isSome ∧
            (operation.deviceId.bind (valueAt db.devices)).isSome) then
        db.blockVault
      else
        let db := match operation.type, operation.manifest.conflictId with
          | .conflictResolve, some conflictId =>
            db.setConflict conflictId fun conflict => { conflict with isOpen := false }
          | _, _ => db
        (db.setCurrentMain targetMain).setOperation operation.operationId fun operation =>
          { operation with status := .committed, targetCommit := some targetMain }
    | none => db.blockVault
  | .conflictCreate | .gitMaintenance => db.setStatus operation.operationId .aborted

/-- What `reconcileStartupOperations` makes of one operation. -/
def reconcileOperation (operation : Operation) (db : Db) : Db :=
  match operation.status with
  | .started => db.abortOperation operation.operationId
  | .prepared =>
    let targetRefs := recoverableTargetRefs operation
    if targetRefs = [] then
      if expectedRefsStillCurrent refs operation then db.abortOperation operation.operationId
      else db.blockVault
    else if targetRefs.all fun entry => refs entry.1 = some entry.2 then
      rollForwardPreparedOperation operation db
    else if targetRefs.all fun entry => refs entry.1 = expectedRef operation entry.1 then
      db.abortOperation operation.operationId
    else db.blockVault
  | .committed | .aborted => db

/-- The operations in the order in which a starting server looks at them. -/
def startupQueue (db : Db) : List String :=
  ((db.operations.filter fun operation => operation.status = .started) ++
    db.operations.filter fun operation => operation.status = .prepared).map Operation.operationId

/-- How far the operation that holds the lock has come. -/
inductive Stage where
  | started
  | divergent
  | prepared
  | targeted
  | moved
  /-- An exception is on its way to the handler; `durability` says that it is the one that
  reports an uncertain repository. -/
  | failed (durability : Bool)
  deriving DecidableEq

structure Activity where
  operationId : String
  type : OperationType
  ref : Ref
  (expected target : Option String)
  /-- The commit that a merge or a restored note is taken from. -/
  second : Option String
  stage : Stage

inductive DeviceRelation where
  | initial
  | fastForward
  | superseded
  | divergent
  deriving DecidableEq

/-- How a metadata mutation ends: its content may be published although the store could not
confirm it, and the store then refuses to go on. -/
inductive Outcome where
  | persisted
  | failed
  | uncertain (published : Bool)

/-- How `update-ref` ends, where the ref has its expected value: it may fail, it may move the ref
and be synced or not, and it may move the ref and report a failure all the same. -/
inductive RefUpdate where
  | synced
  | unsynced
  | refused
  | misreported

structure RefMove where
  operationId : String
  ref : Ref
  previous : Option String
  target : String

structure State where
  db : Db
  refs : Ref → Option String
  activity : Option Activity := none
  /-- The store could not confirm its last publication. -/
  storeUncertain : Bool := false
  /-- The repository could not be synced. -/
  gitUncertain : Bool := false
  /-- The moves that no sync has followed; a power failure may undo any of them. -/
  unsynced : List RefMove := []
  /-- The operations that a starting server still has to look at. -/
  startup : List String := []
  /-- Every move of a ref. -/
  moves : List RefMove := []

inductive Label where
  | addDevice (deviceId : String)
  | addConflict (conflict : Conflict)
  | protectConflict (conflictId : String) (kind : ConflictRefKind) (succeeds : Bool)
  | startPush (operationId deviceId target : String) (expected : Option String) (outcome : Outcome)
  | rejectPush (outcome : Outcome)
  | finishExisting (outcome : Outcome)
  | preparePush (relation : DeviceRelation) (outcome : Outcome)
  | acceptDivergent (outcome : Outcome)
  | prepareMerge (operationId deviceId deviceCommit : String) (outcome : Outcome)
  | prepareResolve (operationId conflictId : String) (outcome : Outcome)
  | prepareRestore (operationId sourceCommit : String) (outcome : Outcome)
  | prepareSettings (operationId targetMain : String) (outcome : Outcome)
  | prepareNameRepair (operationId targetMain : String) (outcome : Outcome)
  | prepareRefresh (operationId conflictId : String) (outcome : Outcome)
  | recordTarget (commit : String) (outcome : Outcome)
  | raise (durability : Bool)
  | updateRef (update : RefUpdate)
  | commit (outcome : Outcome)
  | handle (answered : Bool) (outcome : Outcome)
  /-- The process stops. `lost` are the unsynced moves that a power failure undoes, if it was one. -/
  | restart (lost : RefMove → Bool)
  | populateRootCommit
  | reconcile

namespace State

variable (s : State)

/-- `mutate`, which tells whether it returned. -/
def mutate (outcome : Outcome) (f : Db → Db) : State × Bool :=
  if s.storeUncertain then (s, false) else
  match outcome with
  | .persisted => ({ s with db := f s.db }, true)
  | .failed => (s, false)
  | .uncertain published =>
    ({ s with db := if published then f s.db else s.db, storeUncertain := true }, false)

def leave : State := { s with activity := none }

variable (a : Activity)

def atStage (stage : Stage) : State :=
  { s with activity := some { a with stage } }

variable (outcome : Outcome)

/-- The mutation that adds an operation's row; the operation has no handler before it. -/
def begin (row : Operation) (a : Activity) : State :=
  let (s, returned) := s.mutate outcome fun db => { db with operations := db.operations ++ [row] }
  if returned then { s with activity := some a } else s

/-- A mutation inside the part of an operation that has a handler. -/
def advance (a : Activity) (stage : Stage) (f : Db → Db) : State :=
  let (s, returned) := s.mutate outcome f
  s.atStage a (if returned then stage else .failed false)

/-- Where an exception of the committing mutation goes: only a push handles it. -/
def escape : State :=
  if a.type = .devicePush then s.atStage a (.failed false) else s.leave

/-- The last mutation of an operation; `f` throws by returning nothing. -/
def finish (a : Activity) (f : Db → Option Db) : State :=
  match f s.db with
  | none => s.escape a
  | some db =>
    let (s, returned) := s.mutate outcome fun _ => db
    if returned then s.leave else s.escape a

/-- The server is up, no operation holds the lock, and the identifier is new. -/
def isIdle (operationId : String) : Bool :=
  s.activity.isNone && s.startup.isEmpty && !s.storeUncertain && !s.gitUncertain &&
    operationId ∉ s.db.operations.map Operation.operationId

def move (target : String) : State :=
  { s with
    refs := Function.update s.refs a.ref (some target)
    unsynced := s.unsynced ++ [⟨a.operationId, a.ref, s.refs a.ref, target⟩]
    moves := s.moves ++ [⟨a.operationId, a.ref, s.refs a.ref, target⟩] }

/-- `updateRef` within the handler's reach. It syncs the whole repository, and only where the
command has not failed. -/
def updateRef (target : String) (update : RefUpdate) : State :=
  if s.gitUncertain then s.atStage a (.failed true) else
  if s.refs a.ref ≠ a.expected then s.atStage a (.failed false) else
  match update with
  | .synced => { (s.move a target).atStage a .moved with unsynced := [] }
  | .unsynced => { (s.move a target).atStage a (.failed true) with gitUncertain := true }
  | .refused => s.atStage a (.failed false)
  | .misreported => (s.move a target).atStage a (.failed false)

/-- The handler of an operation that reads its ref again before it decides. `answered` is false
where the ref could not be read. -/
def reread (answered : Bool) (outcome : Outcome) : State :=
  let actual := if answered then s.refs a.ref else none
  if a.target.isSome && actual = a.target then s.atStage a .moved
  else if actual = a.expected then (s.mutate outcome fun db => db.abortOperation a.operationId).1.leave
  else (s.mutate outcome Db.blockVault).1.leave

/-- The handlers. A push, a resolution and a restored note are aborted whatever happened. -/
def handle (durability answered : Bool) (outcome : Outcome) : State :=
  match a.type with
  | .devicePush | .conflictResolve | .noteRestore =>
    (s.mutate outcome fun db => db.abortOperation a.operationId).1.leave
  | .serverMerge => if durability || s.gitUncertain then s.leave else s.reread a answered outcome
  | _ => if s.gitUncertain then s.leave else s.reread a answered outcome

end State

/-- The mutation that commits an operation. -/
def commitOperation (a : Activity) (db : Db) : Option Db :=
  match a.type, db.operations.find? (fun operation => operation.operationId = a.operationId),
      a.target with
  | .devicePush, some operation, some target =>
    match operation.deviceId with
    | some deviceId =>
      if deviceId ∈ db.devices.map Prod.fst then
        some ((db.setDeviceRefHead deviceId target).setStatus a.operationId .committed)
      else none
    | none => none
  | .serverMerge, some _, some target | .noteRestore, some _, some target =>
    some ((db.setCurrentMain target).setOperation a.operationId fun operation =>
      { operation with
        status := .committed, targetRefs := [(.main, some target)], targetCommit := some target })
  | .conflictResolve, some operation, some target =>
    match operation.manifest.conflictId.bind db.findConflict with
    | some conflict =>
      let db := db.setConflict conflict.conflictId fun conflict => { conflict with isOpen := false }
      some ((db.setCurrentMain target).setOperation a.operationId fun operation =>
        { operation with
          status := .committed, targetRefs := [(.main, some target)], targetCommit := some target })
    | none => none
  | .vaultSettings, some operation, _ =>
    match operation.manifest.targetMain with
    | some targetMain =>
      if operation.status = .prepared ∧ targetRef operation .main = some targetMain ∧
          operation.targetCommit = some targetMain then
        some ((db.setCurrentMain targetMain).setStatus a.operationId .committed)
      else none
    | none => none
  | .nameRepair, some operation, _ => commitPreparedNameRepair operation db
  | .conflictRefresh, some operation, _ =>
    match operation.manifest.conflictId.bind db.findConflict, operation.manifest.previousMain,
        operation.manifest.refreshedMain with
    | some conflict, some previousMain, some refreshedMain =>
      if !db.vault.blockedIntegrity ∧ operation.status = .prepared ∧ conflict.isOpen ∧
          conflict.currentMain = previousMain ∧ conflict.expectedMain = previousMain then
        some ((db.setConflict conflict.conflictId fun conflict =>
          { conflict with currentMain := refreshedMain, expectedMain := refreshedMain }).setStatus
            a.operationId .committed)
      else none
    | _, _, _ => none
  | _, _, _ => none

namespace State

variable (git : Git)

/-- Whether a push of `target` may go on to be prepared. An ancestry command that fails answers
no, so it leaves the push divergent. -/
def admits (current : Option String) (target : String) : DeviceRelation → Bool
  | .initial => current.isNone
  | .fastForward => current.any fun commit => git.isAncestor commit target
  | .divergent => current.isSome
  | .superseded => false

/-- The commits that an operation builds on its expected main: the device's own commit is taken
where it already is the merge. -/
def builds (a : Activity) (commit : String) : Bool :=
  match a.expected, a.second with
  | some main, some second =>
    git.parents commit = [main, second] || (a.type = .serverMerge && commit = second && git.parents second = [main])
  | _, _ => false

variable (s : State)

def recordTarget (a : Activity) (commit : String) (outcome : Outcome) : State :=
  s.advance outcome { a with target := some commit } .targeted fun db =>
    db.setOperation a.operationId fun operation =>
      { operation with
        targetRefs := [(.main, some commit)]
        targetCommit := some commit
        manifest := if a.type = .noteRestore then operation.manifest
          else { operation.manifest with targetRefs := [(.main, some commit)] } }

/-- An operation that knows its target main when it is prepared. -/
def prepareMain (type : OperationType) (operationId targetMain : String)
    (outcome : Outcome) : State :=
  let main := s.db.vault.currentMain
  s.begin outcome
    { operationId, type
      status := .prepared
      expectedRefs := [(.main, some main)]
      targetRefs := [(.main, some targetMain)]
      targetCommit := some targetMain
      manifest := {
        previousMain := some main
        targetMain := some targetMain
        targetRefs := [(.main, some targetMain)] } }
    { operationId, type
      ref := .main
      expected := some main
      target := some targetMain
      second := none
      stage := .targeted }

/-- The step of the operation that holds the lock. -/
def withActivity (f : Activity → Option State) : Option State := s.activity.bind f

def step : Label → Option State
  | .addDevice deviceId =>
    if deviceId ∉ s.db.devices.map Prod.fst ∧ s.refs (.device deviceId) = none then
      some { s with db := { s.db with devices := s.db.devices ++ [(deviceId, none)] } }
    else none
  | .addConflict conflict =>
    if (s.db.findConflict conflict.conflictId).isNone ∧ conflict.deviceId ∈ s.db.devices.map Prod.fst then
      some { s with db := { s.db with conflicts := s.db.conflicts ++ [conflict] } }
    else none
  | .protectConflict conflictId kind succeeds =>
    (s.db.findConflict conflictId).bind fun conflict =>
      let target := conflict.protectedCommit kind
      if succeeds ∧ s.refs (.conflict conflictId kind) = none then
        some { s with
          refs := Function.update s.refs (.conflict conflictId kind) (some target)
          unsynced := [] }
      else if succeeds ∧ s.refs (.conflict conflictId kind) = some target then some s
      else some (s.mutate .persisted Db.blockVault).1
  | .startPush operationId deviceId target expected outcome =>
    if s.isIdle operationId ∧ deviceId ∈ s.db.devices.map Prod.fst then
      some (s.begin outcome
        { operationId
          type := .devicePush
          deviceId := some deviceId
          status := .started
          expectedRefs := [(.device deviceId, expected)]
          targetRefs := [(.device deviceId, some target)]
          targetCommit := some target }
        { operationId
          type := .devicePush
          ref := .device deviceId
          expected := none
          target := some target
          second := none
          stage := .started })
    else none
  | .rejectPush outcome => s.withActivity fun a =>
    if a.stage = .started then
      some (s.finish outcome a fun db => some (db.abortOperation a.operationId))
    else none
  | .finishExisting outcome => s.withActivity fun a =>
    if a.stage = .started ∧ (s.refs a.ref).isSome then
      some (s.finish outcome a fun db => some (db.setStatus a.operationId .committed))
    else none
  | .preparePush relation outcome => s.withActivity fun a =>
    match a.target with
    | some target =>
      if a.stage = .started ∧ admits git (s.refs a.ref) target relation then
        some (s.advance outcome { a with expected := s.refs a.ref }
          (if relation = .divergent then .divergent else .targeted) fun db =>
            db.setOperation a.operationId fun operation =>
              { operation with status := .prepared, expectedRefs := [(a.ref, s.refs a.ref)] })
      else none
    | none => none
  | .acceptDivergent outcome => s.withActivity fun a =>
    if a.stage = .divergent then
      some (s.finish outcome a fun db => some (db.setStatus a.operationId .committed))
    else none
  | .prepareMerge operationId deviceId deviceCommit outcome =>
    match s.refs .main with
    | some main =>
      if s.isIdle operationId ∧ deviceId ∈ s.db.devices.map Prod.fst then
        some (s.begin outcome
          { operationId
            type := .serverMerge
            deviceId := some deviceId
            status := .prepared
            expectedRefs := [(.main, some main), (.device deviceId, some deviceCommit)]
            targetRefs := [(.main, none)] }
          { operationId
            type := .serverMerge
            ref := .main
            expected := some main
            target := none
            second := some deviceCommit
            stage := .prepared })
      else none
    | none => none
  | .prepareResolve operationId conflictId outcome =>
    (s.db.findConflict conflictId).bind fun conflict =>
      if s.isIdle operationId ∧ !s.db.vault.blockedIntegrity ∧ conflict.isOpen ∧
          conflict.deviceId ∈ s.db.devices.map Prod.fst then
        some (s.begin outcome
          { operationId
            type := .conflictResolve
            deviceId := some conflict.deviceId
            status := .prepared
            expectedRefs := [(.main, some s.db.vault.currentMain),
              (.device conflict.deviceId, some conflict.deviceCommit)]
            targetRefs := [(.main, none)]
            manifest := { conflictId := some conflictId } }
          { operationId
            type := .conflictResolve
            ref := .main
            expected := some s.db.vault.currentMain
            target := none
            second := some conflict.deviceCommit
            stage := .prepared })
      else none
  | .prepareRestore operationId sourceCommit outcome =>
    if s.isIdle operationId ∧ !s.db.vault.blockedIntegrity ∧ git.isAncestor sourceCommit s.db.vault.currentMain then
      some (s.begin outcome
        { operationId
          type := .noteRestore
          status := .prepared
          expectedRefs := [(.main, some s.db.vault.currentMain)]
          targetRefs := [(.main, none)] }
        { operationId
          type := .noteRestore
          ref := .main
          expected := some s.db.vault.currentMain
          target := none
          second := some sourceCommit
          stage := .prepared })
    else none
  | .prepareSettings operationId targetMain outcome =>
    if s.isIdle operationId ∧ git.parents targetMain = [s.db.vault.currentMain] then
      some (s.prepareMain .vaultSettings operationId targetMain outcome)
    else none
  | .prepareNameRepair operationId targetMain outcome =>
    if s.isIdle operationId ∧ !s.db.vault.blockedIntegrity ∧ git.parents targetMain = [s.db.vault.currentMain] then
      some (s.prepareMain .nameRepair operationId targetMain outcome)
    else none
  | .prepareRefresh operationId conflictId outcome =>
    (s.db.findConflict conflictId).bind fun conflict =>
      if s.isIdle operationId ∧ !s.db.vault.blockedIntegrity ∧ conflict.isOpen then
        if s.refs (.conflict conflictId .current) ≠ some conflict.expectedMain then
          some (s.mutate outcome Db.blockVault).1
        else if conflict.currentMain ≠ conflict.expectedMain then some s
        else
          let refreshedMain := s.db.vault.currentMain
          some (s.begin outcome
            { operationId
              type := .conflictRefresh
              deviceId := some conflict.deviceId
              status := .prepared
              expectedRefs := [(.conflict conflictId .current, some conflict.expectedMain)]
              targetRefs := [(.conflict conflictId .current, some refreshedMain)]
              targetCommit := some refreshedMain
              manifest := {
                conflictId := some conflictId
                previousMain := some conflict.expectedMain
                refreshedMain := some refreshedMain
                targetRefs := [(.conflict conflictId .current, some refreshedMain)] } }
            { operationId
              type := .conflictRefresh
              ref := .conflict conflictId .current
              expected := some conflict.expectedMain
              target := some refreshedMain
              second := none
              stage := .targeted })
      else none
  | .recordTarget commit outcome => s.withActivity fun a =>
    if a.stage = .prepared ∧ builds git a commit then some (s.recordTarget a commit outcome)
    else none
  | .raise durability => s.withActivity fun a =>
    if a.stage = .started ∨ a.stage = .divergent ∨ a.stage = .prepared ∨ a.stage = .targeted then
      some { s.atStage a (.failed durability) with gitUncertain := s.gitUncertain || durability }
    else none
  | .updateRef update => s.withActivity fun a =>
    match a.target with
    | some target => if a.stage = .targeted then some (s.updateRef a target update) else none
    | none => none
  | .commit outcome => s.withActivity fun a =>
    if a.stage = .moved then some (s.finish outcome a (commitOperation a)) else none
  | .handle answered outcome => s.withActivity fun a =>
    match a.stage with
    | .failed durability => some (s.handle a durability answered outcome)
    | _ => none
  | .restart lost =>
    some {
      db := s.db
      refs := fun ref => match s.unsynced.find? fun move => move.ref = ref && lost move with
        | some move => move.previous
        | none => s.refs ref
      -- What a power failure has left is on disk.
      unsynced := if s.unsynced.any lost then [] else s.unsynced
      startup := startupQueue s.db
      moves := s.moves }
  | .populateRootCommit =>
    if s.activity.isNone ∧ s.db.vault.rootCommit = none then
      (git.rootCommit s.db.vault.currentMain).map fun root =>
        { s with db := { s.db with vault := { s.db.vault with rootCommit := some root } } }
    else none
  | .reconcile =>
    match s.startup with
    | operationId :: startup =>
      let db := match s.db.operations.find? (fun operation => operation.operationId = operationId) with
        | some operation => reconcileOperation s.refs operation s.db
        | none => s.db
      some { s with db, startup }
    | [] => none

def run (s : State) : List Label → Option State
  | [] => some s
  | label :: labels => (s.step git label).bind fun s => s.run labels

end State

/-- A vault whose main branch is at `main`. Older servers did not record its root. -/
def State.start (main : String) (rootCommit : Option String) : State where
  db := {
    vault := { currentMain := main, rootCommit, blockedIntegrity := false }
    devices := []
    conflicts := []
    operations := [] }
  refs := fun ref => if ref = .main then some main else none

/-- A row is about one ref and names the same target wherever it names one. -/
structure Shape (operation : Operation) (ref : Ref) (target : Option String) : Prop where
  targetRefs : operation.targetRefs = [(ref, target)]
  manifestRefs : operation.manifest.targetRefs = [] ∨ operation.manifest.targetRefs = [(ref, target)]
  targetCommit : operation.targetCommit = target
  kind : match operation.type with
    | .devicePush => operation.deviceId.map Ref.device = some ref
    | .conflictRefresh => ref.isTracked = false
    | .vaultSettings | .nameRepair =>
      ref = .main ∧ target.isSome = true ∧ operation.manifest.targetMain = target ∧
        operation.manifest.previousMain = expectedRef operation .main ∧
        operation.manifest.previousMain.isSome = true
    | .serverMerge | .conflictResolve | .noteRestore => ref = .main
    | .conflictCreate | .gitMaintenance => False

/-- What the row refers to is there. -/
structure Known (db : Db) (operation : Operation) : Prop where
  device : operation.type ≠ .conflictRefresh → ∀ deviceId, operation.deviceId = some deviceId →
    deviceId ∈ db.devices.map Prod.fst
  conflict : operation.type = .conflictResolve →
    (operation.manifest.conflictId.bind db.findConflict).isSome = true ∧ operation.deviceId.isSome = true

section Rows
variable {operation : Operation} {ref : Ref} {target : Option String}

lemma Shape.unique (h : Shape operation ref target) {ref' : Ref} {target' : Option String}
    (h' : Shape operation ref' target') : ref' = ref ∧ target' = target := by
  have heq := h'.targetRefs.symm.trans h.targetRefs
  simpa using heq

lemma Shape.setStatus (h : Shape operation ref target) (status : OperationStatus) :
    Shape { operation with status } ref target :=
  { h with }

lemma Known.setStatus {db : Db} (h : Known db operation) (status : OperationStatus) :
    Known db { operation with status } :=
  { h with }

lemma Shape.targetRef_eq (h : Shape operation ref target) : targetRef operation ref = target := by
  simp [targetRef, h.targetRefs, valueAt]

/-- Recovery finds the target of the row, if it names one. -/
lemma Shape.recoverable (h : Shape operation ref target) :
    recoverableTargetRefs operation = target.toList.map fun commit => (ref, commit) := by
  have hrefs : addTargetRefs (addTargetRefs [] operation.targetRefs) operation.manifest.targetRefs
      = target.toList.map fun commit => (ref, commit) := by
    rw [h.targetRefs]
    cases target with
    | none => rcases h.manifestRefs with hman | hman <;> rw [hman] <;> rfl
    | some commit =>
      rcases h.manifestRefs with hman | hman <;>
        simp [hman, addTargetRefs, InsertionOrder.set]
  have hkind := h.kind
  unfold recoverableTargetRefs
  rw [hrefs, h.targetCommit]
  cases target with
  | none => cases operation.type <;> rfl
  | some commit =>
    cases htype : operation.type <;> simp only [htype] at hkind ⊢
    all_goals simp [hkind]

end Rows

/-- The part of the metadata that rows refer to only grows. -/
structure Grows (db db' : Db) : Prop where
  devices : ∀ deviceId ∈ db.devices.map Prod.fst, deviceId ∈ db'.devices.map Prod.fst
  conflicts : ∀ conflictId, (db.findConflict conflictId).isSome = true → (db'.findConflict conflictId).isSome = true

lemma Grows.refl (db : Db) : Grows db db := ⟨fun _ h => h, fun _ h => h⟩

variable {operation : Operation}

lemma Known.mono {db db' : Db} (h : Known db operation) (hgrows : Grows db db') : Known db' operation := by
  refine ⟨fun hne deviceId hdev => hgrows.devices _ (h.device hne deviceId hdev), fun htype => ?_⟩
  obtain ⟨hconf, hdev⟩ := h.conflict htype
  refine ⟨?_, hdev⟩
  cases hid : operation.manifest.conflictId with
  | none =>
    rw [hid] at hconf
    cases hconf
  | some conflictId =>
    rw [hid] at hconf
    exact hgrows.conflicts conflictId hconf

lemma Grows.setConflict (db : Db) (conflictId : String) {f : Conflict → Conflict}
    (hf : ∀ conflict, (f conflict).conflictId = conflict.conflictId) : Grows db (db.setConflict conflictId f) := by
  refine ⟨fun _ h => h, fun id hsome => ?_⟩
  simp only [Db.findConflict, List.find?_isSome] at hsome ⊢
  obtain ⟨conflict, hmem, hid⟩ := hsome
  refine ⟨_, mem_map_of_mem hmem, ?_⟩
  by_cases h : conflict.conflictId = conflictId
  · rw [if_pos h, hf]
    exact hid
  · rw [if_neg h]
    exact hid

lemma Grows.setDeviceRefHead (db : Db) (deviceId head : String) : Grows db (db.setDeviceRefHead deviceId head) := by
  refine ⟨fun id h => ?_, fun _ h => h⟩
  rw [Db.setDeviceRefHead, keys_set, mem_add]
  exact .inl h

/-- Rows have distinct identifiers, are well formed, and refer to what is there. -/
structure Rows (db : Db) : Prop where
  nodup : (db.operations.map Operation.operationId).Nodup
  shape : ∀ operation ∈ db.operations, ∃ ref target, Shape operation ref target
  known : ∀ operation ∈ db.operations, Known db operation

variable {f : Operation → Operation}

namespace Rows
variable {db db' : Db}

section
variable (h : Rows db) {operationId : String}
include h

lemma eq_of_id {a b : Operation} (ha : a ∈ db.operations)
    (hb : b ∈ db.operations) (hid : a.operationId = b.operationId) : a = b :=
  inj_on_of_nodup_map h.nodup ha hb hid

lemma find_eq (hmem : operation ∈ db.operations) (hid : operation.operationId = operationId) :
    db.operations.find? (fun row => row.operationId = operationId) = some operation := by
  cases hfind : db.operations.find? (fun row => row.operationId = operationId) with
  | none => simpa [hid] using List.find?_eq_none.mp hfind operation hmem
  | some row =>
    have hrow : row.operationId = operationId := by simpa using List.find?_some hfind
    rw [h.eq_of_id (mem_of_find?_eq_some hfind) hmem (hrow.trans hid.symm)]

lemma grow (hgrows : Grows db db') (hoper : db'.operations = db.operations) : Rows db' := by
  constructor
  · rw [hoper]
    exact h.nodup
  · rw [hoper]
    exact h.shape
  · rw [hoper]
    exact fun operation hmem => (h.known operation hmem).mono hgrows

lemma setOperation (hid : ∀ operation, (f operation).operationId = operation.operationId)
    (hf : ∀ operation ∈ db.operations, operation.operationId = operationId →
      (∃ ref target, Shape (f operation) ref target) ∧ Known db (f operation)) :
    Rows (db.setOperation operationId f) := by
  have hrow : ∀ operation : Operation,
      (if operation.operationId = operationId then f operation else operation).operationId
        = operation.operationId := by
    intro operation
    split
    · exact hid operation
    · rfl
  refine ⟨?_, ?_, ?_⟩
  · have hids : ((db.setOperation operationId f).operations.map Operation.operationId)
        = db.operations.map Operation.operationId := by
      rw [Db.setOperation, List.map_map]
      exact map_congr_left fun operation _ => hrow operation
    rw [hids]
    exact h.nodup
  · intro operation' hmem'
    obtain ⟨operation, hmem, rfl⟩ := mem_map.mp hmem'
    by_cases hid' : operation.operationId = operationId
    · rw [if_pos hid']
      exact (hf operation hmem hid').1
    · rw [if_neg hid']
      exact h.shape operation hmem
  · intro operation' hmem'
    obtain ⟨operation, hmem, rfl⟩ := mem_map.mp hmem'
    by_cases hid' : operation.operationId = operationId
    · rw [if_pos hid']
      exact { (hf operation hmem hid').2 with }
    · rw [if_neg hid']
      exact { h.known operation hmem with }

lemma setStatus (operationId : String) (status : OperationStatus) : Rows (db.setStatus operationId status) := by
  refine h.setOperation (fun _ => rfl) fun operation hmem _ => ?_
  obtain ⟨ref, target, hshape⟩ := h.shape operation hmem
  exact ⟨⟨ref, target, hshape.setStatus status⟩, (h.known operation hmem).setStatus status⟩

lemma abortOperation (operationId : String) : Rows (db.abortOperation operationId) := by
  refine h.setOperation (fun operation => ?_) fun operation hmem _ => ?_
  · split
    · rfl
    · rfl
  obtain ⟨ref, target, hshape⟩ := h.shape operation hmem
  split
  · exact ⟨⟨ref, target, hshape⟩, h.known operation hmem⟩
  · exact ⟨⟨ref, target, hshape.setStatus .aborted⟩, (h.known operation hmem).setStatus .aborted⟩

lemma append {row : Operation} {ref : Ref} {target : Option String}
    (hfresh : row.operationId ∉ db.operations.map Operation.operationId)
    (hshape : Shape row ref target) (hknown : Known db row) :
    Rows { db with operations := db.operations ++ [row] } := by
  have hmem : ∀ operation ∈ db.operations ++ [row], operation ∈ db.operations ∨ operation = row :=
    fun operation hmem => (mem_append.mp hmem).imp id mem_singleton.mp
  refine ⟨?_, ?_, ?_⟩
  · exact nodup_map_concat h.nodup hfresh
  · intro operation hop
    rcases hmem operation hop with hold | rfl
    · exact h.shape operation hold
    · exact ⟨ref, target, hshape⟩
  · intro operation hop
    rcases hmem operation hop with hold | rfl
    · exact { h.known operation hold with }
    · exact { hknown with }

end

end Rows

/-- The operation is committed and the metadata records its target. -/
structure Advanced (db db' : Db) (operationId : String) (ref : Ref) (target : String) : Prop where
  rows : Rows db'
  recorded : ∀ ref', ref'.isTracked = true →
    db'.recorded ref' = if ref' = ref then some target else db.recorded ref'
  operations : ∃ f : Operation → Operation, db'.operations = (db.setOperation operationId f).operations ∧
      ∀ operation, (f operation).operationId = operation.operationId ∧ (f operation).status = .committed
  rootCommit : db'.vault.rootCommit = db.vault.rootCommit
  blockedIntegrity : db'.vault.blockedIntegrity = db.vault.blockedIntegrity

section Commits
variable {db db' : Db} {operation : Operation} {operationId target : String} {ref : Ref}

lemma recorded_setCurrentMain (ref' : Ref) (hmain : ref = .main) (htrk : ref'.isTracked) :
    (db.setCurrentMain target).recorded ref' = if ref' = ref then some target else db.recorded ref' := by
  subst hmain
  cases ref' with
  | main | device => rfl
  | conflict conflictId kind => cases htrk

lemma recorded_setDeviceRefHead (deviceId : String) (ref' : Ref) (htrk : ref'.isTracked) :
    (db.setDeviceRefHead deviceId target).recorded ref'
      = if ref' = .device deviceId then some target else db.recorded ref' := by
  cases ref' with
  | main => rfl
  | device deviceId' =>
    by_cases h : deviceId' = deviceId
    · subst h
      rw [if_pos rfl]
      change (valueAt (set db.devices deviceId' (some target)) deviceId').join = some target
      rw [valueAt_set_self]
      rfl
    · rw [if_neg (fun heq => h (Ref.device.inj heq))]
      change (valueAt (set db.devices deviceId (some target)) deviceId').join = (valueAt db.devices deviceId').join
      rw [valueAt_set_of_ne _ _ h]
  | conflict conflictId kind => cases htrk

/-- A commit that records main and changes the row as `f` says. -/
lemma Advanced.main (h : Rows db)
    (hgrows : Grows db db') (hvault : db'.vault = db.vault) (hdevs : db'.devices = db.devices)
    (hoper : db'.operations = db.operations) (hid : ∀ operation, (f operation).operationId = operation.operationId)
    (hstat : ∀ operation, (f operation).status = .committed)
    (hf : ∀ operation ∈ db.operations, operation.operationId = operationId →
      (∃ ref target, Shape (f operation) ref target) ∧ Known db (f operation)) :
    Advanced db ((db'.setCurrentMain target).setOperation operationId f) operationId .main target := by
  have hrows : Rows (db'.setCurrentMain target) :=
    h.grow { hgrows with } hoper
  refine ⟨?_, fun ref' htrk => ?_, ⟨f, ?_, fun operation => ⟨hid operation, hstat operation⟩⟩, ?_, ?_⟩
  · refine hrows.setOperation hid fun operation hmem hop => ?_
    obtain ⟨hshape, hknown⟩ := hf operation (hoper ▸ hmem) hop
    exact ⟨hshape, hknown.mono { hgrows with }⟩
  · refine (recorded_setCurrentMain ref' rfl htrk).trans ?_
    cases ref' with
    | main => rfl
    | device deviceId =>
      change (valueAt db'.devices deviceId).join = (valueAt db.devices deviceId).join
      rw [hdevs]
    | conflict conflictId kind => cases htrk
  · simp [Db.setOperation, Db.setCurrentMain, hoper]
  · change db'.vault.rootCommit = _
    rw [hvault]
  · change db'.vault.blockedIntegrity = _
    rw [hvault]

lemma Advanced.setStatus (h : Rows db) (operationId target : String) :
    Advanced db ((db.setCurrentMain target).setStatus operationId .committed) operationId .main
      target := by
  refine Advanced.main h (.refl db) rfl rfl rfl (fun _ => rfl) (fun _ => rfl) fun operation hmem _ => ?_
  obtain ⟨ref, target, hshape⟩ := h.shape operation hmem
  exact ⟨⟨ref, target, hshape.setStatus .committed⟩, (h.known operation hmem).setStatus .committed⟩

lemma Advanced.device (h : Rows db) (operationId deviceId target : String) :
    Advanced db ((db.setDeviceRefHead deviceId target).setStatus operationId .committed) operationId
      (.device deviceId) target := by
  refine ⟨?_, fun ref' htrk => ?_,
    ⟨fun operation => { operation with status := .committed }, rfl, fun _ => ⟨rfl, rfl⟩⟩, rfl, rfl⟩
  · exact (h.grow (.setDeviceRefHead db deviceId target) rfl).setStatus operationId .committed
  · rw [← recorded_setDeviceRefHead deviceId ref' htrk]
    cases ref' <;> rfl

lemma Advanced.refresh (h : Rows db) (operationId conflictId target : String)
    (hconf : ref.isTracked = false) (main : String) : Advanced db ((db.setConflict conflictId fun conflict =>
      { conflict with currentMain := main, expectedMain := main }).setStatus operationId .committed)
      operationId ref target := by
  refine ⟨?_, fun ref' htrk => ?_,
    ⟨fun operation => { operation with status := .committed }, rfl, fun _ => ⟨rfl, rfl⟩⟩, rfl, rfl⟩
  · have hgrows := Grows.setConflict db conflictId
      (f := fun conflict => { conflict with currentMain := main, expectedMain := main }) fun _ => rfl
    exact (h.grow hgrows rfl).setStatus operationId .committed
  have hne : ref' ≠ ref := by
    rintro rfl
    rw [hconf] at htrk
    cases htrk
  rw [if_neg hne]
  cases ref' with
  | main | device => rfl
  | conflict conflictId kind => cases htrk

/-- The rows that a merge, a resolution or a restored note commits. -/
lemma Shape.commitMain (h : Shape operation .main (some target))
    (htype : operation.type = .serverMerge ∨ operation.type = .conflictResolve ∨
      operation.type = .noteRestore) : Shape { operation with
      status := .committed, targetRefs := [(.main, some target)], targetCommit := some target }
      .main (some target) := by
  refine ⟨rfl, h.manifestRefs, rfl, ?_⟩
  rcases htype with htype | htype | htype <;> simp only [htype]

lemma commitPreparedNameRepair_spec (h : Rows db) (hshape : Shape operation ref (some target))
    (htype : operation.type = .nameRepair) (hcmt : commitPreparedNameRepair operation db = some db') :
    Advanced db db' operation.operationId ref target := by
  have hkind := hshape.kind
  simp only [htype] at hkind
  obtain ⟨rfl, -, htgt, -, -⟩ := hkind
  unfold commitPreparedNameRepair at hcmt
  rw [htgt] at hcmt
  split at hcmt
  · rename_i previousMain targetMain _ heq
    cases heq
    split at hcmt
    · cases hcmt
      exact .setStatus h operation.operationId target
    · cases hcmt
  · cases hcmt

/-- What the live commit of an operation does. -/
lemma commitOperation_spec (h : Rows db) {a : Activity} (hmem : operation ∈ db.operations)
    (hid : operation.operationId = a.operationId) (htype : operation.type = a.type)
    (hshape : Shape operation a.ref (some target)) (htgt : a.target = some target)
    (hcmt : commitOperation a db = some db') : Advanced db db' a.operationId a.ref target := by
  have hkind := hshape.kind
  have hrow : ∀ other ∈ db.operations, other.operationId = a.operationId → other = operation :=
    fun other hother hid' => h.eq_of_id hother hmem (hid'.trans hid.symm)
  have hmain : a.ref = .main → (operation.type = .serverMerge ∨ operation.type = .conflictResolve ∨
      operation.type = .noteRestore) → ∀ other ∈ db.operations, other.operationId = a.operationId →
      (∃ ref commit, Shape { other with
        status := .committed, targetRefs := [(.main, some target)], targetCommit := some target }
        ref commit) ∧ Known db { other with
        status := .committed, targetRefs := [(.main, some target)], targetCommit := some target } := by
    intro href hmerge other hother hid'
    obtain rfl := hrow other hother hid'
    rw [href] at hshape
    exact ⟨⟨.main, some target, hshape.commitMain hmerge⟩, { h.known other hother with }⟩
  unfold commitOperation at hcmt
  rw [h.find_eq hmem hid, htgt, ← htype] at hcmt
  cases hcase : operation.type <;> simp only [hcase] at hcmt hkind hmain
  case devicePush =>
    split at hcmt
    · rename_i deviceId hdev
      split at hcmt
      · cases hcmt
        rw [hdev] at hkind
        rw [← some.inj hkind]
        exact .device h a.operationId deviceId target
      · cases hcmt
    · cases hcmt
  case serverMerge =>
    cases hcmt
    rw [hkind]
    exact .main h (.refl db) rfl rfl rfl (fun _ => rfl) (fun _ => rfl) (hmain hkind (by simp))
  case noteRestore =>
    cases hcmt
    rw [hkind]
    exact .main h (.refl db) rfl rfl rfl (fun _ => rfl) (fun _ => rfl) (hmain hkind (by simp))
  case conflictResolve =>
    split at hcmt
    · rename_i conflict _
      cases hcmt
      rw [hkind]
      exact .main h (.setConflict db conflict.conflictId fun _ => rfl) rfl rfl rfl (fun _ => rfl)
        (fun _ => rfl) (hmain hkind (by simp))
    · cases hcmt
  case vaultSettings =>
    obtain ⟨href, -, htarM, -, -⟩ := hkind
    rw [htarM] at hcmt
    obtain ⟨-, ⟨⟩⟩ := ite_none_right_eq_some.mp hcmt
    rw [href]
    exact .setStatus h a.operationId target
  case nameRepair =>
    rw [← hid]
    exact commitPreparedNameRepair_spec h hshape hcase hcmt
  case conflictRefresh =>
    split at hcmt
    · rename_i conflict previousMain refreshedMain _ _ _
      split at hcmt
      · cases hcmt
        exact .refresh h a.operationId conflict.conflictId target hkind refreshedMain
      · cases hcmt
    · cases hcmt

/-- What a restarted server makes of a prepared operation whose ref has its target. Only an
operation on a tracked ref that is recorded as the operation expects is sure to be committed. -/
lemma rollForward_spec (h : Rows db) (hmem : operation ∈ db.operations)
    (hshape : Shape operation ref (some target)) (hprep : operation.status = .prepared) :
    Advanced db (rollForwardPreparedOperation operation db) operation.operationId ref target ∨
      rollForwardPreparedOperation operation db = db.blockVault ∧
        (ref.isTracked → expectedRef operation ref ≠ db.recorded ref) := by
  have hkind := hshape.kind
  have hknown := h.known operation hmem
  unfold rollForwardPreparedOperation
  cases htype : operation.type <;> simp only [htype] at hkind ⊢
  case devicePush =>
    obtain ⟨deviceId, hdev, rfl⟩ := map_eq_some_iff.mp hkind
    have hfind : operation.targetRefs.find? (fun entry => entry.1.isDevice && entry.2.isSome)
        = some (.device deviceId, some target) := by
      rw [hshape.targetRefs]
      rfl
    rw [hfind, hdev]
    have hmem := hknown.device (by rw [htype]; exact OperationType.noConfusion) deviceId hdev
    simp only [hmem, if_true]
    exact .inl (.device h operation.operationId deviceId target)
  case serverMerge | noteRestore =>
    subst hkind
    rw [hshape.targetRef_eq]
    refine .inl (.main h (.refl db) rfl rfl rfl (fun _ => rfl) (fun _ => rfl) ?_)
    intro other hother hid
    obtain rfl := h.eq_of_id hother hmem hid
    refine ⟨⟨.main, some target, hshape.targetRefs, hshape.manifestRefs, rfl, ?_⟩, ?_⟩
    · simp [htype]
    · exact { hknown with }
  case conflictResolve =>
    subst hkind
    obtain ⟨hconf, hdev⟩ := hknown.conflict htype
    obtain ⟨deviceId, hdev⟩ := isSome_iff_exists.mp hdev
    have hrow : (operation.deviceId.bind (valueAt db.devices)).isSome = true := by
      rw [hdev, bind_some, isSome_iff_ne_none, ne_eq, valueAt_eq_none, not_not]
      exact hknown.device (by rw [htype]; exact OperationType.noConfusion) deviceId hdev
    rw [hshape.targetRef_eq]
    simp only [hconf, hrow, and_self, not_true_eq_false, and_false, if_false]
    refine .inl (.main h ?_ ?_ ?_ ?_ (fun _ => rfl) (fun _ => rfl) ?_)
    · split
      · exact .setConflict db _ fun _ => rfl
      · exact .refl db
    · split
      · rfl
      · rfl
    · split
      · rfl
      · rfl
    · split
      · rfl
      · rfl
    · intro other hother hid
      obtain rfl := h.eq_of_id hother hmem hid
      refine ⟨⟨.main, some target, hshape.targetRefs, hshape.manifestRefs, rfl, ?_⟩, ?_⟩
      · simp [htype]
      · exact { hknown with }
  case vaultSettings =>
    obtain ⟨rfl, -, htgt, hexp, hsome⟩ := hkind
    obtain ⟨previousMain, hprev⟩ := isSome_iff_exists.mp hsome
    rw [hprev] at hexp
    rw [hprev, htgt]
    simp only [hshape.targetRef_eq, hshape.targetCommit, ← hexp, and_self, and_true]
    split
    · exact .inl (.setStatus h operation.operationId target)
    rename_i hne
    refine .inr ⟨rfl, fun _ heq => hne ?_⟩
    exact (some.inj heq).symm
  case nameRepair =>
    cases hcmt : commitPreparedNameRepair operation db with
    | some db' => exact .inl (commitPreparedNameRepair_spec h hshape htype hcmt)
    | none =>
      obtain ⟨rfl, -, htgt, hexp, hsome⟩ := hkind
      obtain ⟨previousMain, hprev⟩ := isSome_iff_exists.mp hsome
      refine .inr ⟨rfl, fun _ heq => ?_⟩
      unfold commitPreparedNameRepair at hcmt
      rw [hprev] at hexp
      rw [hprev, htgt] at hcmt
      simp only [hshape.targetRef_eq, hshape.targetCommit, ← hexp, hprep, true_and, and_self, and_true] at hcmt
      split at hcmt
      · cases hcmt
      rename_i hne
      rw [← hexp] at heq
      exact hne (some.inj heq).symm
  case conflictRefresh =>
    have hblk : db.blockVault = db.blockVault ∧
        (ref.isTracked = true → expectedRef operation ref ≠ db.recorded ref) := by
      refine ⟨rfl, fun htrk => ?_⟩
      rw [hkind] at htrk
      cases htrk
    split
    · split
      · rename_i conflict _
        split
        · exact .inl (.refresh h operation.operationId _ target hkind _)
        · exact .inr hblk
      · exact .inr hblk
    · exact .inr hblk

/-- What a restarted server may make of an operation that was never committed. -/
lemma reconcile_cases (h : Rows db) (hmem : operation ∈ db.operations)
    (refs : Ref → Option String) (hshape : ∃ ref target, Shape operation ref target) :
    reconcileOperation refs operation db = db ∨
      (reconcileOperation refs operation db = db.abortOperation operation.operationId ∧
        (operation.status = .started ∨ operation.status = .prepared ∧
          ∀ ref target, Shape operation ref (some target) →
            refs ref ≠ some target ∧ refs ref = expectedRef operation ref)) ∨
      (reconcileOperation refs operation db = db.blockVault ∧ operation.status = .prepared ∧
        ∀ ref target, Shape operation ref (some target) → ref.isTracked →
          expectedRef operation ref ≠ db.recorded ref ∨
            refs ref ≠ some target ∧ refs ref ≠ expectedRef operation ref) ∨
      ∃ ref target, Shape operation ref (some target) ∧ operation.status = .prepared ∧ refs ref = some target ∧
        Advanced db (reconcileOperation refs operation db) operation.operationId ref target := by
  obtain ⟨ref, commit, hshape⟩ := hshape
  unfold reconcileOperation
  cases hstat : operation.status with
  | started => exact .inr (.inl ⟨rfl, .inl rfl⟩)
  | committed | aborted => exact .inl rfl
  | prepared =>
    simp only [hshape.recoverable]
    cases commit with
    | none =>
      have hnone : ∀ ref' target, ¬ Shape operation ref' (some target) := by
        intro ref' target h'
        cases (hshape.unique h').2
      simp only [toList_none, map_nil, if_true]
      split
      · exact .inr (.inl ⟨rfl, .inr ⟨trivial, fun ref' target h' => (hnone ref' target h').elim⟩⟩)
      · exact .inr (.inr (.inl ⟨rfl, trivial, fun ref' target h' => (hnone ref' target h').elim⟩))
    | some target =>
      simp only [toList_some, map_cons, map_nil, cons_ne_nil, if_false,
        all_cons, all_nil, Bool.and_true, decide_eq_true_eq]
      by_cases hmoved : refs ref = some target
      · rw [if_pos hmoved]
        rcases rollForward_spec h hmem hshape hstat with hadv | ⟨hblk, hexp⟩
        · exact .inr (.inr (.inr ⟨ref, target, hshape, trivial, hmoved, hadv⟩))
        refine .inr (.inr (.inl ⟨hblk, trivial, fun ref' target' h' htrk => .inl ?_⟩))
        obtain ⟨rfl, -⟩ := hshape.unique h'
        exact hexp htrk
      · rw [if_neg hmoved]
        by_cases hcur : refs ref = expectedRef operation ref
        · rw [if_pos hcur]
          refine .inr (.inl ⟨rfl, .inr ⟨trivial, fun ref' target' h' => ?_⟩⟩)
          obtain ⟨rfl, heq⟩ := hshape.unique h'
          cases heq
          exact ⟨hmoved, hcur⟩
        · rw [if_neg hcur]
          refine .inr (.inr (.inl ⟨rfl, trivial, fun ref' target' h' _ => .inr ?_⟩))
          obtain ⟨rfl, heq⟩ := hshape.unique h'
          cases heq
          exact ⟨hmoved, hcur⟩

end Commits

end RefMoves
