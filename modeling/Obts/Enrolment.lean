import Obts.LoginThrottle
import Obts.Metadata

/-!
# Enrolling devices

Connections, by which a plugin asks to be enrolled as a device: they are created, approved or
denied by a user, expire lazily, and are completed with the secret that the plugin holds. A
completion reads the metadata several times, creates the repository of a new vault, and only then
enters the mutation that enrols the device, so any number of completions may be under way.

Hashing is a library's. Root ignore policies, proposals and rate limits only ever refuse, which a
request may do at any time.
-/
namespace Enrolment

open LoginThrottle (User Call)
open Metadata (VaultStatus)

structure Crypto where
  hashToken : String → String
  deriveDeviceToken : String → String → String
  verifyPassword : String → String → Bool

inductive ConnectionStatus where
  | pending
  | approved
  | denied
  | expired
  | consumed
  deriving DecidableEq

inductive Selection where
  | newVault
  | existingVault
  deriving DecidableEq

inductive OnboardingMode where
  | initializing
  | useServer
  | merge
  deriving DecidableEq

structure Connection where
  (connectionId secretHash credentialSalt : String)
  status : ConnectionStatus
  proposedDeviceName : String
  approvedUserId : Option String := none
  selection : Option Selection := none
  selectedVaultId : Option String := none
  newVaultDisplayName : Option String := none
  expectedMain : Option String := none
  createdDeviceId : Option String := none
  consumedAt : Option Int := none
  expiresAt : Int
  deriving DecidableEq

structure Vault where
  (vaultId ownerUserId displayName : String)
  status : VaultStatus
  rootCommit : Option String
  currentMain : String

structure Device where
  (deviceId vaultId userId deviceName : String)
  onboardingMode : OnboardingMode
  onboardingConnectionId : String
  revokedAt : Option Int

/-- A device's token. -/
structure Token where
  (tokenId tokenHash userId vaultId deviceId : String)
  revokedAt : Option Int

structure Db where
  accounts : LoginThrottle.Db
  vaults : List Vault
  devices : List Device
  tokens : List Token
  connections : List Connection
  (deletionJobs deletionReceipts : List String)

structure CompleteRequest where
  mode : OnboardingMode
  expectedMain : Option String

structure CompleteResponse where
  (userId vaultId rootCommit currentMain deviceId deviceToken : String)
  mode : OnboardingMode
  deriving DecidableEq

/-- A device that was enrolled, with the connection's row before it was. -/
structure Enrolled where
  connection : Connection
  vault : Vault
  isNewVault : Bool
  device : Device
  token : Token
  at_ : Int

def pendingConnectionTtlMs : Int := 10 * 60 * 1000
def approvedConnectionTtlMs : Int := 60 * 60 * 1000

namespace Db

variable (db : Db)

def setConnection (connectionId : String) (f : Connection → Connection) : Db :=
  { db with connections := db.connections.map fun connection =>
      if connection.connectionId = connectionId then f connection else connection }

def findVault (vaultId : String) : Option Vault :=
  db.vaults.find? fun vault => vault.vaultId = vaultId

def findDevice (deviceId : String) : Option Device :=
  db.devices.find? fun device => device.deviceId = deviceId

def findUser (userId : String) : Option User :=
  db.accounts.users.find? fun user => user.userId = userId

def hasDurableDeletionRecord (vaultId : String) : Bool :=
  db.vaults.any (fun vault => vault.vaultId = vaultId && vault.status = .deleting) ||
    db.deletionJobs.contains vaultId || db.deletionReceipts.contains vaultId

end Db

/-- What `expireConnections` makes of a row. -/
def Connection.expire (now : Int) (connection : Connection) : Connection :=
  if (connection.status = .pending ∨ connection.status = .approved) ∧ connection.expiresAt ≤ now then
    { connection with status := .expired }
  else connection

def expireConnections (now : Int) (db : Db) : Db :=
  { db with connections := db.connections.map (Connection.expire now) }

/-- What `authenticatedConnection` makes of the row that it finds. -/
def Connection.refresh (now : Int) (connection : Connection) : Connection :=
  if connection.status ≠ .consumed ∧ connection.expiresAt ≤ now then
    { connection with status := .expired }
  else connection

section Requests
variable (crypto : Crypto) (now : Int) (db : Db)

def authenticatedConnection (connectionId secret : String) : Option Connection :=
  (db.connections.find? fun connection =>
    connection.connectionId = connectionId && connection.secretHash = crypto.hashToken secret).map
      (Connection.refresh now)

def create (connectionId secret credentialSalt deviceName : String) (db : Db) : Db :=
  let db := expireConnections now db
  { db with connections := db.connections ++ [{
      connectionId
      secretHash := crypto.hashToken secret
      credentialSalt
      status := .pending
      proposedDeviceName := deviceName
      expiresAt := now + pendingConnectionTtlMs }] }

/-- The mutation of a status request, a bootstrap or a review. -/
def status (connectionId : Option String) (db : Db) : Db :=
  let db := expireConnections now db
  match connectionId with
  | some connectionId => db.setConnection connectionId (Connection.refresh now)
  | none => db

/-- What a user approves: the name of a new vault, or one of their vaults. -/
inductive Approval where
  | newVault (displayName : String)
  | existingVault (vaultId : String)

def approve (connectionId userId : String) (approval : Approval) (db : Db) : Option Db :=
  let db := expireConnections now db
  match db.connections.find? fun connection => connection.connectionId = connectionId with
  | none => none
  | some connection =>
    if connection.status ≠ .pending then none else
    match approval with
    | .existingVault vaultId =>
      match db.vaults.find? fun vault => vault.vaultId = vaultId && vault.ownerUserId = userId with
      | none => none
      | some vault =>
        if vault.status ≠ .active then none else
        some (db.setConnection connectionId fun connection => { connection with
          selectedVaultId := some vault.vaultId
          expectedMain := some vault.currentMain
          newVaultDisplayName := none
          status := .approved
          approvedUserId := some userId
          selection := some .existingVault
          expiresAt := now + approvedConnectionTtlMs })
    | .newVault displayName =>
      if displayName.isEmpty then none else
      some (db.setConnection connectionId fun connection => { connection with
        selectedVaultId := none
        expectedMain := none
        newVaultDisplayName := some displayName
        status := .approved
        approvedUserId := some userId
        selection := some .newVault
        expiresAt := now + approvedConnectionTtlMs })

def deny (connectionId userId : String) (db : Db) : Option Db :=
  match db.connections.find? fun connection => connection.connectionId = connectionId with
  | none => none
  | some connection =>
    if connection.status ≠ .pending then none else
    some (db.setConnection connectionId fun connection =>
      { connection with status := .denied, approvedUserId := some userId })

def enabledAdminCount (exceptUserId : String) : Nat :=
  (db.accounts.users.filter fun user =>
    user.isAdmin && !user.disabled && user.userId ≠ exceptUserId).length

def revokeUserAuth (userId : String) (db : Db) : Db :=
  { db with
    accounts := { db.accounts with sessions := db.accounts.sessions.map fun session =>
      if session.userId = userId ∧ session.revokedAt = none then
        { session with revokedAt := some now }
      else session }
    tokens := db.tokens.map fun token =>
      if token.userId = userId ∧ token.revokedAt = none then { token with revokedAt := some now }
      else token
    devices := db.devices.map fun device =>
      if device.userId = userId ∧ device.revokedAt = none then
        { device with revokedAt := some now }
      else device }

def setUserDisabled (actorUserId targetUserId : String) (disabled : Bool) (db : Db) : Option Db :=
  match db.findUser actorUserId, db.findUser targetUserId with
  | some actor, some target =>
    if actor.disabled || !actor.isAdmin then none
    else if disabled && target.isAdmin && enabledAdminCount db targetUserId = 0 then none
    else
      let db := { db with accounts := LoginThrottle.setUser db.accounts targetUserId fun user =>
        { user with disabled } }
      if disabled then
        let db := revokeUserAuth now targetUserId db
        some { db with connections := db.connections.map fun connection =>
          if connection.approvedUserId = some targetUserId ∧ connection.status = .approved then
            { connection with status := .denied }
          else connection }
      else some db
  | _, _ => none

def responseFor (vault : Vault) (device : Device) (deviceToken : String) : Option CompleteResponse :=
  vault.rootCommit.map fun rootCommit =>
    { userId := device.userId
      vaultId := vault.vaultId
      rootCommit
      currentMain := vault.currentMain
      deviceId := device.deviceId
      deviceToken
      mode := device.onboardingMode }

/-- The rows of a completion that was made, where they still belong together. -/
def existingCompletion (connectionId secret deviceToken : String) : Option (Option CompleteResponse) :=
  match authenticatedConnection crypto now db connectionId secret with
  | none => none
  | some connection =>
    if connection.status ≠ .consumed then some none else
    match connection.createdDeviceId.bind db.findDevice with
    | none => none
    | some device =>
      match db.findVault device.vaultId with
      | none => none
      | some vault =>
        if vault.status = .active ∧ db.hasDurableDeletionRecord vault.vaultId = false ∧
            db.tokens.any (fun token => token.deviceId = device.deviceId &&
              token.vaultId = vault.vaultId && token.userId = device.userId &&
              token.revokedAt = none && token.tokenHash = crypto.hashToken deviceToken) ∧
            (db.findUser device.userId).any (fun owner => !owner.disabled) ∧
            device.revokedAt = none ∧ device.userId = vault.ownerUserId ∧
            connection.approvedUserId = some device.userId ∧
            device.onboardingConnectionId = connectionId ∧
            (connection.selection = some .existingVault → connection.selectedVaultId = some vault.vaultId) then
          (responseFor vault device deviceToken).map some
        else none

/-- A connection that may be completed, as a completion finds it. -/
def approvedConnection (connectionId secret : String) : Option Connection :=
  (authenticatedConnection crypto now db connectionId secret).filter fun connection =>
    connection.status = .approved && connection.approvedUserId.isSome && connection.selection.isSome

variable (connection : Connection)

/-- What an existing vault offers to the completion of its connection. -/
def existingRootCommit (request : CompleteRequest) : Option (String × String) :=
  match connection.selectedVaultId, connection.approvedUserId with
  | some vaultId, some userId =>
    match db.vaults.find? fun vault => vault.vaultId = vaultId && vault.ownerUserId = userId with
    | none => none
    | some vault =>
      if vault.status = .active ∧ request.expectedMain = connection.expectedMain then
        vault.rootCommit.map fun rootCommit => (vaultId, rootCommit)
      else none
  | _, _ => none

/-- The vault that a completion enrols into, and the vaults with it. -/
def targetVault (vaultId rootCommit : String) : Option (Vault × List Vault) :=
  match db.findVault vaultId with
  | some vault =>
    if some vault.ownerUserId ≠ connection.approvedUserId ∨ vault.status ≠ .active then none
    else some (vault, db.vaults)
  | none =>
    match connection.approvedUserId, connection.newVaultDisplayName with
    | some ownerUserId, some displayName =>
      let vault : Vault := {
        vaultId
        ownerUserId
        displayName
        status := .active
        rootCommit := some rootCommit
        currentMain := rootCommit }
      some (vault, db.vaults ++ [vault])
    | _, _ => none

/-- The rows that enrol a device into a vault. -/
def enrol (vault : Vault) (mode : OnboardingMode)
    (deviceToken deviceId tokenId : String) (db : Db) : Db × Device × Token :=
  let device : Device := {
    deviceId
    vaultId := vault.vaultId
    userId := vault.ownerUserId
    deviceName := connection.proposedDeviceName
    onboardingMode := mode
    onboardingConnectionId := connection.connectionId
    revokedAt := none }
  let token : Token := {
    tokenId
    tokenHash := crypto.hashToken deviceToken
    userId := vault.ownerUserId
    vaultId := vault.vaultId
    deviceId
    revokedAt := none }
  let db := db.setConnection connection.connectionId fun connection => { connection with
    status := .consumed
    selectedVaultId := some vault.vaultId
    createdDeviceId := some deviceId
    consumedAt := some now }
  ({ db with devices := db.devices ++ [device], tokens := db.tokens ++ [token] }, device, token)

/-- The mutation that enrols the device. -/
def completeConnection (connectionId secret vaultId rootCommit : String)
    (mode : OnboardingMode) (deviceToken deviceId tokenId : String) (db : Db) : Option (Db × Enrolled) :=
  match authenticatedConnection crypto now db connectionId secret with
  | none => none
  | some connection =>
    if connection.status ≠ .approved ∨ db.hasDurableDeletionRecord vaultId = true then none
    else (targetVault db connection vaultId rootCommit).map fun (vault, vaults) =>
      let (db', device, token) :=
        enrol crypto now connection vault mode deviceToken deviceId tokenId { db with vaults }
      (db', { connection, vault, isNewVault := (db.findVault vaultId).isNone, device, token, at_ := now })

/-- The rows as they are read after the mutation. -/
def authoritativeCompletion (connection : Connection) (vaultId deviceId tokenId
    deviceToken : String) : Option CompleteResponse :=
  match db.findVault vaultId, db.findDevice deviceId,
      db.tokens.find? fun token => token.tokenId = tokenId with
  | some vault, some device, some token =>
    if db.hasDurableDeletionRecord vaultId = false ∧ vault.status = .active ∧
        some vault.ownerUserId = connection.approvedUserId ∧ device.vaultId = vaultId ∧
        some device.userId = connection.approvedUserId ∧ device.revokedAt = none ∧
        token.vaultId = vaultId ∧ token.deviceId = deviceId ∧
        some token.userId = connection.approvedUserId ∧ token.revokedAt = none then
      responseFor vault device deviceToken
    else none
  | _, _, _ => none

end Requests

/-- How far a completion has come. -/
inductive Stage where
  | started
  | salted (deviceToken : String)
  /-- The connection was not consumed when it was looked up. -/
  | unused (deviceToken : String)
  | existing (response : CompleteResponse)
  /-- The identifier of a new vault is reserved. -/
  | reserved (deviceToken : String) (connection : Connection) (vaultId : String)
  | ready (deviceToken : String) (connection : Connection) (vaultId rootCommit : String)
  | enrolled (deviceToken : String) (connection : Connection) (vaultId deviceId tokenId : String)
  deriving DecidableEq

structure Completion where
  (requestId connectionId secret : String)
  request : CompleteRequest
  stage : Stage

/-- A request for a new vault, which has its repository once it knows the root commit. -/
structure Creation where
  (requestId userId displayName vaultId : String)
  rootCommit : Option String

/-- How `initializeVault` ends: it may fail and leave a repository behind. -/
inductive Initialization where
  | initialized (rootCommit : String)
  | failed (left : Bool)

/-- An approval that was committed. -/
structure Approved where
  (connectionId userId : String)
  approval : Approval

/-- An answer to a completion. -/
structure Answered where
  (connectionId secret : String)
  response : CompleteResponse

structure State where
  db : Db
  now : Int
  repositories : List String
  completions : List Completion := []
  creations : List Creation := []
  approvals : List Approved := []
  enrolments : List Enrolled := []
  answers : List Answered := []

inductive Label where
  | tick (ms : Nat)
  | create (connectionId secret credentialSalt deviceName : String)
  | status (connectionId : Option String)
  | expire (connectionId : String)
  | approve (connectionId userId : String) (approval : Approval)
  | deny (connectionId userId : String)
  | setUserDisabled (actorUserId targetUserId : String) (disabled : Bool)
  | setupInitialAdmin (user : User) (sessionId csrfToken : String)
  | createUser (user : User)
  | login (call : Call) (sessionId csrfToken : String)
  | reauthenticate (call : Call) (sessionId : Option String)
  | logout (sessionId : String)
  | revokeDevice (deviceId : String)
  | changeVault (vaultId : String) (status : VaultStatus) (currentMain : String)
  | complete (requestId connectionId secret : String) (request : CompleteRequest)
  | readSalt (requestId : String)
  | readExisting (requestId : String)
  | replay (requestId : String)
  | plan (requestId vaultId : String)
  | initializeRepository (requestId : String) (initialization : Initialization)
  | commit (requestId deviceId tokenId : String) (persisted : Bool)
  | answer (requestId : String)
  | abandon (requestId : String)
  | createVault (requestId userId displayName vaultId : String)
  | initializeVault (requestId : String) (initialization : Initialization)
  | commitVault (requestId : String) (persisted : Bool)
  | abandonVault (requestId : String)
  | restart

def metadataVaultIds (db : Db) : List String :=
  db.vaults.map Vault.vaultId ++ db.deletionJobs ++ db.deletionReceipts

/-- The vault that a completion holds reserved until it ends. -/
def Completion.reservation (completion : Completion) : Option String :=
  match completion.stage with
  | .reserved _ _ vaultId => some vaultId
  | .ready _ connection vaultId _ | .enrolled _ connection vaultId _ _ =>
    if connection.selection = some .newVault then some vaultId else none
  | _ => none

namespace State

variable (s : State)

/-- `vaultCreationReservations`: a reservation is made before the repository and released when the
request ends. -/
def reservations : List String :=
  s.completions.filterMap Completion.reservation ++ s.creations.map Creation.vaultId

def listVaultRepositoryIds : List String :=
  s.repositories.filter fun vaultId => !s.reservations.contains vaultId

/-- `checkPersistentState` finds a repository that is missing from the metadata. -/
def hasUnknownRepository : Bool :=
  s.listVaultRepositoryIds.any fun vaultId => !(metadataVaultIds s.db).contains vaultId

variable (requestId : String)

def withCompletion (f : Completion → Option State) : Option State :=
  (s.completions.find? fun completion => completion.requestId = requestId).bind f

def withCreation (f : Creation → Option State) : Option State :=
  (s.creations.find? fun creation => creation.requestId = requestId).bind f

/-- A completion goes on. -/
def advance (stage : Stage) : State :=
  { s with completions := s.completions.map fun completion =>
      if completion.requestId = requestId then { completion with stage } else completion }

/-- A completion ends, by an answer or by an exception. -/
def drop : State :=
  { s with completions := s.completions.filter fun completion => completion.requestId ≠ requestId }

def respond (completion : Completion) (response : CompleteResponse) : State :=
  { s.drop completion.requestId with
    answers := s.answers ++ [⟨completion.connectionId, completion.secret, response⟩] }

def isNewVaultId (vaultId : String) : Bool :=
  !(metadataVaultIds s.db).contains vaultId && !s.repositories.contains vaultId && !s.reservations.contains vaultId

variable (crypto : Crypto)

/-- What a completion whose connection is unused does next. -/
def plan (s : State) (completion : Completion) (deviceToken vaultId : String) : Option State :=
  match approvedConnection crypto s.now s.db completion.connectionId completion.secret with
  | none => some (s.drop completion.requestId)
  | some connection =>
    if connection.selection = some .newVault then
      if completion.request.mode = .merge then some (s.drop completion.requestId)
      else if s.isNewVaultId vaultId then
        some (s.advance completion.requestId (.reserved deviceToken connection vaultId))
      else none
    else
      match existingRootCommit s.db connection completion.request with
      | none => some (s.drop completion.requestId)
      | some (vaultId, rootCommit) =>
        some (s.advance completion.requestId (.ready deviceToken connection vaultId rootCommit))

/-- The mutation of a completion, with fresh identifiers. -/
def commit (s : State) (completion : Completion) (deviceToken : String) (connection : Connection)
    (vaultId rootCommit deviceId tokenId : String) (persisted : Bool) : State :=
  match persisted, completeConnection crypto s.now completion.connectionId completion.secret vaultId
      rootCommit completion.request.mode deviceToken deviceId tokenId s.db with
  | true, some (db, enrolled) =>
    { s.advance completion.requestId (.enrolled deviceToken connection vaultId deviceId tokenId) with
      db
      enrolments := s.enrolments ++ [enrolled] }
  | _, _ => s.drop completion.requestId

def step (s : State) : Label → Option State
  | .tick ms => some { s with now := s.now + ms }
  | .create connectionId secret credentialSalt deviceName =>
    if connectionId ∉ s.db.connections.map Connection.connectionId then
      some { s with db := create crypto s.now connectionId secret credentialSalt deviceName s.db }
    else none
  | .status connectionId => some { s with db := status s.now connectionId s.db }
  | .expire connectionId =>
    some { s with db := s.db.setConnection connectionId (Connection.refresh s.now) }
  | .approve connectionId userId approval =>
    (approve s.now connectionId userId approval s.db).map fun db =>
      { s with
        db
        approvals := s.approvals ++ [⟨connectionId, userId, approval⟩] }
  | .deny connectionId userId =>
    (deny connectionId userId s.db).map fun db => { s with db }
  | .setUserDisabled actorUserId targetUserId disabled =>
    (setUserDisabled s.now actorUserId targetUserId disabled s.db).map fun db => { s with db }
  | .setupInitialAdmin user sessionId csrfToken =>
    if s.db.accounts.users = [] ∧ user.disabled = false then
      some { s with db := { s.db with accounts := { s.db.accounts with
        users := [user]
        sessions := s.db.accounts.sessions ++
          [LoginThrottle.createSession user.userId sessionId csrfToken s.now] } } }
    else none
  | .createUser user =>
    if user.userId ∉ s.db.accounts.users.map User.userId ∧ user.disabled = false then
      some { s with db := { s.db with accounts := { s.db.accounts with
        users := s.db.accounts.users ++ [user] } } }
    else none
  | .login call sessionId csrfToken =>
    some { s with db := { s.db with accounts :=
      (LoginThrottle.login crypto.verifyPassword call sessionId csrfToken s.db.accounts).db } }
  | .reauthenticate call sessionId =>
    some { s with db := { s.db with accounts :=
      (LoginThrottle.reauthenticateSession crypto.verifyPassword call sessionId s.db.accounts).db } }
  | .logout sessionId =>
    some { s with db := { s.db with accounts := { s.db.accounts with
      sessions := s.db.accounts.sessions.map fun session =>
        if session.sessionId = sessionId then { session with revokedAt := some s.now }
        else session } } }
  | .revokeDevice deviceId =>
    some { s with db := { s.db with
      devices := s.db.devices.map fun device =>
        if device.deviceId = deviceId then
          { device with revokedAt := some (device.revokedAt.getD s.now) }
        else device
      tokens := s.db.tokens.map fun token =>
        if token.deviceId = deviceId ∧ token.revokedAt = none then
          { token with revokedAt := some s.now }
        else token } }
  | .changeVault vaultId status currentMain =>
    some { s with db := { s.db with vaults := s.db.vaults.map fun vault =>
      if vault.vaultId = vaultId then { vault with status, currentMain } else vault } }
  | .complete requestId connectionId secret request =>
    if requestId ∉ s.completions.map Completion.requestId then
      some { s with completions := s.completions ++
        [{ requestId, connectionId, secret, request, stage := .started }] }
    else none
  | .readSalt requestId => s.withCompletion requestId fun completion =>
    if completion.stage = .started then
      match authenticatedConnection crypto s.now s.db completion.connectionId completion.secret with
      | some connection => some (s.advance requestId
          (.salted (crypto.deriveDeviceToken completion.secret connection.credentialSalt)))
      | none => some (s.drop requestId)
    else none
  | .readExisting requestId => s.withCompletion requestId fun completion =>
    match completion.stage with
    | .salted deviceToken =>
      match existingCompletion crypto s.now s.db completion.connectionId completion.secret
          deviceToken with
      | some (some response) => some (s.advance requestId (.existing response))
      | some none => some (s.advance requestId (.unused deviceToken))
      | none => some (s.drop requestId)
    | _ => none
  | .replay requestId => s.withCompletion requestId fun completion =>
    match completion.stage with
    | .existing response =>
      match s.db.findVault response.vaultId,
          authenticatedConnection crypto s.now s.db completion.connectionId completion.secret with
      | some _, some connection =>
        if completion.request.mode = response.mode ∧ completion.request.expectedMain = connection.expectedMain then
          some (s.respond completion response)
        else some (s.drop requestId)
      | _, _ => some (s.drop requestId)
    | _ => none
  | .plan requestId vaultId => s.withCompletion requestId fun completion =>
    match completion.stage with
    | .unused deviceToken => s.plan crypto completion deviceToken vaultId
    | _ => none
  | .initializeRepository requestId initialization => s.withCompletion requestId fun completion =>
    match completion.stage with
    | .reserved deviceToken connection vaultId =>
      match initialization with
      | .initialized rootCommit => some
          { s.advance requestId (.ready deviceToken connection vaultId rootCommit) with
            repositories := s.repositories ++ [vaultId] }
      | .failed left => some
          { s.drop requestId with
            repositories := if left then s.repositories ++ [vaultId] else s.repositories }
    | _ => none
  | .commit requestId deviceId tokenId persisted => s.withCompletion requestId fun completion =>
    match completion.stage with
    | .ready deviceToken connection vaultId rootCommit =>
      if deviceId ∉ s.db.devices.map Device.deviceId ∧ tokenId ∉ s.db.tokens.map Token.tokenId then
        some (s.commit crypto completion deviceToken connection vaultId rootCommit deviceId tokenId persisted)
      else none
    | _ => none
  | .answer requestId => s.withCompletion requestId fun completion =>
    match completion.stage with
    | .enrolled deviceToken connection vaultId deviceId tokenId =>
      match authoritativeCompletion s.db connection vaultId deviceId tokenId deviceToken with
      | some response => some (s.respond completion response)
      | none => some (s.drop requestId)
    | _ => none
  | .abandon requestId => s.withCompletion requestId fun _ => some (s.drop requestId)
  | .createVault requestId userId displayName vaultId =>
    if requestId ∉ s.creations.map Creation.requestId ∧ s.isNewVaultId vaultId then
      some { s with creations := s.creations ++
        [{ requestId, userId, displayName, vaultId, rootCommit := none }] }
    else none
  | .initializeVault requestId initialization => s.withCreation requestId fun creation =>
    if creation.rootCommit = none then
      match initialization with
      | .initialized rootCommit => some { s with
          creations := s.creations.map fun creation =>
            if creation.requestId = requestId then { creation with rootCommit := some rootCommit }
            else creation
          repositories := s.repositories ++ [creation.vaultId] }
      | .failed left => some { s with
          creations := s.creations.filter fun creation => creation.requestId ≠ requestId
          repositories := if left then s.repositories ++ [creation.vaultId] else s.repositories }
    else none
  | .commitVault requestId persisted => s.withCreation requestId fun creation =>
    creation.rootCommit.map fun rootCommit =>
      { s with
        db := if persisted then
            { s.db with vaults := s.db.vaults ++ [{
                vaultId := creation.vaultId
                ownerUserId := creation.userId
                displayName := creation.displayName
                status := .active
                rootCommit := some rootCommit
                currentMain := rootCommit }] }
          else s.db
        creations := s.creations.filter fun creation => creation.requestId ≠ requestId }
  | .abandonVault requestId => s.withCreation requestId fun _ => some { s with
      creations := s.creations.filter fun creation => creation.requestId ≠ requestId }
  | .restart => some { s with completions := [], creations := [] }

def run (s : State) : List Label → Option State
  | [] => some s
  | label :: labels => (s.step crypto label).bind fun s => s.run labels

/-- A server whose repositories are those that its metadata knows. -/
def start (accounts : LoginThrottle.Db) (vaults : List Vault) (deletionJobs deletionReceipts : List String)
    (now : Int) : State where
  db := {
    accounts
    vaults
    devices := []
    tokens := []
    connections := []
    deletionJobs
    deletionReceipts }
  now
  repositories := vaults.map Vault.vaultId ++ deletionJobs

end State

end Enrolment
