import Obts.Enrolment
import Obts.InsertionOrder
import Obts.LabelledRuns

/-!
# A connection enrols one device

What holds in every state of a run: a connection is approved at most once, it is consumed by the
enrolment that it led to and stays so, and every answer to its completions is about that device.
-/
namespace Enrolment

open List Completion Connection State
open InsertionOrder (map_ite_eq nodup_map_concat)
open Option (bind_eq_some_iff ite_none_right_eq_some map_eq_some_iff)

/-- A row that is not approved anew: it keeps what it is looked up by, and unless it is consumed it
may be withdrawn. -/
structure Withdrawn (connection connection' : Connection) : Prop where
  connectionId : connection'.connectionId = connection.connectionId
  credentialSalt : connection'.credentialSalt = connection.credentialSalt
  same : connection' = connection ∨ connection.status ≠ .consumed ∧
    (connection'.status = .expired ∨ connection'.status = .denied)

variable {f : Connection → Connection} {connectionId vaultId deviceToken requestId secret deviceId
  userId rootCommit tokenId salt : String} {connection row' connection' row : Connection}
  {enrolled : Enrolled} {completion : Completion} {past : List Enrolled} {labels : List Label}
  {crypto : Crypto} {s : State} {db' : Db}

section Rows
variable {crypto : Crypto} {now : Int} {db : Db} {connection row : Connection} {vault : Vault}

lemma Withdrawn.refl (connection : Connection) : Withdrawn connection connection :=
  ⟨rfl, rfl, .inl rfl⟩

lemma withdrawn_expire (now : Int) (connection : Connection) : Withdrawn connection (connection.expire now) := by
  unfold expire
  split
  · rename_i hover
    refine ⟨rfl, rfl, .inr ⟨fun hcons => ?_, .inl rfl⟩⟩
    rcases hover.1 with h | h <;> rw [h] at hcons <;> cases hcons
  · exact .refl connection

lemma withdrawn_refresh (now : Int) (connection : Connection) : Withdrawn connection (connection.refresh now) := by
  unfold refresh
  split
  · rename_i hover
    exact ⟨rfl, rfl, .inr ⟨hover.1, .inl rfl⟩⟩
  · exact .refl connection

lemma withdrawn_setConnection (hf : Withdrawn connection (f connection)) :
    Withdrawn connection (if connection.connectionId = connectionId then f connection else connection) := by
  split
  · exact hf
  · exact .refl connection

/-- A row that is approved when it is looked up is not overdue. -/
lemma refresh_of_approved (h : (connection.refresh now).status = .approved) :
    connection.refresh now = connection ∧ now < connection.expiresAt := by
  unfold refresh at h ⊢
  split at h
  · cases h
  rename_i hover
  rw [if_neg hover]
  refine ⟨rfl, ?_⟩
  by_contra hlate
  refine hover ⟨fun hcons => ?_, by omega⟩
  rw [h] at hcons
  cases hcons

lemma authenticatedConnection_eq_some
    (h : authenticatedConnection crypto now db connectionId secret = some connection) :
    ∃ row ∈ db.connections, row.connectionId = connectionId ∧ connection = row.refresh now := by
  obtain ⟨row, hfind, rfl⟩ := map_eq_some_iff.mp h
  have hrow := find?_some hfind
  simp only [Bool.and_eq_true, decide_eq_true_eq] at hrow
  exact ⟨row, mem_of_find?_eq_some hfind, hrow.1, rfl⟩

/-- Two rows of one identifier are one row. -/
lemma eq_of_connectionId (h : (db.connections.map Connection.connectionId).Nodup)
    (hmem : connection ∈ db.connections) (hrow : row ∈ db.connections)
    (hid : connection.connectionId = row.connectionId) : connection = row :=
  inj_on_of_nodup_map h hmem hrow hid

lemma findVault_vaultId (h : db.findVault vaultId = some vault) : vault.vaultId = vaultId := by
  simpa using find?_some h

lemma targetVault_eq_some {vaults : List Vault}
    (h : targetVault db connection vaultId rootCommit = some (vault, vaults)) :
    vault.vaultId = vaultId ∧ connection.approvedUserId = some vault.ownerUserId ∧
      ((db.findVault vaultId = some vault ∧ vaults = db.vaults) ∨
        (db.findVault vaultId = none ∧ vaults = db.vaults ++ [vault] ∧
          connection.newVaultDisplayName = some vault.displayName)) := by
  unfold targetVault at h
  split at h
  · rename_i found hfind
    obtain ⟨hfound, h⟩ := Option.ite_none_left_eq_some.mp h
    rw [not_or, not_not] at hfound
    cases h
    exact ⟨findVault_vaultId hfind, hfound.1.symm, .inl ⟨hfind, rfl⟩⟩
  · rename_i hfind
    split at h
    · rename_i ownerUserId displayName happr hname
      cases h
      exact ⟨rfl, happr, .inr ⟨hfind, rfl, hname⟩⟩
    · cases h

/-- What the mutation that enrols a device does. -/
structure Completes (crypto : Crypto) (now : Int) (connectionId vaultId deviceId tokenId : String)
    (db db' : Db) (enrolled : Enrolled) : Prop where
  row : enrolled.connection ∈ db.connections
  named : enrolled.connection.connectionId = connectionId
  approved : enrolled.connection.status = .approved
  unexpired : now < enrolled.connection.expiresAt
  at_ : enrolled.at_ = now
  owner : enrolled.connection.approvedUserId = some enrolled.vault.ownerUserId
  target : enrolled.vault.vaultId = vaultId
  isNewVault : enrolled.isNewVault = (db.findVault vaultId).isNone
  vaults : if enrolled.isNewVault then
      enrolled.connection.newVaultDisplayName = some enrolled.vault.displayName ∧
        db'.vaults = db.vaults ++ [enrolled.vault]
    else db'.vaults = db.vaults
  device : enrolled.device.deviceId = deviceId ∧ enrolled.device.vaultId = enrolled.vault.vaultId ∧
    enrolled.device.userId = enrolled.vault.ownerUserId ∧
    enrolled.device.onboardingConnectionId = enrolled.connection.connectionId
  token : enrolled.token.tokenId = tokenId ∧ enrolled.token.deviceId = enrolled.device.deviceId
  connections : ∃ connection, connection.connectionId = enrolled.connection.connectionId ∧
    connection.credentialSalt = enrolled.connection.credentialSalt ∧ connection.status = .consumed ∧
    connection.createdDeviceId = some enrolled.device.deviceId ∧
    ∀ other, other ∈ db'.connections ↔ other ∈ db.connections ∧
      other.connectionId ≠ enrolled.connection.connectionId ∨ other = connection
  connectionIds : db'.connections.map Connection.connectionId = db.connections.map Connection.connectionId
  devices : db'.devices = db.devices ++ [enrolled.device]
  tokens : db'.tokens = db.tokens ++ [enrolled.token]
  deletions : db'.deletionJobs = db.deletionJobs ∧ db'.deletionReceipts = db.deletionReceipts

lemma setConnection_connectionIds (hf : ∀ connection, (f connection).connectionId = connection.connectionId) :
    (db.setConnection connectionId f).connections.map Connection.connectionId
      = db.connections.map Connection.connectionId := by
  exact map_ite_eq hf

/-- The rows after one of them was changed. -/
lemma mem_setConnection (h : (db.connections.map Connection.connectionId).Nodup)
    (hrow : row ∈ db.connections) : connection ∈ (db.setConnection row.connectionId f).connections ↔
      connection ∈ db.connections ∧ connection.connectionId ≠ row.connectionId ∨ connection = f row := by
  rw [Db.setConnection, mem_map]
  constructor
  · rintro ⟨old, hold, rfl⟩
    by_cases hid : old.connectionId = row.connectionId
    · rw [if_pos hid, eq_of_connectionId h hold hrow hid]
      exact .inr rfl
    · rw [if_neg hid]
      exact .inl ⟨hold, hid⟩
  · rintro (⟨hmem, hid⟩ | rfl)
    · exact ⟨connection, hmem, if_neg hid⟩
    · exact ⟨row, hrow, if_pos rfl⟩

lemma completeConnection_eq_some (hids : (db.connections.map Connection.connectionId).Nodup) {mode : OnboardingMode}
    (h : completeConnection crypto now connectionId secret vaultId rootCommit mode deviceToken deviceId
      tokenId db = some (db', enrolled)) :
    Completes crypto now connectionId vaultId deviceId tokenId db db' enrolled := by
  unfold completeConnection at h
  split at h
  · cases h
  rename_i connection hconn
  split at h
  · cases h
  rename_i hguard
  rw [not_or, not_not] at hguard
  obtain ⟨row, hrow, hid, rfl⟩ := authenticatedConnection_eq_some hconn
  obtain ⟨hrefr, hunex⟩ := refresh_of_approved hguard.1
  rw [hrefr] at h hguard
  obtain ⟨⟨vault, vaults⟩, htgt, heq⟩ := map_eq_some_iff.mp h
  cases heq
  obtain ⟨hvauI, howner, hvault⟩ := targetVault_eq_some htgt
  refine ⟨hrow, hid, hguard.1, hunex, rfl, howner, hvauI, rfl, ?_, ⟨rfl, rfl, rfl, rfl⟩,
    ⟨rfl, rfl⟩, ⟨{ row with
      status := .consumed
      selectedVaultId := some vault.vaultId
      createdDeviceId := some deviceId
      consumedAt := some now }, rfl, rfl, rfl, rfl, fun other => ?_⟩, ?_, rfl, rfl, rfl, rfl⟩
  · rcases hvault with ⟨hfind, rfl⟩ | ⟨hfind, rfl, hname⟩
    · simp [hfind, Db.setConnection]
    · simp [hfind, hname, Db.setConnection]
  · exact mem_setConnection hids hrow
  · exact setConnection_connectionIds fun _ => rfl

end Rows

/-- The row carries what was approved. -/
def Connection.IsApprovedBy (connection : Connection) (approved : Approved) : Prop :=
  approved.connectionId = connection.connectionId ∧ connection.approvedUserId = some approved.userId ∧
    match approved.approval with
    | .existingVault vaultId => connection.selection = some .existingVault ∧
        connection.selectedVaultId = some vaultId ∧ connection.newVaultDisplayName = none
    | .newVault displayName => connection.selection = some .newVault ∧
        connection.newVaultDisplayName = some displayName

/-- The device was enrolled while the approval held, for the user and into the vault of it. -/
structure Enrolled.IsFor (enrolled : Enrolled) (approved : Approved) : Prop where
  connectionId : approved.connectionId = enrolled.connection.connectionId
  status : enrolled.connection.status = .approved
  unexpired : enrolled.at_ < enrolled.connection.expiresAt
  user : enrolled.device.userId = approved.userId
  owner : enrolled.vault.ownerUserId = approved.userId
  vault : enrolled.device.vaultId = enrolled.vault.vaultId
  target : match approved.approval with
    | .existingVault vaultId => enrolled.vault.vaultId = vaultId ∧ enrolled.isNewVault = false
    | .newVault displayName => enrolled.isNewVault = true ∧ enrolled.vault.displayName = displayName

/-- The connection has the salt. -/
def Salted (connections : List Connection) (connectionId salt : String) : Prop :=
  ∃ connection ∈ connections, connection.connectionId = connectionId ∧ connection.credentialSalt = salt

/-- Connections, approvals and enrolments belong together, and the enrolments of the past are among
them. -/
structure Linked (past : List Enrolled) (connections : List Connection) (approvals : List Approved)
    (enrolments : List Enrolled) : Prop where
  connectionIds : (connections.map Connection.connectionId).Nodup
  approvalIds : (approvals.map Approved.connectionId).Nodup
  approvalRows : ∀ approved ∈ approvals, approved.connectionId ∈ connections.map Connection.connectionId
  pending : ∀ connection ∈ connections, connection.status = .pending →
    connection.connectionId ∉ approvals.map Approved.connectionId
  approved : ∀ connection ∈ connections, connection.status = .approved →
    ∃ approved ∈ approvals, connection.IsApprovedBy approved
  consumed : ∀ connection ∈ connections, connection.status = .consumed →
    ∃ enrolled ∈ enrolments, enrolled.connection.connectionId = connection.connectionId ∧
      enrolled.connection.credentialSalt = connection.credentialSalt ∧
      connection.createdDeviceId = some enrolled.device.deviceId
  enrolled : ∀ enrolled ∈ enrolments, (∃ connection ∈ connections,
      connection.connectionId = enrolled.connection.connectionId ∧
      connection.credentialSalt = enrolled.connection.credentialSalt ∧
      connection.status = .consumed) ∧ ∃ approved ∈ approvals, enrolled.IsFor approved
  once : (enrolments.map fun enrolled => enrolled.connection.connectionId).Nodup
  past : ∀ enrolled ∈ past, enrolled ∈ enrolments

variable (crypto)

/-- An answer is about the device that the connection enrolled, with the token that its secret
gives. -/
def IsAbout (enrolments : List Enrolled) (connectionId secret deviceId deviceToken : String) : Prop :=
  ∃ enrolled ∈ enrolments, enrolled.connection.connectionId = connectionId ∧ deviceId = enrolled.device.deviceId ∧
    deviceToken = crypto.deriveDeviceToken secret enrolled.connection.credentialSalt

variable (connections : List Connection)

/-- The token of a completion comes from its connection. -/
def IsTokenOf (completion : Completion) (deviceToken : String) : Prop :=
  ∃ salt, Salted connections completion.connectionId salt ∧
    deviceToken = crypto.deriveDeviceToken completion.secret salt

/-- What a completion that is under way relies on. -/
def Progress (approvals : List Approved) (enrolments : List Enrolled) (completion : Completion) : Prop :=
  match completion.stage with
  | .started => True
  | .salted deviceToken | .unused deviceToken => IsTokenOf crypto connections completion deviceToken
  | .existing response => IsAbout crypto enrolments completion.connectionId completion.secret
      response.deviceId response.deviceToken
  | .reserved deviceToken connection _ => IsTokenOf crypto connections completion deviceToken ∧
      connection.selection = some .newVault ∧ ∃ approved ∈ approvals,
        approved.connectionId = completion.connectionId ∧ connection.IsApprovedBy approved
  | .ready deviceToken connection vaultId _ => IsTokenOf crypto connections completion deviceToken ∧
      ∃ approved ∈ approvals, approved.connectionId = completion.connectionId ∧ connection.IsApprovedBy approved ∧
        ∀ vaultId', approved.approval = .existingVault vaultId' → vaultId = vaultId'
  | .enrolled deviceToken _ _ deviceId _ => IsAbout crypto enrolments completion.connectionId
      completion.secret deviceId deviceToken

variable {crypto}

section Ledger
variable {connections connections' : List Connection} {approvals : List Approved}
  {past enrolments : List Enrolled} {completion : Completion}

lemma IsAbout.append (h : IsAbout crypto enrolments connectionId secret deviceId deviceToken) :
    IsAbout crypto (enrolments ++ [enrolled]) connectionId secret deviceId deviceToken := by
  obtain ⟨enrolled, hmem, hspec⟩ := h
  exact ⟨enrolled, mem_append_left _ hmem, hspec⟩

/-- A connection enrols one device, so its answers agree. -/
lemma IsAbout.agree (hlnk : Linked past connections approvals enrolments) {secret' deviceId' deviceToken' : String}
    (h : IsAbout crypto enrolments connectionId secret deviceId deviceToken)
    (h' : IsAbout crypto enrolments connectionId secret' deviceId' deviceToken') :
    deviceId = deviceId' ∧ (secret = secret' → deviceToken = deviceToken') := by
  obtain ⟨enrolled, hmem, hid, rfl, rfl⟩ := h
  obtain ⟨enrolled', hmem', hid', rfl, rfl⟩ := h'
  obtain rfl := inj_on_of_nodup_map hlnk.once hmem hmem' (hid.trans hid'.symm)
  exact ⟨rfl, fun hsecr => by rw [hsecr]⟩

lemma Progress.mono {approvals' : List Approved} {enrolments' : List Enrolled}
    (hsal : ∀ connectionId salt, Salted connections connectionId salt →
      Salted connections' connectionId salt) (happr : ∀ approved ∈ approvals, approved ∈ approvals')
    (henr : ∀ enrolled ∈ enrolments, enrolled ∈ enrolments')
    (h : Progress crypto connections approvals enrolments completion) :
    Progress crypto connections' approvals' enrolments' completion := by
  have htoken : ∀ deviceToken, IsTokenOf crypto connections completion deviceToken →
      IsTokenOf crypto connections' completion deviceToken := by
    rintro deviceToken ⟨salt, hsalt, rfl⟩
    exact ⟨salt, hsal _ _ hsalt, rfl⟩
  have habout : ∀ deviceId deviceToken,
      IsAbout crypto enrolments completion.connectionId completion.secret deviceId deviceToken →
      IsAbout crypto enrolments' completion.connectionId completion.secret deviceId deviceToken := by
    rintro deviceId deviceToken ⟨enrolled, hmem, hspec⟩
    exact ⟨enrolled, henr enrolled hmem, hspec⟩
  unfold Progress at h ⊢
  cases hstage : completion.stage <;> simp only [hstage] at h ⊢
  case salted deviceToken => exact htoken deviceToken h
  case unused deviceToken => exact htoken deviceToken h
  case existing response => exact habout _ _ h
  case reserved deviceToken connection vaultId =>
    obtain ⟨htoken', hsel, approved, hmem, hspec⟩ := h
    exact ⟨htoken _ htoken', hsel, approved, happr approved hmem, hspec⟩
  case ready deviceToken connection vaultId rootCommit =>
    obtain ⟨htoken', approved, hmem, hspec⟩ := h
    exact ⟨htoken _ htoken', approved, happr approved hmem, hspec⟩
  case enrolled deviceToken connection vaultId deviceId tokenId => exact habout _ _ h

lemma Salted.map (hf : ∀ connection ∈ connections, Withdrawn connection (f connection))
    (h : Salted connections connectionId salt) : Salted (connections.map f) connectionId salt := by
  obtain ⟨connection, hmem, rfl, rfl⟩ := h
  exact ⟨f connection, mem_map_of_mem hmem, (hf connection hmem).connectionId, (hf connection hmem).credentialSalt⟩

lemma map_connectionIds (hf : ∀ connection ∈ connections, Withdrawn connection (f connection)) :
    (connections.map f).map Connection.connectionId = connections.map Connection.connectionId := by
  rw [map_map]
  exact map_congr_left fun connection hmem => (hf connection hmem).connectionId

/-- A withdrawn row that is still pending, approved or consumed is as it was. -/
lemma Withdrawn.eq_of_status (h : Withdrawn connection connection') (hexp : connection'.status ≠ .expired)
    (hden : connection'.status ≠ .denied) : connection' = connection := by
  rcases h.same with h | ⟨-, h | h⟩
  · exact h
  · exact absurd h hexp
  · exact absurd h hden

lemma Withdrawn.eq_of_consumed (h : Withdrawn connection connection') (hcons : connection.status = .consumed) :
    connection' = connection := by
  rcases h.same with h | ⟨h, -⟩
  · exact h
  · exact absurd hcons h

lemma Linked.withdraw (h : Linked past connections approvals enrolments)
    (hf : ∀ connection ∈ connections, Withdrawn connection (f connection)) :
    Linked past (connections.map f) approvals enrolments := by
  have hsame : ∀ connection' ∈ connections.map f, connection'.status ≠ .expired →
      connection'.status ≠ .denied → connection' ∈ connections := by
    intro connection' hmem' hexp hden
    obtain ⟨connection, hmem, rfl⟩ := mem_map.mp hmem'
    rwa [(hf connection hmem).eq_of_status hexp hden]
  refine ⟨?_, h.approvalIds, ?_, fun connection hmem hstat => ?_, fun connection hmem hstat => ?_,
    fun connection hmem hstat => ?_, ?_, h.once, h.past⟩
  · rw [map_connectionIds hf]
    exact h.connectionIds
  · rw [map_connectionIds hf]
    exact h.approvalRows
  · exact h.pending connection (hsame connection hmem (by simp [hstat]) (by simp [hstat])) hstat
  · exact h.approved connection (hsame connection hmem (by simp [hstat]) (by simp [hstat])) hstat
  · exact h.consumed connection (hsame connection hmem (by simp [hstat]) (by simp [hstat])) hstat
  intro enrolled hmem
  obtain ⟨⟨connection, hconn, hid, hsalt, hstat⟩, happr⟩ := h.enrolled enrolled hmem
  refine ⟨⟨f connection, mem_map_of_mem hconn, ?_⟩, happr⟩
  rw [(hf connection hconn).eq_of_consumed hstat]
  exact ⟨hid, hsalt, hstat⟩

lemma Linked.create (h : Linked past connections approvals enrolments)
    (hfresh : connection.connectionId ∉ connections.map Connection.connectionId)
    (hpend : connection.status = .pending) : Linked past (connections ++ [connection]) approvals enrolments := by
  have hold : ∀ other ∈ connections ++ [connection], other.status ≠ .pending → other ∈ connections := by
    intro other hmem hstat
    rcases mem_append.mp hmem with hmem | hmem
    · exact hmem
    · rw [mem_singleton.mp hmem] at hstat
      exact absurd hpend hstat
  refine ⟨?_, h.approvalIds, fun approved hmem => ?_, fun other hmem hstat => ?_,
    fun other hmem hstat => ?_, fun other hmem hstat => ?_, fun enrolled hmem => ?_, h.once, h.past⟩
  · exact nodup_map_concat h.connectionIds hfresh
  · rw [map_append]
    exact mem_append_left _ (h.approvalRows approved hmem)
  · rcases mem_append.mp hmem with hmem | hmem
    · exact h.pending other hmem hstat
    rw [mem_singleton.mp hmem]
    intro happr
    obtain ⟨approved, happr, hid⟩ := mem_map.mp happr
    exact hfresh (hid ▸ h.approvalRows approved happr)
  · exact h.approved other (hold other hmem (by simp [hstat])) hstat
  · exact h.consumed other (hold other hmem (by simp [hstat])) hstat
  · obtain ⟨⟨other, hother, hspec⟩, happr⟩ := h.enrolled enrolled hmem
    exact ⟨⟨other, mem_append_left _ hother, hspec⟩, happr⟩

/-- The rows after the row of one connection has become another. -/
def IsUpdate (connections connections' : List Connection) (row row' : Connection) : Prop :=
  row'.connectionId = row.connectionId ∧ row'.credentialSalt = row.credentialSalt ∧
    connections'.map Connection.connectionId = connections.map Connection.connectionId ∧
    ∀ other, other ∈ connections' ↔ other ∈ connections ∧ other.connectionId ≠ row.connectionId ∨ other = row'

lemma Salted.update (hupd : IsUpdate connections connections' row row')
    (hids : (connections.map Connection.connectionId).Nodup) (hrow : row ∈ connections)
    (h : Salted connections connectionId salt) : Salted connections' connectionId salt := by
  obtain ⟨hid, hsalt, -, hmem'⟩ := hupd
  obtain ⟨connection, hmem, rfl, rfl⟩ := h
  by_cases hcase : connection.connectionId = row.connectionId
  · obtain rfl := inj_on_of_nodup_map hids hmem hrow hcase
    exact ⟨row', (hmem' row').mpr (.inr rfl), hid, hsalt⟩
  · exact ⟨connection, (hmem' connection).mpr (.inl ⟨hmem, hcase⟩), rfl, rfl⟩

lemma Linked.approve (h : Linked past connections approvals enrolments)
    (hrow : row ∈ connections) (hpend : row.status = .pending)
    (hupd : IsUpdate connections connections' row row') (hstat : row'.status = .approved)
    {approved : Approved} (hid : approved.connectionId = row.connectionId)
    (happr : row'.IsApprovedBy approved) : Linked past connections' (approvals ++ [approved]) enrolments := by
  obtain ⟨hrowId, hrowS, hids, hmem'⟩ := hupd
  have hfresh := h.pending row hrow hpend
  refine ⟨?_, ?_, fun record hmem => ?_, fun other hother hpend' => ?_, fun other hother happr' => ?_,
    fun other hother hcons => ?_, fun enrolled hmem => ?_, h.once, h.past⟩
  · rw [hids]
    exact h.connectionIds
  · exact nodup_map_concat h.approvalIds (hid ▸ hfresh)
  · rw [hids]
    rcases mem_append.mp hmem with hmem | hmem
    · exact h.approvalRows record hmem
    · rw [mem_singleton.mp hmem, hid]
      exact mem_map_of_mem hrow
  · rcases (hmem' other).mp hother with ⟨hold, hne⟩ | rfl
    · rw [map_append, map_singleton, mem_append, mem_singleton, hid, not_or]
      exact ⟨h.pending other hold hpend', hne⟩
    · rw [hstat] at hpend'
      cases hpend'
  · rcases (hmem' other).mp hother with ⟨hold, hne⟩ | rfl
    · obtain ⟨record, hrec, hspec⟩ := h.approved other hold happr'
      exact ⟨record, mem_append_left _ hrec, hspec⟩
    · exact ⟨approved, mem_append_right _ (mem_singleton.mpr rfl), happr⟩
  · rcases (hmem' other).mp hother with ⟨hold, hne⟩ | rfl
    · exact h.consumed other hold hcons
    · rw [hstat] at hcons
      cases hcons
  · obtain ⟨⟨other, hother, hoid, hsalt, hcons⟩, record, hrec, hspec⟩ := h.enrolled enrolled hmem
    refine ⟨⟨other, (hmem' other).mpr (.inl ⟨hother, fun heq => ?_⟩), hoid, hsalt, hcons⟩,
      record, mem_append_left _ hrec, hspec⟩
    rw [inj_on_of_nodup_map h.connectionIds hother hrow heq, hpend] at hcons
    cases hcons

lemma Linked.enrol (h : Linked past connections approvals enrolments)
    (hrow : enrolled.connection ∈ connections) (hstat : enrolled.connection.status = .approved)
    (hupd : IsUpdate connections connections' enrolled.connection row')
    (hcons : row'.status = .consumed) (hdev : row'.createdDeviceId = some enrolled.device.deviceId)
    (hfor : ∃ approved ∈ approvals, enrolled.IsFor approved) :
    Linked past connections' approvals (enrolments ++ [enrolled]) := by
  obtain ⟨hrowId, hrowS, hids, hmem'⟩ := hupd
  refine ⟨?_, h.approvalIds, ?_, fun other hother hpend => ?_, fun other hother happr => ?_,
    fun other hother hother' => ?_, fun record hmem => ?_, ?_,
    fun record hmem => mem_append_left _ (h.past record hmem)⟩
  · rw [hids]
    exact h.connectionIds
  · rw [hids]
    exact h.approvalRows
  · rcases (hmem' other).mp hother with ⟨hold, -⟩ | rfl
    · exact h.pending other hold hpend
    · rw [hcons] at hpend
      cases hpend
  · rcases (hmem' other).mp hother with ⟨hold, -⟩ | rfl
    · exact h.approved other hold happr
    · rw [hcons] at happr
      cases happr
  · rcases (hmem' other).mp hother with ⟨hold, -⟩ | rfl
    · obtain ⟨record, hrec, hspec⟩ := h.consumed other hold hother'
      exact ⟨record, mem_append_left _ hrec, hspec⟩
    · exact ⟨enrolled, mem_append_right _ (mem_singleton.mpr rfl), hrowId.symm, hrowS.symm, hdev⟩
  · rcases mem_append.mp hmem with hmem | hmem
    · obtain ⟨⟨other, hother, hoid, hsalt, hother'⟩, hrec⟩ := h.enrolled record hmem
      refine ⟨⟨other, (hmem' other).mpr (.inl ⟨hother, fun heq => ?_⟩), hoid, hsalt, hother'⟩, hrec⟩
      rw [inj_on_of_nodup_map h.connectionIds hother hrow heq, hstat] at hother'
      cases hother'
    · rw [mem_singleton.mp hmem]
      exact ⟨⟨row', (hmem' row').mpr (.inr rfl), hrowId, hrowS, hcons⟩, hfor⟩
  · refine nodup_map_concat h.once fun hmem => ?_
    obtain ⟨record, hrec, hid⟩ := mem_map.mp hmem
    obtain ⟨⟨other, hother, hoid, -, hother'⟩, -⟩ := h.enrolled record hrec
    obtain rfl := inj_on_of_nodup_map h.connectionIds hother hrow (hoid.trans hid)
    rw [hstat] at hother'
    cases hother'

end Ledger

/-- The identifier of a new vault that a completion is about to enrol into. -/
def Completion.awaited (completion : Completion) : Option String :=
  match completion.stage with
  | .reserved _ _ vaultId => some vaultId
  | .ready _ connection vaultId _ =>
    if connection.selection = some .newVault then some vaultId else none
  | _ => none

/-- What a completion awaits is reserved. -/
lemma Completion.reservation_of_awaited
    (h : completion.awaited = some vaultId) : completion.reservation = some vaultId := by
  unfold awaited at h
  unfold reservation
  cases hstage : completion.stage <;> simp only [hstage] at h ⊢
  case reserved => exact h
  case ready => exact h
  all_goals cases h

/-- A new identifier is not one that somebody awaits. -/
lemma State.not_isNewVaultId (hmem : completion ∈ s.completions) (h : completion.awaited = some vaultId) :
    s.isNewVaultId vaultId = false := by
  have hresv : vaultId ∈ s.reservations := mem_append_left _
    (mem_filterMap.mpr ⟨completion, hmem, completion.reservation_of_awaited h⟩)
  simp [isNewVaultId, hresv]

/-- Nobody else uses the identifiers of new vaults. -/
structure Unclaimed (s : State) : Prop where
  vaults : ∀ completion ∈ s.completions, ∀ vaultId, completion.awaited = some vaultId →
    vaultId ∉ s.db.vaults.map Vault.vaultId
  completions : ∀ completion ∈ s.completions, ∀ other ∈ s.completions, ∀ vaultId,
    completion.awaited = some vaultId → other.awaited = some vaultId →
    completion.requestId = other.requestId
  creations : ∀ completion ∈ s.completions, ∀ creation ∈ s.creations, completion.awaited ≠ some creation.vaultId

structure Sound (crypto : Crypto) (past : List Enrolled) (s : State) : Prop where
  linked : Linked past s.db.connections s.approvals s.enrolments
  requestIds : (s.completions.map Completion.requestId).Nodup
  progress : ∀ completion ∈ s.completions, Progress crypto s.db.connections s.approvals s.enrolments completion
  answers : ∀ answered ∈ s.answers, IsAbout crypto s.enrolments answered.connectionId
    answered.secret answered.response.deviceId answered.response.deviceToken
  devices : s.db.devices.map (fun device => (device.deviceId, device.onboardingConnectionId))
    = s.enrolments.map fun enrolled => (enrolled.device.deviceId, enrolled.connection.connectionId)
  tokens : s.db.tokens.map (fun token => (token.tokenId, token.deviceId))
    = s.enrolments.map fun enrolled => (enrolled.token.tokenId, enrolled.device.deviceId)
  deviceIds : (s.enrolments.map fun enrolled => enrolled.device.deviceId).Nodup
  unclaimed : Unclaimed s

section Kept
variable {past : List Enrolled} {s s' : State} {completion other : Completion}
  {response : CompleteResponse} {db : Db} {approval : Approval} {stage : Stage}

lemma withCompletion_eq_some {f : Completion → Option State} (h : s.withCompletion requestId f = some s') :
    ∃ completion ∈ s.completions, completion.requestId = requestId ∧ f completion = some s' := by
  obtain ⟨completion, hfind, h⟩ := bind_eq_some_iff.mp h
  exact ⟨completion, mem_of_find?_eq_some hfind, by simpa using find?_some hfind, h⟩

lemma advance_requestIds (s : State) (requestId : String) (stage : Stage) :
    (s.advance requestId stage).completions.map Completion.requestId = s.completions.map Completion.requestId := by
  exact map_ite_eq fun _ => rfl

lemma mem_advance (hids : (s.completions.map Completion.requestId).Nodup) (hmem : completion ∈ s.completions)
    (h : other ∈ (s.advance completion.requestId stage).completions) :
    (other ∈ s.completions ∧ other.requestId ≠ completion.requestId) ∨ other = { completion with stage } := by
  obtain ⟨old, hold, rfl⟩ := mem_map.mp h
  by_cases hid : old.requestId = completion.requestId
  · obtain rfl := inj_on_of_nodup_map hids hold hmem hid
    rw [if_pos rfl]
    exact .inr rfl
  · rw [if_neg hid]
    exact .inl ⟨hold, hid⟩

lemma mem_drop (h : other ∈ (s.drop requestId).completions) : other ∈ s.completions :=
  (mem_filter.mp h).1

/-- The identifiers stay apart when a completion goes on that awaits no other vault than before,
or one whose identifier is new. -/
lemma Unclaimed.advance (h : Unclaimed s) (hids : (s.completions.map Completion.requestId).Nodup)
    (hmem : completion ∈ s.completions) (stage : Stage)
    (hstage : ∀ vaultId, Completion.awaited { completion with stage } = some vaultId →
      completion.awaited = some vaultId ∨ s.isNewVaultId vaultId) :
    Unclaimed (s.advance completion.requestId stage) := by
  have hnew : ∀ vaultId, s.isNewVaultId vaultId = true →
      vaultId ∉ s.db.vaults.map Vault.vaultId ∧ vaultId ∉ s.creations.map Creation.vaultId := by
    intro vaultId hnew
    simp only [isNewVaultId, metadataVaultIds, reservations, Bool.and_eq_true,
      Bool.not_eq_true', contains_eq_mem, decide_eq_false_iff_not, mem_append, not_or] at hnew
    exact ⟨hnew.1.1.1.1, hnew.2.2⟩
  refine ⟨fun other hother vaultId hawt => ?_, fun p hp q hq vaultId hpa hqa => ?_,
    fun other hother creation hcre hawt => ?_⟩
  · rcases mem_advance hids hmem hother with ⟨hold, -⟩ | rfl
    · exact h.vaults other hold vaultId hawt
    rcases hstage vaultId hawt with hold | hnew'
    · exact h.vaults completion hmem vaultId hold
    · exact (hnew vaultId hnew').1
  · rcases mem_advance hids hmem hp with ⟨hpold, -⟩ | rfl <;>
      rcases mem_advance hids hmem hq with ⟨hqold, -⟩ | rfl
    · exact h.completions p hpold q hqold vaultId hpa hqa
    · rcases hstage vaultId hqa with hold | hnew'
      · exact h.completions p hpold completion hmem vaultId hpa hold
      · rw [not_isNewVaultId hpold hpa] at hnew'
        cases hnew'
    · rcases hstage vaultId hpa with hold | hnew'
      · exact h.completions completion hmem q hqold vaultId hold hqa
      · rw [not_isNewVaultId hqold hqa] at hnew'
        cases hnew'
    · rfl
  · rcases mem_advance hids hmem hother with ⟨hold, -⟩ | rfl
    · exact h.creations other hold creation hcre hawt
    rcases hstage creation.vaultId hawt with hold | hnew'
    · exact h.creations completion hmem creation hcre hold
    · exact (hnew creation.vaultId hnew').2 (mem_map_of_mem hcre)

lemma Unclaimed.drop (h : Unclaimed s) (requestId : String) : Unclaimed (s.drop requestId) :=
  ⟨fun completion hmem => h.vaults completion (mem_drop hmem),
    fun completion hmem other hother => h.completions completion (mem_drop hmem) other (mem_drop hother),
    fun completion hmem => h.creations completion (mem_drop hmem)⟩

section
variable (h : Sound crypto past s)
include h

/-- A completion goes on at a stage that its progress allows. -/
lemma Sound.advance (hmem : completion ∈ s.completions)
    (hprog : Progress crypto s.db.connections s.approvals s.enrolments { completion with stage })
    (hstage : ∀ vaultId, Completion.awaited { completion with stage } = some vaultId →
      completion.awaited = some vaultId ∨ s.isNewVaultId vaultId) :
    Sound crypto past (s.advance completion.requestId stage) := by
  refine { h with
    requestIds := ?_, progress := fun other hother => ?_,
    unclaimed := h.unclaimed.advance h.requestIds hmem stage hstage }
  · rw [advance_requestIds]
    exact h.requestIds
  rcases mem_advance h.requestIds hmem hother with ⟨hold, -⟩ | rfl
  · exact h.progress other hold
  · exact hprog

lemma Sound.drop (requestId : String) : Sound crypto past (s.drop requestId) := by
  refine { h with
    requestIds := ?_, progress := fun other hother => h.progress other (mem_drop hother),
    unclaimed := h.unclaimed.drop requestId }
  exact h.requestIds.sublist (filter_sublist.map _)

lemma Sound.respond
    (habout : IsAbout crypto s.enrolments completion.connectionId completion.secret response.deviceId
      response.deviceToken) : Sound crypto past (s.respond completion response) := by
  have hdrop := h.drop completion.requestId
  refine { hdrop with answers := fun answered hmem => ?_, unclaimed := { hdrop.unclaimed with } }
  rcases mem_append.mp hmem with hmem | hmem
  · exact h.answers answered hmem
  · rw [mem_singleton.mp hmem]
    exact habout

/-- Connections are withdrawn, and rows of other kinds stay. -/
lemma Sound.withdraw (hf : ∀ connection ∈ s.db.connections, Withdrawn connection (f connection))
    (hconns : db.connections = s.db.connections.map f)
    (hdevs : db.devices.map (fun device => (device.deviceId, device.onboardingConnectionId))
      = s.db.devices.map fun device => (device.deviceId, device.onboardingConnectionId))
    (htoks : db.tokens.map (fun token => (token.tokenId, token.deviceId))
      = s.db.tokens.map fun token => (token.tokenId, token.deviceId))
    (hvs : db.vaults = s.db.vaults) : Sound crypto past { s with db } := by
  refine ⟨?_, h.requestIds, fun completion hmem => ?_, h.answers, ?_, ?_, h.deviceIds,
    { h.unclaimed with vaults := ?_ }⟩
  · rw [hconns]
    exact h.linked.withdraw hf
  · rw [hconns]
    exact (h.progress completion hmem).mono (fun _ _ => Salted.map hf) (fun _ h => h) fun _ h => h
  · exact hdevs.trans h.devices
  · exact htoks.trans h.tokens
  · rw [hvs]
    exact h.unclaimed.vaults

lemma Sound.expire (now : Int) : Sound crypto past { s with db := expireConnections now s.db } :=
  h.withdraw (fun connection _ => withdrawn_expire now connection) rfl rfl rfl rfl

lemma Sound.refresh (now : Int) (connectionId : String) :
    Sound crypto past { s with db := s.db.setConnection connectionId (refresh now) } :=
  h.withdraw (f := fun connection =>
    if connection.connectionId = connectionId then connection.refresh now else connection)
    (fun connection _ => withdrawn_setConnection (withdrawn_refresh now connection)) rfl rfl rfl rfl

lemma Sound.status (connectionId : Option String) :
    Sound crypto past { s with db := status s.now connectionId s.db } := by
  cases connectionId with
  | none => exact h.expire s.now
  | some connectionId => exact (h.expire s.now).refresh s.now connectionId

lemma Sound.create (secret credentialSalt deviceName : String)
    (hfresh : connectionId ∉ s.db.connections.map Connection.connectionId) : Sound crypto past { s with
      db := Enrolment.create crypto s.now connectionId secret credentialSalt deviceName s.db } := by
  have hexp := h.expire s.now
  have hids : (expireConnections s.now s.db).connections.map Connection.connectionId
      = s.db.connections.map Connection.connectionId :=
    map_connectionIds fun connection _ => withdrawn_expire s.now connection
  refine { h with
    linked := hexp.linked.create (hids ▸ hfresh) rfl, progress := fun completion hmem => ?_,
    unclaimed := { h.unclaimed with } }
  refine (hexp.progress completion hmem).mono (fun id salt hsalt => ?_) (fun _ h => h) fun _ h => h
  obtain ⟨connection, hconn, hspec⟩ := hsalt
  exact ⟨connection, mem_append_left _ hconn, hspec⟩

end

/-- An approval makes a pending connection carry what was approved. -/
lemma approve_eq_some {now : Int} (h : approve now connectionId userId approval db = some db') :
    ∃ row ∈ (expireConnections now db).connections, row.connectionId = connectionId ∧
      row.status = .pending ∧ ∃ f : Connection → Connection,
        db' = (expireConnections now db).setConnection row.connectionId f ∧
        (∀ connection, (f connection).connectionId = connection.connectionId) ∧
        (f row).credentialSalt = row.credentialSalt ∧ (f row).status = .approved ∧
        (f row).IsApprovedBy ⟨connectionId, userId, approval⟩ := by
  unfold approve at h
  dsimp only at h
  split at h
  · cases h
  rename_i row hfind
  have hid : row.connectionId = connectionId := by simpa using find?_some hfind
  split at h
  · cases h
  rename_i hpend
  rw [not_not] at hpend
  refine ⟨row, mem_of_find?_eq_some hfind, hid, hpend, ?_⟩
  rw [hid]
  split at h
  · rename_i vaultId
    split at h
    · cases h
    rename_i vault hvault
    have hvauI : vault.vaultId = vaultId := by
      have hspec := find?_some hvault
      simp only [Bool.and_eq_true, decide_eq_true_eq] at hspec
      exact hspec.1
    split at h
    · cases h
    · refine ⟨_, (Option.some.inj h).symm, fun _ => rfl, rfl, rfl, hid.symm, rfl, rfl, ?_, rfl⟩
      rw [hvauI]
  · split at h
    · cases h
    · exact ⟨_, (Option.some.inj h).symm, fun _ => rfl, rfl, rfl, hid.symm, rfl, rfl, rfl⟩

lemma Sound.approve (h : Sound crypto past s)
    (happ : Enrolment.approve s.now connectionId userId approval s.db = some db) :
    Sound crypto past { s with db, approvals := s.approvals ++ [⟨connectionId, userId, approval⟩] } := by
  obtain ⟨row, hrow, hid, hpend, f, rfl, hf, hsalt, hstat, happr⟩ := approve_eq_some happ
  have hexp := h.expire s.now
  have hupd : IsUpdate (expireConnections s.now s.db).connections
      ((expireConnections s.now s.db).setConnection row.connectionId f).connections row (f row) :=
    ⟨hf row, hsalt, setConnection_connectionIds hf, fun _ =>
      mem_setConnection hexp.linked.connectionIds hrow⟩
  refine { h with
    linked := hexp.linked.approve hrow hpend hupd hstat hid.symm happr,
    progress := fun completion hmem => ?_, unclaimed := { h.unclaimed with } }
  exact (hexp.progress completion hmem).mono (fun _ _ => Salted.update hupd hexp.linked.connectionIds hrow)
    (fun _ => mem_append_left _) fun _ h => h

lemma Sound.deny (h : Sound crypto past s)
    (hdeny : Enrolment.deny connectionId userId s.db = some db) : Sound crypto past { s with db } := by
  unfold Enrolment.deny at hdeny
  split at hdeny
  · cases hdeny
  rename_i row hfind
  split at hdeny
  · cases hdeny
  rename_i hpend
  rw [not_not] at hpend
  cases hdeny
  have hid : row.connectionId = connectionId := by simpa using find?_some hfind
  refine h.withdraw (fun connection hmem => ?_) rfl rfl rfl rfl
  split
  · rename_i hconn
    obtain rfl := eq_of_connectionId h.linked.connectionIds hmem (mem_of_find?_eq_some hfind) (hconn.trans hid.symm)
    exact ⟨rfl, rfl, .inr ⟨by rw [hpend]; exact ConnectionStatus.noConfusion, .inr rfl⟩⟩
  · exact .refl connection

/-- Revoking devices and tokens changes nothing that they are known by. -/
lemma revoked_devices {p : Device → Prop} [DecidablePred p] {revokedAt : Device → Option Int}
    (devices : List Device) :
    (devices.map fun device => if p device then { device with revokedAt := revokedAt device }
      else device).map (fun device => (device.deviceId, device.onboardingConnectionId))
      = devices.map fun device => (device.deviceId, device.onboardingConnectionId) := by
  exact map_ite_eq fun _ => rfl

lemma revoked_tokens {p : Token → Prop} [DecidablePred p] {revokedAt : Token → Option Int}
    (tokens : List Token) : (tokens.map fun token => if p token then { token with revokedAt := revokedAt token }
      else token).map (fun token => (token.tokenId, token.deviceId))
      = tokens.map fun token => (token.tokenId, token.deviceId) := by
  exact map_ite_eq fun _ => rfl

lemma Sound.setUserDisabled (h : Sound crypto past s) {actorUserId targetUserId : String} {disabled : Bool}
    (hset : Enrolment.setUserDisabled s.now actorUserId targetUserId disabled s.db = some db) :
    Sound crypto past { s with db } := by
  unfold Enrolment.setUserDisabled at hset
  split at hset
  · split at hset
    · cases hset
    split at hset
    · cases hset
    split at hset
    · cases hset
      refine h.withdraw (fun connection _ => ?_) rfl (revoked_devices s.db.devices) (revoked_tokens s.db.tokens) rfl
      split
      · rename_i hconn
        refine ⟨rfl, rfl, .inr ⟨?_, .inr rfl⟩⟩
        rw [hconn.2]
        exact ConnectionStatus.noConfusion
      · exact .refl connection
    · cases hset
      exact { h with unclaimed := { h.unclaimed with } }
  · cases hset

lemma Sound.readSalt (h : Sound crypto past s) (hmem : completion ∈ s.completions)
    (hconn : authenticatedConnection crypto s.now s.db completion.connectionId completion.secret
      = some connection) : Sound crypto past (s.advance completion.requestId
      (.salted (crypto.deriveDeviceToken completion.secret connection.credentialSalt))) := by
  obtain ⟨row, hrow, hid, rfl⟩ := authenticatedConnection_eq_some hconn
  refine h.advance hmem ⟨row.credentialSalt, ⟨row, hrow, hid, rfl⟩, ?_⟩ fun vaultId hawt => ?_
  · rw [(withdrawn_refresh s.now row).credentialSalt]
  · cases hawt

/-- What a completion finds that was made before. -/
lemma existingCompletion_spec (h : Linked past s.db.connections s.approvals s.enrolments)
    (hex : existingCompletion crypto s.now s.db connectionId secret deviceToken
      = some (some response)) (htoken : ∃ salt, Salted s.db.connections connectionId salt ∧
        deviceToken = crypto.deriveDeviceToken secret salt) :
    IsAbout crypto s.enrolments connectionId secret response.deviceId response.deviceToken := by
  unfold existingCompletion at hex
  split at hex
  · cases hex
  rename_i connection hconn
  obtain ⟨row, hrow, hid, rfl⟩ := authenticatedConnection_eq_some hconn
  split at hex
  · cases Option.some.inj hex
  rename_i hcons
  rw [not_not] at hcons
  have hsame := (withdrawn_refresh s.now row).eq_of_status (by simp [hcons]) (by simp [hcons])
  rw [hsame] at hex hcons
  obtain ⟨enrolled, henr, hsamI, hsalt, hcr⟩ := h.consumed row hrow hcons
  split at hex
  · cases hex
  rename_i device hdev
  split at hex
  · cases hex
  rename_i vault _
  split at hex
  · obtain ⟨response', hresp, heq⟩ := map_eq_some_iff.mp hex
    cases heq
    obtain ⟨rootCommit, -, rfl⟩ := map_eq_some_iff.mp hresp
    rw [hcr, Option.bind_some] at hdev
    have hdevI : device.deviceId = enrolled.device.deviceId := by
      simpa using find?_some hdev
    obtain ⟨salt, ⟨other, hother, hoid, rfl⟩, rfl⟩ := htoken
    obtain rfl := inj_on_of_nodup_map h.connectionIds hother hrow (hoid.trans hid.symm)
    refine ⟨enrolled, henr, hsamI.trans hid, hdevI, ?_⟩
    rw [hsalt]
  · cases hex

section
variable (h : Sound crypto past s)
include h

section
variable (hmem : completion ∈ s.completions)
include hmem

lemma Sound.plan (hstage : completion.stage = .unused deviceToken)
    (hplan : s.plan crypto completion deviceToken vaultId = some s') : Sound crypto past s' := by
  have hprog := h.progress completion hmem
  unfold Progress at hprog
  simp only [hstage] at hprog
  unfold State.plan at hplan
  split at hplan
  · cases hplan
    exact h.drop completion.requestId
  rename_i connection hconn
  obtain ⟨hfound, hguard⟩ := Option.filter_eq_some_iff.mp hconn
  simp only [Bool.and_eq_true, decide_eq_true_eq] at hguard
  obtain ⟨⟨hstat, -⟩, -⟩ := hguard
  obtain ⟨row, hrow, hid, rfl⟩ := authenticatedConnection_eq_some hfound
  obtain ⟨hrefr, -⟩ := refresh_of_approved hstat
  rw [hrefr] at hplan hstat
  obtain ⟨approved, happr, hspec⟩ := h.linked.approved row hrow hstat
  have hnamed : approved.connectionId = completion.connectionId := hspec.1.trans hid
  split at hplan
  · rename_i hsel
    split at hplan
    · cases hplan
      exact h.drop completion.requestId
    obtain ⟨hnew, ⟨⟩⟩ := ite_none_right_eq_some.mp hplan
    refine h.advance hmem ⟨hprog, hsel, approved, happr, hnamed, hspec⟩
      fun vaultId' hawt => .inr ?_
    cases hawt
    exact hnew
  · rename_i hsel
    split at hplan
    · cases hplan
      exact h.drop completion.requestId
    rename_i vaultId' rootCommit hroot
    cases hplan
    refine h.advance hmem ⟨hprog, approved, happr, hnamed, hspec, fun target htgt => ?_⟩
      fun vaultId'' hawt => ?_
    · obtain ⟨-, -, hmatch⟩ := hspec
      rw [htgt] at hmatch
      unfold existingRootCommit at hroot
      rw [hmatch.2.1] at hroot
      split at hroot
      · rename_i hselected _
        cases hselected
        split at hroot
        · cases hroot
        split at hroot
        · obtain ⟨_, -, heq⟩ := map_eq_some_iff.mp hroot
          exact (Prod.mk.inj heq).1.symm
        · cases hroot
      · cases hroot
    · unfold awaited at hawt
      simp only [if_neg hsel] at hawt
      cases hawt

lemma Sound.ready (hstage : completion.stage = .reserved deviceToken connection vaultId) (rootCommit : String) :
    Sound crypto past (s.advance completion.requestId (.ready deviceToken connection vaultId rootCommit)) := by
  have hprog := h.progress completion hmem
  unfold Progress at hprog
  simp only [hstage] at hprog
  obtain ⟨htoken, hsel, approved, happr, hnamed, hspec⟩ := hprog
  refine h.advance hmem ⟨htoken, approved, happr, hnamed, hspec, fun target htgt => ?_⟩
    fun vaultId' hawt => .inl ?_
  · have hmatch := hspec.2.2
    rw [htgt] at hmatch
    rw [hmatch.1] at hsel
    cases hsel
  · unfold awaited at hawt ⊢
    simp only [hsel, if_true] at hawt
    rw [hstage, ← hawt]

/-- A completion enrols what was approved when it was planned: a new vault's identifier is not in
use when it is committed. -/
lemma Sound.isFor (hstage : completion.stage = .ready deviceToken connection vaultId rootCommit)
    (hcpl : Completes crypto s.now completion.connectionId vaultId deviceId tokenId s.db db
      enrolled) : (∃ approved ∈ s.approvals, enrolled.IsFor approved) ∧
      (enrolled.isNewVault → connection.selection = some .newVault) := by
  have hprog := h.progress completion hmem
  unfold Progress at hprog
  simp only [hstage] at hprog
  obtain ⟨-, planned, hplan, hnamed, hplaR, htgt⟩ := hprog
  obtain ⟨approved, happr, hrow⟩ := h.linked.approved enrolled.connection hcpl.row
    hcpl.approved
  obtain rfl := inj_on_of_nodup_map h.linked.approvalIds hplan happr
    (hnamed.trans (hcpl.named.symm.trans hrow.1.symm))
  have howner : enrolled.vault.ownerUserId = planned.userId :=
    Option.some.inj (hcpl.owner.symm.trans hrow.2.1)
  obtain ⟨-, hdevV, hdevU, -⟩ := hcpl.device
  have hfor : (match planned.approval with
      | .existingVault vaultId => enrolled.vault.vaultId = vaultId ∧ enrolled.isNewVault = false
      | .newVault displayName => enrolled.isNewVault = true ∧
          enrolled.vault.displayName = displayName) → enrolled.IsFor planned := by
    intro htgt
    refine ⟨hrow.1, hcpl.approved, ?_, hdevU.trans howner, howner, hdevV, htgt⟩
    rw [hcpl.at_]
    exact hcpl.unexpired
  have hvs := hcpl.vaults
  have hmatch := hrow.2.2
  have hplaM := hplaR.2.2
  cases hcase : planned.approval with
  | existingVault target =>
    rw [hcase] at hmatch hfor
    have hold : enrolled.isNewVault = false := by
      rw [← Bool.not_eq_true]
      intro hisNew
      rw [if_pos hisNew, hmatch.2.2] at hvs
      cases hvs.1
    refine ⟨⟨planned, happr, hfor ⟨hcpl.target.trans (htgt target hcase), hold⟩⟩, ?_⟩
    intro hisNew
    rw [hold] at hisNew
    cases hisNew
  | newVault displayName =>
    rw [hcase] at hmatch hfor hplaM
    have hawt : completion.awaited = some vaultId := by
      unfold awaited
      simp [hstage, hplaM.1]
    have hfresh := h.unclaimed.vaults completion hmem vaultId hawt
    have hisNew : enrolled.isNewVault = true := by
      rw [hcpl.isNewVault, Option.isNone_iff_eq_none, Db.findVault, find?_eq_none]
      intro vault hvault hid
      exact hfresh (mem_map.mpr ⟨vault, hvault, of_decide_eq_true hid⟩)
    rw [if_pos hisNew, hmatch.2] at hvs
    exact ⟨⟨planned, happr, hfor ⟨hisNew, (Option.some.inj hvs.1).symm⟩⟩, fun _ => hplaM.1⟩

lemma Sound.commit (hstage : completion.stage = .ready deviceToken connection vaultId rootCommit)
    (hdevI : deviceId ∉ s.db.devices.map Device.deviceId) (persisted : Bool) :
    Sound crypto past (s.commit crypto completion deviceToken connection vaultId rootCommit deviceId tokenId
      persisted) := by
  unfold State.commit
  split
  · rename_i db enrolled hcomp
    have hcpl := completeConnection_eq_some h.linked.connectionIds hcomp
    obtain ⟨hfor, hsel⟩ := h.isFor hmem hstage hcpl
    have hprog := h.progress completion hmem
    unfold Progress at hprog
    simp only [hstage] at hprog
    obtain ⟨⟨salt, hsalt, htoken⟩, -⟩ := hprog
    obtain ⟨row', hrowId, hrowS, hcons, hcr, hrows⟩ := hcpl.connections
    have hupd : IsUpdate s.db.connections db.connections enrolled.connection row' :=
      ⟨hrowId, hrowS, hcpl.connectionIds, hrows⟩
    have hold : ∀ other ∈ s.completions,
        Progress crypto db.connections s.approvals (s.enrolments ++ [enrolled]) other :=
      fun other hother => (h.progress other hother).mono
        (fun _ _ => Salted.update hupd h.linked.connectionIds hcpl.row) (fun _ h => h)
        fun _ => mem_append_left _
    refine ⟨h.linked.enrol hcpl.row hcpl.approved hupd hcons hcr hfor, ?_,
      fun other hother => ?_, fun answered hansw => (h.answers answered hansw).append, ?_, ?_, ?_, ?_⟩
    · exact (advance_requestIds s _ _).symm ▸ h.requestIds
    · rcases mem_advance h.requestIds hmem hother with ⟨hother, -⟩ | rfl
      · exact hold other hother
      refine ⟨enrolled, mem_append_right _ (mem_singleton.mpr rfl), hcpl.named, hcpl.device.1.symm, ?_⟩
      obtain ⟨other, hother, hoid, rfl⟩ := hsalt
      obtain rfl := eq_of_connectionId h.linked.connectionIds hother hcpl.row (hoid.trans hcpl.named.symm)
      exact htoken
    · rw [hcpl.devices, map_append, map_append, h.devices, map_singleton, map_singleton, hcpl.device.2.2.2]
    · rw [hcpl.tokens, map_append, map_append, h.tokens, map_singleton, map_singleton, hcpl.token.2]
    · refine nodup_map_concat h.deviceIds fun hid => hdevI ?_
      obtain ⟨record, hrec, hsame⟩ := mem_map.mp hid
      have hids : s.db.devices.map Device.deviceId
          = s.enrolments.map fun enrolled => enrolled.device.deviceId := by
        have heq := congrArg (map Prod.fst) h.devices
        rwa [map_map, map_map] at heq
      rw [hids, ← hcpl.device.1, ← hsame]
      exact mem_map_of_mem hrec
    · -- The vault that this completion awaited is the only one that is added.
      have hadv := h.unclaimed.advance h.requestIds hmem (.enrolled deviceToken connection vaultId deviceId tokenId)
        fun vaultId' hawt => by cases hawt
      refine { hadv with vaults := fun other hother vaultId' hawt => ?_ }
      have hold' := hadv.vaults other hother vaultId' hawt
      have hvs := hcpl.vaults
      split at hvs
      · rename_i hisNew
        rw [hvs.2, map_append, map_singleton, mem_append, mem_singleton, not_or]
        refine ⟨hold', fun hsame => ?_⟩
        rcases mem_advance h.requestIds hmem hother with ⟨hother, hne⟩ | rfl
        · have hawt' : completion.awaited = some vaultId := by
            unfold awaited
            simp [hstage, hsel hisNew]
          rw [hsame, hcpl.target] at hawt
          exact hne (h.unclaimed.completions other hother completion hmem vaultId hawt hawt')
        · cases hawt
      · rw [hvs]
        exact hold'
  · exact h.drop completion.requestId

lemma Sound.answer (hstage : completion.stage = .enrolled deviceToken connection vaultId deviceId tokenId)
    (hans : authoritativeCompletion s.db connection vaultId deviceId tokenId deviceToken
      = some response) : Sound crypto past (s.respond completion response) := by
  have hprog := h.progress completion hmem
  unfold Progress at hprog
  simp only [hstage] at hprog
  refine h.respond ?_
  unfold authoritativeCompletion at hans
  split at hans
  · rename_i vault device token _ hdev _
    split at hans
    · obtain ⟨rootCommit, -, rfl⟩ := map_eq_some_iff.mp hans
      have hdevI : device.deviceId = deviceId := by simpa using find?_some hdev
      rw [hdevI]
      exact hprog
    · cases hans
  · cases hans

end

end

lemma withCreation_eq_some {f : Creation → Option State} (h : s.withCreation requestId f = some s') :
    ∃ creation ∈ s.creations, creation.requestId = requestId ∧ f creation = some s' := by
  obtain ⟨creation, hfind, h⟩ := bind_eq_some_iff.mp h
  exact ⟨creation, mem_of_find?_eq_some hfind, by simpa using find?_some hfind, h⟩

/-- Requests for new vaults go on or end, and may add a vault of theirs. -/
lemma Sound.creations (h : Sound crypto past s) (creations : List Creation) (vaults : List Vault)
    (repositories : List String)
    (hcreations : ∀ creation ∈ creations, (∃ old ∈ s.creations, old.vaultId = creation.vaultId) ∨
      s.isNewVaultId creation.vaultId)
    (hvs : ∀ vaultId ∈ vaults.map Vault.vaultId, vaultId ∈ s.db.vaults.map Vault.vaultId ∨
      ∃ creation ∈ s.creations, creation.vaultId = vaultId) :
    Sound crypto past { s with db := { s.db with vaults }, creations, repositories } := by
  refine { h with unclaimed := ⟨fun completion hmem vaultId hawt hvault => ?_, h.unclaimed.completions,
    fun completion hmem creation hcre hawt => ?_⟩ }
  · rcases hvs vaultId hvault with hold | ⟨creation, hcre, rfl⟩
    · exact h.unclaimed.vaults completion hmem vaultId hawt hold
    · exact h.unclaimed.creations completion hmem creation hcre hawt
  rcases hcreations creation hcre with ⟨old, hold, hid⟩ | hnew
  · exact h.unclaimed.creations completion hmem old hold (hid ▸ hawt)
  · rw [not_isNewVaultId (s := s) hmem hawt] at hnew
    cases hnew

lemma Sound.step (h : Sound crypto past s) {label : Label} (hstep : s.step crypto label = some s') :
    Sound crypto past s' := by
  -- Most labels leave connections, completions and vaults alone.
  have hsame : ∀ accounts, Sound crypto past { s with db := { s.db with accounts } } := fun accounts =>
    { h with unclaimed := { h.unclaimed with } }
  cases label with
  | tick ms =>
    cases hstep
    exact { h with unclaimed := { h.unclaimed with } }
  | create connectionId secret credentialSalt deviceName =>
    obtain ⟨hfresh, ⟨⟩⟩ := ite_none_right_eq_some.mp hstep
    exact h.create secret credentialSalt deviceName hfresh
  | status connectionId =>
    cases hstep
    exact h.status connectionId
  | expire connectionId =>
    cases hstep
    exact h.refresh s.now connectionId
  | approve connectionId userId approval =>
    obtain ⟨db, happr, rfl⟩ := map_eq_some_iff.mp hstep
    exact h.approve happr
  | deny connectionId userId =>
    obtain ⟨db, hdeny, rfl⟩ := map_eq_some_iff.mp hstep
    exact h.deny hdeny
  | setUserDisabled actorUserId targetUserId disabled =>
    obtain ⟨db, hset, rfl⟩ := map_eq_some_iff.mp hstep
    exact h.setUserDisabled hset
  | setupInitialAdmin | createUser =>
    obtain ⟨-, ⟨⟩⟩ := ite_none_right_eq_some.mp hstep
    exact hsame _
  | login | reauthenticate | logout =>
    cases hstep
    exact hsame _
  | revokeDevice deviceId =>
    cases hstep
    refine h.withdraw (f := id) (fun connection _ => .refl connection) (map_id _).symm
      (revoked_devices s.db.devices) (revoked_tokens s.db.tokens) rfl
  | changeVault vaultId status currentMain =>
    cases hstep
    refine h.creations _ _ _ (fun creation hcre => .inl ⟨creation, hcre, rfl⟩) fun id hid => .inl ?_
    exact (congrArg (id ∈ ·) (map_ite_eq (by simp))).mp hid
  | complete requestId connectionId secret request =>
    obtain ⟨hfresh, ⟨⟩⟩ := ite_none_right_eq_some.mp hstep
    have hold : ∀ completion ∈ s.completions ++
        [Completion.mk requestId connectionId secret request .started], ∀ vaultId,
        completion.awaited = some vaultId → completion ∈ s.completions := by
      intro completion hmem vaultId hawt
      rcases mem_append.mp hmem with hmem | hmem
      · exact hmem
      · rw [mem_singleton.mp hmem] at hawt
        cases hawt
    refine { h with
      requestIds := ?_, progress := fun completion hmem => ?_,
      unclaimed := ⟨fun completion hmem vaultId hawt => ?_, fun p hp q hq vaultId hpa hqa => ?_,
        fun completion hmem creation hcre hawt => ?_⟩ }
    · exact nodup_map_concat h.requestIds hfresh
    · rcases mem_append.mp hmem with hmem | hmem
      · exact h.progress completion hmem
      · rw [mem_singleton.mp hmem]
        exact trivial
    · exact h.unclaimed.vaults completion (hold completion hmem vaultId hawt) vaultId hawt
    · exact h.unclaimed.completions p (hold p hp vaultId hpa) q (hold q hq vaultId hqa) vaultId hpa hqa
    · exact h.unclaimed.creations completion (hold completion hmem _ hawt) creation hcre
        hawt
  | readSalt requestId =>
    obtain ⟨completion, hmem, rfl, hnext⟩ := withCompletion_eq_some hstep
    obtain ⟨-, hnext⟩ := ite_none_right_eq_some.mp hnext
    split at hnext
    · rename_i connection hconn
      cases hnext
      exact h.readSalt hmem hconn
    · cases hnext
      exact h.drop completion.requestId
  | readExisting requestId =>
    obtain ⟨completion, hmem, rfl, hnext⟩ := withCompletion_eq_some hstep
    split at hnext
    · rename_i deviceToken hstage
      have htoken := h.progress completion hmem
      unfold Progress at htoken
      simp only [hstage] at htoken
      split at hnext
      · rename_i response hex
        cases hnext
        exact h.advance hmem (existingCompletion_spec h.linked hex htoken)
          fun vaultId hawt => by cases hawt
      · cases hnext
        exact h.advance hmem htoken fun vaultId hawt => by cases hawt
      · cases hnext
        exact h.drop completion.requestId
    · cases hnext
  | replay requestId =>
    obtain ⟨completion, hmem, rfl, hnext⟩ := withCompletion_eq_some hstep
    split at hnext
    · rename_i response hstage
      have habout := h.progress completion hmem
      unfold Progress at habout
      simp only [hstage] at habout
      split at hnext
      · split at hnext
        · cases hnext
          exact h.respond habout
        · cases hnext
          exact h.drop completion.requestId
      · cases hnext
        exact h.drop completion.requestId
    · cases hnext
  | plan requestId vaultId =>
    obtain ⟨completion, hmem, rfl, hplan⟩ := withCompletion_eq_some hstep
    split at hplan
    · rename_i deviceToken hstage
      exact h.plan hmem hstage hplan
    · cases hplan
  | initializeRepository requestId initialization =>
    obtain ⟨completion, hmem, rfl, hnext⟩ := withCompletion_eq_some hstep
    split at hnext
    · rename_i deviceToken connection vaultId hstage
      cases initialization with
      | initialized rootCommit =>
        cases hnext
        have hready := h.ready hmem hstage rootCommit
        exact { hready with unclaimed := { hready.unclaimed with } }
      | failed left =>
        cases hnext
        have hdrop := h.drop completion.requestId
        exact { hdrop with unclaimed := { hdrop.unclaimed with } }
    · cases hnext
  | commit requestId deviceId tokenId persisted =>
    obtain ⟨completion, hmem, rfl, hnext⟩ := withCompletion_eq_some hstep
    split at hnext
    · rename_i deviceToken connection vaultId rootCommit hstage
      split at hnext
      · rename_i hfresh
        cases hnext
        exact h.commit hmem hstage hfresh.1 persisted
      · cases hnext
    · cases hnext
  | answer requestId =>
    obtain ⟨completion, hmem, rfl, hnext⟩ := withCompletion_eq_some hstep
    split at hnext
    · rename_i deviceToken connection vaultId deviceId tokenId hstage
      split at hnext
      · rename_i response hans
        cases hnext
        exact h.answer hmem hstage hans
      · cases hnext
        exact h.drop completion.requestId
    · cases hnext
  | abandon requestId =>
    obtain ⟨completion, hmem, rfl, hnext⟩ := withCompletion_eq_some hstep
    cases hnext
    exact h.drop completion.requestId
  | createVault requestId userId displayName vaultId =>
    obtain ⟨hfresh, ⟨⟩⟩ := ite_none_right_eq_some.mp hstep
    refine h.creations _ s.db.vaults s.repositories (fun creation hmem => ?_) fun id hid => .inl hid
    rcases mem_append.mp hmem with hmem | hmem
    · exact .inl ⟨creation, hmem, rfl⟩
    · rw [mem_singleton.mp hmem]
      exact .inr hfresh.2
  | initializeVault requestId initialization =>
    obtain ⟨creation, hcre, rfl, hnext⟩ := withCreation_eq_some hstep
    obtain ⟨-, hnext⟩ := ite_none_right_eq_some.mp hnext
    split at hnext
    · cases hnext
      refine h.creations _ s.db.vaults _ (fun other hmem => ?_) fun id hid => .inl hid
      obtain ⟨old, hold, rfl⟩ := mem_map.mp hmem
      refine .inl ⟨old, hold, ?_⟩
      split
      · rfl
      · rfl
    · cases hnext
      exact h.creations _ s.db.vaults _
        (fun other hmem => .inl ⟨other, (mem_filter.mp hmem).1, rfl⟩) fun id hid => .inl hid
  | commitVault requestId persisted =>
    obtain ⟨creation, hcre, rfl, hnext⟩ := withCreation_eq_some hstep
    obtain ⟨rootCommit, -, rfl⟩ := map_eq_some_iff.mp hnext
    cases persisted with
    | true =>
      refine h.creations _ _ s.repositories
        (fun other hmem => .inl ⟨other, (mem_filter.mp hmem).1, rfl⟩) fun id hid => ?_
      rw [map_append, map_singleton, mem_append, mem_singleton] at hid
      rcases hid with hid | rfl
      · exact .inl hid
      · exact .inr ⟨creation, hcre, rfl⟩
    | false =>
      exact h.creations _ s.db.vaults s.repositories
        (fun other hmem => .inl ⟨other, (mem_filter.mp hmem).1, rfl⟩) fun id hid => .inl hid
  | abandonVault requestId =>
    obtain ⟨creation, hcre, rfl, hnext⟩ := withCreation_eq_some hstep
    cases hnext
    exact h.creations _ s.db.vaults s.repositories
      (fun other hmem => .inl ⟨other, (mem_filter.mp hmem).1, rfl⟩) fun id hid => .inl hid
  | restart =>
    cases hstep
    refine { h with
      requestIds := nodup_nil, progress := fun _ hmem => ?_,
      unclaimed := ⟨fun _ hmem => ?_, fun _ hmem => ?_, fun _ hmem => ?_⟩ }
    all_goals cases hmem

lemma Sound.run (h : Sound crypto past s) (hrun : s.run crypto labels = some s') : Sound crypto past s' :=
  LabelledRuns.inv_run hrun (fun _ => rfl) (fun _ _ _ => rfl) (·.step ·) h

lemma sound_start (crypto : Crypto) (accounts : LoginThrottle.Db) (vaults : List Vault)
    (deletionJobs deletionReceipts : List String) (now : Int) :
    Sound crypto [] (.start accounts vaults deletionJobs deletionReceipts now) := by
  refine ⟨⟨nodup_nil, nodup_nil, ?_, ?_, ?_, ?_, ?_, nodup_nil, ?_⟩, nodup_nil, ?_, ?_,
    rfl, rfl, nodup_nil, ⟨?_, ?_, ?_⟩⟩
  all_goals
    intro _ hmem
    cases hmem

end Kept

/-- What a run leaves of connections, devices and answers. -/
structure EnrolsOneDevice (s : State) : Prop where
  enrolments : (s.enrolments.map fun enrolled => enrolled.connection.connectionId).Nodup
  devices : (s.db.devices.map Device.onboardingConnectionId).Nodup
  tokens : (s.db.tokens.map Token.deviceId).Nodup ∧
    ∀ token ∈ s.db.tokens, token.deviceId ∈ s.db.devices.map Device.deviceId
  approved : ∀ enrolled ∈ s.enrolments, ∃ approved ∈ s.approvals, enrolled.IsFor approved ∧
    ∀ other ∈ s.approvals, other.connectionId = approved.connectionId → other = approved
  answers : ∀ answered ∈ s.answers, ∃ enrolled ∈ s.enrolments,
    enrolled.connection.connectionId = answered.connectionId ∧
    answered.response.deviceId = enrolled.device.deviceId ∧
    ∀ other ∈ s.answers, other.connectionId = answered.connectionId →
      other.response.deviceId = answered.response.deviceId ∧
      (other.secret = answered.secret → other.response.deviceToken = answered.response.deviceToken)

lemma Sound.enrolsOneDevice (h : Sound crypto past s) : EnrolsOneDevice s := by
  have hdevs : s.db.devices.map Device.onboardingConnectionId
      = s.enrolments.map fun enrolled => enrolled.connection.connectionId := by
    have heq := congrArg (map Prod.snd) h.devices
    rwa [map_map, map_map] at heq
  have hdevI : s.db.devices.map Device.deviceId
      = s.enrolments.map fun enrolled => enrolled.device.deviceId := by
    have heq := congrArg (map Prod.fst) h.devices
    rwa [map_map, map_map] at heq
  have htoks : s.db.tokens.map Token.deviceId
      = s.enrolments.map fun enrolled => enrolled.device.deviceId := by
    have heq := congrArg (map Prod.snd) h.tokens
    rwa [map_map, map_map] at heq
  refine ⟨h.linked.once, ?_, ⟨?_, fun token hmem => ?_⟩, fun enrolled hmem => ?_, fun answered hmem => ?_⟩
  · rw [hdevs]
    exact h.linked.once
  · rw [htoks]
    exact h.deviceIds
  · rw [hdevI, ← htoks]
    exact mem_map_of_mem hmem
  · obtain ⟨-, approved, happr, hfor⟩ := h.linked.enrolled enrolled hmem
    exact ⟨approved, happr, hfor, fun other hother hid =>
      inj_on_of_nodup_map h.linked.approvalIds hother happr hid⟩
  · have habout := h.answers answered hmem
    obtain ⟨enrolled, henr, hid, hdev, -⟩ := habout
    refine ⟨enrolled, henr, hid, hdev, fun other hother hsame => ?_⟩
    have habout' := h.answers other hother
    rw [hsame] at habout'
    exact habout'.agree h.linked (h.answers answered hmem)

/-- What a connection enrolled stays so, whatever follows. -/
lemma Sound.consumed_stays {s' : State} (h : Sound crypto past s) (hrun : s.run crypto labels = some s')
    (hmem : connection ∈ s.db.connections) (hcons : connection.status = .consumed) :
    ∃ connection' ∈ s'.db.connections, connection'.connectionId = connection.connectionId ∧
      connection'.status = .consumed ∧ connection'.createdDeviceId = connection.createdDeviceId := by
  have hlnk := h.linked
  have hpast : Sound crypto s.enrolments s := { h with linked := { hlnk with past := fun _ h => h } }
  have h' := (hpast.run hrun).linked
  obtain ⟨enrolled, henr, hid, -, hcr⟩ := hlnk.consumed connection hmem hcons
  obtain ⟨⟨connection', hmem', hid', -, hcons'⟩, -⟩ := h'.enrolled enrolled (h'.past enrolled henr)
  obtain ⟨enrolled', henr', hsame, -, hcr'⟩ := h'.consumed connection' hmem' hcons'
  obtain rfl := inj_on_of_nodup_map h'.once henr' (h'.past enrolled henr) (hsame.trans hid')
  exact ⟨connection', hmem', hid'.trans hid, hcons', hcr'.trans hcr.symm⟩

/-- In every run, a connection enrols at most one device, for the user and into the vault that it
was approved for, and while the approval held; it stays consumed, and all answers to its completions
are about that device. -/
theorem connection_enrols_one_device (crypto : Crypto) (accounts : LoginThrottle.Db)
    (vaults : List Vault) (deletionJobs deletionReceipts : List String) (now : Int)
    {labels : List Label} {s : State}
    (hrun : (State.start accounts vaults deletionJobs deletionReceipts now).run crypto labels = some s) :
    EnrolsOneDevice s ∧ ∀ (later : List Label) (s' : State), s.run crypto later = some s' →
        ∀ connection ∈ s.db.connections, connection.status = .consumed →
          ∃ connection' ∈ s'.db.connections, connection'.connectionId = connection.connectionId ∧
            connection'.status = .consumed ∧ connection'.createdDeviceId = connection.createdDeviceId := by
  have h := (sound_start crypto accounts vaults deletionJobs deletionReceipts now).run hrun
  exact ⟨h.enrolsOneDevice, fun later s' hlater connection hmem hcons =>
    h.consumed_stays hlater hmem hcons⟩

def sampleCrypto : Crypto where
  hashToken token := token
  deriveDeviceToken secret salt := secret ++ salt
  verifyPassword password passwordHash := password = passwordHash

def sampleAccounts : LoginThrottle.Db where
  users := [LoginThrottle.sampleUser]
  sessions := []
  loginAttempts := []

/-- A completion of an approved connection has an id for its vault. -/
def plannedLabels : List Label :=
  [.create "con_1" "secret" "salt" "laptop", .approve "con_1" "usr_1" (.newVault "Notes"),
    .complete "first" "con_1" "secret" ⟨.initializing, none⟩, .readSalt "first",
    .readExisting "first", .plan "first" "vlt_1"]

/-- One device is enrolled, and a later request is answered as the first one was. -/
def sampleLabels : List Label := plannedLabels ++
  [.initializeRepository "first" (.initialized "root"), .commit "first" "dev_1" "tok_1" true,
    .answer "first", .complete "second" "con_1" "secret" ⟨.initializing, none⟩, .readSalt "second",
    .readExisting "second", .replay "second"]

lemma sampleRun_isSome : ((State.start sampleAccounts [] [] [] 0).run sampleCrypto sampleLabels).isSome := by
  decide +kernel

theorem connection_enrols_one_device_sample :
    EnrolsOneDevice (((State.start sampleAccounts [] [] [] 0).run sampleCrypto sampleLabels).get
      sampleRun_isSome) ∧ (((State.start sampleAccounts [] [] [] 0).run sampleCrypto sampleLabels).get
      sampleRun_isSome).answers.length = 2 :=
  ⟨(connection_enrols_one_device sampleCrypto sampleAccounts [] [] [] 0
    (Option.eq_some_of_isSome sampleRun_isSome)).1, by decide +kernel⟩

end Enrolment
