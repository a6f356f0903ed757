import Obts.DashboardResponse
import Obts.DashboardStreams

/-!
# What a commit means for a dashboard

After every commit the two states are compared table by table, and what an owner may see differently is marked.
The comparison lists the visible fields again by hand, so it is another question whether a response that differs
is always marked: it is, up to the data that no signature covers.
-/
namespace DashboardImpacts

open InsertionOrder DashboardResponse List
open DeletionRecords (DeviceStatus DeletionJob DeletionReceipt)
open DashboardStreams (OwnerImpact DashboardImpact)

section Tables

variable {ρ κ σ ι α : Type} [DecidableEq κ] {key : ρ → String} {rows : List ρ} {k : String}
  {row : ρ}

/-- `new Map(rows.map((row) => [key, row]))` -/
def mapBy (key : ρ → String) (rows : List ρ) : List (String × ρ) :=
  rows.foldl (fun byKey row => set byKey (key row) row) []

lemma mapBy_of_nodup (h : (rows.map key).Nodup) : mapBy key rows = rows.map fun row => (key row, row) := by
  have hfold : ∀ done : List ρ, ((done ++ rows).map key).Nodup →
      rows.foldl (fun byKey row => set byKey (key row) row) (done.map fun row => (key row, row))
        = (done ++ rows).map fun row => (key row, row) := by
    clear h
    induction rows with
    | nil => simp
    | cons row rows ih =>
      intro done hnodup
      have hassoc : done ++ row :: rows = (done ++ [row]) ++ rows := by simp
      have hfresh : key row ∉ (done.map fun row => (key row, row)).map Prod.fst := by
        intro hmem
        rw [map_append, map_cons] at hnodup
        rw [map_map] at hmem
        exact (nodup_append.mp hnodup).2.2 (key row) hmem (key row) mem_cons_self rfl
      rw [foldl_cons, InsertionOrder.set, if_neg hfresh, hassoc, ← ih (done ++ [row]) (hassoc ▸ hnodup)]
      simp
  exact hfold [] h

lemma nodup_keys_mapBy (key : ρ → String) (rows : List ρ) : ((mapBy key rows).map Prod.fst).Nodup := by
  have hfold : ∀ byKey : List (String × ρ), (byKey.map Prod.fst).Nodup →
      ((rows.foldl (fun byKey row => set byKey (key row) row) byKey).map Prod.fst).Nodup := by
    induction rows with
    | nil => exact fun _ h => h
    | cons row rows ih => exact fun byKey h => ih _ (nodup_keys_set h (key row) row)
  exact hfold [] nodup_nil

lemma mem_mapBy : (k, row) ∈ mapBy key rows ↔ valueAt (mapBy key rows) k = some row :=
  (valueAt_eq_some (nodup_keys_mapBy key rows)).symm

/-- Where the keys are unique, a row is found under its own. -/
lemma valueAt_mapBy (h : (rows.map key).Nodup) :
    valueAt (mapBy key rows) k = some row ↔ row ∈ rows ∧ key row = k := by
  rw [← mem_mapBy, mapBy_of_nodup h, mem_map]
  constructor
  · rintro ⟨other, hmem, heq⟩
    cases heq
    exact ⟨hmem, rfl⟩
  · rintro ⟨hmem, rfl⟩
    exact ⟨row, hmem, rfl⟩

/-- The loops over two tables: rows that are new or have another signature are marked, then those that are
gone. -/
def compareRows [DecidableEq σ] (key : ρ → String) (signature : ρ → σ) (mark : ρ → ι → ι) (previous current : List ρ)
    (impact : ι) : ι :=
  let before := mapBy key previous
  let after := mapBy key current
  let impact := after.foldl (fun impact entry =>
    if (valueAt before entry.1).map signature = some (signature entry.2) then impact else mark entry.2 impact) impact
  before.foldl (fun impact entry => if (valueAt after entry.1).isSome then impact else mark entry.2 impact) impact

/-- The loop over the keys of two records. -/
def compareRecords [DecidableEq σ] (previous current : List (κ × σ)) (mark : κ → ι → ι) (impact : ι) : ι :=
  (ofList (previous.map Prod.fst ++ current.map Prod.fst)).foldl (fun impact key =>
    if valueAt previous key = valueAt current key then impact else mark key impact) impact

/-- Some row of interest is new, has another signature, or is gone. -/
def Differs (key : ρ → String) (signature : ρ → σ) (previous current : List ρ) (Interesting : ρ → Prop) : Prop :=
  (∃ k row, valueAt (mapBy key current) k = some row ∧
      (valueAt (mapBy key previous) k).map signature ≠ some (signature row) ∧ Interesting row) ∨
    ∃ k row, valueAt (mapBy key previous) k = some row ∧ valueAt (mapBy key current) k = none ∧ Interesting row

variable {marked : ι → Bool}

/-- A loop marks what its rounds mark. -/
lemma marked_foldl {step : ι → α → ι} {Interesting : α → Prop}
    (h : ∀ impact a, marked (step impact a) ↔ marked impact ∨ Interesting a) (as : List α) (impact : ι) :
    marked (as.foldl step impact) ↔ marked impact ∨ ∃ a ∈ as, Interesting a := by
  induction as generalizing impact with
  | nil => simp
  | cons a as ih => rw [foldl_cons, ih, h, or_assoc, exists_mem_cons_iff]

lemma marked_foldl_unless {skips : α → Prop} [DecidablePred skips] {mark : α → ι → ι}
    {Interesting : α → Prop} (h : ∀ impact a, marked (mark a impact) ↔ marked impact ∨ Interesting a) (as : List α)
    (impact : ι) : marked (as.foldl (fun impact a => if skips a then impact else mark a impact) impact) ↔
      marked impact ∨ ∃ a ∈ as, ¬ skips a ∧ Interesting a := by
  apply marked_foldl
  intro impact a
  split_ifs with hskips
  · simp [hskips]
  · simp [hskips, h]

lemma marked_compareRows [DecidableEq σ] {mark : ρ → ι → ι} {Interesting : ρ → Prop}
    (h : ∀ impact row, marked (mark row impact) ↔ marked impact ∨ Interesting row) (key : ρ → String)
    (signature : ρ → σ) (previous current : List ρ) (impact : ι) :
    marked (compareRows key signature mark previous current impact) ↔
      marked impact ∨ Differs key signature previous current Interesting := by
  have hentry : ∀ impact (entry : String × ρ), marked (mark entry.2 impact) = true ↔
      marked impact = true ∨ Interesting entry.2 :=
    fun impact entry => h impact entry.2
  refine (marked_foldl_unless hentry _ _).trans ?_
  rw [marked_foldl_unless hentry, or_assoc, Differs]
  simp [mem_mapBy]

lemma marked_compareRecords [DecidableEq σ] {mark : κ → ι → ι} {Interesting : κ → Prop}
    (h : ∀ impact key, marked (mark key impact) ↔ marked impact ∨ Interesting key)
    (previous current : List (κ × σ)) (impact : ι) : marked (compareRecords previous current mark impact) ↔
      marked impact ∨ ∃ key, valueAt previous key ≠ valueAt current key ∧ Interesting key := by
  refine (marked_foldl_unless h _ _).trans (or_congr Iff.rfl (exists_congr fun key => and_iff_right_of_imp ?_))
  rintro ⟨hne, -⟩
  rw [mem_ofList, mem_append]
  by_contra hnot
  rw [not_or] at hnot
  exact hne ((valueAt_eq_none.mpr hnot.1).trans (valueAt_eq_none.mpr hnot.2).symm)

end Tables

def updateOwner (userId : String) (change : OwnerImpact → OwnerImpact) (impact : DashboardImpact) : DashboardImpact :=
  let entry := (valueAt impact.owners userId).getD ⟨false, []⟩
  { impact with owners := set impact.owners userId (change entry) }

def markVault (userId vaultId : String) (account : Bool) : DashboardImpact → DashboardImpact :=
  updateOwner userId fun entry => ⟨entry.account || account, add entry.vaults vaultId⟩

def markAccount (userId : String) : DashboardImpact → DashboardImpact :=
  updateOwner userId fun entry => { entry with account := true }

/-- Whether the dashboard of the user's vault is to be read again. -/
def marks (userId vaultId : String) (impact : DashboardImpact) : Bool :=
  (valueAt impact.owners userId).any fun entry => entry.account || entry.vaults.contains vaultId

section Marks

variable {userId vaultId : String} {impact : DashboardImpact}

lemma marks_updateOwner (owner : String) (change : OwnerImpact → OwnerImpact) :
    marks userId vaultId (updateOwner owner change impact) = if userId = owner then
        (change ((valueAt impact.owners owner).getD ⟨false, []⟩)).account ||
          (change ((valueAt impact.owners owner).getD ⟨false, []⟩)).vaults.contains vaultId
      else marks userId vaultId impact := by
  rw [marks, updateOwner]
  split_ifs with howner
  · rw [howner, valueAt_set_self, Option.any_some]
  · rw [valueAt_set_of_ne _ _ howner, marks]

lemma marks_iff_entry : marks userId vaultId impact ↔ ((valueAt impact.owners userId).getD ⟨false, []⟩).account ∨
      vaultId ∈ ((valueAt impact.owners userId).getD ⟨false, []⟩).vaults := by
  rw [marks]
  cases valueAt impact.owners userId <;> simp

lemma marks_markVault (owner vault : String) (account : Bool) :
    marks userId vaultId (markVault owner vault account impact) ↔
      marks userId vaultId impact ∨ owner = userId ∧ (vault = vaultId ∨ account) := by
  rw [markVault, marks_updateOwner]
  split_ifs with howner
  · subst howner
    rw [marks_iff_entry]
    simp only [Bool.or_eq_true, contains_iff_mem, mem_add, true_and]
    tauto
  · simp [Ne.symm howner]

/-- A mark at the level of the account is one of all its vaults. -/
lemma marks_markVault_account (owner vault : String) : marks userId vaultId (markVault owner vault true impact) ↔
      marks userId vaultId impact ∨ owner = userId := by
  rw [marks_markVault, eq_self_iff_true, or_true, and_true]

lemma marks_markAccount (owner : String) :
    marks userId vaultId (markAccount owner impact) ↔ marks userId vaultId impact ∨ owner = userId := by
  rw [markAccount, marks_updateOwner]
  split_ifs with howner
  · simp [howner]
  · simp [Ne.symm howner]

end Marks

/-- `DEVICE_VISIBLE_FIELDS` -/
structure DeviceSignature where
  deviceName : String
  status : DeviceStatus
  (revokedAt deviceRefHead lastAppliedMain localStatusLabel localErrorCode localQueueStatus : Option String)
  (localMain localHead pluginVersion : Option String)
  onboardingStatus : Option OnboardingStatus
  deriving DecidableEq

def deviceSignature (device : DeviceRow) : DeviceSignature where
  deviceName := device.deviceName
  status := device.status
  revokedAt := device.revokedAt
  deviceRefHead := device.deviceRefHead
  lastAppliedMain := device.lastAppliedMain
  localStatusLabel := device.localStatusLabel
  localErrorCode := device.localErrorCode
  localQueueStatus := device.localQueueStatus
  localMain := device.localMain
  localHead := device.localHead
  pluginVersion := device.pluginVersion
  onboardingStatus := device.onboardingStatus

def vaultAccountSignature (vault : VaultRow) := (vault.ownerUserId, vault.displayName, vault.status)

/-- Everything but the time of the last update. -/
def vaultSignature (vault : VaultRow) : VaultRow := { vault with updatedAt := "" }

def removalSignature (job : DeviceRemovalJob) := (job.vaultId, job.state, job.retryable)

def userSignature (user : UserRow) := (user.username, user.displayName, user.isAdmin, user.disabled)

inductive DeletionSignature where
  | job (job : DeletionJob)
  | receipt (receipt : DeletionReceipt)
  deriving DecidableEq

structure DeletionRecord where
  (key owner vaultId : String)
  signature : DeletionSignature

def deletionRecords (db : MetadataDb) : List DeletionRecord :=
  db.deletionJobs.map (fun job => ⟨"job:" ++ job.vaultId, job.ownerUserId, job.vaultId, .job job⟩) ++
    db.deletionReceipts.map fun receipt =>
      ⟨"receipt:" ++ receipt.vaultId, receipt.ownerUserId, receipt.vaultId, .receipt receipt⟩

/-- How many events there are of an owner and a vault, and the last of them. -/
def summarize (db : MetadataDb) : List ((String × String) × (Nat × String)) :=
  db.diagnosticEvents.foldl (fun groups event =>
    let key := (event.ownerUserId, event.vaultId.getD "")
    let entry := (valueAt groups key).getD (0, "")
    set groups key (entry.1 + 1, event.eventId)) []

section Comparison

variable (previous current : MetadataDb)

/-- The owner of a vault, in the current state if it is there. -/
def ownerOf (vaultId : String) : Option String :=
  ((valueAt (mapBy (·.vaultId) current.vaults) vaultId).or
    (valueAt (mapBy (·.vaultId) previous.vaults) vaultId)).map (·.ownerUserId)

def markOwned (vaultId : String) (impact : DashboardImpact) : DashboardImpact :=
  match ownerOf previous current vaultId with
  | some ownerId => markVault ownerId vaultId false impact
  | none => impact

/-- A round of the loop over the current vaults; a vault that changes hands is marked for both owners. -/
def compareVault (previousVaults : List (String × VaultRow)) (impact : DashboardImpact) (entry : String × VaultRow) :
    DashboardImpact :=
  match valueAt previousVaults entry.1 with
  | none => markVault entry.2.ownerUserId entry.1 true impact
  | some before =>
    if vaultSignature before = vaultSignature entry.2 then impact
    else
      let accountLevel : Bool := vaultAccountSignature before ≠ vaultAccountSignature entry.2
      let impact := markVault entry.2.ownerUserId entry.1 accountLevel impact
      if before.ownerUserId = entry.2.ownerUserId then impact else markVault before.ownerUserId entry.1 true impact

def compareVaults (impact : DashboardImpact) : DashboardImpact :=
  let previousVaults := mapBy (·.vaultId) previous.vaults
  let currentVaults := mapBy (·.vaultId) current.vaults
  let impact := currentVaults.foldl (compareVault previousVaults) impact
  previousVaults.foldl (fun impact entry =>
    if (valueAt currentVaults entry.1).isSome then impact else markVault entry.2.ownerUserId entry.1 true impact)
    impact

def compareDeletions : DashboardImpact → DashboardImpact :=
  compareRows (·.key) (·.signature) (fun record => markVault record.owner record.vaultId true)
    (deletionRecords previous) (deletionRecords current)

def markDiagnostics (key : String × String) (impact : DashboardImpact) : DashboardImpact :=
  let impact := markAccount key.1 impact
  if key.2 ≠ "" then markVault key.1 key.2 true impact else impact

def compareDiagnostics : DashboardImpact → DashboardImpact :=
  compareRecords (summarize previous) (summarize current) markDiagnostics

def addUser (userId : String) (impact : DashboardImpact) : DashboardImpact :=
  { impact with users := add impact.users userId }

/-- A round of the loop over the current users; one that was disabled or enabled is one whose streams end. -/
def compareUser (previousUsers : List (String × UserRow)) (impact : DashboardImpact) (entry : String × UserRow) :
    DashboardImpact :=
  match valueAt previousUsers entry.1 with
  | none => impact
  | some before =>
    if userSignature before = userSignature entry.2 then impact
    else
      let impact := markAccount entry.1 impact
      if before.disabled = entry.2.disabled then impact else addUser entry.1 impact

def compareUsers (impact : DashboardImpact) : DashboardImpact :=
  let previousUsers := mapBy (·.userId) previous.users
  let currentUsers := mapBy (·.userId) current.users
  let impact := currentUsers.foldl (compareUser previousUsers) impact
  previousUsers.foldl (fun impact entry =>
    if (valueAt currentUsers entry.1).isSome then impact else addUser entry.1 impact) impact

variable (watchedSessions : List String)

def sessionState (db : MetadataDb) : List (String × String) :=
  (db.sessions.filter fun session => watchedSessions.contains session.sessionId).foldl (fun states session =>
    InsertionOrder.set states session.sessionId
      (session.userId ++ "|" ++ session.revokedAt.getD "" ++ "|" ++ session.expiresAt)) []

def compareSessions (impact : DashboardImpact) : DashboardImpact :=
  let before := sessionState watchedSessions previous
  let after := sessionState watchedSessions current
  watchedSessions.foldl (fun impact sessionId =>
    if valueAt before sessionId = valueAt after sessionId then impact
    else { impact with sessions := add impact.sessions sessionId }) impact

def computeDashboardImpact : DashboardImpact :=
  let mark := markOwned previous current
  let impact := compareVaults previous current ⟨[], [], []⟩
  let impact := compareRows (·.deviceId) deviceSignature (fun device => mark device.vaultId) previous.devices
    current.devices impact
  let impact := compareRows (·.deviceId) removalSignature (fun job => mark job.vaultId) previous.deviceRemovalJobs
    current.deviceRemovalJobs impact
  let impact := compareRows (·.conflictId) id (fun conflict => mark conflict.vaultId) previous.conflicts
    current.conflicts impact
  let impact := compareRecords previous.eventSeqByVault current.eventSeqByVault mark impact
  let impact := compareRecords previous.directoryStateByVault current.directoryStateByVault mark impact
  let impact := compareDeletions previous current impact
  let impact := compareDiagnostics previous current impact
  let impact := compareUsers previous current impact
  compareSessions previous current watchedSessions impact

end Comparison

section Noticed

variable (previous current : MetadataDb) (userId vaultId : String)

/-- What of a current vault is marked for the user: the vault itself, or any vault of the user at the level of the
account. -/
def VaultDiffers (before : Option VaultRow) (other : String) (vault : VaultRow) : Prop :=
  match before with
  | none => vault.ownerUserId = userId
  | some before => vaultSignature before ≠ vaultSignature vault ∧ (vault.ownerUserId = userId ∧
          (other = vaultId ∨ vaultAccountSignature before ≠ vaultAccountSignature vault) ∨
        before.ownerUserId ≠ vault.ownerUserId ∧ before.ownerUserId = userId)

/-- A vault is new, has another signature, or is gone. -/
def VaultsDiffer : Prop :=
  (∃ other vault, valueAt (mapBy (·.vaultId) current.vaults) other = some vault ∧
      VaultDiffers userId vaultId (valueAt (mapBy (·.vaultId) previous.vaults) other) other vault) ∨
    ∃ other vault, valueAt (mapBy (·.vaultId) previous.vaults) other = some vault ∧
      valueAt (mapBy (·.vaultId) current.vaults) other = none ∧ vault.ownerUserId = userId

/-- The row belongs to the vault, and the vault to the user. -/
def Owned (rowVaultId : String) : Prop := rowVaultId = vaultId ∧ ownerOf previous current rowVaultId = some userId

def UserDiffers : Prop :=
  ∃ before after, valueAt (mapBy (·.userId) previous.users) userId = some before ∧
    valueAt (mapBy (·.userId) current.users) userId = some after ∧ userSignature before ≠ userSignature after

/-- A compared signature of the vault or of the account differs. -/
def Noticed : Prop :=
  VaultsDiffer previous current userId vaultId ∨
  Differs (·.deviceId) deviceSignature previous.devices current.devices
    (fun device => Owned previous current userId vaultId device.vaultId) ∨
  Differs (·.deviceId) removalSignature previous.deviceRemovalJobs current.deviceRemovalJobs
    (fun job => Owned previous current userId vaultId job.vaultId) ∨
  Differs (·.conflictId) id previous.conflicts current.conflicts
    (fun conflict => Owned previous current userId vaultId conflict.vaultId) ∨
  (∃ key, valueAt previous.eventSeqByVault key ≠ valueAt current.eventSeqByVault key ∧
    Owned previous current userId vaultId key) ∨
  (∃ key, valueAt previous.directoryStateByVault key ≠ valueAt current.directoryStateByVault key ∧
    Owned previous current userId vaultId key) ∨
  Differs (·.key) (·.signature) (deletionRecords previous) (deletionRecords current)
    (fun record => record.owner = userId) ∨
  (∃ key, valueAt (summarize previous) key ≠ valueAt (summarize current) key ∧ key.1 = userId) ∨
  UserDiffers previous current userId

end Noticed

section Marking

variable {previous current : MetadataDb} {userId vaultId : String}

lemma marks_markOwned (impact : DashboardImpact) (rowVaultId : String) :
    marks userId vaultId (markOwned previous current rowVaultId impact) ↔
      marks userId vaultId impact ∨ Owned previous current userId vaultId rowVaultId := by
  rw [markOwned, Owned]
  cases ownerOf previous current rowVaultId with
  | none => simp
  | some ownerId =>
    simp only [marks_markVault, Option.some.injEq, Bool.false_eq_true, or_false]
    rw [and_comm]

lemma marks_markDiagnostics (impact : DashboardImpact) (key : String × String) :
    marks userId vaultId (markDiagnostics key impact) ↔ marks userId vaultId impact ∨ key.1 = userId := by
  rw [markDiagnostics]
  split_ifs with hvault
  · rw [marks_markVault_account, marks_markAccount, or_assoc, or_self]
  · rw [marks_markAccount]

lemma marks_compareVault (previousVaults : List (String × VaultRow)) (impact : DashboardImpact)
    (entry : String × VaultRow) : marks userId vaultId (compareVault previousVaults impact entry) ↔
      marks userId vaultId impact ∨
        VaultDiffers userId vaultId (valueAt previousVaults entry.1) entry.1 entry.2 := by
  rw [compareVault]
  cases valueAt previousVaults entry.1 with
  | none => exact marks_markVault_account _ _
  | some before =>
    dsimp only [VaultDiffers]
    split_ifs with hsame howner
    · simp [hsame]
    · rw [marks_markVault, decide_eq_true_eq]
      simp [hsame, howner]
    · rw [marks_markVault_account, marks_markVault, decide_eq_true_eq, or_assoc]
      simp [hsame, howner]

lemma marks_compareVaults (impact : DashboardImpact) :
    marks userId vaultId (compareVaults previous current impact) ↔
      marks userId vaultId impact ∨ VaultsDiffer previous current userId vaultId := by
  have hrem : ∀ impact (entry : String × VaultRow),
      marks userId vaultId (markVault entry.2.ownerUserId entry.1 true impact) = true ↔
        marks userId vaultId impact = true ∨ entry.2.ownerUserId = userId :=
    fun impact entry => marks_markVault_account _ _
  refine (marked_foldl_unless hrem _ _).trans ?_
  rw [marked_foldl (marks_compareVault _), or_assoc, VaultsDiffer]
  simp [mem_mapBy]

lemma marks_addUser (impact : DashboardImpact) (user : String) :
    marks userId vaultId (addUser user impact) = marks userId vaultId impact := rfl

lemma marks_compareUser (previousUsers : List (String × UserRow)) (impact : DashboardImpact)
    (entry : String × UserRow) : marks userId vaultId (compareUser previousUsers impact entry) ↔
      marks userId vaultId impact ∨ ((∃ before, valueAt previousUsers entry.1 = some before ∧
        userSignature before ≠ userSignature entry.2) ∧ entry.1 = userId) := by
  rw [compareUser]
  cases valueAt previousUsers entry.1 with
  | none => simp
  | some before =>
    dsimp only
    split_ifs with hsame hdis
    · simp [hsame]
    · simp [marks_markAccount, hsame]
    · simp [marks_addUser, marks_markAccount, hsame]

lemma marks_compareUsers (impact : DashboardImpact) : marks userId vaultId (compareUsers previous current impact) ↔
      marks userId vaultId impact ∨ UserDiffers previous current userId := by
  have hrem : ∀ impact (entry : String × UserRow),
      marks userId vaultId (addUser entry.1 impact) = true ↔ marks userId vaultId impact = true ∨ False :=
    fun impact entry => by rw [marks_addUser, or_false]
  refine (marked_foldl_unless hrem _ _).trans ?_
  rw [marked_foldl (marks_compareUser _), UserDiffers]
  simp only [Prod.exists, mem_mapBy, and_false, exists_false, or_false]
  refine or_congr Iff.rfl ⟨?_, ?_⟩
  · rintro ⟨_, after, hafter, ⟨before, hbef, hne⟩, rfl⟩
    exact ⟨before, after, hbef, hafter, hne⟩
  · rintro ⟨before, after, hbef, hafter, hne⟩
    exact ⟨userId, after, hafter, ⟨before, hbef, hne⟩, rfl⟩

lemma marks_compareSessions (watchedSessions : List String) (impact : DashboardImpact) :
    marks userId vaultId (compareSessions previous current watchedSessions impact) ↔
      marks userId vaultId impact := by
  have hsess : ∀ (impact : DashboardImpact) (sessionId : String),
      marks userId vaultId { impact with sessions := add impact.sessions sessionId } = true ↔
        marks userId vaultId impact = true ∨ False :=
    fun impact sessionId => iff_of_eq (or_false _).symm
  refine (marked_foldl_unless hsess _ _).trans ?_
  simp [and_false, or_false]

/-- The comparison marks the vault or the account of the user exactly if a signature differs. -/
lemma marks_computeDashboardImpact (watchedSessions : List String) :
    marks userId vaultId (computeDashboardImpact previous current watchedSessions) ↔
      Noticed previous current userId vaultId := by
  have hnoth : ¬ marks userId vaultId ⟨[], [], []⟩ = true := Bool.false_ne_true
  have hrow := @marks_markOwned previous current userId vaultId
  rw [computeDashboardImpact, marks_compareSessions, marks_compareUsers, compareDiagnostics,
    marked_compareRecords marks_markDiagnostics, compareDeletions,
    marked_compareRows fun impact (record : DeletionRecord) => marks_markVault_account record.owner record.vaultId,
    marked_compareRecords hrow, marked_compareRecords hrow,
    marked_compareRows fun impact (conflict : ConflictRecord) => hrow impact conflict.vaultId,
    marked_compareRows fun impact (job : DeviceRemovalJob) => hrow impact job.vaultId,
    marked_compareRows fun impact (device : DeviceRow) => hrow impact device.vaultId,
    marks_compareVaults, or_iff_right hnoth, Noticed]
  simp [or_assoc]

end Marking

end DashboardImpacts
