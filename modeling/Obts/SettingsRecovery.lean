import Obts.DirectoryStates
import Obts.DirectoryOperations

/-!
# Recovering a settings change

A change of the root ignore file takes the folders that it ignores out of the explicit directories. The live
commit applies a deletion for each of them; the startup roll-forward filters the row itself, and writes it even
if there is nothing to filter. The rows are equal unless nothing was removed.
-/
namespace SettingsRecovery

open ForestEdits SlashPath InsertionOrder DirectoryIntents Metadata DirectoryOperations DirectoryStates List

/-- What the new root ignore file says of folders: below an ignored folder all folders are ignored. -/
structure RootIgnorePolicy where
  ignores : Path → Bool
  below : ∀ folder path, folder < path → ignores folder = true → ignores path = true

/-- The list that a settings change removes. -/
def excludedDirectories (policy : RootIgnorePolicy) (currentDirs : List Path) : List Path :=
  sort (currentDirs.filter policy.ignores)

/-- The directories that the policy leaves. -/
def keptDirectories (policy : RootIgnorePolicy) (currentDirs : List Path) : List Path :=
  currentDirs.filter fun path => !policy.ignores path

section Removal

variable {policy : RootIgnorePolicy} {currentDirs : List Path} {path : Path}

lemma mem_excludedDirectories :
    path ∈ excludedDirectories policy currentDirs ↔ path ∈ currentDirs ∧ policy.ignores path := by
  rw [excludedDirectories, mem_sort, mem_filter]

lemma mem_keptDirectories :
    path ∈ keptDirectories policy currentDirs ↔ path ∈ currentDirs ∧ policy.ignores path = false := by
  rw [keptDirectories, mem_filter, Bool.not_eq_true']

/-- What is outside the removed list is what the policy leaves. -/
lemma filter_excludedDirectories :
    (currentDirs.filter fun path => !(excludedDirectories policy currentDirs).contains path)
      = keptDirectories policy currentDirs := by
  apply filter_congr
  intro path hpath
  congr 1
  rw [Bool.eq_iff_iff, contains_iff_mem, mem_excludedDirectories]
  exact and_iff_right hpath

lemma mem_run_deletes {S : Set Path} {removed : List Path} {q : Path} :
    q ∈ run S (edits (deleteIntents removed)) ↔ q ∈ S ∧ ∀ r ∈ removed, ¬ r ≤ q := by
  induction removed generalizing S with
  | nil => simp [edits, deleteIntents]
  | cons r removed ih =>
    have hcons : edits (deleteIntents (r :: removed)) = ⟨.delete, r⟩ :: edits (deleteIntents removed) := rfl
    rw [hcons, run_cons, ih]
    simp [Edit.perform, and_assoc]

/-- Deleting the removed folders with what is below them removes no more than the list. -/
lemma mem_apply_deletes :
    path ∈ applyDirectoryIntentsToSnapshot currentDirs (deleteIntents (excludedDirectories policy currentDirs)) ↔
      path ∈ keptDirectories policy currentDirs := by
  rw [← mem_dirs, dirs_applyDirectoryIntentsToSnapshot, mem_run_deletes, mem_dirs, mem_keptDirectories]
  refine and_congr_right fun hpath => ?_
  constructor
  · intro h
    by_contra hignored
    exact h path (mem_excludedDirectories.mpr ⟨hpath, Bool.eq_true_of_not_eq_false hignored⟩) le_rfl
  intro hkept r hr hle
  have hign := (mem_excludedDirectories.mp hr).2
  rcases hle.lt_or_eq with hlt | rfl
  · rw [policy.below r path hlt hign] at hkept
    cases hkept
  · rw [hkept] at hign
    cases hign

lemma apply_deletes_eq_iff :
    applyDirectoryIntentsToSnapshot currentDirs (deleteIntents (excludedDirectories policy currentDirs))
        = keptDirectories policy currentDirs ↔
      (keptDirectories policy currentDirs).Nodup ∧ Sorted (keptDirectories policy currentDirs) := by
  have hnodup : (applyDirectoryIntentsToSnapshot currentDirs
      (deleteIntents (excludedDirectories policy currentDirs))).Nodup :=
    (sortBy_perm _ _).nodup_iff.mpr (CompactedIntents.nodup_applied _ _)
  constructor
  · intro heq
    rw [← heq]
    exact ⟨hnodup, sorted_sort _⟩
  rintro ⟨hkept, hsort⟩
  have hperm := (perm_ext_iff_of_nodup hnodup hkept).mpr fun path => mem_apply_deletes
  rw [← sort_of_sorted hsort, ← sort_eq_of_perm hperm]
  exact (sort_of_sorted (sorted_sort _)).symm

end Removal

/-- What the preparation of a settings change leaves: the vault is still on the previous main. -/
structure Prepared (policy : RootIgnorePolicy) (db : MetadataDb) (operation : SyncOperationRow) (vault : VaultRow)
    (main actor : String) : Prop where
  operationFound : db.syncOperations.find? (·.operationId = operation.operationId) = some operation
  vaultFound : db.vaults.find? (·.vaultId = operation.vaultId) = some vault
  operationType : operation.operationType = .vaultSettings
  status : operation.status = .prepared
  previousMain : operation.preparedManifest.previousMain = some vault.currentMain
  expectedMain : operation.expectedMain = some vault.currentMain
  manifestMain : operation.preparedManifest.targetMain = some main
  targetMain : operation.targetMain = some main
  targetCommit : operation.targetCommit = some main
  actorUserId : operation.preparedManifest.actorUserId = some actor
  removedDirectories : operation.preparedManifest.removedDirectories
    = some (excludedDirectories policy (db.explicitDirs operation.vaultId))

/-- A row without its time. -/
def untimed (row : Option DirectoryStateRow) : Option (List Path × Nat) :=
  row.map fun row => (row.explicitDirs, row.lastEventSeq)

section Paths

variable {policy : RootIgnorePolicy} {db : MetadataDb} {operation : SyncOperationRow} {vault : VaultRow}
  {main actor : String}

/-- The row after the live commit. -/
lemma live_row (h : Prepared policy db operation vault main actor) (stamp : Stamp) :
    ∃ live, commitVaultSettingsOperation db operation.operationId stamp = .ok live ∧
      untimed (live.directoryStateByVault operation.vaultId) =
        if excludedDirectories policy (db.explicitDirs operation.vaultId) = [] then
          untimed (db.directoryStateByVault operation.vaultId)
        else some (applyDirectoryIntentsToSnapshot (db.explicitDirs operation.vaultId)
          (deleteIntents (excludedDirectories policy (db.explicitDirs operation.vaultId))),
          db.eventSeq operation.vaultId + 1) := by
  have hop : requireOperation db operation.operationId = .ok operation := by
    rw [requireOperation, h.operationFound]
  have hvault : requireVault db operation.vaultId = .ok vault := by rw [requireVault, h.vaultFound]
  have hvalid : (operation.status ≠ .prepared || operation.targetMain ≠ some main ||
      operation.targetCommit ≠ some main) = false := by simp [h.status, h.targetMain, h.targetCommit]
  set removed := excludedDirectories policy (db.explicitDirs operation.vaultId)
  set appended := appendEvent (advanceMain db operation.operationId operation.vaultId main)
    (mainAdvanced operation.vaultId (.array (deleteIntents removed)) stamp)
  refine ⟨applyDirectoryIntents appended.1 operation.vaultId (deleteIntents removed) appended.2.eventSeq stamp.now,
    ?_, ?_⟩
  · simp only [commitVaultSettingsOperation, hop, hvault, h.manifestMain, h.actorUserId, h.removedDirectories,
      bind, Except.bind, hvalid]
    rfl
  rw [applyDirectoryIntents]
  by_cases hempty : removed = []
  · rw [if_pos hempty, hempty]
    rfl
  have hlen : ¬ (deleteIntents removed).length = 0 := by simpa [deleteIntents] using hempty
  rw [if_neg hempty, if_neg hlen]
  simp only [Function.update_self]
  rfl

/-- The row after the roll-forward. -/
lemma recovered_row (h : Prepared policy db operation vault main actor) (stamp : Stamp) (secondId : String) :
    untimed ((rollForwardPreparedOperation db operation.operationId true stamp secondId).directoryStateByVault
        operation.vaultId)
      = some (keptDirectories policy (db.explicitDirs operation.vaultId), db.eventSeq operation.vaultId + 1) := by
  have hver : (!true) = false := rfl
  have hstat : ¬ operation.status ≠ .prepared := not_not.mpr h.status
  have hvalid : (vault.currentMain ≠ vault.currentMain || operation.expectedMain ≠ some vault.currentMain ||
      operation.targetMain ≠ some main || operation.targetCommit ≠ some main) = false := by
    simp [h.expectedMain, h.targetMain, h.targetCommit]
  simp only [rollForwardPreparedOperation, h.operationFound, if_neg hstat, hver, h.operationType,
    rollForwardVaultSettings, h.vaultFound, h.previousMain, h.manifestMain, h.actorUserId,
      h.removedDirectories, hvalid,
    Bool.false_eq_true, if_false, Function.update_self, untimed, Option.map_some]
  rw [← filter_excludedDirectories]
  rfl

/-- With nothing to remove, the policy leaves all directories. -/
lemma keptDirectories_of_nothing_excluded {currentDirs : List Path}
    (h : excludedDirectories policy currentDirs = []) :
    keptDirectories policy currentDirs = currentDirs := by
  rw [← filter_excludedDirectories, h]
  exact filter_eq_self.mpr fun path _ => rfl

/-- The live commit and the roll-forward leave the same row, up to its time, when something is removed from sorted
directories; when nothing is removed, only if the row is already as new as the event. -/
theorem settings_row_iff {policy : RootIgnorePolicy} {db live : MetadataDb} {operation : SyncOperationRow}
    {vault : VaultRow} {main actor : String} {stamp : Stamp} (h : Prepared policy db operation vault main actor)
    (hlive : commitVaultSettingsOperation db operation.operationId stamp = .ok live) (recoveryStamp : Stamp)
    (secondId : String) : untimed (live.directoryStateByVault operation.vaultId)
        = untimed ((rollForwardPreparedOperation db operation.operationId true recoveryStamp
            secondId).directoryStateByVault operation.vaultId) ↔
      (excludedDirectories policy (db.explicitDirs operation.vaultId) ≠ [] ∧
        (keptDirectories policy (db.explicitDirs operation.vaultId)).Nodup ∧
        Sorted (keptDirectories policy (db.explicitDirs operation.vaultId))) ∨
      (excludedDirectories policy (db.explicitDirs operation.vaultId) = [] ∧
        ∃ row, db.directoryStateByVault operation.vaultId = some row ∧
          row.lastEventSeq = db.eventSeq operation.vaultId + 1) := by
  obtain ⟨committed, hcmt, hrow⟩ := live_row h stamp
  cases hcmt.symm.trans hlive
  rw [hrow, recovered_row h recoveryStamp secondId]
  by_cases hempty : excludedDirectories policy (db.explicitDirs operation.vaultId) = []
  · rw [if_pos hempty, keptDirectories_of_nothing_excluded hempty]
    constructor
    · intro heq
      obtain ⟨row, hfound, hrow⟩ := Option.map_eq_some_iff.mp heq
      exact Or.inr ⟨hempty, row, hfound, congrArg Prod.snd hrow⟩
    rintro (⟨hsome, -⟩ | ⟨-, row, hfound, hseq⟩)
    · exact absurd hempty hsome
    · rw [MetadataDb.explicitDirs, hfound, untimed, Option.map_some, hseq]
  · rw [if_neg hempty, Option.some.injEq, Prod.mk.injEq, apply_deletes_eq_iff]
    simp [hempty]

end Paths

/-- The folder `private` and what is below it are ignored. -/
def privatePolicy : RootIgnorePolicy where
  ignores path := path = ⟨"private"⟩ || path.startsWithDir ⟨"private"⟩
  below folder path hlt hfolder := by
    rw [Bool.or_eq_true, decide_eq_true_eq, Path.startsWithDir_iff_lt] at hfolder ⊢
    rcases hfolder with rfl | hbelow
    · exact Or.inr hlt
    · exact Or.inr (hbelow.trans hlt)

def settingsOperation (removed : List Path) : SyncOperationRow where
  operationId := "operation"
  vaultId := "vault"
  deviceId := none
  operationType := .vaultSettings
  expectedMain := some "m1"
  targetMain := some "m2"
  targetCommit := some "m2"
  status := .prepared
  preparedManifest :=
    { previousMain := some "m1", targetMain := some "m2", actorUserId := some "owner",
      removedDirectories := some removed }

/-- A vault with one event, which created the directories. -/
def preparedDb (explicitDirs removed : List Path) : MetadataDb where
  vaults := [⟨"vault", .active, "m1"⟩]
  syncOperations := [settingsOperation removed]
  eventSeqByVault := fun _ => some 1
  directoryStateByVault := fun _ => some ⟨explicitDirs, 0, 1⟩

theorem settings_row_iff_removed : untimed (some ⟨[⟨"notes"⟩], 5, 2⟩) = untimed ((rollForwardPreparedOperation
        (preparedDb [⟨"notes"⟩, ⟨"private"⟩] [⟨"private"⟩]) "operation" true
          ⟨"e", 9⟩ "").directoryStateByVault "vault") ↔
      (excludedDirectories privatePolicy [⟨"notes"⟩, ⟨"private"⟩] ≠ [] ∧
        (keptDirectories privatePolicy [⟨"notes"⟩, ⟨"private"⟩]).Nodup ∧
        Sorted (keptDirectories privatePolicy [⟨"notes"⟩, ⟨"private"⟩])) ∨
      (excludedDirectories privatePolicy [⟨"notes"⟩, ⟨"private"⟩] = [] ∧ ∃ row : DirectoryStateRow,
        some (⟨[⟨"notes"⟩, ⟨"private"⟩], 0, 1⟩ : DirectoryStateRow) = some row ∧ row.lastEventSeq = 1 + 1) := by
  have hprep : Prepared privatePolicy (preparedDb [⟨"notes"⟩, ⟨"private"⟩] [⟨"private"⟩])
      (settingsOperation [⟨"private"⟩]) ⟨"vault", .active, "m1"⟩ "m2" "owner" :=
    ⟨rfl, rfl, rfl, rfl, rfl, rfl, rfl, rfl, rfl, rfl, by decide⟩
  obtain ⟨live, hlive, hrow⟩ := live_row hprep ⟨"e", 5⟩
  have hiff := settings_row_iff hprep hlive ⟨"e", 9⟩ ""
  rw [hrow] at hiff
  exact hiff

/-- Nothing is removed: the live commit leaves the row at event 1, the roll-forward moves it to event 2. -/
theorem empty_removal_moves_row :
    ¬ ∀ (policy : RootIgnorePolicy) (db live : MetadataDb) (operation : SyncOperationRow) (vault : VaultRow)
      (main actor : String) (stamp recoveryStamp : Stamp) (secondId : String),
      PrefixClosed (db.explicitDirs operation.vaultId) → Prepared policy db operation vault main actor →
      commitVaultSettingsOperation db operation.operationId stamp = .ok live →
      untimed (live.directoryStateByVault operation.vaultId)
        = untimed ((rollForwardPreparedOperation db operation.operationId true recoveryStamp
            secondId).directoryStateByVault operation.vaultId) := by
  intro hclaim
  have hprep : Prepared privatePolicy (preparedDb [⟨"notes"⟩] []) (settingsOperation []) ⟨"vault", .active, "m1"⟩ "m2"
      "owner" := ⟨rfl, rfl, rfl, rfl, rfl, rfl, rfl, rfl, rfl, rfl, by decide⟩
  obtain ⟨live, hlive, hrow⟩ := live_row hprep ⟨"e", 5⟩
  have hsame := hclaim privatePolicy _ live _ _ "m2" "owner" ⟨"e", 5⟩ ⟨"e", 9⟩ "" (by decide) hprep hlive
  rw [hrow, recovered_row hprep] at hsame
  revert hsame
  decide

end SettingsRecovery
