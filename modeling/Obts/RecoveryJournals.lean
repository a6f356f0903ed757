import Obts.DirectoryRecovery
import Obts.MaterialisedScan

/-!
# Directory recovery journals

A journal that a step of the recovery writes is read back just when its fields are well-formed and the
inventory agrees with the classification that came before it: the folders that were there are in the
inventory, and nothing has taken the place of one that was not.
-/
namespace DirectoryRecovery

open ForestEdits InsertionOrder SlashPath DirectoryIntents ClientPaths VaultInventory StoredIntents List
open MaterialisedScan (materialise oneFile)
open Option (bind_eq_some_iff)

variable {inventory : RecoveryInventory} {disk listed : Disk} {sight : Sight}

section Gathered
variable {u : SegmentNormalization} {hashes : FileHashes} {roots : List Path} {p : Path}

lemma coveredBy_iff : coveredBy roots p ↔ ∃ root ∈ roots, root ≤ p := by
  simp [coveredBy, pathsOverlapWithinRoot_iff]

lemma recoveryFileFingerprint_valid {reading : FileReading} {fingerprint : Fingerprint}
    (h : recoveryFileFingerprint hashes reading = some fingerprint) : isPreflightFingerprint fingerprint := by
  cases reading with
  | changed => cases h
  | file content =>
    cases h
    exact Bool.and_eq_true_iff.mpr ⟨hashes.sha256_hex content, hashes.blob_hex content⟩
  | missing | directory | other =>
    cases h
    rfl

lemma fingerprintFiles_spec {content : Path → FileReading} {files : List Path}
    {entries : List FileEntry} (h : fingerprintFiles hashes content files = some entries) :
    entries.map (·.path) = files ∧ ∀ e ∈ entries, isPreflightFingerprint e.fingerprint := by
  induction files generalizing entries with
  | nil =>
    cases h
    exact ⟨rfl, fun e he => absurd he not_mem_nil⟩
  | cons filePath files ih =>
    obtain ⟨fingerprint, hfing, h⟩ := bind_eq_some_iff.mp h
    obtain ⟨rest, hrest, h⟩ := bind_eq_some_iff.mp h
    cases h
    obtain ⟨hpaths, hvalid⟩ := ih hrest
    constructor
    · rw [map_cons, hpaths]
    intro e he
    rcases mem_cons.mp he with rfl | he
    · exact recoveryFileFingerprint_valid hfing
    · exact hvalid e he

lemma isSafeJournalPath_iff : isSafeJournalPath u p ↔ Normal u p ∧ isValidVaultPath p := by
  rw [isSafeJournalPath, Bool.and_eq_true, decide_eq_true_eq]
  rfl

variable (u) in
/-- A file of the inventory. -/
def FoundFile (disk : Disk) (p : Path) : Prop := Found u disk p ∧ isSyncableVaultPath u p = true

variable (u) in
/-- An inventory of what lies at or below some folders. -/
structure Captured (disk : Disk) (roots : List Path) (inventory : RecoveryInventory) : Prop where
  directories_nodup : (inventory.directories.map (·.path)).Nodup
  files_nodup : (inventory.files.map (·.path)).Nodup
  mem_directories : ∀ p, p ∈ inventory.directories.map (·.path) ↔ Listed u disk p ∧ ∃ root ∈ roots, root ≤ p
  mem_files : ∀ p, p ∈ inventory.files.map (·.path) ↔ FoundFile u disk p ∧ ∃ root ∈ roots, root ≤ p
  safe_files : ∀ p ∈ inventory.files.map (·.path), isSafeJournalPath u p = true
  created : ∀ e ∈ inventory.directories, e.creationTime.all (0 < ·) = true
  fingerprints : ∀ e ∈ inventory.files, isPreflightFingerprint e.fingerprint = true

lemma captureDirectoryRecoveryInventory_spec
    (h : captureDirectoryRecoveryInventory u hashes sight roots = some inventory) :
    Captured u sight.disk roots inventory := by
  obtain ⟨listing, hlst, h⟩ := bind_eq_some_iff.mp h
  obtain ⟨files, hfiles, h⟩ := bind_eq_some_iff.mp h
  cases h
  obtain ⟨hdirs, hnodup, hlist, hfound⟩ := listLocalVaultInventory_spec hlst
  obtain ⟨hpaths, hfing⟩ := fingerprintFiles_spec hfiles
  have hscan : scanSyncableFiles u sight.disk none
      = some (sort (listing.files.filter fun p => isSyncableVaultPath u p)) := by
    rw [scanSyncableFiles, hlst]
    rfl
  have hmap : ∀ dirs : List Path, (dirs.map fun dirPath =>
      DirectoryEntry.mk dirPath (adapterDirectoryCreationTime sight.readings dirPath)).map (·.path) = dirs := by
    intro dirs
    rw [map_map]
    exact map_id dirs
  constructor
  · rw [hmap]
    exact (sortBy_perm _ _).nodup_iff.mpr (hdirs.filter _)
  · rw [hpaths]
    exact (sortBy_perm _ _).nodup_iff.mpr (hnodup.filter _)
  · intro p
    rw [hmap, mem_sort, mem_filter, hlist, coveredBy_iff]
  · intro p
    rw [hpaths, mem_sort, mem_filter, Bool.and_eq_true, coveredBy_iff, FoundFile, ← hfound p]
    constructor
    · rintro ⟨hmem, hcov, hsync⟩
      exact ⟨⟨hmem, hsync⟩, hcov⟩
    · rintro ⟨⟨hmem, hsync⟩, hcov⟩
      exact ⟨hmem, hcov, hsync⟩
  · intro p hp
    rw [hpaths, mem_sort, mem_filter, Bool.and_eq_true] at hp
    rw [isSafeJournalPath_iff]
    apply mem_scanSyncableFiles hscan
    rw [mem_sort, mem_filter]
    exact ⟨hp.1, hp.2.2⟩
  · intro e he
    obtain ⟨dirPath, -, rfl⟩ := mem_map.mp he
    rw [adapterDirectoryCreationTime]
    cases sight.readings.ctime dirPath with
    | none => rfl
    | some time =>
      by_cases hpos : 0 < time <;> simp [Option.filter, hpos]
  · exact hfing

end Gathered

section Drafts
variable {u : SegmentNormalization} {c : Collation} {value : Recovery}

variable (u c) in
lemma parse_eq_some_iff : parseDirectoryRecoveryDecision u c value = some value ↔
    checkFields u value ∧ checkClassification value ∧ checkInventory u c value ∧ checkPhase value := by
  rw [parseDirectoryRecoveryDecision]
  cases checkFields u value <;> cases checkClassification value <;>
    cases checkInventory u c value <;> cases checkPhase value <;> simp

variable (u) in
/-- The fields that stay as they are once a recovery has begun. -/
structure Header (value : Recovery) : Prop where
  targetMain : isGitObjectId value.targetMain = true
  localMain : value.localMainAtDecision.any isGitObjectId = true
  localHead : value.localHeadAtDecision.any isGitObjectId = true
  baseMain : value.baseMain.all isGitObjectId = true
  eventSeq : value.eventSeq ≤ maxSafeInteger
  changedPaths : pathArray u value.changedPaths = true
  targetFileSizes : isTargetFileSizeMap u value.targetFileSizes = true
  explicitDirectories : pathArray u value.explicitDirectories = true
  directoryIntents : ∀ intent ∈ value.directoryIntents, isSafeJournalPath u intent.path = true

variable (u c) in
/-- A journal of what one classification and the inventory after it have given. -/
structure Drafted (value : Recovery) (disk listed : Disk) : Prop where
  ambiguous : value.ambiguousIntents
    = (value.originalPendingIntents.filter (coveredByRemoteDelete value.directoryIntents)).filter
        fun intent => adapterIsDirectoryStrict disk intent.path
  superseded : value.supersededIntents
    = (value.originalPendingIntents.filter (coveredByRemoteDelete value.directoryIntents)).filter
        fun intent => !adapterIsDirectoryStrict disk intent.path
  roots : value.ambiguousRoots = topmostDirectories c (value.ambiguousIntents.map (·.path))
  inventory : ∃ roots, Captured u listed roots value.inventory ∧ ∀ p, (∃ root ∈ roots, root ≤ p) ↔
      ∃ intent ∈ value.ambiguousIntents ++ value.supersededIntents, intent.path ≤ p

section
variable (h : Drafted u c value disk listed)
include h

lemma classified_perm : (value.ambiguousIntents ++ value.supersededIntents).Perm
      (value.originalPendingIntents.filter (coveredByRemoteDelete value.directoryIntents)) := by
  rw [h.ambiguous, h.superseded]
  exact filter_append_perm _ _

lemma mem_classified {intent : StoredIntent} : intent ∈ value.ambiguousIntents ++ value.supersededIntents ↔
      intent ∈ value.originalPendingIntents ∧ coveredByRemoteDelete value.directoryIntents intent := by
  rw [(classified_perm h).mem_iff, mem_filter]

/-- The fields are accepted when those of the header and the pending intents are. -/
lemma checkFields_iff (hpos : 1 ≤ value.nextGeneration) : checkFields u value ↔ Header u value ∧
      (∀ intent ∈ value.originalPendingIntents, isStoredDirectoryIntent u intent) ∧
      value.nextGeneration ≤ maxSafeInteger := by
  simp only [checkFields, Bool.and_eq_true, decide_eq_true_eq, all_eq_true]
  constructor
  · intro hchk
    obtain ⟨⟨⟨⟨⟨⟨⟨⟨⟨⟨⟨⟨⟨⟨htgt, hmain⟩, hhead⟩, hbase⟩, hseq⟩, hchg⟩, hsizes⟩, hexpl⟩,
      -⟩, hints⟩, hsto⟩, -⟩, -⟩, hgen⟩, -⟩ := hchk
    exact ⟨⟨htgt, hmain, hhead, hbase, hseq, hchg, hsizes, hexpl, hints⟩, hsto, hgen⟩
  · rintro ⟨hhdr, hsto, hgen⟩
    have hclas : ∀ intent ∈ value.ambiguousIntents ++ value.supersededIntents,
        isStoredDirectoryIntent u intent = true :=
      fun intent hintent => hsto intent ((mem_classified h).mp hintent).1
    have hroots : pathArray u value.ambiguousRoots = true := by
      rw [h.roots, pathArray, Bool.and_eq_true, decide_eq_true_eq, all_eq_true]
      refine ⟨fun root hroot => ?_, nodup_topmostDirectories⟩
      obtain ⟨intent, hintent, rfl⟩ := mem_map.mp (mem_of_mem_topmostDirectories hroot)
      have hsafe := hclas intent (mem_append_left _ hintent)
      simp only [isStoredDirectoryIntent, Bool.and_eq_true] at hsafe
      exact hsafe.1.1.1.1.1.1.1.1
    exact ⟨⟨⟨⟨⟨⟨⟨⟨⟨⟨⟨⟨⟨⟨hhdr.targetMain, hhdr.localMain⟩, hhdr.localHead⟩,
      hhdr.baseMain⟩, hhdr.eventSeq⟩, hhdr.changedPaths⟩, hhdr.targetFileSizes⟩,
      hhdr.explicitDirectories⟩, hroots⟩, hhdr.directoryIntents⟩, hsto⟩,
      fun intent hintent => hclas intent (mem_append_left _ hintent)⟩,
      fun intent hintent => hclas intent (mem_append_right _ hintent)⟩,
      hgen⟩, hpos⟩

/-- What was classified is what the remote deletions cover, so the ids decide. -/
lemma checkClassification_iff :
    checkClassification value ↔ (value.originalPendingIntents.map (·.intentId)).Nodup := by
  simp only [checkClassification, Bool.and_eq_true, decide_eq_true_eq, all_eq_true]
  constructor
  · intro hchk
    exact hchk.1.1.1.1
  intro hnodup
  have hperm := classified_perm h
  refine ⟨⟨⟨⟨hnodup, ?_⟩, ?_⟩, ?_⟩, ?_⟩
  · intro intent hintent
    have hmem := ((mem_classified h).mp hintent).1
    rw [find?_of_nodup hnodup hmem]
    exact decide_eq_true rfl
  · refine ((hperm.map _).nodup_iff).mpr ?_
    exact hnodup.sublist (filter_sublist.map _)
  · exact fun intent hintent => ((mem_classified h).mp hintent).2
  · exact sort_eq_of_perm (hperm.symm.map _)

/-- The inventory agrees with the classification when the ambiguous folders are in it, and nothing at or
below a superseded one. -/
lemma checkInventory_iff : checkInventory u c value ↔
      (∀ intent ∈ value.ambiguousIntents, Listed u listed intent.path) ∧
      ∀ intent ∈ value.supersededIntents, ∀ p, Listed u listed p ∨ FoundFile u listed p → ¬ intent.path ≤ p := by
  obtain ⟨roots, hcap, hroots⟩ := h.inventory
  have hcov : ∀ p, coveredBy (topmostDirectories c
      (value.ambiguousRoots ++ value.supersededIntents.map (·.path))) p = true ↔
      ∃ root ∈ roots, root ≤ p := by
    intro p
    rw [coveredBy_iff, below_topmostDirectories_iff, hroots]
    constructor
    · rintro ⟨root, hroot, hle⟩
      rcases mem_append.mp hroot with hroot | hroot
      · rw [h.roots] at hroot
        obtain ⟨intent, hintent, rfl⟩ := mem_map.mp (mem_of_mem_topmostDirectories hroot)
        exact ⟨intent, mem_append_left _ hintent, hle⟩
      · obtain ⟨intent, hintent, rfl⟩ := mem_map.mp hroot
        exact ⟨intent, mem_append_right _ hintent, hle⟩
    · rintro ⟨intent, hintent, hle⟩
      rcases mem_append.mp hintent with hintent | hintent
      · obtain ⟨root, hroot, habove⟩ :=
          exists_topmostDirectories_le (c := c) (mem_map_of_mem (f := (·.path)) hintent)
        rw [← h.roots] at hroot
        exact ⟨root, mem_append_left _ hroot, habove.trans hle⟩
      · exact ⟨intent.path, mem_append_right _ (mem_map_of_mem hintent), hle⟩
  have hdirs : ∀ entry ∈ value.inventory.directories,
      isSafeJournalPath u entry.path = true ∧ ∃ root ∈ roots, root ≤ entry.path := by
    intro entry hentry
    obtain ⟨hlst, hbelow⟩ := (hcap.mem_directories _).mp (mem_map_of_mem hentry)
    exact ⟨isSafeJournalPath_iff.mpr ⟨hlst.valid.1, hlst.valid.2.1⟩, hbelow⟩
  have hfiles : ∀ entry ∈ value.inventory.files,
      isSafeJournalPath u entry.path = true ∧ ∃ root ∈ roots, root ≤ entry.path := by
    intro entry hentry
    have hpath := mem_map_of_mem (f := (·.path)) hentry
    exact ⟨hcap.safe_files _ hpath, ((hcap.mem_files _).mp hpath).2⟩
  have hbelow : ∀ intent ∈ value.ambiguousIntents ++ value.supersededIntents,
      ∀ p, intent.path ≤ p → ∃ root ∈ roots, root ≤ p :=
    fun intent hintent p hle => (hroots p).mpr ⟨intent, hintent, hle⟩
  simp only [checkInventory, Bool.and_eq_true, decide_eq_true_eq, all_eq_true,
    Bool.not_eq_true', contains_iff_mem, any_eq_false, hcov]
  constructor
  · rintro ⟨⟨-, hkept⟩, hgone⟩
    constructor
    · intro intent hintent
      exact ((hcap.mem_directories _).mp (hkept intent hintent)).1
    intro intent hintent p hp hle
    have hroot := hbelow intent (mem_append_right _ hintent) p hle
    have hmem : p ∈ value.inventory.directories.map (·.path)
        ++ value.inventory.files.map (·.path) := by
      rcases hp with hlst | hfound
      · exact mem_append_left _ ((hcap.mem_directories p).mpr ⟨hlst, hroot⟩)
      · exact mem_append_right _ ((hcap.mem_files p).mpr ⟨hfound, hroot⟩)
    have hnone := hgone intent hintent
    rw [Bool.not_eq_true, any_eq_false] at hnone
    exact hnone p hmem (pathsOverlapWithinRoot_iff.mpr hle)
  · rintro ⟨hkept, hgone⟩
    refine ⟨⟨⟨⟨⟨⟨h.roots.symm, ?_⟩, hcap.directories_nodup⟩, ?_⟩, hcap.files_nodup⟩, ?_⟩, ?_⟩
    · intro entry hentry
      exact ⟨hdirs entry hentry, hcap.created entry hentry⟩
    · intro entry hentry
      exact ⟨hfiles entry hentry, hcap.fingerprints entry hentry⟩
    · intro intent hintent
      exact (hcap.mem_directories _).mpr ⟨hkept intent hintent, hbelow intent (mem_append_left _ hintent) _ le_rfl⟩
    · intro intent hintent
      rw [Bool.not_eq_true, any_eq_false]
      intro p hp
      rw [pathsOverlapWithinRoot_iff]
      apply hgone intent hintent p
      rcases mem_append.mp hp with hp | hp
      · exact .inl ((hcap.mem_directories p).mp hp).1
      · exact .inr ((hcap.mem_files p).mp hp).1

end

end Drafts

variable {recovery : Recovery} {surroundings : Surroundings} {w : Written}

section Agreement
variable {u : SegmentNormalization} {digest : EditOp → Path → String} {c : Collation}
variable {hashes : FileHashes} {journal : Recovery} {decisions : Path → Option Choice}
  {file : Option StateFile} {recoveryId : RecoveryId} {roots : List Path}
  {reset : ResetSurroundings} {p : Path}

variable (u digest c) in
/-- The pending intents are well-formed, with ids of their own; every pending folder that the remote
deletions cover is in the inventory if it was there when it was classified, and otherwise nothing in
the inventory lies at or below it. -/
structure Agreeing (file : Option StateFile) (remoteIntents : List DirectoryIntent)
    (disk listed : Disk) : Prop where
  stored : ∀ intent ∈ (readDirectoryState u digest c file).pendingIntents, isStoredDirectoryIntent u intent = true
  ids : ((readDirectoryState u digest c file).pendingIntents.map (·.intentId)).Nodup
  generation : (readDirectoryState u digest c file).nextGeneration ≤ maxSafeInteger
  kept : ∀ intent ∈ (readDirectoryState u digest c file).pendingIntents,
    coveredByRemoteDelete remoteIntents intent = true →
      adapterIsDirectoryStrict disk intent.path = true → Listed u listed intent.path
  gone : ∀ intent ∈ (readDirectoryState u digest c file).pendingIntents,
    coveredByRemoteDelete remoteIntents intent = true → adapterIsDirectoryStrict disk intent.path = false →
        ∀ p, Listed u listed p ∨ FoundFile u listed p → ¬ intent.path ≤ p

lemma parse_of_drafted {value : Recovery} (h : Drafted u c value disk listed)
    (hpend : value.originalPendingIntents = (readDirectoryState u digest c file).pendingIntents)
    (hgen : value.nextGeneration = (readDirectoryState u digest c file).nextGeneration)
    (hphase : checkPhase value) : parseDirectoryRecoveryDecision u c value = some value ↔
      Header u value ∧ Agreeing u digest c file value.directoryIntents disk listed := by
  have hpos : 1 ≤ value.nextGeneration := hgen ▸ readDirectoryState_pos u digest c file
  have hamb : ∀ intent, intent ∈ value.ambiguousIntents ↔ (intent ∈ value.originalPendingIntents ∧
        coveredByRemoteDelete value.directoryIntents intent = true) ∧
      adapterIsDirectoryStrict disk intent.path = true := by
    intro intent
    rw [h.ambiguous, mem_filter, mem_filter]
  have hsup : ∀ intent, intent ∈ value.supersededIntents ↔ (intent ∈ value.originalPendingIntents ∧
        coveredByRemoteDelete value.directoryIntents intent = true) ∧
      adapterIsDirectoryStrict disk intent.path = false := by
    intro intent
    rw [h.superseded, mem_filter, mem_filter, Bool.not_eq_true']
  rw [parse_eq_some_iff, checkFields_iff h hpos, checkClassification_iff h, checkInventory_iff h]
  constructor
  · rintro ⟨⟨hhdr, hsto, hnext⟩, hids, ⟨hkept, hgone⟩, -⟩
    refine ⟨hhdr, hpend ▸ hsto, hpend ▸ hids, hgen ▸ hnext, ?_, ?_⟩
    · intro intent hmem hcov hthere
      exact hkept intent ((hamb intent).mpr ⟨⟨hpend ▸ hmem, hcov⟩, hthere⟩)
    · intro intent hmem hcov hgoing
      exact hgone intent ((hsup intent).mpr ⟨⟨hpend ▸ hmem, hcov⟩, hgoing⟩)
  · rintro ⟨hhdr, hagree⟩
    refine ⟨⟨hhdr, hpend ▸ hagree.stored, hgen ▸ hagree.generation⟩, hpend ▸ hagree.ids, ⟨?_, ?_⟩, hphase⟩
    · intro intent hintent
      obtain ⟨⟨hmem, hcov⟩, hthere⟩ := (hamb intent).mp hintent
      exact hagree.kept intent (hpend ▸ hmem) hcov hthere
    intro intent hintent
    obtain ⟨⟨hmem, hcov⟩, hgoing⟩ := (hsup intent).mp hintent
    exact hagree.gone intent (hpend ▸ hmem) hcov hgoing

lemma mem_assign {β : Type} {object : List (Path × β)} {key : Path} {value : β} {e : Path × β}
    (h : e ∈ assign object key value) : e ∈ object ∨ e = (key, value) := by
  rw [assign] at h
  split at h
  · exact .inl h
  rcases (mem_set.mp h) with h | h
  · exact .inr h
  · exact .inl h.2

/-- The copy of the sizes is as good as they are. -/
lemma isTargetFileSizeMap_copy {sizes copied : List (Path × Nat)}
    (hsizes : isTargetFileSizeMap u sizes) (hcop : isTargetFileSizeMap u copied) :
    isTargetFileSizeMap u (sizes.foldl (fun copied e => assign copied e.1 e.2) copied) := by
  induction sizes generalizing copied with
  | nil => exact hcop
  | cons e sizes ih =>
    rw [isTargetFileSizeMap, all_cons, Bool.and_eq_true] at hsizes
    apply ih hsizes.2
    rw [isTargetFileSizeMap, all_eq_true] at hcop ⊢
    intro e' he'
    rcases mem_assign he' with he' | rfl
    · exact hcop e' he'
    · exact hsizes.1

variable (u) in
/-- What the server has sent and the client's state have the fields that a journal needs. -/
structure Acceptable (state : ClientState) (lastAppliedMain : Option String) (manifest : Manifest) : Prop where
  targetMain : isGitObjectId manifest.targetMain = true
  localMain : state.localMain.any isGitObjectId = true
  localHead : state.localHead.any isGitObjectId = true
  baseMain : ((nonEmpty lastAppliedMain).or state.localMain).all isGitObjectId = true
  eventSeq : manifest.eventSeq.getD 0 ≤ maxSafeInteger
  changedPaths : pathArray u (manifest.changedPaths.getD []) = true
  explicitDirectories : pathArray u (manifest.explicitDirectories.getD []) = true
  directoryIntents : ∀ intent ∈ manifest.directoryIntents.getD [], isSafeJournalPath u intent.path = true

/-- The roots of the inventory that is staged. -/
lemma below_staged_iff {ambiguous superseded : List StoredIntent} :
    (∃ root ∈ topmostDirectories c (topmostDirectories c (ambiguous.map (·.path))
        ++ topmostDirectories c (superseded.map (·.path))), root ≤ p) ↔
      ∃ intent ∈ ambiguous ++ superseded, intent.path ≤ p := by
  simp [or_and_right, exists_or, below_topmostDirectories_iff]

/-- The roots of the inventory after a reset. -/
lemma below_reset_iff {ambiguous superseded : List StoredIntent} :
    (∃ root ∈ topmostDirectories c (topmostDirectories c (ambiguous.map (·.path))
        ++ superseded.map (·.path)), root ≤ p) ↔ ∃ intent ∈ ambiguous ++ superseded, intent.path ≤ p := by
  simp [or_and_right, exists_or, below_topmostDirectories_iff]

/-- A staged journal is read back when what it was made of agrees. -/
lemma parse_stage_iff {existing : Option Recovery} {state : ClientState}
    {lastAppliedMain : Option String} {manifest : Manifest} {automatic : Bool}
    (h : stageDirectoryRecoveryDecision u c hashes existing recoveryId state lastAppliedMain manifest
      (classifyDirectoryIntentsForRecovery u digest c file disk (manifest.directoryIntents.getD []))
      automatic sight = some journal) : parseDirectoryRecoveryDecision u c journal = some journal ↔
      Acceptable u state lastAppliedMain manifest ∧
        Agreeing u digest c file (manifest.directoryIntents.getD []) disk sight.disk := by
  rw [stageDirectoryRecoveryDecision] at h
  split at h
  · cases h
  obtain ⟨inventory, hinv, h⟩ := bind_eq_some_iff.mp h
  have hcap := captureDirectoryRecoveryInventory_spec hinv
  have hdraf : Drafted u c journal disk sight.disk := by
    rw [← Option.some.inj h]
    exact ⟨rfl, rfl, rfl, _, hcap, fun p => below_staged_iff⟩
  cases h
  refine (parse_of_drafted hdraf rfl rfl ?_).trans ?_
  · cases automatic with
    | false => rfl
    | true =>
      simp only [checkPhase, if_true, decide_true, Bool.true_or, Bool.true_and, map_map]
      rw [decide_eq_true_eq]
      congr 1
      exact map_id _
  · constructor
    · rintro ⟨hhdr, hagree⟩
      exact ⟨{ hhdr with }, hagree⟩
    rintro ⟨hfld, hagree⟩
    refine ⟨{ hfld with targetFileSizes := ?_ }, hagree⟩
    simp only
    split
    · rename_i hsizes
      exact isTargetFileSizeMap_copy hsizes rfl
    · rfl

/-- Choices are kept for every root but the one that an object does not keep. -/
lemma mem_normalizeDecisions {normalized result : List (Path × Choice)}
    (h : normalizeDecisions decisions normalized roots = some result) {root : Path} :
    root ∈ result.map Prod.fst ↔ root ∈ normalized.map Prod.fst ∨ root ∈ roots ∧ root.text ≠ "__proto__" := by
  induction roots generalizing normalized with
  | nil =>
    cases h
    simp
  | cons first roots ih =>
    obtain ⟨choice, -, h⟩ := bind_eq_some_iff.mp h
    rw [ih h, assign]
    by_cases hproto : first.text = "__proto__"
    · rw [if_pos hproto, mem_cons]
      constructor
      · rintro (hroot | ⟨hroot, hne⟩)
        · exact .inl hroot
        · exact .inr ⟨.inr hroot, hne⟩
      rintro (hroot | ⟨rfl | hroot, hne⟩)
      · exact .inl hroot
      · exact absurd hproto hne
      · exact .inr ⟨hroot, hne⟩
    · rw [if_neg hproto, keys_set, mem_add, mem_cons]
      constructor
      · rintro ((hroot | rfl) | ⟨hroot, hne⟩)
        · exact .inl hroot
        · exact .inr ⟨.inl rfl, hproto⟩
        · exact .inr ⟨.inr hroot, hne⟩
      · rintro (hroot | ⟨rfl | hroot, hne⟩)
        · exact .inl (.inl hroot)
        · exact .inl (.inr rfl)
        · exact .inr ⟨hroot, hne⟩

lemma nodup_normalizeDecisions {normalized result : List (Path × Choice)}
    (h : normalizeDecisions decisions normalized roots = some result)
    (hnodup : (normalized.map Prod.fst).Nodup) : (result.map Prod.fst).Nodup := by
  induction roots generalizing normalized with
  | nil =>
    cases h
    exact hnodup
  | cons first roots ih =>
    obtain ⟨choice, -, h⟩ := bind_eq_some_iff.mp h
    apply ih h
    rw [assign]
    split
    · exact hnodup
    · exact nodup_keys_set hnodup _ _

/-- A resolved journal is read back unless a root has the name that an object does not keep. -/
lemma parse_resolve_iff {stored : Recovery} (h : resolveDirectoryRecovery u c stored decisions = some journal) :
    parseDirectoryRecoveryDecision u c journal = some journal ↔
      ∀ root ∈ stored.ambiguousRoots, root.text ≠ "__proto__" := by
  obtain ⟨recovery, hparse, h⟩ := bind_eq_some_iff.mp h
  have hsame : stored = recovery := by
    simp only [parseDirectoryRecoveryDecision] at hparse
    split at hparse
    · cases hparse
    split at hparse
    · cases hparse
    split at hparse
    · cases hparse
    obtain ⟨-, hparse⟩ := Option.ite_none_left_eq_some.mp hparse
    exact Option.some.inj hparse
  obtain rfl := hsame
  split at h
  · cases h
  rename_i hphase
  obtain ⟨normalized, hnorm, h⟩ := bind_eq_some_iff.mp h
  cases h
  obtain ⟨hfld, hclas, hinv, hchk⟩ := (parse_eq_some_iff u c).mp hparse
  have hstep : stored.lastCompletedStep = .decisionRecorded := by
    rw [checkPhase, not_not.mp hphase] at hchk
    simp only [Bool.and_eq_true, decide_eq_true_eq] at hchk
    exact hchk.1.2
  have hroots : stored.ambiguousRoots.Nodup := by
    simp only [checkFields, pathArray, Bool.and_eq_true, decide_eq_true_eq] at hfld
    exact hfld.1.1.1.1.1.1.2.2
  have hkeys : ∀ root, root ∈ normalized.map Prod.fst ↔
      root ∈ stored.ambiguousRoots ∧ root.text ≠ "__proto__" := by
    intro root
    rw [mem_normalizeDecisions hnorm]
    simp
  have hnodup := nodup_normalizeDecisions hnorm nodup_nil
  rw [parse_eq_some_iff]
  constructor
  · rintro ⟨-, -, -, hexec⟩ root hroot
    simp only [checkPhase, Bool.and_eq_true, decide_eq_true_eq] at hexec
    have hmem : root ∈ sort (normalized.map Prod.fst) := by
      rw [hexec.2, mem_sort]
      exact hroot
    exact ((hkeys root).mp (mem_sort.mp hmem)).2
  · intro hplain
    refine ⟨hfld, hclas, hinv, ?_⟩
    simp only [checkPhase, hstep, Bool.and_eq_true, decide_eq_true_eq, decide_true, Bool.true_or, true_and]
    apply sort_eq_of_perm
    rw [perm_ext_iff_of_nodup hnodup hroots]
    intro root
    rw [hkeys]
    exact ⟨fun hroot => hroot.1, fun hroot => ⟨hroot, hplain root hroot⟩⟩

/-- A journal that a step has written: only its progress is another one. -/
structure Advances (recovery journal : Recovery) : Prop where
  same : ∃ archived step, journal = { recovery with archived := archived, lastCompletedStep := step }
  archived : journal.lastCompletedStep = .decisionRecorded ∨ journal.archived = true ↔
    recovery.lastCompletedStep = .decisionRecorded ∨ recovery.archived = true

lemma Advances.refl (recovery : Recovery) : Advances recovery recovery :=
  ⟨⟨_, _, rfl⟩, Iff.rfl⟩

lemma Advances.trans {next : Recovery} (h : Advances recovery journal)
    (h' : Advances journal next) : Advances recovery next := by
  obtain ⟨archived, step, hjrn⟩ := h.same
  obtain ⟨archived', step', hnext⟩ := h'.same
  refine ⟨⟨archived', step', ?_⟩, h'.archived.trans h.archived⟩
  rw [hnext, hjrn]

/-- A journal that a step has written is as good as the one it came from. -/
lemma parse_advances_iff (h : Advances recovery journal) (hphase : recovery.phase = .executing) :
    parseDirectoryRecoveryDecision u c journal = some journal ↔
      parseDirectoryRecoveryDecision u c recovery = some recovery := by
  obtain ⟨⟨archived, step, rfl⟩, harch⟩ := h
  have hcheck : checkPhase { recovery with archived := archived, lastCompletedStep := step } = true
      ↔ checkPhase recovery = true := by
    simp only [checkPhase, hphase]
    cases recovery.decisions with
    | none => rfl
    | some decisions =>
      simp [harch]
  rw [parse_eq_some_iff, parse_eq_some_iff, hcheck]
  exact Iff.rfl

/-- A reset does not look at the progress. -/
lemma reset_advances (h : Advances recovery journal) :
    resetDirectoryRecoveryAfterChange u digest c hashes reset journal
      = resetDirectoryRecoveryAfterChange u digest c hashes reset recovery := by
  obtain ⟨⟨archived, step, rfl⟩, -⟩ := h
  rfl

variable (u digest c hashes) in
/-- Where a written journal comes from. -/
def Comes (surroundings : Surroundings) (recovery : Recovery) : Written → Prop
  | .step journal => Advances recovery journal
  | .reset journal =>
    resetDirectoryRecoveryAfterChange u digest c hashes surroundings.reset recovery = some journal

variable (u digest c hashes) in
/-- What holds of a run so far. -/
structure Progress.Sound (surroundings : Surroundings) (recovery : Recovery) (progress : Progress) : Prop where
  written : ∀ w ∈ progress.written, Comes u digest c hashes surroundings recovery w
  current : ∀ journal, progress.current = some journal → Advances recovery journal

lemma Progress.Sound.stopped : (Progress.stopped []).Sound u digest c hashes surroundings recovery :=
  ⟨fun _ hw => absurd hw not_mem_nil, fun _ hcur => nomatch hcur⟩

lemma Progress.Sound.unchanged : Progress.Sound u digest c hashes surroundings recovery
      { written := [], current := some recovery } :=
  ⟨fun _ hw => absurd hw not_mem_nil, fun _ hcur => Option.some.inj hcur ▸ Advances.refl recovery⟩

/-- A step that writes one journal and goes on with it. -/
lemma Progress.Sound.wrote (h : Advances recovery journal) : Progress.Sound u digest c hashes surroundings recovery
      { written := [.step journal], current := some journal } := by
  constructor
  · intro w hw
    obtain rfl := mem_singleton.mp hw
    exact h
  · rintro _ ⟨⟩
    exact h

lemma Progress.Sound.andThen {progress : Progress} (h : progress.Sound u digest c hashes surroundings recovery)
    {next : Recovery → Progress} (hnext : ∀ journal, progress.current = some journal →
      (next journal).Sound u digest c hashes surroundings journal) :
    (progress.andThen next).Sound u digest c hashes surroundings recovery := by
  rw [Progress.andThen]
  cases hcur : progress.current with
  | none => exact h
  | some journal =>
    have hadv := h.current journal hcur
    have hsound := hnext journal hcur
    constructor
    · intro w hw
      rcases mem_append.mp hw with hw | hw
      · exact h.written w hw
      have hcomes := hsound.written w hw
      cases w with
      | step next => exact hadv.trans hcomes
      | reset next => exact (reset_advances hadv).symm.trans hcomes
    · intro last hlast
      exact hadv.trans (hsound.current last hlast)

section
variable (surroundings : Surroundings)

lemma resetProgress_sound (recovery : Recovery) :
    (resetProgress u digest c hashes surroundings recovery).Sound u digest c hashes surroundings
      recovery := by
  rw [resetProgress]
  cases hreset : resetDirectoryRecoveryAfterChange u digest c hashes surroundings.reset recovery with
  | none => exact .stopped
  | some journal =>
    constructor
    · intro w hw
      obtain rfl := mem_singleton.mp hw
      exact hreset
    · intro last hlast
      cases hlast

lemma recordDecision_sound (recovery : Recovery) :
    (recordDecision u digest c hashes surroundings recovery).Sound u digest c hashes surroundings
      recovery := by
  rw [recordDecision]
  split
  · exact .unchanged
  rename_i hstep
  have hrec : recovery.lastCompletedStep = .decisionRecorded := not_not.mp hstep
  split
  · exact .stopped
  split
  · exact resetProgress_sound surroundings recovery
  split
  · exact .stopped
  have harch : Advances recovery { recovery with archived := true } :=
    ⟨⟨true, recovery.lastCompletedStep, rfl⟩, by simp [hrec]⟩
  refine Progress.Sound.andThen ?_ ?_
  · constructor
    · intro w hw
      split at hw
      · cases hw
      · obtain rfl := mem_singleton.mp hw
        exact harch
    · rintro _ ⟨⟩
      exact harch
  · rintro _ ⟨⟩
    split
    · exact resetProgress_sound surroundings _
    · exact .wrote ⟨⟨true, .intentStateWritten, rfl⟩, by simp⟩

lemma applyDecision_sound (recovery : Recovery) :
    (applyDecision u digest c hashes surroundings recovery).Sound u digest c hashes surroundings
      recovery := by
  rw [applyDecision]
  split
  · exact .unchanged
  rename_i hstep
  have hwr : recovery.lastCompletedStep = .intentStateWritten := not_not.mp hstep
  have hcpl : Advances recovery { recovery with lastCompletedStep := .applyCompleted } :=
    ⟨⟨recovery.archived, .applyCompleted, rfl⟩, by simp [hwr]⟩
  split
  · exact .wrote hcpl
  split
  · exact .stopped
  split
  · exact resetProgress_sound surroundings recovery
  split
  · exact .stopped
  · exact resetProgress_sound surroundings recovery
  · exact .wrote hcpl

lemma acknowledgeDecision_sound (recovery : Recovery) :
    (acknowledgeDecision surroundings recovery).Sound u digest c hashes surroundings recovery := by
  rw [acknowledgeDecision]
  split
  · exact .unchanged
  rename_i hstep
  have hcpl : recovery.lastCompletedStep = .applyCompleted := not_not.mp hstep
  split
  · exact .stopped
  split
  · exact .stopped
  · exact .wrote ⟨⟨recovery.archived, .acknowledged, rfl⟩, by simp [hcpl]⟩

end

/-- Every journal that is written while a decision is carried out comes from a step or from a reset. -/
lemma executeDirectoryRecoveryDecision_comes
    (h : w ∈ executeDirectoryRecoveryDecision u digest c hashes surroundings recovery) :
    Comes u digest c hashes surroundings recovery w := by
  rw [executeDirectoryRecoveryDecision] at h
  split at h
  · cases h
  split at h
  · cases h
  refine Progress.Sound.written ?_ w h
  refine ((recordDecision_sound surroundings recovery).andThen ?_).andThen ?_
  · exact fun journal _ => applyDecision_sound surroundings journal
  · exact fun journal _ => acknowledgeDecision_sound surroundings journal

lemma resetJournal_drafted (hcap : Captured u sight.disk roots inventory)
    (hroots : ∀ p, (∃ root ∈ roots, root ≤ p) ↔ ∃ intent ∈
      (classifyDirectoryIntentsForRecovery u digest c file disk recovery.directoryIntents).ambiguous ++
      (classifyDirectoryIntentsForRecovery u digest c file disk recovery.directoryIntents).superseded,
      intent.path ≤ p) : Drafted u c (resetJournal c recovery recoveryId
      (classifyDirectoryIntentsForRecovery u digest c file disk recovery.directoryIntents) inventory)
      disk sight.disk :=
  ⟨rfl, rfl, rfl, roots, hcap, hroots⟩

lemma header_resetJournal {classification : Classification} :
    Header u (resetJournal c recovery recoveryId classification inventory) ↔ Header u recovery := by
  constructor
  · rintro ⟨htgt, hmain, hhead, hbase, hseq, hchg, hsizes, hexpl, hrem⟩
    exact ⟨htgt, hmain, hhead, hbase, hseq, hchg, hsizes, hexpl, hrem⟩
  · rintro ⟨htgt, hmain, hhead, hbase, hseq, hchg, hsizes, hexpl, hrem⟩
    exact ⟨htgt, hmain, hhead, hbase, hseq, hchg, hsizes, hexpl, hrem⟩

/-- A reset journal is read back when what it was made of agrees. -/
lemma parse_reset_iff (h : resetDirectoryRecoveryAfterChange u digest c hashes reset recovery = some journal) :
    parseDirectoryRecoveryDecision u c journal = some journal ↔
      Header u recovery ∧ Agreeing u digest c (some (restoredFile u digest c reset recovery))
        recovery.directoryIntents reset.disk reset.sight.disk := by
  rw [resetDirectoryRecoveryAfterChange] at h
  generalize restoredFile u digest c reset recovery = file at h ⊢
  obtain ⟨inventory, hinv, h⟩ := bind_eq_some_iff.mp h
  cases h
  have hcap := captureDirectoryRecoveryInventory_spec hinv
  rw [parse_of_drafted (resetJournal_drafted hcap fun p => below_reset_iff) rfl rfl rfl, header_resetJournal]
  rfl

end Agreement

def Written.journal : Written → Recovery
  | .step journal => journal
  | .reset journal => journal

/-- The condition on what a journal is made of, while a decision is carried out. -/
def Written.Sound (u : SegmentNormalization) (digest : EditOp → Path → String) (c : Collation)
    (surroundings : Surroundings) (recovery : Recovery) : Written → Prop
  | .step _ => parseDirectoryRecoveryDecision u c recovery = some recovery
  | .reset _ => Header u recovery ∧ Agreeing u digest c (some (restoredFile u digest c surroundings.reset recovery))
      recovery.directoryIntents surroundings.reset.disk surroundings.reset.sight.disk

lemma parse_written_iff {u : SegmentNormalization} {digest : EditOp → Path → String} {c : Collation}
    {hashes : FileHashes} (hphase : recovery.phase = .executing)
    (h : w ∈ executeDirectoryRecoveryDecision u digest c hashes surroundings recovery) :
    parseDirectoryRecoveryDecision u c w.journal = some w.journal ↔ w.Sound u digest c surroundings recovery := by
  have hcomes := executeDirectoryRecoveryDecision_comes h
  cases w with
  | step journal => exact parse_advances_iff hcomes hphase
  | reset journal => exact parse_reset_iff hcomes

/-- A staged journal is read back when its fields are well-formed and the inventory agrees with the
classification; a resolved one unless a root is named `__proto__`; the ones written after that when the
journal in hand is, and after a reset again when the inventory agrees. -/
theorem journals_read_back_iff (u : SegmentNormalization) (digest : EditOp → Path → String)
    (c : Collation) (hashes : FileHashes) :
    (∀ (existing : Option Recovery) (recoveryId : RecoveryId) (state : ClientState)
      (lastAppliedMain : Option String) (manifest : Manifest) (file : Option StateFile) (disk : Disk)
      (automatic : Bool) (sight : Sight) (journal : Recovery),
      stageDirectoryRecoveryDecision u c hashes existing recoveryId state lastAppliedMain manifest
        (classifyDirectoryIntentsForRecovery u digest c file disk
          (manifest.directoryIntents.getD [])) automatic sight = some journal →
      (parseDirectoryRecoveryDecision u c journal = some journal ↔ Acceptable u state lastAppliedMain manifest ∧
          Agreeing u digest c file (manifest.directoryIntents.getD []) disk sight.disk)) ∧
    (∀ (stored : Recovery) (decisions : Path → Option Choice) (journal : Recovery),
      resolveDirectoryRecovery u c stored decisions = some journal →
      (parseDirectoryRecoveryDecision u c journal = some journal ↔
        ∀ root ∈ stored.ambiguousRoots, root.text ≠ "__proto__")) ∧
    ∀ (surroundings : Surroundings) (recovery : Recovery), recovery.phase = .executing →
      ∀ w ∈ executeDirectoryRecoveryDecision u digest c hashes surroundings recovery,
        (parseDirectoryRecoveryDecision u c w.journal = some w.journal ↔
          w.Sound u digest c surroundings recovery) := by
  refine ⟨?_, ?_, ?_⟩
  · intro existing recoveryId state lastAppliedMain manifest file disk automatic sight journal h
    exact parse_stage_iff h
  · intro stored decisions journal h
    exact parse_resolve_iff h
  · intro surroundings recovery hphase w hw
    exact parse_written_iff hphase hw

/-- Digits for every content. -/
def zeroHashes : FileHashes where
  sha256 := fun _ => String.ofList (List.replicate 64 '0')
  blob := fun _ => String.ofList (List.replicate 40 '0')
  sha256_hex _ := by decide
  blob_hex _ := by decide

/-- A folder that has been created and not yet sent. -/
def notesIntent : StoredIntent where
  op := .create
  path := ⟨"notes"⟩
  intentId := some "dir_1700000000000_1_0123456789ab"
  generation := some 1
  provenance := some .localV2
  baseMain := some none
  baseEventSeq := some 0
  replacesIntentId := some none
  recreatedAfterDelete := some false
  createdAt := some (some "2026-01-01T00:00:00.000Z")

def notesState : StateFile where
  nextGeneration := some 2
  pendingIntents := [notesIntent]

def mainCommit : String := "aaaaaaaaaaaaaaaaaaaaaaaaaaaaaaaaaaaaaaaa"

def notesManifest : Manifest where
  targetMain := mainCommit
  eventSeq := some 1
  changedPaths := some []
  targetFileSizes := some []
  directoryIntents := some [⟨.delete, ⟨"notes"⟩⟩]
  explicitDirectories := some []

def notesClient : ClientState where
  localMain := some mainCommit
  localHead := some mainCommit
  lastAppliedEventSeq := 0

def sightOf (disk : Disk) : Sight where
  disk := disk
  readings :=
    { ctime := fun _ => some 1700000000000
      content := fun p => match disk.files.get p with
        | none => .missing
        | some content => .file content }

def notesRecovery : RecoveryId where
  time := 1700000000000
  nonce := 0

lemma acceptable_notes : Acceptable asciiSegmentNormalization notesClient none notesManifest :=
  ⟨by decide +kernel, by decide +kernel, by decide +kernel, by decide +kernel, by decide,
    by decide, by decide, by decide +kernel⟩

lemma isStored_notes : ∀ intent ∈ [notesIntent], isStoredDirectoryIntent asciiSegmentNormalization intent := by
  decide +kernel

/-- The folder is there with a note in it: the journal is read back. -/
theorem notes_folder_read_back :
    ∃ journal, stageDirectoryRecoveryDecision asciiSegmentNormalization codePointCollation zeroHashes
        none notesRecovery notesClient none notesManifest
        (classifyDirectoryIntentsForRecovery asciiSegmentNormalization (fun _ _ => "")
          codePointCollation (some notesState) (materialise (oneFile "notes/a.md" [104]) (by decide))
          (notesManifest.directoryIntents.getD [])) true
        (sightOf (materialise (oneFile "notes/a.md" [104]) (by decide))) = some journal ∧
      parseDirectoryRecoveryDecision asciiSegmentNormalization codePointCollation journal = some journal := by
  refine ⟨_, rfl, ?_⟩
  refine ((journals_read_back_iff asciiSegmentNormalization (fun _ _ => "") codePointCollation
    zeroHashes).1 none notesRecovery notesClient none notesManifest (some notesState)
    (materialise (oneFile "notes/a.md" [104]) (by decide)) true
    (sightOf (materialise (oneFile "notes/a.md" [104]) (by decide))) _ rfl).mpr ⟨?_, ?_⟩
  · exact acceptable_notes
  have hdir : Listed asciiSegmentNormalization (materialise
      (oneFile "notes/a.md" [104]) (by decide)) ⟨"notes"⟩ := by
    have hpar : parent ⟨"notes"⟩ = root := by decide
    have hnorm : normalizePath asciiSegmentNormalization ⟨"notes"⟩ = ⟨"notes"⟩ := by decide
    refine ⟨by decide, hnorm ▸ .folder (hpar.symm ▸ .start) (by decide) ?_ ?_⟩
    · decide
    · decide
  constructor
  · exact isStored_notes
  · decide
  · decide
  · intro intent hintent _ _
    obtain rfl := mem_singleton.mp hintent
    exact hdir
  · intro intent hintent _ hgone
    obtain rfl := mem_singleton.mp hintent
    exact absurd hgone (by decide)

/-- A file has taken the place of the folder: the journal that is written is refused. -/
theorem notes_file_refused : ¬ ∀ (u : SegmentNormalization) (digest : EditOp → Path → String) (c : Collation)
      (hashes : FileHashes) (recoveryId : RecoveryId) (state : ClientState)
      (lastAppliedMain : Option String) (manifest : Manifest) (file : Option StateFile) (disk : Disk)
      (automatic : Bool) (sight : Sight) (journal : Recovery), Acceptable u state lastAppliedMain manifest →
      (∀ intent ∈ (readDirectoryState u digest c file).pendingIntents, isStoredDirectoryIntent u intent = true) →
      ((readDirectoryState u digest c file).pendingIntents.map (·.intentId)).Nodup →
      (readDirectoryState u digest c file).nextGeneration ≤ maxSafeInteger →
      stageDirectoryRecoveryDecision u c hashes none recoveryId state lastAppliedMain manifest
        (classifyDirectoryIntentsForRecovery u digest c file disk
          (manifest.directoryIntents.getD [])) automatic sight = some journal →
      parseDirectoryRecoveryDecision u c journal = some journal := by
  intro hclaim
  obtain ⟨journal, hstage⟩ : ∃ journal, stageDirectoryRecoveryDecision asciiSegmentNormalization
      codePointCollation zeroHashes none notesRecovery notesClient none notesManifest
      (classifyDirectoryIntentsForRecovery asciiSegmentNormalization (fun _ _ => "")
        codePointCollation (some notesState)
        (materialise (oneFile "notes" [104]) (by decide))
        (notesManifest.directoryIntents.getD [])) true
      (sightOf (materialise (oneFile "notes" [104]) (by decide)))
      = some journal := ⟨_, rfl⟩
  have hread := hclaim asciiSegmentNormalization (fun _ _ => "") codePointCollation zeroHashes
    notesRecovery notesClient none notesManifest (some notesState) _ true _ journal acceptable_notes
    isStored_notes (by decide) (by decide) hstage
  have hagree := ((parse_stage_iff hstage).mp hread).2
  have hpar : parent ⟨"notes"⟩ = root := by decide
  have hfound : FoundFile asciiSegmentNormalization (materialise
      (oneFile "notes" [104]) (by decide)) ⟨"notes"⟩ :=
    ⟨⟨⟨"notes"⟩, by decide, hpar.symm ▸ .start, by decide⟩, by decide⟩
  exact hagree.gone notesIntent (by decide) (by decide) (by decide) ⟨"notes"⟩ (.inr hfound) le_rfl

end DirectoryRecovery
