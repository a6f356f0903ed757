import Obts.LocalCapture

/-!
# Scanning a vault that a tree was written to

When the vault holds the files of a tree that the server admits, the client finds these files again,
and captures no change, just when it enters every folder of the tree. The server judges a path by its
last segment, and the client each folder on the way: a folder with a name that stands for metadata of a
system or an editor is admitted, written, and then taken for deleted.
-/
namespace MaterialisedScan

open SlashPath FileTrees ClientPaths VaultInventory LocalCapture FileTree
open PathPolicy (assertSyncableTreePaths)

/-- The vault has the files of a tree and, besides the client's own, only the folders of these files
and others with ordinary names. -/
structure Materialised (u : SegmentNormalization) (contents : FileTree Path (List UInt8)) (disk : Disk) : Prop where
  files : ∀ p, inObts p = false → disk.files.get p = contents.get p
  folders : ∀ d ∈ disk.folders, inObts d = false →
    (∃ p ∈ contents.paths, d < p) ∨ Normal u d ∧ isValidVaultPath d = true

/-- The scan finds the files of the tree and the capture finds no change. -/
def FindsTree (u : SegmentNormalization) (rules : IgnoreRules) (hashes : Hashes) (disk : Disk)
    (cache : ScanCache) (forcePaths : List Path) (contents : FileTree Path (List UInt8)) : Prop :=
  ∃ rootPolicy files, readRootIgnorePolicy u rules hashes disk = some rootPolicy ∧
    scanSyncableFiles u disk (some rootPolicy.policy) = some files ∧ files.Nodup ∧
    (∀ p, p ∈ files ↔ p ∈ contents.paths) ∧
    createLocalCommit u rules hashes disk cache forcePaths (some (objectOf (gitTree hashes contents))) = some none

/-- Every path is written as the client writes it, and every folder above it is one that the client
syncs. -/
def FoldersSyncable (u : SegmentNormalization) (contents : FileTree Path (List UInt8)) : Prop :=
  ∀ p ∈ contents.paths, Normal u p ∧ ∀ d, d < p → isSyncableVaultPath u d = true

section
variable {u : SegmentNormalization} {rules : IgnoreRules} {hashes : Hashes} {disk : Disk}
  {cache : ScanCache} {forcePaths : List Path} {contents : FileTree Path (List UInt8)} {p : Path}

/-- The names of the vault are plain when those of the tree are. -/
lemma Materialised.plain (hdisk : Materialised u contents disk)
    (hcont : ∀ p ∈ contents.paths, Normal u p ∧ isValidVaultPath p) : Plain u disk := by
  intro p hp hobts
  rcases hp with hfile | hdir
  · refine hcont p ?_
    rw [mem_paths, ← hdisk.files p hobts]
    exact mem_paths.mp hfile
  rcases hdisk.folders p hdir hobts with ⟨q, hq, hlt⟩ | hplain
  · obtain ⟨hnorm, hvalid⟩ := hcont q hq
    have hdir := (isValidVaultPath_iff.mp hvalid).folder hlt
    exact ⟨hnorm.folder hdir hlt, isValidVaultPath_iff.mpr hdir⟩
  · exact hplain

/-- An admitted path in normal form is valid, when the folders above it are. -/
lemma FoldersSyncable.syncable (hdirs : FoldersSyncable u contents)
    (hadm : assertSyncableTreePaths u.toNormalization contents.paths = .ok ())
    (hp : p ∈ contents.paths) : isSyncableVaultPath u p := by
  obtain ⟨hnorm, habove⟩ := hdirs p hp
  refine isSyncableVaultPath_of_admitted hadm hp hnorm ?_
  -- a leading dot segment would be such a folder
  intro hdot
  have hlt : (⟨"."⟩ : Path) < p := Path.lt_iff.mpr hdot
  have hvalid := isSyncableVaultPath_valid (habove _ hlt)
  have hnorm : normalizePath u ⟨"."⟩ = ⟨"."⟩ :=
    normal_of (by decide) (by decide) (u.nfc_ascii _ (List.all_iff_forall_prop.mp (by decide)))
  rw [hnorm] at hvalid
  exact absurd hvalid (by decide)

lemma FoldersSyncable.valid (hdirs : FoldersSyncable u contents)
    (hadm : assertSyncableTreePaths u.toNormalization contents.paths = .ok ())
    (hp : p ∈ contents.paths) : Normal u p ∧ isValidVaultPath p := by
  have hnorm := (hdirs p hp).1
  have hvalid := isSyncableVaultPath_valid (hdirs.syncable hadm hp)
  rw [hnorm] at hvalid
  exact ⟨hnorm, hvalid⟩

/-- A tree that is found again has only paths and folders that the scan comes to. -/
lemma FindsTree.foldersSyncable (hdisk : Materialised u contents disk)
    (h : FindsTree u rules hashes disk cache forcePaths contents) :
    FoldersSyncable u contents ∧ rootIgnorePath ∉ disk.folders := by
  obtain ⟨rootPolicy, files, hroot, hscan, -, hfiles, -⟩ := h
  obtain ⟨-, hdir, -, -, rules', hrules⟩ := readRootIgnorePolicy_eq_some hroot
  have hcont : ∀ p ∈ contents.paths, Normal u p ∧ isValidVaultPath p = true :=
    fun p hp => mem_scanSyncableFiles hscan ((hfiles p).mpr hp)
  obtain ⟨files', hscan', -, hspec⟩ := scanSyncableFiles_plain (hdisk.plain hcont)
    (hrules ▸ answers_rulesPolicy rules' : Answers u (some rootPolicy.policy))
  cases hscan.symm.trans hscan'
  refine ⟨fun p hp => ⟨(hcont p hp).1, ?_⟩, hdir⟩
  exact ((hspec p).mp ((hfiles p).mpr hp)).2.2.2

/-- A written tree is found again exactly when the client enters each of its folders, and none of
them stands in the place of the root policy. -/
theorem findsTree_iff (hdisk : Materialised u contents disk)
    (hadmitted : assertSyncableTreePaths u.toNormalization contents.paths = .ok ()) {policy : Policy}
    (hpolicy : createRootIgnorePolicy u rules (contents.get rootIgnorePath) = some policy)
    (hignores : ∀ p ∈ contents.paths, policy p false = some false) :
    FindsTree u rules hashes disk cache forcePaths contents
      ↔ FoldersSyncable u contents ∧ rootIgnorePath ∉ disk.folders := by
  constructor
  · exact fun h => h.foldersSyncable hdisk
  rintro ⟨hdirs, hno⟩
  have hobts : ∀ p ∈ contents.paths, inObts p = false := fun p hp =>
    inObts_of_syncable (hdirs.syncable hadmitted hp)
  have hplain := hdisk.plain fun p hp => hdirs.valid hadmitted hp
  have hbytes := hdisk.files rootIgnorePath (by decide)
  have hroot : readRootIgnorePolicy u rules hashes disk = some
      { bytes := contents.get rootIgnorePath
        oid := (contents.get rootIgnorePath).map hashes.blob, policy } := by
    have hread : readRootIgnoreBytes disk = some (contents.get rootIgnorePath) := by
      rw [readRootIgnoreBytes, hbytes]
      cases hcont : contents.get rootIgnorePath with
      | none => exact if_neg hno
      | some content => exact if_neg (not_lt.mpr ((policy_of_create hpolicy).1 content hcont))
    rw [readRootIgnorePolicy, hread]
    simp only [Option.bind_eq_bind, Option.bind_some, hpolicy]
    rfl
  have hcache : Vouched hashes disk cache (flattenTree (objectOf (gitTree hashes contents))) := by
    intro p oid content _ hbase hcont
    rw [valueAt_flattenTree, get_gitTree] at hbase
    cases hp : contents.get p with
    | none =>
      rw [hp] at hbase
      cases hbase
    | some content' =>
      have hmem : p ∈ contents.paths := mem_paths.mpr (hp ▸ Option.some_ne_none _)
      rw [hdisk.files p (hobts p hmem), hp] at hcont
      rw [hp] at hbase
      rw [← Option.some.inj hcont]
      exact (Option.some.inj hbase).symm
  obtain ⟨files, hscan, hnodup, hspec, hcmt⟩ :=
    createLocalCommit_eq hplain hroot hcache
  have hfiles : ∀ p, p ∈ files ↔ p ∈ contents.paths := by
    intro p
    rw [hspec]
    constructor
    · rintro ⟨hmem, hsync, -, -⟩
      rw [mem_paths, ← hdisk.files p (inObts_of_syncable hsync)]
      exact mem_paths.mp hmem
    intro hp
    refine ⟨?_, hdirs.syncable hadmitted hp, hignores p hp, (hdirs p hp).2⟩
    rw [mem_paths, hdisk.files p (hobts p hp)]
    exact mem_paths.mp hp
  have hsame : objectOf (vaultTree hashes disk files) = objectOf (gitTree hashes contents) := by
    refine objectOf_eq fun p => ?_
    rw [get_vaultTree, get_gitTree]
    by_cases hp : p ∈ files
    · rw [if_pos hp, hdisk.files p (hobts p ((hfiles p).mp hp))]
    · rw [if_neg hp, get_eq_none.mpr fun h => hp ((hfiles p).mpr h)]
      rfl
  rw [hsame, if_pos rfl] at hcmt
  exact ⟨_, files, hroot, hscan, hnodup, hfiles, hcmt⟩

end

/-- The files of a tree in their folders. -/
def materialise (contents : FileTree Path (List UInt8))
    (hcontents : ∀ p ∈ contents.paths, ¬ ['/'] <+: p.text.toList) : Disk where
  files := contents
  folders := contents.paths.flatMap directoryPrefixes
  closed := by
    intro p hp d hd
    rw [List.mem_flatMap]
    rcases hp with hfile | hfolder
    · exact ⟨p, hfile, mem_directoryPrefixes.mpr hd⟩
    · obtain ⟨q, hq, hlt⟩ := List.mem_flatMap.mp hfolder
      exact ⟨q, hq, mem_directoryPrefixes.mpr (hd.trans (mem_directoryPrefixes.mp hlt))⟩
  distinct := by
    intro d hd hfile
    obtain ⟨q, hq, hlt⟩ := List.mem_flatMap.mp hd
    exact contents.antichain d hfile q hq (mem_directoryPrefixes.mp hlt)
  named := by
    intro d hd htext
    obtain ⟨q, hq, hlt⟩ := List.mem_flatMap.mp hd
    have hleads := Path.lt_iff.mp (mem_directoryPrefixes.mp hlt)
    rw [Path.withSlash, htext] at hleads
    exact hcontents q hq hleads

lemma materialised_materialise (u : SegmentNormalization) (contents : FileTree Path (List UInt8))
    (hcont : ∀ p ∈ contents.paths, ¬ ['/'] <+: p.text.toList) :
    Materialised u contents (materialise contents hcont) where
  files _ _ := rfl
  folders d hd _ := by
    obtain ⟨q, hq, hlt⟩ := List.mem_flatMap.mp hd
    exact Or.inl ⟨q, hq, mem_directoryPrefixes.mp hlt⟩

/-- One file. -/
def oneFile (path : String) (content : List UInt8) : FileTree Path (List UInt8) where
  entries := [(⟨path⟩, content)]
  nodup := List.nodup_singleton _
  antichain := by
    intro a ha b hb
    rw [List.map_singleton, List.mem_singleton] at ha hb
    rw [ha, hb]
    exact lt_irrefl _

/-- A note in a folder with an ordinary name. -/
def notesTree : FileTree Path (List UInt8) := oneFile "notes/a.md" [104]

/-- A note in a folder with the name of a temporary file. -/
def tmpTree : FileTree Path (List UInt8) := oneFile "draft.tmp/a.md" [104]

/-- No rules, and the object names of the note and the tree that has it. -/
theorem findsTree_notes : FindsTree asciiSegmentNormalization { ignores := fun _ _ => false }
      { blob := fun _ => "be54354a9433a1e798cf17a5cddffbf581e3afa2"
        tree := fun _ => "82baa69ebbdaf3d18e7b682c3bc7c1c36a415632" }
      (materialise notesTree (by decide)) (fun _ => none) [] notesTree := by
  refine (findsTree_iff (materialised_materialise _ notesTree (by decide)) (by decide +kernel)
    (Eq.refl (some (rulesPolicy asciiSegmentNormalization { ignores := fun _ _ => false } [])))
    (by decide)).mpr ⟨?_, by decide⟩
  intro p hp
  obtain rfl := List.mem_singleton.mp hp
  refine ⟨by decide, fun d hd => ?_⟩
  have hdirs : ∀ d ∈ directoryPrefixes ⟨"notes/a.md"⟩,
      isSyncableVaultPath asciiSegmentNormalization d = true := by decide
  exact hdirs d (mem_directoryPrefixes.mpr hd)

/-- The server admits a note in a folder with the name of a temporary file; the client writes it and
then does not find it. -/
theorem tmp_folder_not_found : ¬ ∀ (u : SegmentNormalization) (rules : IgnoreRules) (hashes : Hashes) (disk : Disk)
      (cache : ScanCache) (forcePaths : List Path) (contents : FileTree Path (List UInt8))
      (policy : Policy), Materialised u contents disk →
      assertSyncableTreePaths u.toNormalization contents.paths = .ok () →
      createRootIgnorePolicy u rules (contents.get rootIgnorePath) = some policy →
      (∀ p ∈ contents.paths, policy p false = some false) →
      FindsTree u rules hashes disk cache forcePaths contents := by
  intro hclaim
  have hmat := materialised_materialise asciiSegmentNormalization tmpTree (by decide)
  have hfinds := hclaim asciiSegmentNormalization { ignores := fun _ _ => false }
    { blob := fun _ => "", tree := fun _ => "" } _ (fun _ => none) [] tmpTree
    (rulesPolicy asciiSegmentNormalization { ignores := fun _ _ => false } []) hmat
    (by decide +kernel) rfl (by decide)
  have hdir := ((hfinds.foldersSyncable hmat).1 ⟨"draft.tmp/a.md"⟩ (by decide)).2 ⟨"draft.tmp"⟩ (by decide)
  exact absurd hdir (by decide)

end MaterialisedScan
