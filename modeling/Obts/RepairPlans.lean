import Obts.KeptPaths

/-!
# Plans of a name repair

A plan gives every file a path of its own, apart from all others and from all folders also when letter case
does not count, below the new folder of the folder it was in. Repairing what a plan has repaired changes
nothing.
-/
namespace RepairPlans

open List
open InsertionOrder PathPolicy ClientPaths PortableNames NameRepair RepairedNames RepairFolders RepairFiles
    KeptPaths

section Canonical
variable {u : CaseFolding} {path : List Char}

lemma checkVaultPath_of_valid (h : Valid path) : checkVaultPath path = .ok ⟨String.ofList path⟩ := by
  have hseg : ∀ segment : List Char, segment ∈ [['.'], ['.', '.']] → path ≠ segment := by
    rintro segment hseg rfl
    simp only [mem_cons, not_mem_nil, or_false] at hseg
    rcases hseg with rfl | rfl
    · exact (h.segments ['.'] (by decide)).2.1 rfl
    · exact (h.segments ['.', '.'] (by decide)).2.2 rfl
  have hrel : ¬ (['/'].isPrefixOf path || hasDrivePrefix path || path = ['.'] || path = ['.', '.']) = true := by
    simp only [Bool.or_eq_true, decide_eq_true_eq, isPrefixOf_iff_prefix, not_or]
    exact ⟨⟨⟨h.not_absolute, h.not_drive⟩, hseg _ (by simp)⟩, hseg _ (by simp)⟩
  have hctl : ¬ path.any isControl = true := by
    rw [any_eq_true]
    rintro ⟨c, hc, hctl⟩
    exact h.no_control c hc hctl
  have hsegs : ¬ ((path.splitOn '/').any fun segment =>
      segment = [] || segment = ['.'] || segment = ['.', '.']) = true := by
    rw [any_eq_true]
    rintro ⟨segment, hin, hbad⟩
    simp only [Bool.or_eq_true, decide_eq_true_eq] at hbad
    obtain ⟨hne, hdot, hup⟩ := h.segments segment hin
    exact hbad.elim (fun hbad => hbad.elim hne hdot) hup
  have hgit : ¬ (path.splitOn '/').contains ".git".toList = true := by
    rw [contains_iff_mem]
    exact h.not_git
  rw [checkVaultPath, if_neg hrel, if_neg hctl, if_neg (not_lt.mpr h.short)]
  rw [if_neg hsegs, if_neg h.not_obts, if_neg hgit]

/-- A path is canonical when it is valid, in normal form and without backslashes. -/
lemma canonical_iff : normalizeVaultPath u.toNormalization (String.ofList path) = .ok ⟨String.ofList path⟩ ↔
    Valid path ∧ u.nfc path = path ∧ '\\' ∉ path := by
  have htext : (String.ofList path).toList = path := String.toList_ofList
  constructor
  · intro h
    rw [normalizeVaultPath, htext] at h
    split at h
    · cases h
    have hback : '\\' ∉ u.nfc (withSlashes path) := u.nfc_backslash _ (backslash_not_mem_withSlashes path)
    have hvalid := valid_of_checkVaultPath h
    have hsame := (checkVaultPath_eq_ok h).1
    rw [htext] at hsame
    rw [← hsame] at hvalid
    split at hsame
    · -- a leading dot would still stand before the path
      rename_i hdot
      obtain ⟨rest, hrest⟩ := isPrefixOf_iff_prefix.mp hdot
      have hpath : path = rest := by
        rw [hsame, ← hrest]
        rfl
      subst hpath
      have hnorm : u.nfc path = path := by
        apply u.nfc_suffix ['.', '/']
        rw [hrest, u.nfc_nfc]
      have hplain : '\\' ∉ path := fun hin => hback (hrest ▸ mem_append_right _ hin)
      rw [withSlashes_of_not_mem hplain, hnorm] at hrest
      have hlen := congrArg length hrest
      simp only [length_append, length_cons, length_nil] at hlen
      omega
    · rw [← hsame] at hback
      rw [withSlashes_of_not_mem hback] at hsame
      exact ⟨hvalid, hsame.symm, hback⟩
  · rintro ⟨hvalid, hnfc, hback⟩
    have hdot : ¬ ['.', '/'].isPrefixOf path = true := by
      rw [List.isPrefixOf_iff_prefix]
      rintro ⟨rest, hrest⟩
      have hseg : ['.'] ∈ path.splitOn '/' := by
        rw [← hrest, show ['.', '/'] ++ rest = ['.'] ++ '/' :: rest from rfl, splitOn_append_cons_self]
        exact mem_append_left _ (by decide)
      exact (hvalid.segments _ hseg).2.1 rfl
    rw [normalizeVaultPath, htext, if_neg hvalid.ne_nil, withSlashes_of_not_mem hback, hnfc]
    dsimp only
    rw [if_neg hdot]
    exact checkVaultPath_of_valid hvalid

/-- A path that `normalizeVaultPath` returns as it is. -/
def Canonical (u : CaseFolding) (path : List Char) : Prop :=
  normalizeVaultPath u.toNormalization (String.ofList path) = .ok ⟨String.ofList path⟩

lemma Canonical.proper (h : Canonical u path) : Proper path := by
  intro segment hseg
  obtain ⟨hne, hdot, -⟩ := (canonical_iff.mp h).1.segments segment hseg
  exact ⟨hne, hdot⟩

lemma isRepairedPath_iff : isRepairedPath u path ↔
    Canonical u path ∧ PathPolicy.isSyncableVaultPath u.toNormalization (String.ofList path) := by
  rw [isRepairedPath, Bool.and_eq_true, decide_eq_true_eq]
  rfl

end Canonical

section Plan
variable {u : CaseFolding} {files directories paths : List (List Char)} {plan : NameRepairPlan}
  {path file target : List Char}

lemma mem_sortPaths : path ∈ sortPaths paths ↔ path ∈ paths := mem_sortBy

def sortedOf (paths : List (List Char)) : List (List Char) := sortPaths (ofList paths)

lemma mem_sortedOf : path ∈ sortedOf paths ↔ path ∈ paths := by
  rw [sortedOf, mem_sortPaths, mem_ofList]

variable (u files directories)

def claimedOf : Directories := claimDirectories u (sortedOf files) (sortedOf directories)

def placedOf : Placed := placeFiles u (claimedOf u files directories) (sortedOf files)

def newFiles : List (List Char) :=
  (sortedOf files).map fun file => (valueAt (placedOf u files directories).fileMap file).getD []

def newDirectories : List (List Char) :=
  (sortedOf directories).map fun folder => (valueAt (claimedOf u files directories).directoryMap folder).getD []

def planOf : NameRepairPlan where
  renames :=
    renamesOf (findUnportablePaths u (sortedOf files) (sortedOf directories)) (placedOf u files directories).fileMap
      .file (sortedOf files) ++
    renamesOf (findUnportablePaths u (sortedOf files) (sortedOf directories))
      (claimedOf u files directories).directoryMap .directory (sortedOf directories)
  fileMap := (placedOf u files directories).fileMap
  directoryMap := (claimedOf u files directories).directoryMap
  files := sortPaths (newFiles u files directories)
  directories := sortPaths (ofList (newDirectories u files directories))

variable {u files directories}

lemma planNameRepair_eq_ok_iff : planNameRepair u files directories = .ok plan ↔
    (∀ path ∈ newFiles u files directories ++ newDirectories u files directories, isRepairedPath u path) ∧
      findUnportablePaths u (newFiles u files directories) (newDirectories u files directories) = [] ∧
      plan = planOf u files directories := by
  rw [← List.all_eq_true, ← List.isEmpty_iff]
  have hplan : planNameRepair u files directories =
      if (!(newFiles u files directories ++ newDirectories u files directories).all (isRepairedPath u)) = true then
        .error ⟨"name_repair_unresolvable", "A repaired name is not a valid vault path."⟩
      else if (!(findUnportablePaths u (newFiles u files directories)
          (newDirectories u files directories)).isEmpty) = true then
        .error ⟨"name_repair_unresolvable", "The repaired names still contain unrepresentable paths."⟩
      else .ok (planOf u files directories) := rfl
  rw [hplan]
  constructor
  · intro h
    split at h
    · cases h
    rename_i hall
    split at h
    · cases h
    rename_i hempty
    rw [Bool.not_eq_true, Bool.not_eq_false'] at hall hempty
    exact ⟨hall, hempty, (Except.ok.inj h).symm⟩
  · rintro ⟨hall, hempty, rfl⟩
    rw [hall, hempty]
    rfl

/-- The folder of a path, the one at the root being empty. -/
def rootless (folder : List Char) : List Char := if folder = ['.'] then [] else folder

/-- The new folder of a folder. -/
def imageOf (directoryMap : List (List Char × List Char)) (folder : List Char) : List Char :=
  rootless (if folder = ['.'] then [] else (valueAt directoryMap folder).getD [])

lemma imageOf_dirname (map : List (List Char × List Char)) (path : List Char) :
    imageOf map (dirname path) = rootless ((newParentOf map path).getD []) := by
  rw [imageOf, newParentOf]
  split <;> rfl

/-- The last segment of a target is below the new folder of its file. -/
lemma target_below {state : Directories} (h : Claimed u state)
    (htgt : target = candidateOf state.directoryMap file true ∨
      ∃ n, target = withSuffix (candidateOf state.directoryMap file true) n) :
    rootless (dirname target) = imageOf state.directoryMap (dirname file) ∧
      (dirname target = ['.'] ∨ dirname target ∈ newFolders state) := by
  rw [imageOf_dirname]
  obtain ⟨isRoot, name, hname, hslash, hcases⟩ := candidateOf_cases h file true
  rcases hcases with ⟨hroot, hcand⟩ | ⟨folder, hfold, hne, hpar, hcand⟩
  · have htop : '/' ∉ target := by
      rcases htgt with rfl | ⟨n, rfl⟩
      · rwa [hcand]
      · rw [hcand, withSuffix_of_segment hslash]
        exact slash_notMem_numbered hslash n
    rw [hroot, dirname_of_segment htop]
    exact ⟨rfl, .inl rfl⟩
  · -- only a path of slashes has no name, and its folder is the root
    have hnamN : name ≠ [] := by
      rintro rfl
      have hbase : basename file = [] := by
        by_contra hbase
        exact sanitizeSegment_ne_nil hbase _ _ hname.symm
      rw [newParentOf] at hpar
      rcases dirname_of_basename_nil hbase with ⟨hdir, -⟩ | hdir
      · rw [if_pos hdir] at hpar
        exact hne (Option.some.inj hpar).symm
      · rw [hdir, if_neg (by decide)] at hpar
        exact hne (h.root folder hpar)
    have hslaO : folder ≠ ['/'] := fun hroot => h.proper (hroot ▸ hfold)
    rw [hpar, Option.getD_some]
    have hbelow : ∀ last : List Char, '/' ∉ last → last ≠ [] → dirname (folder ++ '/' :: last) = folder :=
      fun last hlast hlasN => dirname_below hlast hlasN hne hslaO
    rcases htgt with rfl | ⟨n, rfl⟩
    · rw [hcand, hbelow name hslash hnamN]
      exact ⟨rfl, .inr hfold⟩
    rw [hcand, withSuffix_below hslash hnamN hne hslaO]
    split
    · rename_i hdot
      rw [dirname_of_segment (slash_notMem_numbered hslash n), hdot]
      exact ⟨rfl, .inl rfl⟩
    · rw [hbelow _ (slash_notMem_numbered hslash n) (numbered_ne_nil name n)]
      exact ⟨rfl, .inr hfold⟩

lemma exists_placed (u : CaseFolding) (directories : List (List Char)) (hfile : file ∈ files) :
    ∃ target, valueAt (placedOf u files directories).fileMap file = some target :=
  exists_target (mem_sortedOf.mpr hfile)

lemma mem_newFiles : path ∈ newFiles u files directories ↔
    ∃ file ∈ files, valueAt (placedOf u files directories).fileMap file = some path := by
  rw [newFiles, mem_map]
  constructor
  · rintro ⟨file, hfile, rfl⟩
    obtain ⟨target, htgt⟩ := exists_placed u directories (mem_sortedOf.mp hfile)
    refine ⟨file, mem_sortedOf.mp hfile, ?_⟩
    rw [htgt]
    rfl
  · rintro ⟨file, hfile, hvalue⟩
    exact ⟨file, mem_sortedOf.mpr hfile, by rw [hvalue, Option.getD_some]⟩

/-- No new file has the folded form of a new folder. -/
lemma newFile_apart (hrep : ∀ path ∈ newDirectories u files directories, path ≠ [])
    {folder : List Char} (htgt : target ∈ newFiles u files directories)
    (hfold : folder ∈ folders (newFiles u files directories) (newDirectories u files directories)) :
    foldPathCase u target ≠ foldPathCase u folder := by
  have hclm : Claimed u (claimedOf u files directories) := claimed_claimDirectories u _ _
  have hnew : folder ∈ newFolders (claimedOf u files directories) := by
    obtain ⟨above, hdot, hlst, hin⟩ := mem_folders.mp hfold
    apply hclm.closed above _ folder hin
    rcases hlst with ⟨other, hother, rfl⟩ | hdir
    · obtain ⟨file, hfile, hvalue⟩ := mem_newFiles.mp hother
      obtain ⟨-, -, hcases⟩ := target_cases hvalue
      exact (target_below hclm hcases).2.resolve_left hdot
    obtain ⟨directory, -, hvalue⟩ := mem_map.mp hdir
    cases hmap : valueAt (claimedOf u files directories).directoryMap directory with
    | none =>
      rw [hmap] at hvalue
      exact absurd hvalue.symm (hrep above hdir)
    | some new =>
      rw [hmap, Option.getD_some] at hvalue
      exact hvalue ▸ hclm.mapped directory new hmap
  obtain ⟨file, -, hvalue⟩ := mem_newFiles.mp htgt
  obtain ⟨-, hfree, -⟩ := target_cases hvalue
  intro heq
  obtain ⟨e, he, hsnd⟩ := mem_map.mp hnew
  refine hfree (mem_map.mpr ⟨e, he, ?_⟩)
  rw [hclm.keyed e he, hsnd, heq]

/-- A vault of portable names whose files and folders are apart is left as it is. -/
lemma planNameRepair_of_portable (hrep : ∀ path, path ∈ files ∨ path ∈ directories → isRepairedPath u path)
    (hport : findUnportablePaths u files directories = [])
    (hapart : ∀ file ∈ files, ∀ folder ∈ folders files directories, foldPathCase u file ≠ foldPathCase u folder) :
    ∃ again, planNameRepair u files directories = .ok again ∧ again.renames = [] := by
  have hprop : ProperPaths (sortedOf files) (sortedOf directories) := by
    intro path hpath
    rw [mem_sortedOf, mem_sortedOf] at hpath
    exact (isRepairedPath_iff.mp (hrep path hpath)).1.proper
  have hlst : ∀ path, path ∈ listed (sortedOf files) (sortedOf directories) ↔ path ∈ listed files directories := by
    intro path
    rw [mem_listed, mem_listed, mem_sortedOf, mem_sortedOf]
  have hall : ∀ path ∈ listed (sortedOf files) (sortedOf directories),
      Portable u (listed (sortedOf files) (sortedOf directories)) path := by
    intro path hpath
    exact (findUnportablePaths_eq_nil_iff.mp hport path ((hlst path).mp hpath)).congr
      fun other hother => (hlst other).mp hother
  have hdirs : ∀ folder, folder ∈ folders (sortedOf files) (sortedOf directories) →
      folder ∈ folders files directories := by
    intro folder hfol
    obtain ⟨above, hdot, hcases, hin⟩ := mem_folders.mp hfol
    simp only [mem_sortedOf] at hcases
    exact mem_folders.mpr ⟨above, hdot, hcases, hin⟩
  have hdirectory : ∀ directory ∈ sortedOf directories,
      valueAt (claimedOf u files directories).directoryMap directory = some directory := by
    intro directory hin
    have hfol : directory ∈ folders (sortedOf files) (sortedOf directories) :=
      mem_folders.mpr ⟨directory, (hprop directory (.inr hin)).ne_dot, .inr hin, self_mem_pathPrefixes directory⟩
    exact (directory_kept_iff hprop hfol).mpr (keepsNames_of_portable hprop hall hfol)
  have hfile : ∀ file ∈ sortedOf files, valueAt (placedOf u files directories).fileMap file = some file := by
    intro file hin
    have hproF := hprop file (.inl hin)
    have hporF := hall file (mem_listed.mpr ⟨hproF.ne_nil, .inl hin⟩)
    apply (file_kept_iff hprop hin hporF).mpr
    constructor
    · exact fun hdir => keepsNames_of_portable hprop hall (dirname_mem_folders_of_file hin hdir)
    intro folder hfol hfold
    obtain ⟨path, hpath, habove⟩ := exists_listed_of_folder hprop hfol
    have hplain : sanitizedPath folder = folder := by
      apply sanitizedPath_of_plain
      exact fun segment hseg => (hall path hpath).plain segment (segments_above habove segment hseg)
    rw [hplain] at hfold
    exact hapart file (mem_sortedOf.mp hin) folder (hdirs folder hfol) hfold.symm
  have hnewF : newFiles u files directories = sortedOf files := by
    rw [newFiles, map_congr_left fun file hin => by rw [hfile file hin, Option.getD_some], map_id']
  have hnewD : newDirectories u files directories = sortedOf directories := by
    rw [newDirectories, map_congr_left fun directory hin => by rw [hdirectory directory hin, Option.getD_some],
      map_id']
  have hren : ∀ (unportable : List UnportablePath) (map : List (List Char × List Char)) (kind : NodeKind)
      (paths : List (List Char)), (∀ path ∈ paths, valueAt map path = some path) →
      renamesOf unportable map kind paths = [] := by
    intro unportable map kind paths hkept
    rw [renamesOf, filterMap_eq_nil_iff]
    intro path hpath
    rw [hkept path hpath]
    exact if_pos rfl
  refine ⟨planOf u files directories, planNameRepair_eq_ok_iff.mpr ⟨?_, ?_, rfl⟩, ?_⟩
  · rw [hnewF, hnewD]
    intro path hpath
    rw [mem_append, mem_sortedOf, mem_sortedOf] at hpath
    exact hrep path hpath
  · rw [hnewF, hnewD]
    exact findUnportablePaths_eq_nil_iff.mpr hall
  · exact append_eq_nil_iff.mpr ⟨hren _ _ _ _ hfile, hren _ _ _ _ hdirectory⟩

/-- What a plan owes to the files and directories of a vault. -/
structure Repaired (u : CaseFolding) (files : List (List Char)) (plan : NameRepairPlan) : Prop where
  total : ∀ file ∈ files, ∃ target ∈ plan.files, valueAt plan.fileMap file = some target
  injective : ∀ file other target target', valueAt plan.fileMap file = some target →
    valueAt plan.fileMap other = some target' → foldPathCase u target = foldPathCase u target' → file = other
  apart : ∀ target ∈ plan.files, ∀ folder ∈ folders plan.files plan.directories,
    foldPathCase u target ≠ foldPathCase u folder
  portable : findUnportablePaths u plan.files plan.directories = []
  parents : ∀ file target, valueAt plan.fileMap file = some target →
    rootless (dirname target) = imageOf plan.directoryMap (dirname file)
  idempotent : ∃ again, planNameRepair u plan.files plan.directories = .ok again ∧ again.renames = []

/-- The search for a target ends for all inputs, and a plan that is returned has repaired the vault. -/
theorem planNameRepair_repaired (u : CaseFolding) :
    (∀ taken candidate, ∃ fuel target, searchTarget u taken candidate fuel = some target) ∧
      ∀ files directories plan, planNameRepair u files directories = .ok plan → Repaired u files plan := by
  constructor
  · intro taken candidate
    exact ⟨taken.length + 2, exists_searchTarget taken candidate⟩
  intro files directories plan h
  obtain ⟨hrep, hport, rfl⟩ := planNameRepair_eq_ok_iff.mp h
  have hfiles : ∀ path, path ∈ (planOf u files directories).files ↔ path ∈ newFiles u files directories :=
    fun _ => mem_sortPaths
  have hdirs : ∀ path, path ∈ (planOf u files directories).directories ↔
      path ∈ newDirectories u files directories := fun _ => mem_sortedOf
  have hapart : ∀ target ∈ (planOf u files directories).files, ∀ folder ∈ folders (planOf u files directories).files
      (planOf u files directories).directories, foldPathCase u target ≠ foldPathCase u folder := by
    intro target htgt folder hdir
    obtain ⟨above, hdot, hcases, hin⟩ := mem_folders.mp hdir
    simp only [hfiles, hdirs] at hcases
    refine newFile_apart ?_ ((hfiles target).mp htgt) (mem_folders.mpr ⟨above, hdot, hcases, hin⟩)
    intro path hpath
    exact (isRepairedPath_iff.mp (hrep path (mem_append_right _ hpath))).1.proper.ne_nil
  have hlst : ∀ path, path ∈ listed (planOf u files directories).files (planOf u files directories).directories ↔
      path ∈ listed (newFiles u files directories) (newDirectories u files directories) := by
    intro path
    rw [mem_listed, mem_listed, hfiles, hdirs]
  have hplain : findUnportablePaths u (planOf u files directories).files (planOf u files directories).directories
      = [] := by
    apply findUnportablePaths_eq_nil_iff.mpr
    intro path hpath
    exact (findUnportablePaths_eq_nil_iff.mp hport path ((hlst path).mp hpath)).congr
      fun other hother => (hlst other).mp hother
  constructor
  · intro file hfile
    obtain ⟨target, htgt⟩ := exists_placed u directories hfile
    exact ⟨target, (hfiles target).mpr (mem_newFiles.mpr ⟨file, hfile, htgt⟩), htgt⟩
  · exact fun file other target target' => target_inj
  · exact hapart
  · exact hplain
  · intro file target hvalue
    obtain ⟨-, -, hcases⟩ := target_cases hvalue
    exact (target_below (claimed_claimDirectories u _ _) hcases).1
  · apply planNameRepair_of_portable _ hplain hapart
    intro path hpath
    rw [hfiles, hdirs] at hpath
    exact hrep path (mem_append.mpr hpath)

end Plan

/-- Of two files that come to one name the portable one keeps it. -/
theorem question_repaired : Repaired asciiCaseFolding ["Q?.md".toList, "q.md".toList]
    (planOf asciiCaseFolding ["Q?.md".toList, "q.md".toList] []) := by
  have hplan : planNameRepair asciiCaseFolding ["Q?.md".toList, "q.md".toList] []
      = .ok (planOf asciiCaseFolding ["Q?.md".toList, "q.md".toList] []) := by
    apply planNameRepair_eq_ok_iff.mpr
    exact ⟨all_eq_true.mp (by decide +kernel), isEmpty_iff.mp (by decide +kernel), rfl⟩
  exact (planNameRepair_repaired asciiCaseFolding).2 _ [] _ hplan

example : (planOf asciiCaseFolding ["Q?.md".toList, "q.md".toList] []).files =
    ["Q (2).md".toList, "q.md".toList] := by
  decide +kernel

end RepairPlans
