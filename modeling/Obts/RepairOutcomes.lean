import Obts.RepairPlans

/-!
# When a name repair succeeds

Of the checks on the repaired paths only those on length, normal form and sync can fail. A repaired path has
neither reserved characters nor forbidden segments, and no two repaired paths are alike but for letter case.
-/
namespace RepairOutcomes

open List
open InsertionOrder SlashPath PathPolicy ClientPaths PortableNames NameRepair RepairedNames RepairFolders
    RepairFiles
  KeptPaths RepairPlans

section Segments
variable {segment stem name other : List Char} {c : Char} {isFile isRoot : Bool}

/-- A name with an extension is not one whose only dot comes first. -/
lemma extended_ne (hstem : stem ≠ []) (hext : isExtension name) (hc : '.' ∉ other) : stem ++ name ≠ c :: other := by
  intro heq
  cases stem with
  | nil => exact hstem rfl
  | cons d stem =>
    have hrest : stem ++ name = other := (cons.inj heq).2
    cases name with
    | nil => cases hext
    | cons dot name =>
      rw [isExtension.eq_def] at hext
      split at hext
      · rename_i heq
        obtain ⟨rfl, -⟩ := cons.inj heq
        exact hc (hrest ▸ mem_append_right _ mem_cons_self)
      · cases hext

lemma sanitizeSegment_allowed (h : segment ∉ forbiddenResultSegments) (isFile isRoot : Bool) :
    sanitizeSegment segment isFile isRoot ∉ forbiddenResultSegments := by
  cases hresv : segmentHasReservedCharacters segment with
  | false => rwa [sanitizeSegment_of_plain hresv]
  | true =>
    obtain ⟨front, stem, extension, -, hext, hvalue, hstem⟩ := sanitizeSegment_cases hresv isFile isRoot
    have halw : stem ∉ forbiddenResultSegments := by
      rcases hstem with rfl | ⟨-, hstem, -⟩
      · decide
      · exact hstem
    rw [hvalue]
    rcases hext with rfl | hext
    · rwa [append_nil]
    simp only [forbiddenResultSegments, mem_cons, not_mem_nil, or_false, not_or] at halw ⊢
    have hlast : ∀ c, stem ≠ [c] → stem ++ extension ≠ [c, '.'] := by
      intro c hne heq
      have hback := append_eq_cons_iff.mp heq
      rcases hback with ⟨rfl, -⟩ | ⟨rest, rfl, hrest⟩
      · exact halw.1 rfl
      rcases singleton_eq_append_iff.mp hrest with ⟨rfl, -⟩ | ⟨-, rfl⟩
      · exact hne rfl
      · cases hext
    exact ⟨fun heq => halw.1 (append_eq_nil_iff.mp heq).1, extended_ne halw.1 hext (by decide),
      hlast '.' halw.2.1, extended_ne halw.1 hext (by decide)⟩

lemma sanitizeSegment_ne_obts (h : segment ≠ ".obts".toList) (isFile : Bool) :
    sanitizeSegment segment isFile true ≠ ".obts".toList := by
  cases hresv : segmentHasReservedCharacters segment with
  | false => rwa [sanitizeSegment_of_plain hresv]
  | true =>
    obtain ⟨front, stem, extension, -, hext, hvalue, hstem⟩ := sanitizeSegment_cases hresv isFile true
    rw [hvalue]
    have hne : stem ≠ [] ∧ stem ≠ ".obts".toList := by
      rcases hstem with rfl | ⟨-, hforb, hobts⟩
      · exact ⟨by decide, by decide⟩
      · exact ⟨fun hnil => hforb (hnil ▸ mem_cons_self), fun heq => hobts ⟨rfl, heq⟩⟩
    rcases hext with rfl | hext
    · rw [append_nil]
      exact hne.2
    · exact extended_ne hne.1 hext (by decide)

lemma numbered_ne (h : '(' ∉ other) (n : Nat) : numbered name n ≠ other := by
  rintro rfl
  apply h
  simp [numbered, suffix]

lemma numbered_allowed (n : Nat) : numbered name n ∉ forbiddenResultSegments := by
  intro hin
  have hplain : ∀ other ∈ forbiddenResultSegments, '(' ∉ other := by decide
  exact numbered_ne (hplain _ hin) n rfl

lemma plain_numbered (h : segmentHasReservedCharacters name = false) (n : Nat) :
    segmentHasReservedCharacters (numbered name n) = false := by
  rw [segmentHasReservedCharacters, any_eq_false] at h ⊢
  intro c hc
  rcases mem_numbered hc with hname | rfl | rfl | rfl | hdigit
  · exact h c hname
  · decide
  · decide
  · decide
  rw [isReserved_alphanumeric]
  · decide
  simp only [Char.isDigit, Bool.and_eq_true, decide_eq_true_eq, ge_iff_le, UInt32.le_iff_toNat_le] at hdigit
  rw [isAlphanumeric, Bool.or_eq_true, Bool.and_eq_true, decide_eq_true_eq, decide_eq_true_eq]
  exact .inr hdigit

end Segments

/-- A path without segments that no vault path has. -/
structure Admitted (path : List Char) : Prop where
  allowed : ∀ segment ∈ path.splitOn '/', segment ∉ forbiddenResultSegments
  not_obts : (path.splitOn '/').head? ≠ some ".obts".toList

/-- A path that no check of the repaired paths refuses but those on length, normal form and sync. -/
structure Sanitary (path : List Char) : Prop extends Admitted path where
  plain : ∀ segment ∈ path.splitOn '/', segmentHasReservedCharacters segment = false

section Paths
variable {u : CaseFolding} {path folder name : List Char}

lemma admitted_of_segment (h : '/' ∉ name) :
    Admitted name ↔ name ∉ forbiddenResultSegments ∧ name ≠ ".obts".toList := by
  have hsplit := splitOn_eq_singleton h
  constructor
  · rintro ⟨halw, hobts⟩
    rw [hsplit, forall_mem_singleton] at halw
    rw [hsplit, head?_cons] at hobts
    exact ⟨halw, fun heq => hobts (congrArg some heq)⟩
  rintro ⟨halw, hobts⟩
  constructor
  · rw [hsplit, forall_mem_singleton]
    exact halw
  · rw [hsplit, head?_cons]
    exact fun heq => hobts (Option.some.inj heq)

lemma admitted_below_iff (hname : '/' ∉ name) :
    Admitted (folder ++ '/' :: name) ↔ Admitted folder ∧ name ∉ forbiddenResultSegments := by
  have hhead : ((folder ++ '/' :: name).splitOn '/').head? = (folder.splitOn '/').head? := by
    rw [splitOn_below folder hname, head?_append_of_ne_nil _ (splitOn_ne_nil '/' folder)]
  constructor
  · rintro ⟨halw, hobts⟩
    rw [splitOn_below folder hname, forall_mem_concat] at halw
    rw [hhead] at hobts
    exact ⟨⟨halw.1, hobts⟩, halw.2⟩
  rintro ⟨⟨halw, hobts⟩, hlast⟩
  constructor
  · rw [splitOn_below folder hname, forall_mem_concat]
    exact ⟨halw, hlast⟩
  · rwa [hhead]

lemma sanitary_of_segment (h : '/' ∉ name) (halw : name ∉ forbiddenResultSegments) (hobts : name ≠ ".obts".toList)
    (hplain : segmentHasReservedCharacters name = false) : Sanitary name := by
  refine ⟨(admitted_of_segment h).mpr ⟨halw, hobts⟩, ?_⟩
  rw [splitOn_eq_singleton h, forall_mem_singleton]
  exact hplain

lemma Sanitary.below (h : Sanitary folder) (hname : '/' ∉ name) (halw : name ∉ forbiddenResultSegments)
    (hplain : segmentHasReservedCharacters name = false) : Sanitary (folder ++ '/' :: name) := by
  refine ⟨(admitted_below_iff hname).mpr ⟨h.toAdmitted, halw⟩, ?_⟩
  rw [splitOn_below folder hname, forall_mem_concat]
  exact ⟨h.plain, hplain⟩

lemma Admitted.proper (h : Admitted path) : Proper path := by
  intro segment hseg
  have halw := h.allowed segment hseg
  simp only [forbiddenResultSegments, mem_cons, not_mem_nil, or_false, not_or] at halw
  exact ⟨halw.1, halw.2.1⟩

lemma Admitted.above (h : Admitted path) : ∀ above ∈ pathPrefixes path, Admitted above :=
  forall_pathPrefixes (fun _ _ hname hadm => ((admitted_below_iff hname).mp hadm).1) h

/-- The name of an admitted path, and the path itself at the root, are allowed. -/
lemma Admitted.basename (h : Admitted path) : basename path ∉ forbiddenResultSegments ∧
    (dirname path = ['.'] → NameRepair.basename path ≠ ".obts".toList) := by
  rcases h.proper.cases with ⟨hslash, -, hbase⟩ | ⟨folder, name, rfl, hname, -, -, hdir, hbase, hdot⟩
  · rw [hbase]
    exact ⟨((admitted_of_segment hslash).mp h).1, fun _ => ((admitted_of_segment hslash).mp h).2⟩
  · rw [hbase, hdir]
    exact ⟨((admitted_below_iff hname).mp h).2, fun hroot => absurd hroot hdot⟩

lemma admitted_of_canonical (h : Canonical u path) : Admitted path := by
  obtain ⟨hvalid, -, -⟩ := canonical_iff.mp h
  refine ⟨fun segment hseg => ?_, hvalid.not_obts⟩
  obtain ⟨hne, hdot, hup⟩ := hvalid.segments segment hseg
  have hgit : segment ≠ ".git".toList := fun heq => hvalid.not_git (heq ▸ hseg)
  simp only [forbiddenResultSegments, mem_cons, not_mem_nil, or_false, not_or]
  exact ⟨hne, hdot, hup, hgit⟩

lemma not_reserved_of_plain (h : ∀ segment ∈ path.splitOn '/', segmentHasReservedCharacters segment = false) :
    ∀ c ∈ path, isReserved c = false := by
  induction path using path_induction with
  | segment name hname =>
    rw [splitOn_eq_singleton hname, forall_mem_singleton, segmentHasReservedCharacters] at h
    simpa using h
  | below folder name hname ih =>
    rw [splitOn_below folder hname, forall_mem_concat, segmentHasReservedCharacters] at h
    rw [forall_mem_append, forall_mem_cons]
    exact ⟨ih h.1, by decide, by simpa using h.2⟩

/-- A path of those that are not synced. -/
def Excluded (path : Path) : Prop :=
  PathPolicy.isOsOrEditorMetadata path = true ∨ path.text = ".obsidian/workspace.json" ∨
    path.text = ".obsidian/workspace-mobile.json" ∨ pathsOverlapWithinRoot path ⟨".obsidian/cache"⟩ = true ∨
    pathsOverlapWithinRoot path ⟨".obsidian/plugins/obts"⟩ = true

/-- What is left to check of a sanitary path. -/
structure Fits (u : CaseFolding) (path : List Char) : Prop where
  short : utf16Length path ≤ 4096
  normal : u.nfc path = path
  synced : ¬ Excluded ⟨String.ofList path⟩

lemma Sanitary.valid (h : Sanitary path) (hshort : utf16Length path ≤ 4096) : Valid path ∧ '\\' ∉ path := by
  have hplain := not_reserved_of_plain h.plain
  have hsegs : ∀ segment ∈ path.splitOn '/', segment ≠ [] ∧ segment ≠ ['.'] ∧ segment ≠ ['.', '.'] ∧
      segment ≠ ".git".toList := by
    intro segment hseg
    have halw := h.allowed segment hseg
    simpa only [forbiddenResultSegments, mem_cons, not_mem_nil, or_false, not_or] using halw
  have hbef : ∀ segment : List Char, '/' ∉ segment → segment ++ ['/'] <+: path → segment ∈ path.splitOn '/' := by
    rintro segment hslash ⟨rest, rfl⟩
    rw [append_assoc, singleton_append, splitOn_append_cons_self, splitOn_eq_singleton hslash]
    exact mem_append_left _ (mem_singleton_self segment)
  constructor
  · constructor
    · exact h.proper.ne_nil
    · exact fun hup => (hsegs ['.', '.'] (hbef ['.', '.'] (by decide) hup)).2.2.1 rfl
    · exact fun habs => (hsegs [] (hbef [] not_mem_nil habs)).1 rfl
    · intro hdrive
      rw [hasDrivePrefix.eq_def] at hdrive
      split at hdrive
      · exact absurd (hplain ':' (by simp)) (by decide)
      · cases hdrive
    · intro c hc hctl
      have hresv := hplain c hc
      rw [isReserved, hctl, Bool.or_true] at hresv
      cases hresv
    · exact hshort
    · exact fun segment hseg => ⟨(hsegs segment hseg).1, (hsegs segment hseg).2.1, (hsegs segment hseg).2.2.1⟩
    · exact h.not_obts
    · exact fun hgit => (hsegs _ hgit).2.2.2 rfl
  · intro hback
    exact absurd (hplain '\\' hback) (by decide)

lemma Sanitary.isRepairedPath_iff (h : Sanitary path) : isRepairedPath u path ↔ Fits u path := by
  have hsyn : Canonical u path → (PathPolicy.isSyncableVaultPath u.toNormalization (String.ofList path) = true ↔
      ¬ Excluded ⟨String.ofList path⟩) := by
    intro hcan
    rw [PathPolicy.isSyncableVaultPath, hcan]
    simp [Excluded, and_assoc]
  rw [RepairPlans.isRepairedPath_iff]
  constructor
  · rintro ⟨hcan, hsync⟩
    obtain ⟨hvalid, hnorm, -⟩ := canonical_iff.mp hcan
    exact ⟨hvalid.short, hnorm, (hsyn hcan).mp hsync⟩
  rintro ⟨hshort, hnorm, hexcl⟩
  obtain ⟨hvalid, hback⟩ := h.valid hshort
  have hcan : Canonical u path := canonical_iff.mpr ⟨hvalid, hnorm, hback⟩
  exact ⟨hcan, (hsyn hcan).mpr hexcl⟩

end Paths

section Repaired
variable {u : CaseFolding} {files directories done : List (List Char)} {state : Directories}
  {path file target folder new : List Char}

/-- New folders of admitted folders are sanitary. -/
lemma sanitary_of_named (h : Named u done state) (hadm : ∀ path ∈ done, Admitted path)
    (hpars : ∀ path ∈ done, dirname path = ['.'] ∨ dirname path ∈ done) (hpath : path ∈ done)
    (hnew : valueAt state.directoryMap path = some new) : Sanitary new := by
  have hprop : ∀ path ∈ done, Proper path := fun path hpath => (hadm path hpath).proper
  induction path using path_induction generalizing new with
  | segment name hname =>
    obtain ⟨first, hfirst⟩ := exists_firstAlike (u := u) hpath
    rcases h.value_cases hprop hpars hpath hfirst with ⟨-, hvalue, hsan⟩ | ⟨hdir, -⟩
    · cases hvalue.symm.trans hnew
      obtain ⟨halw, hobts⟩ := (hadm first (firstAlike_mem hfirst).1).basename
      have hroot : dirname first = ['.'] := by
        rcases parts_of_alike (hprop _ hpath) (hprop first (firstAlike_mem hfirst).1) (firstAlike_mem hfirst).2 with
          ⟨-, hroot⟩ | ⟨hdir, -⟩
        · exact hroot
        · exact absurd (dirname_of_segment hname) hdir
      apply sanitary_of_segment (slash_notMem_folderName first)
      · exact sanitizeSegment_allowed halw _ _
      · rw [hsan]
        exact sanitizeSegment_ne_obts (hobts hroot) false
      · exact plain_sanitizeSegment _ _ _
    · exact absurd (dirname_of_segment hname) hdir
  | below above name hname ih =>
    obtain ⟨first, hfirst⟩ := exists_firstAlike (u := u) hpath
    obtain ⟨halw, -⟩ := (hadm first (firstAlike_mem hfirst).1).basename
    have hproP := (proper_below_iff hname).mp (hprop _ hpath)
    have hdn : dirname (above ++ '/' :: name) = above :=
      dirname_below hname hproP.2.1 hproP.1.ne_nil hproP.1.ne_slash
    rcases h.value_cases hprop hpars hpath hfirst with ⟨hdir, -⟩ | ⟨hdir, -, folder, hfold, -, hvalue⟩
    · exact absurd (hdn.symm.trans hdir) hproP.1.ne_dot
    have habove := (hpars _ hpath).resolve_left hdir
    rw [hdn] at hfold habove
    cases hvalue.symm.trans hnew
    exact (ih habove hfold).below (slash_notMem_folderName first) (sanitizeSegment_allowed halw _ _)
      (plain_sanitizeSegment _ _ _)

/-- All listed paths are admitted. -/
def AdmittedPaths (files directories : List (List Char)) : Prop :=
  ∀ path, path ∈ files ∨ path ∈ directories → Admitted path

section
variable (h : AdmittedPaths files directories)
include h

lemma AdmittedPaths.proper : ProperPaths files directories :=
  fun path hpath => (h path hpath).proper

lemma admitted_of_mem_folders (hpath : path ∈ folders files directories) : Admitted path := by
  obtain ⟨listedPath, hlst, habove⟩ := exists_listed_of_folder h.proper hpath
  exact (h listedPath (mem_listed.mp hlst).2).above path habove

lemma sanitary_directory (hpath : path ∈ folders files directories)
    (hnew : valueAt (claimDirectories u files directories).directoryMap path = some new) : Sanitary new := by
  apply sanitary_of_named (named_claimDirectories h.proper) _ _ (mem_sortBy.mpr hpath) hnew
  · exact fun other hother => admitted_of_mem_folders h (mem_sortBy.mp hother)
  · exact fun other hother =>
      (dirname_mem_folders h.proper (mem_sortBy.mp hother)).imp_right fun hin => mem_sortBy.mpr hin

/-- Targets of admitted files are sanitary. -/
lemma sanitary_target
    (htgt : valueAt (placeFiles u (claimDirectories u files directories) files).fileMap file = some target) :
    Sanitary target := by
  obtain ⟨hfile, -, hcases⟩ := target_cases htgt
  obtain ⟨halw, hobts⟩ := (h file (.inl hfile)).basename
  have hslash : ∀ isRoot, '/' ∉ sanitizeSegment (basename file) true isRoot :=
    slash_notMem_sanitizeSegment (slash_notMem_basename file) true
  have hobtN : '(' ∉ ".obts".toList := by decide
  have hpar : dirname file = ['.'] ∨ dirname file ∈ orderedFolders files directories := by
    by_cases hdir : dirname file = ['.']
    · exact .inl hdir
    · exact .inr (mem_sortBy.mpr (dirname_mem_folders_of_file hfile hdir))
  rcases candidateOf_proper (named_claimDirectories (u := u) h.proper) (h.proper file (.inl hfile)) hpar true with
    ⟨hroot, hcand⟩ | ⟨folder, hfold, -, hdir, -, hcand⟩
  · rw [hcand] at hcases
    rcases hcases with rfl | ⟨n, rfl⟩
    · exact sanitary_of_segment (hslash true) (sanitizeSegment_allowed halw _ _)
        (sanitizeSegment_ne_obts (hobts hroot) true) (plain_sanitizeSegment _ _ _)
    rw [withSuffix_of_segment (hslash true)]
    exact sanitary_of_segment (slash_notMem_numbered (hslash true) n) (numbered_allowed n)
      (numbered_ne hobtN n) (plain_numbered (plain_sanitizeSegment _ _ _) n)
  · have hsan := sanitary_directory h (dirname_mem_folders_of_file hfile hdir) hfold
    have hne : sanitizeSegment (basename file) true false ≠ [] := by
      intro hnil
      exact sanitizeSegment_allowed halw true false (hnil ▸ mem_cons_self)
    rw [hcand] at hcases
    rcases hcases with rfl | ⟨n, rfl⟩
    · exact hsan.below (hslash false) (sanitizeSegment_allowed halw _ _) (plain_sanitizeSegment _ _ _)
    rw [withSuffix_below (hslash false) hne hsan.proper.ne_nil hsan.proper.ne_slash, if_neg hsan.proper.ne_dot]
    exact hsan.below (slash_notMem_numbered (hslash false) n) (numbered_allowed n)
      (plain_numbered (plain_sanitizeSegment _ _ _) n)

lemma AdmittedPaths.sorted : AdmittedPaths (sortedOf files) (sortedOf directories) := by
  intro path hpath
  rw [mem_sortedOf, mem_sortedOf] at hpath
  exact h path hpath

lemma mem_newDirectories : path ∈ newDirectories u files directories ↔
    ∃ directory ∈ directories, valueAt (claimedOf u files directories).directoryMap directory = some path := by
  rw [newDirectories, mem_map]
  constructor
  · rintro ⟨directory, hin, rfl⟩
    have hdir : directory ∈ orderedFolders (sortedOf files) (sortedOf directories) :=
      mem_sortBy.mpr (mem_folders.mpr ⟨directory, (h.sorted.proper directory (.inr hin)).ne_dot, .inr hin,
        self_mem_pathPrefixes directory⟩)
    obtain ⟨new, hnew, -⟩ := (named_claimDirectories (u := u) h.sorted.proper).folded directory hdir
    refine ⟨directory, mem_sortedOf.mp hin, ?_⟩
    rw [claimedOf, hnew]
    rfl
  · rintro ⟨directory, hin, hvalue⟩
    exact ⟨directory, mem_sortedOf.mpr hin, by rw [hvalue, Option.getD_some]⟩

lemma sanitary_of_mem_new (hpath : path ∈ newFiles u files directories ++ newDirectories u files directories) :
    Sanitary path := by
  rcases mem_append.mp hpath with hfile | hdir
  · obtain ⟨file, -, hvalue⟩ := mem_newFiles.mp hfile
    exact sanitary_target h.sorted hvalue
  obtain ⟨directory, hin, hvalue⟩ := (mem_newDirectories h).mp hdir
  refine sanitary_directory h.sorted (mem_folders.mpr ⟨directory, ?_, .inr (mem_sortedOf.mpr hin),
    self_mem_pathPrefixes directory⟩) hvalue
  exact (h directory (.inr hin)).proper.ne_dot

/-- A path that is or is above a repaired path is a new folder, or the repaired path and a file. -/
lemma mem_pathPrefixes_new (hpath : path ∈ newFiles u files directories ++ newDirectories u files directories)
    (habove : folder ∈ pathPrefixes path) :
    folder ∈ newFolders (claimedOf u files directories) ∨ folder ∈ newFiles u files directories := by
  have hclm : Claimed u (claimedOf u files directories) := claimed_claimDirectories u _ _
  have hprop := (sanitary_of_mem_new h hpath).proper
  rcases mem_append.mp hpath with hfile | hdirectory
  · obtain ⟨file, -, hvalue⟩ := mem_newFiles.mp hfile
    obtain ⟨-, -, hcases⟩ := target_cases hvalue
    have hpar := (target_below hclm hcases).2
    rcases hprop.cases with ⟨hslash, -⟩ | ⟨above, name, rfl, hname, -, -, hdir, -, hdot⟩
    · rw [pathPrefixes_of_segment hslash, mem_singleton] at habove
      exact .inr (habove ▸ hfile)
    rw [pathPrefixes_below above hname, mem_append, mem_singleton] at habove
    rw [hdir] at hpar
    rcases habove with habove | rfl
    · exact .inl (hclm.closed above (hpar.resolve_left hdot) folder habove)
    · exact .inr hfile
  · obtain ⟨directory, -, hvalue⟩ := (mem_newDirectories h).mp hdirectory
    exact .inl (hclm.closed path (hclm.mapped _ _ hvalue) folder habove)

/-- The last check of a repair does not fail. -/
lemma findUnportablePaths_new :
    findUnportablePaths u (newFiles u files directories) (newDirectories u files directories) = [] := by
  have hclm : Claimed u (claimedOf u files directories) := claimed_claimDirectories u _ _
  have hnew : ∀ path ∈ listed (newFiles u files directories) (newDirectories u files directories),
      path ∈ newFiles u files directories ++ newDirectories u files directories := by
    intro path hpath
    exact mem_append.mpr (mem_listed.mp hpath).2
  have hfol : ∀ folder ∈ newFolders (claimedOf u files directories),
      (foldPathCase u folder, folder) ∈ (claimedOf u files directories).directoryByKey := by
    intro folder hfol
    obtain ⟨e, he, rfl⟩ := mem_map.mp hfol
    rw [← hclm.keyed e he]
    exact he
  have hfree : ∀ target ∈ newFiles u files directories, ∀ folder ∈ newFolders (claimedOf u files directories),
      foldPathCase u target ≠ foldPathCase u folder := by
    intro target htgt folder hin heq
    obtain ⟨file, -, hvalue⟩ := mem_newFiles.mp htgt
    obtain ⟨-, hfree, -⟩ := target_cases hvalue
    exact hfree (heq ▸ mem_map_of_mem (hfol folder hin))
  apply findUnportablePaths_eq_nil_iff.mpr
  intro path hpath
  constructor
  · exact (sanitary_of_mem_new h (hnew path hpath)).plain
  intro folder habove other hother spelling hspel hfold
  rcases mem_pathPrefixes_new h (hnew path hpath) habove with hdir | hfile <;>
    rcases mem_pathPrefixes_new h (hnew other hother) hspel with hdir' | hfile'
  · have hentry := hfol spelling hdir'
    rw [hfold] at hentry
    exact congrArg Prod.snd (inj_on_of_nodup_map hclm.distinct hentry (hfol folder hdir) rfl)
  · exact absurd hfold (hfree spelling hfile' folder hdir)
  · exact absurd hfold.symm (hfree folder hfile spelling hdir')
  · obtain ⟨file, -, hvalue⟩ := mem_newFiles.mp hfile
    obtain ⟨file', -, hvalue'⟩ := mem_newFiles.mp hfile'
    obtain rfl := target_inj hvalue' hvalue hfold
    exact Option.some.inj (hvalue'.symm.trans hvalue)

end

/-- On canonical paths all repaired paths are sanitary. A plan is returned just when they are also short, in
normal form and synced, and otherwise the repair is refused for one that is not. -/
theorem planNameRepair_outcome (hcanonical : ∀ path, path ∈ files ∨ path ∈ directories → Canonical u path) :
    (∀ path ∈ newFiles u files directories ++ newDirectories u files directories, Sanitary path) ∧
    ((∃ plan, planNameRepair u files directories = .ok plan) ↔
      ∀ path ∈ newFiles u files directories ++ newDirectories u files directories, Fits u path) ∧
    ∀ error, planNameRepair u files directories = .error error →
      error = ⟨"name_repair_unresolvable", "A repaired name is not a valid vault path."⟩ := by
  have hadm : AdmittedPaths files directories := fun path hpath => admitted_of_canonical (hcanonical path hpath)
  have hok : (∀ path ∈ newFiles u files directories ++ newDirectories u files directories,
      isRepairedPath u path = true) → planNameRepair u files directories = .ok (planOf u files directories) :=
    fun hall => planNameRepair_eq_ok_iff.mpr ⟨hall, findUnportablePaths_new hadm, rfl⟩
  refine ⟨fun path hpath => sanitary_of_mem_new hadm hpath, ⟨?_, ?_⟩, ?_⟩
  · rintro ⟨plan, hplan⟩ path hpath
    exact (sanitary_of_mem_new hadm hpath).isRepairedPath_iff.mp ((planNameRepair_eq_ok_iff.mp hplan).1 path hpath)
  · intro hfits
    refine ⟨_, hok fun path hpath => ?_⟩
    exact (sanitary_of_mem_new hadm hpath).isRepairedPath_iff.mpr (hfits path hpath)
  · intro error herror
    have hnot : ¬ ∀ path ∈ newFiles u files directories ++ newDirectories u files directories,
        isRepairedPath u path = true := by
      intro hall
      rw [hok hall] at herror
      cases herror
    have href : (!(newFiles u files directories ++ newDirectories u files directories).all (isRepairedPath u))
        = true := by
      rwa [Bool.not_eq_true', ← Bool.not_eq_true, all_eq_true]
    have hrep : planNameRepair u files directories
        = .error ⟨"name_repair_unresolvable", "A repaired name is not a valid vault path."⟩ := if_pos href
    exact Except.error.inj (herror.symm.trans hrep)

end Repaired

/-- Without its question mark the name is one of those that are not synced. -/
theorem temporary_refused : isRepairedPath asciiCaseFolding "foo.tmp?".toList = true ∧
    ¬ ∃ plan, planNameRepair asciiCaseFolding ["foo.tmp?".toList] [] = .ok plan := by
  constructor
  · decide +kernel
  rintro ⟨plan, hplan⟩
  have hrep := (planNameRepair_eq_ok_iff.mp hplan).1
  have href : ¬ (newFiles asciiCaseFolding ["foo.tmp?".toList] [] ++
      newDirectories asciiCaseFolding ["foo.tmp?".toList] []).all (isRepairedPath asciiCaseFolding) = true := by
    decide +kernel
  exact href (all_eq_true.mpr hrep)

theorem question_outcome : Sanitary "Q.md".toList ∧
    ∃ plan, planNameRepair asciiCaseFolding ["Q?.md".toList] [] = .ok plan := by
  have hcan : ∀ path, path ∈ ["Q?.md".toList] ∨ path ∈ ([] : List (List Char)) →
      Canonical asciiCaseFolding path := by
    intro path hpath
    obtain rfl := mem_singleton.mp (hpath.resolve_right not_mem_nil)
    have hrep : isRepairedPath asciiCaseFolding "Q?.md".toList = true := by decide +kernel
    exact (RepairPlans.isRepairedPath_iff.mp hrep).1
  have hnew : newFiles asciiCaseFolding ["Q?.md".toList] [] ++
      newDirectories asciiCaseFolding ["Q?.md".toList] [] = ["Q.md".toList] := by
    decide +kernel
  obtain ⟨hsan, hplan, -⟩ := planNameRepair_outcome hcan
  rw [hnew, forall_mem_singleton] at hsan hplan
  have hrep : isRepairedPath asciiCaseFolding "Q.md".toList = true := by decide +kernel
  exact ⟨hsan, hplan.mpr (hsan.isRepairedPath_iff.mp hrep)⟩

end RepairOutcomes
