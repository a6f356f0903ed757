import Obts.RepairFiles

/-!
# Paths that a repair keeps

A folder keeps its path when it and the folders above it give their names. A portable file keeps its path just
when the folders above it keep theirs and no folder comes to be of its folded form.
-/
namespace KeptPaths

open InsertionOrder PortableNames NameRepair RepairedNames RepairFolders RepairFiles

section Kept
variable {u : CaseFolding} {files directories : List (List Char)} {path file folder : List Char}

lemma basename_mem_segments (h : Proper path) : basename path ∈ path.splitOn '/' := by
  rcases h.cases with ⟨hslash, -, hbase⟩ | ⟨above, name, rfl, hname, -, -, -, hbase, -⟩
  · rw [hbase, List.splitOn_eq_singleton hslash]
    exact List.mem_singleton_self path
  · rw [hbase, splitOn_below above hname]
    exact List.mem_append_right _ (List.mem_singleton_self name)

lemma segments_above (h : folder ∈ pathPrefixes path) :
    ∀ segment ∈ folder.splitOn '/', segment ∈ path.splitOn '/' := by
  refine forall_pathPrefixes (P := fun above => ∀ segment ∈ above.splitOn '/', segment ∈ path.splitOn '/') ?_
    (fun _ hseg => hseg) folder h
  intro above name hname hsub segment hseg
  apply hsub
  rw [splitOn_below above hname]
  exact List.mem_append_left _ hseg

/-- The folder above a file is one of the folders, and one of those above the file. -/
lemma dirname_above (h : Proper path) (hdir : dirname path ≠ ['.']) : dirname path ∈ pathPrefixes path := by
  rcases h.cases with ⟨-, htop, -⟩ | ⟨above, name, rfl, hname, -, -, hdn, -⟩
  · exact absurd htop hdir
  · rw [hdn, pathPrefixes_below above hname]
    exact List.mem_append_left _ (self_mem_pathPrefixes above)

lemma dirname_mem_folders_of_file (hfile : file ∈ files) (hdir : dirname file ≠ ['.']) :
    dirname file ∈ folders files directories :=
  mem_folders.mpr ⟨dirname file, hdir, .inl ⟨file, hfile, rfl⟩, self_mem_pathPrefixes _⟩

section
variable (h : ProperPaths files directories)
include h

/-- A folder is listed, or above a listed path. -/
lemma exists_listed_of_folder (hfold : folder ∈ folders files directories) :
    ∃ path ∈ listed files directories, folder ∈ pathPrefixes path := by
  obtain ⟨above, hdot, hlst, hin⟩ := mem_folders.mp hfold
  rcases hlst with ⟨file, hfile, rfl⟩ | hdir
  · have hprop := h file (.inl hfile)
    exact ⟨file, mem_listed.mpr ⟨hprop.ne_nil, .inl hfile⟩, pathPrefixes_trans (dirname_above hprop hdot) hin⟩
  · exact ⟨above, mem_listed.mpr ⟨(h above (.inr hdir)).ne_nil, .inr hdir⟩, hin⟩

lemma directory_kept_iff (hdir : folder ∈ folders files directories) :
    valueAt (claimDirectories u files directories).directoryMap folder = some folder ↔
      KeepsNames u (orderedFolders files directories) folder := by
  have hord : ∀ other, other ∈ orderedFolders files directories ↔ other ∈ folders files directories :=
    fun _ => mem_sortBy
  apply (named_claimDirectories h).kept_iff
  · exact fun other hother => proper_of_mem_folders h ((hord other).mp hother)
  · exact fun other hother =>
      (dirname_mem_folders h ((hord other).mp hother)).imp_right fun hin => (hord _).mpr hin
  · exact (hord folder).mpr hdir

/-- The keys of the new folders are the folded forms of the sanitized paths. -/
lemma mem_directoryKeys_iff (key : List Char) :
    key ∈ (claimDirectories u files directories).directoryByKey.map Prod.fst ↔
      ∃ folder ∈ folders files directories, foldPathCase u (sanitizedPath folder) = key := by
  have hnamed := named_claimDirectories (u := u) h
  constructor
  · intro hkey
    have hsome : valueAt (claimDirectories u files directories).directoryByKey key ≠ none :=
      fun hnone => valueAt_eq_none.mp hnone hkey
    obtain ⟨new, hnew⟩ := Option.ne_none_iff_exists'.mp hsome
    obtain ⟨folder, hdir, hfold, -⟩ := hnamed.byKey key new hnew
    exact ⟨folder, mem_sortBy.mp hdir, hfold⟩
  · rintro ⟨folder, hdir, rfl⟩
    have hknown := hnamed.known folder (mem_sortBy.mpr hdir)
    by_contra hnot
    rw [valueAt_eq_none.mpr hnot] at hknown
    cases hknown

/-- The candidate for a plain file is the file just when the folder above it keeps its path. -/
lemma candidateOf_eq_iff (hfile : file ∈ files) (hplain : segmentHasReservedCharacters (basename file) = false) :
    candidateOf (claimDirectories u files directories).directoryMap file true = file ↔
      (dirname file ≠ ['.'] → KeepsNames u (orderedFolders files directories) (dirname file)) := by
  have hprop := h file (.inl hfile)
  have hpar : dirname file = ['.'] ∨ dirname file ∈ orderedFolders files directories := by
    by_cases hdir : dirname file = ['.']
    · exact .inl hdir
    · exact .inr (mem_sortBy.mpr (dirname_mem_folders_of_file hfile hdir))
  rcases candidateOf_proper (named_claimDirectories (u := u) h) hprop hpar true with
    ⟨hdir, hcand⟩ | ⟨new, hnew, -, hdir, -, hcand⟩
  · rw [hcand, sanitizeSegment_of_plain hplain]
    refine iff_of_true ?_ fun hnot => absurd hdir hnot
    rcases hprop.cases with ⟨-, -, hbase⟩ | ⟨above, name, rfl, -, -, -, hdn, -, hdot⟩
    · exact hbase
    · exact absurd (hdn.symm.trans hdir) hdot
  · have hkept := directory_kept_iff (u := u) h (dirname_mem_folders_of_file hfile hdir)
    rw [hnew, Option.some_inj] at hkept
    rw [hcand, sanitizeSegment_of_plain hplain]
    rcases hprop.cases with ⟨-, htop, -⟩ | ⟨above, name, rfl, hname, -, -, hdn, hbase, -⟩
    · exact absurd htop hdir
    rw [hdn] at hkept hdir ⊢
    rw [hbase]
    constructor
    · intro heq _
      exact hkept.mp (below_inj hname hname heq).1
    · intro hkeeps
      rw [hkept.mpr (hkeeps hdir)]

end

/-- No number is within the name of a file that has none. -/
lemma withSuffix_ne (h : Proper file) {map : List (List Char × List Char)}
    (hplain : segmentHasReservedCharacters (basename file) = false) (n : Nat) :
    withSuffix (candidateOf map file true) n ≠ file := by
  have hslash : '/' ∉ basename file := slash_notMem_basename file
  have hne : basename file ≠ [] := by
    rcases h.cases with ⟨-, -, hbase⟩ | ⟨above, name, rfl, -, hname, -, -, hbase, -⟩
    · rw [hbase]
      exact h.ne_nil
    · rwa [hbase]
  have hlong : ∀ name : List Char, numbered name n ≠ name := by
    intro name heq
    have hparts := congrArg List.length (atLastDot_append name)
    have hlen := congrArg List.length heq
    simp only [numbered, suffix, List.length_append, List.length_cons] at hparts hlen
    omega
  have hcand : basename (withSuffix (candidateOf map file true) n) = numbered (basename file) n := by
    have hbelow : ∀ folder : List Char,
        basename (withSuffix (folder ++ '/' :: basename file) n) = numbered (basename file) n := by
      intro folder
      rw [withSuffix, basename_below folder hslash hne]
      split
      · exact basename_of_segment (slash_notMem_numbered hslash n)
      · exact basename_below _ (slash_notMem_numbered hslash n) (numbered_ne_nil _ n)
    have htop : basename (withSuffix (basename file) n) = numbered (basename file) n := by
      rw [withSuffix_of_segment hslash, basename_of_segment (slash_notMem_numbered hslash n)]
    rw [candidateOf, sanitizeSegment_of_plain hplain, below.eq_def]
    split
    · exact htop
    · exact htop
    · exact hbelow _
  intro heq
  rw [heq] at hcand
  exact hlong _ hcand.symm

/-- A portable file keeps its path just when the folders above it do and no folder comes to be of its folded
form. -/
lemma file_kept_iff (h : ProperPaths files directories) (hfile : file ∈ files)
    (hport : Portable u (listed files directories) file) :
    valueAt (placeFiles u (claimDirectories u files directories) files).fileMap file = some file ↔
      (dirname file ≠ ['.'] → KeepsNames u (orderedFolders files directories) (dirname file)) ∧
        ∀ folder ∈ folders files directories, foldPathCase u (sanitizedPath folder) ≠ foldPathCase u file := by
  have hprop := h file (.inl hfile)
  have hplain := hport.plain _ (basename_mem_segments hprop)
  constructor
  · intro hkept
    obtain ⟨-, hfree, htgt⟩ := target_cases hkept
    constructor
    · rcases htgt with htgt | ⟨n, htgt⟩
      · exact (candidateOf_eq_iff h hfile hplain).mp htgt.symm
      · exact absurd htgt.symm (withSuffix_ne hprop hplain n)
    · intro folder hdir hfold
      exact hfree ((mem_directoryKeys_iff h _).mpr ⟨folder, hdir, hfold⟩)
  · rintro ⟨hkeeps, hapart⟩
    apply target_of_alone hfile ((candidateOf_eq_iff h hfile hplain).mpr hkeeps)
    · intro hkey
      obtain ⟨folder, hdir, hfold⟩ := (mem_directoryKeys_iff h _).mp hkey
      exact hapart folder hdir hfold
    intro other hother hfold
    have hlst : other ∈ listed files directories :=
      mem_listed.mpr ⟨(h other (.inl hother)).ne_nil, .inl hother⟩
    exact hport.alone file (self_mem_pathPrefixes file) other hlst other (self_mem_pathPrefixes other) hfold

/-- Where all listed paths are portable, every folder gives its name. -/
lemma keepsNames_of_portable (h : ProperPaths files directories)
    (hport : ∀ path ∈ listed files directories, Portable u (listed files directories) path)
    (hdir : folder ∈ folders files directories) : KeepsNames u (orderedFolders files directories) folder := by
  have hplain : ∀ other ∈ folders files directories, sanitizedPath other = other ∧
      segmentHasReservedCharacters (basename other) = false := by
    intro other hother
    obtain ⟨path, hpath, habove⟩ := exists_listed_of_folder h hother
    have hsegs : ∀ segment ∈ other.splitOn '/', segmentHasReservedCharacters segment = false :=
      fun segment hseg => (hport path hpath).plain segment (segments_above habove segment hseg)
    exact ⟨sanitizedPath_of_plain hsegs, hsegs _ (basename_mem_segments (proper_of_mem_folders h hother))⟩
  intro above habove
  have hin : above ∈ folders files directories := by
    obtain ⟨other, hdot, hlst, hfolA⟩ := mem_folders.mp hdir
    exact mem_folders.mpr ⟨other, hdot, hlst, pathPrefixes_trans hfolA habove⟩
  have hord : above ∈ orderedFolders files directories := mem_sortBy.mpr hin
  obtain ⟨first, hfirst⟩ := exists_firstAlike (u := u) hord
  obtain ⟨hfirI, hfold⟩ := firstAlike_mem hfirst
  rw [(hplain above hin).1, (hplain first (mem_sortBy.mp hfirI)).1] at hfold
  obtain ⟨path, hpath, haboP⟩ := exists_listed_of_folder h hin
  obtain ⟨other, hother, hfirO⟩ := exists_listed_of_folder h (mem_sortBy.mp hfirI)
  obtain rfl : first = above := (hport path hpath).alone above haboP other hother first hfirO hfold
  exact ⟨first, hfirst, sanitizeSegment_of_plain (hplain first hin).2⟩

end Kept

end KeptPaths
