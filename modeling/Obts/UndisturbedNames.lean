import Obts.RepairPlans

/-!
# Portable names under a repair

Folders are claimed before files are placed, and the first of the folders that come to one folded form gives the
name. So a portable path is moved when an unportable folder takes its place: a file when some sanitized folder
has its folded form, a folder when one that comes before it is sanitized to another spelling of its name.
-/
namespace UndisturbedNames

open InsertionOrder PortableNames NameRepair RepairFolders KeptPaths RepairPlans

section Frame
variable {u : CaseFolding} {files directories : List (List Char)} {plan : NameRepairPlan} {path : List Char}

/-- The plan keeps what is not reported. -/
structure LeavesPortable (u : CaseFolding) (files directories : List (List Char)) (plan : NameRepairPlan) : Prop where
  keptFiles : ∀ file ∈ files, ¬ Reported u files directories file → valueAt plan.fileMap file = some file
  keptDirectories : ∀ directory ∈ directories, ¬ Reported u files directories directory →
    valueAt plan.directoryMap directory = some directory

/-- No folder takes the place of a path that is not reported. -/
structure Undisturbed (u : CaseFolding) (files directories : List (List Char)) : Prop where
  names : ∀ directory ∈ directories, ¬ Reported u files directories directory →
    KeepsNames u (orderedFolders (sortedOf files) (sortedOf directories)) directory
  above : ∀ file ∈ files, ¬ Reported u files directories file → dirname file ≠ ['.'] →
    KeepsNames u (orderedFolders (sortedOf files) (sortedOf directories)) (dirname file)
  apart : ∀ file ∈ files, ¬ Reported u files directories file → ∀ folder ∈ folders files directories,
    foldPathCase u (sanitizedPath folder) ≠ foldPathCase u file

lemma mem_folders_sortedOf :
    path ∈ folders (sortedOf files) (sortedOf directories) ↔ path ∈ folders files directories := by
  simp [mem_folders, mem_sortedOf]

lemma portable_of_not_reported (hprop : ProperPaths files directories) (hpath : path ∈ files ∨ path ∈ directories)
    (h : ¬ Reported u files directories path) : Portable u (listed (sortedOf files) (sortedOf directories)) path := by
  have hport : Portable u (listed files directories) path := by
    by_contra hnot
    exact h (reported_iff.mpr ⟨mem_listed.mpr ⟨(hprop path hpath).ne_nil, hpath⟩, hnot⟩)
  apply hport.congr
  intro other hother
  rwa [mem_listed, mem_sortedOf, mem_sortedOf, ← mem_listed] at hother

/-- A plan keeps the portable paths of a vault just when no folder takes the place of one. -/
theorem leavesPortable_iff (hcanonical : ∀ path, path ∈ files ∨ path ∈ directories → isRepairedPath u path = true)
    (h : planNameRepair u files directories = .ok plan) :
    LeavesPortable u files directories plan ↔ Undisturbed u files directories := by
  obtain ⟨-, -, rfl⟩ := planNameRepair_eq_ok_iff.mp h
  have hprop : ProperPaths files directories :=
    fun path hpath => (isRepairedPath_iff.mp (hcanonical path hpath)).1.proper
  have hsort : ProperPaths (sortedOf files) (sortedOf directories) := by
    intro path hpath
    rw [mem_sortedOf, mem_sortedOf] at hpath
    exact hprop path hpath
  have hdir : ∀ directory ∈ directories,
      (valueAt (planOf u files directories).directoryMap directory = some directory ↔
        KeepsNames u (orderedFolders (sortedOf files) (sortedOf directories)) directory) := by
    intro directory hin
    apply directory_kept_iff hsort
    exact mem_folders.mpr ⟨directory, (hprop directory (Or.inr hin)).ne_dot, Or.inr (mem_sortedOf.mpr hin),
      self_mem_pathPrefixes directory⟩
  have hfile : ∀ file ∈ files, ¬ Reported u files directories file →
      (valueAt (planOf u files directories).fileMap file = some file ↔
        (dirname file ≠ ['.'] →
          KeepsNames u (orderedFolders (sortedOf files) (sortedOf directories)) (dirname file)) ∧
          ∀ folder ∈ folders files directories, foldPathCase u (sanitizedPath folder) ≠ foldPathCase u file) := by
    intro file hin hnot
    have hkept := file_kept_iff hsort (mem_sortedOf.mpr hin) (portable_of_not_reported hprop (Or.inl hin) hnot)
    simp only [mem_folders_sortedOf] at hkept
    exact hkept
  constructor
  · intro hleav
    constructor
    · exact fun directory hin hnot => (hdir directory hin).mp (hleav.keptDirectories directory hin hnot)
    · exact fun file hin hnot => ((hfile file hin hnot).mp (hleav.keptFiles file hin hnot)).1
    · exact fun file hin hnot => ((hfile file hin hnot).mp (hleav.keptFiles file hin hnot)).2
  · intro hund
    constructor
    · intro file hin hnot
      exact (hfile file hin hnot).mpr ⟨hund.above file hin hnot, hund.apart file hin hnot⟩
    · exact fun directory hin hnot => (hdir directory hin).mpr (hund.names directory hin hnot)

end Frame

/-- The folder `a:b` becomes `a - b`, and the portable file `a - b` has to make room. -/
def sameNames : List (List Char) := ["a - b".toList, "a:b/x".toList]

lemma plan_sameNames : planNameRepair asciiCaseFolding sameNames [] = .ok (planOf asciiCaseFolding sameNames []) := by
  apply planNameRepair_eq_ok_iff.mpr
  exact ⟨List.all_eq_true.mp (by decide +kernel), List.isEmpty_iff.mp (by decide +kernel), rfl⟩

lemma canonical_sameNames : ∀ path, path ∈ sameNames ∨ path ∈ ([] : List (List Char)) →
    isRepairedPath asciiCaseFolding path := by
  intro path hpath
  have hall : sameNames.all (isRepairedPath asciiCaseFolding) = true := by decide +kernel
  exact List.all_eq_true.mp hall path (hpath.resolve_right List.not_mem_nil)

theorem sameNames_moved : (∀ path, path ∈ sameNames ∨ path ∈ ([] : List (List Char)) →
      isRepairedPath asciiCaseFolding path = true) ∧
    planNameRepair asciiCaseFolding sameNames [] = .ok (planOf asciiCaseFolding sameNames []) ∧
      ¬ LeavesPortable asciiCaseFolding sameNames [] (planOf asciiCaseFolding sameNames []) := by
  refine ⟨canonical_sameNames, plan_sameNames, ?_⟩
  intro hleav
  have hnot : ¬ Reported asciiCaseFolding sameNames [] "a - b".toList := by
    rw [Reported]
    decide +kernel
  have hkept := hleav.keptFiles "a - b".toList List.mem_cons_self hnot
  have hmoved : valueAt (planOf asciiCaseFolding sameNames []).fileMap "a - b".toList
      = some "a - b (2)".toList := by decide +kernel
  exact absurd hkept (by decide)

theorem sameNames_leavesPortable_iff :
    LeavesPortable asciiCaseFolding sameNames [] (planOf asciiCaseFolding sameNames []) ↔
      Undisturbed asciiCaseFolding sameNames [] := leavesPortable_iff canonical_sameNames plan_sameNames

end UndisturbedNames
