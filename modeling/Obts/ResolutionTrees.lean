import Obts.OverlayMerge

/-!
# Trees of conflict resolutions

A conflict is resolved on a source tree: main with the device's changes beside the affected
paths. Resolving it for the device takes the device's version of every affected file. What the
device has at a path is what `git show` prints for it, and a path for which it fails is removed.
The changes are made in a work tree, removals first, and everything left there is staged.

`git show` prints a listing for a directory. The theorem says when the tree is the device's at the
affected paths all the same.
-/
namespace ResolutionTrees

open SlashPath FileTrees InsertionOrder GitTrees WorkTrees Metadata StructuralChanges MergeDecision List Prod WorkOp
open OverlayMerge

inductive ResolutionFailure where
  | git
  | fileSystem (error : FsError)

/-- What the service has around it: Git, the file system and the text `git show` prints for a directory. -/
structure Services where
  repo : Repository
  runtime : Runtime
  listing : String → Path → String

section Reading

variable (services : Services) (commit : String)

def readBlobAtPath (path : Path) : Except ResolutionFailure String :=
  match (services.repo.tree commit).get path with
  | some entry =>
    if entry.mode.objectType = .blob ∧ services.repo.blobSize entry.oid ≤ maxBuffer then .ok entry.oid
    else .error .git
  | none =>
    if isDirectory (services.repo.tree commit) path then .ok (services.listing commit path) else .error .git

def readOptionalBlob (path : Path) : Option String :=
  match readBlobAtPath services commit path with
  | .ok oid => some oid
  | .error _ => none

def listTreePaths : Except ResolutionFailure (List Path) :=
  if services.repo.commitExists commit then .ok (services.repo.tree commit).paths else .error .git

def conflictFileAffectedPaths (conflict : ConflictRecord) : Except ResolutionFailure (List Path) := do
  let base ← listTreePaths services conflict.baseCommit
  let main ← listTreePaths services conflict.expectedMain
  let device ← listTreePaths services conflict.deviceCommit
  return conflict.affectedPaths.filter fun path => path ∈ base ∨ path ∈ main ∨ path ∈ device

def changesOutsideAffectedPaths (entries : List GitDiffEntry) (affectedPaths : List Path) : List GitDiffEntry :=
  entries.filter fun entry =>
    !entry.endpoints.any fun entryPath => affectedPaths.any fun affectedPath =>
      changedPathsConflict entryPath affectedPath

def resolutionSourceTree (conflict : ConflictRecord) : Except ResolutionFailure Tree := do
  let main := services.repo.tree conflict.expectedMain
  if !services.repo.commitExists conflict.baseCommit then return main
  let fileAffectedPaths ← conflictFileAffectedPaths services conflict
  if conflict.directoryContext.isNone ∧ fileAffectedPaths = [] then return main
  let authoredBase := (services.repo.mergeBase conflict.currentMain conflict.deviceCommit).getD conflict.baseCommit
  let deviceChanges := services.repo.changedPaths authoredBase conflict.deviceCommit
  let nonConflictingDeviceChanges := changesOutsideAffectedPaths deviceChanges fileAffectedPaths
  if nonConflictingDeviceChanges = [] then return main
  (createOverlayTree services.runtime services.repo.blobSize main (services.repo.tree conflict.deviceCommit)
    nonConflictingDeviceChanges []).mapError .fileSystem

end Reading

/-- The files to write and the paths to remove. -/
structure Changes where
  writes : List (Path × String) := []
  deletes : List Path := []

/-- Removals, then writes; `git add -f -A` stages every file that is left, an ignored one too. -/
def createTreeWithFileContents (rt : Runtime) (sourceTree : Tree) (changes : Changes) : Except FsError Tree := do
  let w ← changes.deletes.foldlM (rm rt) (checkout (smudged rt sourceTree))
  let w ← changes.writes.foldlM (fun w (path, content) => writeFile w path content) w
  stage rt sourceTree w fun _ => true

section Changes

variable (services : Services)

/-- One round of `addDeviceVersionChanges`. -/
def addDeviceVersion (deviceCommit : String) (changes : Changes) (path : Path) : Changes :=
  match readOptionalBlob services deviceCommit path with
  | none => { changes with deletes := changes.deletes ++ [path] }
  | some content => { changes with writes := set changes.writes path content }

def addDeviceVersionChanges (deviceCommit : String) (paths : List Path) (changes : Changes) : Changes :=
  paths.foldl (addDeviceVersion services deviceCommit) changes

/-- The tree of a resolution; `edited` is what the kinds that take more from the reviewer ask for. -/
def buildResolutionArtifacts (conflict : ConflictRecord) (kind : ConflictResolutionKind)
    (edited : Tree → List Path → Except ResolutionFailure Changes) : Except ResolutionFailure Tree := do
  let sourceTree ← resolutionSourceTree services conflict
  let fileAffectedPaths ← conflictFileAffectedPaths services conflict
  let artifacts (changes : Changes) : Except ResolutionFailure Tree :=
    (createTreeWithFileContents services.runtime sourceTree changes).mapError .fileSystem
  match kind with
  | .keepServer => return sourceTree
  | .useDevice =>
    if fileAffectedPaths = [] then
      return if conflict.directoryContext.isSome then sourceTree else services.repo.tree conflict.deviceCommit
    else artifacts (addDeviceVersionChanges services conflict.deviceCommit fileAffectedPaths {})
  | _ => edited sourceTree fileAffectedPaths >>= artifacts

end Changes

variable {tree : Tree} {w : WorkTree} {p : Path}

section Run

variable {services : Services} {commit : String} {changes : Changes} {rt : Runtime}

/-- The writes so far take what the commit has, once for each path. -/
structure TakesBlobs (services : Services) (commit : String) (changes : Changes) : Prop where
  nodup : (changes.writes.map Prod.fst).Nodup
  content : ∀ e ∈ changes.writes, readOptionalBlob services commit e.1 = some e.2

lemma TakesBlobs.addDeviceVersion (h : TakesBlobs services commit changes) (path : Path) :
    TakesBlobs services commit (addDeviceVersion services commit changes path) := by
  rw [ResolutionTrees.addDeviceVersion]
  cases hread : readOptionalBlob services commit path with
  | none => exact { h with }
  | some content =>
    constructor
    · exact nodup_keys_set h.nodup path content
    intro e he
    rcases mem_set.mp he with rfl | ⟨-, hmem⟩
    · exact hread
    · exact h.content e hmem

lemma TakesBlobs.addDeviceVersionChanges (h : TakesBlobs services commit changes) (paths : List Path) :
    TakesBlobs services commit (addDeviceVersionChanges services commit paths changes) := by
  induction paths generalizing changes with
  | nil => exact h
  | cons path paths ih => exact ih (h.addDeviceVersion path)

lemma deletes_addDeviceVersionChanges (paths : List Path) :
    (addDeviceVersionChanges services commit paths changes).deletes
      = changes.deletes ++ paths.filter fun path => (readOptionalBlob services commit path).isNone := by
  induction paths generalizing changes with
  | nil => simp [addDeviceVersionChanges]
  | cons path paths ih =>
    rw [addDeviceVersionChanges, foldl_cons, ← addDeviceVersionChanges, ih, addDeviceVersion]
    cases hread : readOptionalBlob services commit path with
    | none | some => simp [hread]

lemma mem_keys_addDeviceVersionChanges (paths : List Path) :
    p ∈ (addDeviceVersionChanges services commit paths changes).writes.map Prod.fst ↔
      p ∈ changes.writes.map Prod.fst ∨ (p ∈ paths ∧ (readOptionalBlob services commit p).isSome) := by
  induction paths generalizing changes with
  | nil => simp [addDeviceVersionChanges]
  | cons path paths ih =>
    rw [addDeviceVersionChanges, foldl_cons, ← addDeviceVersionChanges, ih, addDeviceVersion]
    cases hread : readOptionalBlob services commit path with
    | none =>
      by_cases hp : p = path
      · simp [hp, hread]
      · simp [hp]
    | some content =>
      rw [keys_set, mem_add, mem_cons]
      by_cases hp : p = path
      · simp [hp, hread]
      · simp [hp]

/-- What the changes do to the work tree, one operation after the other. -/
def operations (changes : Changes) : List WorkOp :=
  changes.deletes.map .remove ++ changes.writes.map fun e => .write e.1

lemma createTreeWithFileContents_ok_iff {sourceTree : Tree} (h : TakesBlobs services commit changes) :
    createTreeWithFileContents rt sourceTree changes = .ok tree ↔
      ∃ w, applyOps rt (readOptionalBlob services commit) (checkout (smudged rt sourceTree))
        (operations changes) = .ok w ∧ stage rt sourceTree w (fun _ => true) = .ok tree := by
  have hrem : ∀ w, changes.deletes.foldlM (rm rt) w
      = applyOps rt (readOptionalBlob services commit) w (changes.deletes.map .remove) := by
    intro w
    rw [applyOps, foldlM_map]
    rfl
  have hwrite : ∀ (writes : List (Path × String)) w,
      (∀ e ∈ writes, readOptionalBlob services commit e.1 = some e.2) →
        writes.foldlM (fun w (path, content) => writeFile w path content) w
          = applyOps rt (readOptionalBlob services commit) w (writes.map fun e => .write e.1) := by
    intro writes
    induction writes with
    | nil => exact fun w _ => rfl
    | cons e writes ih =>
      intro w hcont
      have hhead := hcont e mem_cons_self
      rw [foldlM_cons, map_cons, applyOps, foldlM_cons, applyOp, hhead]
      apply bind_congr
      intro w'
      exact ih w' fun f hf => hcont f (mem_cons_of_mem _ hf)
  rw [createTreeWithFileContents, operations, applyOps, foldlM_append, ← applyOps, ← hrem]
  constructor
  · intro hok
    obtain ⟨w, hfirst, hok⟩ := bind_eq_ok.mp hok
    obtain ⟨w', hsnd, hok⟩ := bind_eq_ok.mp hok
    rw [hwrite _ _ h.content] at hsnd
    exact ⟨w', bind_eq_ok.mpr ⟨w, hfirst, hsnd⟩, hok⟩
  · rintro ⟨w', hok, hstg⟩
    obtain ⟨w, hfirst, hsnd⟩ := bind_eq_ok.mp hok
    refine bind_eq_ok.mpr ⟨w, hfirst, bind_eq_ok.mpr ⟨w', ?_, hstg⟩⟩
    rw [hwrite _ _ h.content]
    exact hsnd

/-- An operation is a removal after other removals, or a write after all of them. -/
lemma operations_split {done rest : List WorkOp} {op : WorkOp} (h : operations changes = done ++ op :: rest) :
    (∃ ds r ds', op = .remove r ∧ changes.deletes = ds ++ r :: ds' ∧ done = ds.map .remove) ∨
      ∃ es e es', op = .write e.1 ∧ changes.writes = es ++ e :: es' ∧
        done = changes.deletes.map .remove ++ es.map (fun e => .write e.1) ∧ rest = es'.map fun e => .write e.1 := by
  rcases append_eq_append_iff.mp h with ⟨mid, rfl, hwrs⟩ | ⟨mid, hdel, hrest⟩
  · right
    obtain ⟨es, tail, hes, rfl, htail⟩ := map_eq_append_iff.mp hwrs
    obtain ⟨e, es', rfl, rfl, rfl⟩ := map_eq_cons_iff.mp htail
    exact ⟨es, e, es', rfl, hes, rfl, rfl⟩
  obtain ⟨ds, tail, hds, rfl, rfl⟩ := map_eq_append_iff.mp hdel
  cases tail with
  | nil =>
    right
    obtain ⟨e, es', hes, rfl, rfl⟩ := map_eq_cons_iff.mp hrest.symm
    exact ⟨[], e, es', rfl, hes, by rw [hds]; simp, rfl⟩
  | cons r ds' =>
    left
    obtain ⟨rfl, -⟩ := List.cons.inj hrest
    exact ⟨ds, r, ds', rfl, hds, rfl⟩

/-- A removed path has lost its file at the end, and a written path has what was read for it. -/
lemma files_of_operations (h : TakesBlobs services commit changes)
    (hok : applyOps rt (readOptionalBlob services commit) (checkout tree) (operations changes) = .ok w) :
    (∀ e ∈ changes.writes, (w.files.get e.1).map (·.oid) = some e.2) ∧ ∀ x, x ∉ changes.writes.map Prod.fst →
        w.files.get x = if ∃ r ∈ changes.deletes, r ≤ x then none else tree.get x := by
  have hrem : ∀ x, removes (operations changes) x = true ↔ ∃ r ∈ changes.deletes, r ≤ x := by
    intro x
    rw [removes_iff]
    simp [operations]
  constructor
  · intro e he
    obtain ⟨es, es', hes⟩ := append_of_mem he
    have hlater : write e.1 ∉ es'.map fun e => .write e.1 := by
      intro hmem
      obtain ⟨f, hf, heq⟩ := mem_map.mp hmem
      have hnodup := h.nodup
      rw [hes, map_append, map_cons] at hnodup
      apply (nodup_cons.mp (nodup_append.mp hnodup).2.1).1
      exact mem_map.mpr ⟨f, hf, write.inj heq⟩
    have hops : operations changes
        = (changes.deletes.map .remove ++ es.map fun e => .write e.1) ++
          .write e.1 :: es'.map fun e => .write e.1 := by
      rw [operations, hes]
      simp
    rw [hops, applyOps, foldlM_append] at hok
    obtain ⟨w1, -, hok⟩ := bind_eq_ok.mp hok
    obtain ⟨w2, hstep, hrest⟩ := bind_eq_ok.mp hok
    rw [applyOp, h.content e he] at hstep
    have hnone : removes (es'.map fun e => write e.1) e.1 = false := by
      rw [← Bool.not_eq_true, removes_iff]
      simp
    rw [files_of_not_written hrest hlater, hnone, (writeFile_ok hstep).2.2.1, if_pos rfl]
    rfl
  · intro x hx
    have hnot : write x ∉ operations changes := by
      intro hmem
      apply hx
      simpa [operations] using hmem
    rw [files_of_not_written hok hnot]
    simp only [hrem]
    rfl

/-- No file is written at, above or below another, or at or below a removed path. -/
structure Apart (changes : Changes) : Prop where
  below : ∀ r ∈ changes.deletes, ∀ p ∈ changes.writes.map Prod.fst, ¬ r ≤ p
  antichain : ∀ p ∈ changes.writes.map Prod.fst, ∀ q ∈ changes.writes.map Prod.fst, ¬ p < q

lemma removal_succeeds_iff {read : Path → Option String} {ds : List Path}
    (hdone : applyOps rt read (checkout tree) (ds.map .remove) = .ok w) {r : Path} :
    (∃ w', applyOp rt read w (.remove r) = .ok w') ↔
      (rt.refusesBelowFile → ∀ a, a < r → tree.get a ≠ none → ∃ d ∈ ds, d ≤ a) := by
  have hfiles : ∀ a, w.files.get a = if ∃ d ∈ ds, d ≤ a then none else tree.get a := by
    intro a
    have hrem : removes (ds.map remove) a = true ↔ ∃ d ∈ ds, d ≤ a := by
      rw [removes_iff]
      simp
    rw [files_of_not_written hdone (by simp)]
    simp only [hrem]
    rfl
  have hbelow : belowFile w r = true ↔ ∃ a, a < r ∧ tree.get a ≠ none ∧ ¬ ∃ d ∈ ds, d ≤ a := by
    rw [belowFile_iff]
    constructor
    · rintro ⟨a, ha, hlt⟩
      rw [hfiles] at ha
      split at ha
      · exact absurd rfl ha
      · rename_i hkept
        exact ⟨a, hlt, ha, hkept⟩
    · rintro ⟨a, hlt, ha, hkept⟩
      refine ⟨a, ?_, hlt⟩
      rwa [hfiles, if_neg hkept]
  rw [applyOp, rm]
  split
  · rename_i href
    obtain ⟨hrt, hfile⟩ := Bool.and_eq_true_iff.mp href
    obtain ⟨a, hlt, ha, hkept⟩ := hbelow.mp hfile
    refine iff_of_false ?_ fun h => hkept (h hrt a hlt ha)
    rintro ⟨w', hw'⟩
    cases hw'
  · rename_i hacc
    refine iff_of_true ⟨_, rfl⟩ fun hrt a hlt ha => ?_
    by_contra hkept
    exact hacc (Bool.and_eq_true_iff.mpr ⟨hrt, hbelow.mpr ⟨a, hlt, ha, hkept⟩⟩)

lemma writeFile_succeeds_iff {oid : String} :
    (∃ w', writeFile w p oid = .ok w') ↔ (∀ q, q < p → w.files.get q = none) ∧ p ∉ w.dirs := by
  constructor
  · rintro ⟨w', hw'⟩
    exact ⟨(writeFile_ok hw').1, (writeFile_ok hw').2.1⟩
  rintro ⟨habove, hdir⟩
  have hbelow : ¬ belowFile w p = true := by
    rw [belowFile_iff]
    rintro ⟨q, hq, hlt⟩
    exact hq (habove q hlt)
  exact ⟨_, by rw [writeFile, dif_neg hbelow, dif_neg hdir]⟩

lemma write_succeeds_iff (h : TakesBlobs services commit changes) (hapart : Apart changes)
    {es es' : List (Path × String)} {e : Path × String} (hsplit : changes.writes = es ++ e :: es')
    (hdone : applyOps rt (readOptionalBlob services commit) (checkout tree)
      (changes.deletes.map .remove ++ es.map fun e => .write e.1) = .ok w) :
    (∃ w', applyOp rt (readOptionalBlob services commit) w (.write e.1) = .ok w') ↔
      ∀ x, tree.get x ≠ none → ¬ Nested x e.1 := by
  have he : e ∈ changes.writes := by simp [hsplit]
  have hkey : e.1 ∈ changes.writes.map fst := mem_map_of_mem he
  have hear : ∀ f ∈ es, f.1 ∈ changes.writes.map fst := by
    intro f hf
    apply mem_map_of_mem
    simp [hsplit, hf]
  have hkept : ∀ q, q ≤ e.1 →
      removes (changes.deletes.map remove ++ es.map fun e => .write e.1) q = false := by
    intro q hq
    rw [← Bool.not_eq_true, removes_iff]
    rintro ⟨r, hr, hle⟩
    have hr' : r ∈ changes.deletes := by simpa using hr
    exact hapart.below r hr' e.1 hkey (hle.trans hq)
  have habove : ∀ q, q < e.1 → w.files.get q = tree.get q := by
    intro q hlt
    have hnot : write q ∉ changes.deletes.map remove ++ es.map fun e => .write e.1 := by
      intro hmem
      have hq : q ∈ es.map fst := by simpa using hmem
      obtain ⟨f, hf, rfl⟩ := mem_map.mp hq
      exact hapart.antichain f.1 (hear f hf) e.1 hkey hlt
    rw [files_of_not_written hdone hnot, hkept q hlt.le]
    rfl
  have hdirs : e.1 ∈ w.dirs ↔ ∃ f, tree.get f ≠ none ∧ e.1 < f := by
    have hnot : ∀ p, write p ∈ changes.deletes.map remove ++ es.map (fun e => .write e.1) →
        ¬ e.1 < p := by
      intro p hmem
      have hp : p ∈ es.map fst := by simpa using hmem
      obtain ⟨f, hf, rfl⟩ := mem_map.mp hp
      exact hapart.antichain e.1 hkey f.1 (hear f hf)
    rw [mem_dirs_of_not_written hdone hnot, hkept e.1 le_rfl]
    simp only [and_true]
    exact mem_directoryPrefixes_of_get
  rw [applyOp, h.content e he]
  rw [writeFile_succeeds_iff, hdirs]
  constructor
  · rintro ⟨hnone, hdir⟩ x hx (hlt | hlt)
    · exact hx ((habove x hlt).symm.trans (hnone x hlt))
    · exact hdir ⟨x, hx, hlt⟩
  intro hfree
  constructor
  · intro q hlt
    rw [habove q hlt]
    by_contra hq
    exact hfree q hq (.inl hlt)
  · rintro ⟨f, hf, hlt⟩
    exact hfree f hf (.inr hlt)

/-- The operations can be carried out just when each removal is accepted and no file of the tree stands above
or below a written one. -/
lemma operations_succeed_iff (h : TakesBlobs services commit changes) (hapart : Apart changes) :
    (∃ w, applyOps rt (readOptionalBlob services commit) (checkout tree) (operations changes) = .ok w) ↔
      (∀ p ∈ changes.writes.map Prod.fst, ∀ x, tree.get x ≠ none → ¬ Nested x p) ∧
      (rt.refusesBelowFile → ∀ ds r ds', changes.deletes = ds ++ r :: ds' →
        ∀ a, a < r → tree.get a ≠ none → ∃ d ∈ ds, d ≤ a) := by
  rw [applyOps_ok_iff]
  constructor
  · intro hsteps
    have hleads : ∀ done op rest, operations changes = done ++ op :: rest →
        ∃ w, applyOps rt (readOptionalBlob services commit) (checkout tree) done = .ok w := by
      intro done op rest hops
      refine applyOps_ok_iff.mpr fun first o last hdone => hsteps first o (last ++ op :: rest) ?_
      rw [hops, hdone]
      simp
    constructor
    · intro p hp
      obtain ⟨e, he, rfl⟩ := mem_map.mp hp
      obtain ⟨es, es', hes⟩ := append_of_mem he
      have hops : operations changes = (changes.deletes.map .remove ++ es.map fun e => .write e.1) ++
          .write e.1 :: es'.map fun e => .write e.1 := by
        rw [operations, hes]
        simp
      obtain ⟨w, hw⟩ := hleads _ _ _ hops
      exact (write_succeeds_iff h hapart hes hw).mp (hsteps _ _ _ hops w hw)
    · intro hrt ds r ds' hds
      have hops : operations changes = ds.map .remove ++ .remove r :: (ds'.map .remove ++
          changes.writes.map fun e => .write e.1) := by
        rw [operations, hds]
        simp
      obtain ⟨w, hw⟩ := hleads _ _ _ hops
      exact (removal_succeeds_iff hw).mp (hsteps _ _ _ hops w hw) hrt
  · rintro ⟨hwrite, hrem⟩ done op rest hops w hw
    rcases operations_split hops with ⟨ds, r, ds', rfl, hds, rfl⟩ | ⟨es, e, es', rfl, hes, rfl, -⟩
    · exact (removal_succeeds_iff hw).mpr fun hrt => hrem hrt ds r ds' hds
    apply (write_succeeds_iff h hapart hes hw).mpr
    apply hwrite
    simp [hes]

end Run

/-- The tree has the device's version of every affected file, and the source's files beside them. -/
structure UsesDevice (source device : Tree) (paths : List Path) (tree : Tree) : Prop where
  affected : ∀ p ∈ paths, (tree.get p).map (·.oid) = blobOid device p
  rest : ∀ x, (∀ p ∈ paths, ¬ ForestEdits.Overlap p x) → tree.get x = source.get x

/-- The contents of the work tree once the changes are made: the device's files, and what they leave of the
source as it is checked out. -/
def resolvedContents (rt : Runtime) (source device : Tree) (paths : List Path) (x : Path) : Option String :=
  if x ∈ paths then blobOid device x
  else if ∃ r ∈ paths, blobOid device r = none ∧ r ≤ x then none
  else (source.get x).map fun entry => rt.smudge source x entry.oid

/-- What `git add` makes of a file of that work tree. -/
def resolvedBlob (rt : Runtime) (source device : Tree) (paths : List Path) : Path → String → Option String :=
  rt.clean source (resolvedContents rt source device paths)

/-- Nothing stands in the way of taking the device's version. -/
structure Clear (services : Services) (source : Tree) (deviceCommit : String) (paths : List Path) : Prop where
  /-- No affected path is a directory of the device. -/
  noDirectory : ∀ p ∈ paths, isDirectory (services.repo.tree deviceCommit) p = false
  /-- `git show` can print every affected file of the device. -/
  fits : ∀ p ∈ paths, ∀ oid, blobOid (services.repo.tree deviceCommit) p = some oid →
    services.repo.blobSize oid ≤ maxBuffer
  /-- No file of the source stands above or below an affected file of the device. -/
  free : ∀ p ∈ paths, blobOid (services.repo.tree deviceCommit) p ≠ none → ∀ x, source.get x ≠ none → ¬ Nested x p
  /-- A file of the source above a removed path goes with an earlier removal, where `rm` minds. -/
  removable : services.runtime.refusesBelowFile = true → ∀ done r rest, paths = done ++ r :: rest →
    blobOid (services.repo.tree deviceCommit) r = none → ∀ a, a < r → source.get a ≠ none →
      ∃ d ∈ done, blobOid (services.repo.tree deviceCommit) d = none ∧ d ≤ a
  /-- `git add` can convert every file that is left. -/
  converted : ∀ x bytes, resolvedContents services.runtime source (services.repo.tree deviceCommit) paths x
      = some bytes →
    (resolvedBlob services.runtime source (services.repo.tree deviceCommit) paths x bytes).isSome
  /-- It keeps the device's files as they are. -/
  asDevice : ∀ p ∈ paths, ∀ oid, blobOid (services.repo.tree deviceCommit) p = some oid →
    resolvedBlob services.runtime source (services.repo.tree deviceCommit) paths p oid = some oid
  /-- It undoes what the checkout converted in the files of the source beside them. -/
  untouched : ∀ x e, source.get x = some e → (∀ p ∈ paths, ¬ ForestEdits.Overlap p x) →
    resolvedBlob services.runtime source (services.repo.tree deviceCommit) paths x
      (services.runtime.smudge source x e.oid) = some e.oid

section Device

variable {services : Services} {source : Tree} {commit : String} {paths : List Path}

/-- `git show` of a directory prints its listing. -/
lemma readOptionalBlob_directory (h : isDirectory (services.repo.tree commit) p) :
    readOptionalBlob services commit p = some (services.listing commit p) := by
  obtain ⟨f, hf, hlt⟩ := isDirectory_iff.mp h
  have hnone := FileTree.get_eq_none_of_nested hf (.inr hlt)
  rw [readOptionalBlob, readBlobAtPath, hnone]
  simp [h]

lemma readOptionalBlob_file (h : isDirectory (services.repo.tree commit) p = false) :
    readOptionalBlob services commit p
      = (blobOid (services.repo.tree commit) p).filter fun oid => services.repo.blobSize oid ≤ maxBuffer := by
  rw [readOptionalBlob, readBlobAtPath, blobOid]
  cases (services.repo.tree commit).get p with
  | none => simp [h]
  | some entry =>
    by_cases hblob : entry.mode.objectType = .blob
    · by_cases hsize : services.repo.blobSize entry.oid ≤ maxBuffer
      · simp [hblob, hsize, Option.filter]
      · simp [hblob, hsize, Option.filter]
    · simp [hblob]

lemma get_ne_none_of_blobOid (h : blobOid tree p ≠ none) : tree.get p ≠ none := by
  intro hnone
  rw [blobOid, hnone] at h
  exact h rfl

/-- The paths of the changes, when every affected path reads as the device's file. -/
lemma changes_of_reads : TakesBlobs services commit (addDeviceVersionChanges services commit paths {}) ∧
      (addDeviceVersionChanges services commit paths {}).deletes
        = paths.filter (fun p => (readOptionalBlob services commit p).isNone) ∧
      ∀ p, p ∈ (addDeviceVersionChanges services commit paths {}).writes.map Prod.fst ↔
        p ∈ paths ∧ (readOptionalBlob services commit p).isSome := by
  have hnoth : TakesBlobs services commit {} := ⟨nodup_nil, fun e he => absurd he not_mem_nil⟩
  refine ⟨hnoth.addDeviceVersionChanges paths, ?_, fun p => ?_⟩
  · rw [deletes_addDeviceVersionChanges, nil_append]
  · rw [mem_keys_addDeviceVersionChanges]
    simp

/-- What holds at each place of a filtered list holds at the places of the list that pass. -/
lemma forall_split_filter {α : Type} {keep : α → Bool} {as : List α} {P : List α → α → Prop} :
    (∀ ds r ds', as.filter keep = ds ++ r :: ds' → P ds r) ↔
      ∀ done r rest, as = done ++ r :: rest → keep r → P (done.filter keep) r := by
  constructor
  · rintro h done r rest rfl hkeep
    apply h (done.filter keep) r (rest.filter keep)
    rw [filter_append, filter_cons_of_pos hkeep]
  intro h ds r ds' hsplit
  obtain ⟨done, tail, rfl, rfl, htail⟩ := filter_eq_append_iff.mp hsplit
  obtain ⟨skipped, rest, rfl, hskip, hkeep, rfl⟩ := filter_eq_cons_iff.mp htail
  have hnone : skipped.filter keep = [] := filter_eq_nil_iff.mpr hskip
  have hhere := h (done ++ skipped) r rest (by simp) hkeep
  rwa [filter_append, hnone, append_nil] at hhere

/-- With no directory of the device among the affected paths, the changes can be made just when neither a
file of the source nor a refused removal is in their way. -/
lemma applyOps_ok_iff_clear (hdirectory : ∀ p ∈ paths, isDirectory (services.repo.tree commit) p = false)
    (hread : ∀ p ∈ paths, readOptionalBlob services commit p = blobOid (services.repo.tree commit) p) :
    (∃ w, applyOps services.runtime (readOptionalBlob services commit) (checkout source)
        (operations (addDeviceVersionChanges services commit paths {})) = .ok w) ↔
      (∀ p ∈ paths, blobOid (services.repo.tree commit) p ≠ none → ∀ x, source.get x ≠ none → ¬ Nested x p) ∧
      (services.runtime.refusesBelowFile → ∀ done r rest, paths = done ++ r :: rest →
        blobOid (services.repo.tree commit) r = none → ∀ a, a < r → source.get a ≠ none →
          ∃ d ∈ done, blobOid (services.repo.tree commit) d = none ∧ d ≤ a) := by
  obtain ⟨htakes, hdel, hkeys⟩ := @changes_of_reads services commit paths
  set changes := addDeviceVersionChanges services commit paths {} with hchan
  set device := services.repo.tree commit with hdev
  have hrem : ∀ r, r ∈ changes.deletes ↔ r ∈ paths ∧ blobOid device r = none := by
    intro r
    rw [hdel, mem_filter, Option.isNone_iff_eq_none]
    exact and_congr_right fun hr => by rw [hread r hr]
  have hwr : ∀ p, p ∈ changes.writes.map fst ↔ p ∈ paths ∧ blobOid device p ≠ none := by
    intro p
    rw [hkeys, Option.isSome_iff_ne_none]
    exact and_congr_right fun hp => by rw [hread p hp]
  -- a removed path is no directory of the device, so no written file lies below it
  have hapart : ∀ r ∈ changes.deletes, ∀ p ∈ changes.writes.map fst, ¬ r ≤ p := by
    intro r hr p hp hle
    obtain ⟨hrpath, hrnone⟩ := (hrem r).mp hr
    obtain ⟨-, hpsome⟩ := (hwr p).mp hp
    rcases hle.lt_or_eq with hlt | rfl
    · have hdir : isDirectory device r = true := isDirectory_iff.mpr ⟨p, get_ne_none_of_blobOid hpsome, hlt⟩
      rw [hdirectory r hrpath] at hdir
      cases hdir
    · exact hpsome hrnone
  have hant : ∀ p ∈ changes.writes.map fst, ∀ q ∈ changes.writes.map fst, ¬ p < q := by
    intro p hp q hq
    exact FileTree.not_lt_of_get (get_ne_none_of_blobOid ((hwr p).mp hp).2)
      (get_ne_none_of_blobOid ((hwr q).mp hq).2)
  have hdone : ∀ done r rest, paths = done ++ r :: rest → ∀ a,
      (∃ d ∈ done.filter (fun p => (readOptionalBlob services commit p).isNone), d ≤ a) ↔
        ∃ d ∈ done, blobOid device d = none ∧ d ≤ a := by
    intro done r rest hpaths a
    constructor
    · rintro ⟨d, hd, hle⟩
      obtain ⟨hmem, hnone⟩ := mem_filter.mp hd
      have hd' : d ∈ paths := by simp [hpaths, hmem]
      exact ⟨d, hmem, (hread d hd').symm.trans (Option.isNone_iff_eq_none.mp hnone), hle⟩
    · rintro ⟨d, hmem, hnone, hle⟩
      have hd' : d ∈ paths := by simp [hpaths, hmem]
      refine ⟨d, mem_filter.mpr ⟨hmem, ?_⟩, hle⟩
      exact Option.isNone_iff_eq_none.mpr ((hread d hd').trans hnone)
  rw [operations_succeed_iff htakes ⟨hapart, hant⟩, hdel, forall_split_filter]
  apply and_congr
  · simp [hwr]
  refine forall_congr' fun _ => forall₄_congr fun done r rest hpaths => ?_
  have hr : r ∈ paths := by simp [hpaths]
  rw [hread r hr, Option.isNone_iff_eq_none]
  refine forall_congr' fun _ => forall₃_congr fun a _ _ => ?_
  exact hdone done r rest hpaths a

/-- An affected path ends up with what was read for it. -/
lemma contents_of_paths {rt : Runtime} (hok : applyOps rt (readOptionalBlob services commit) (checkout source)
      (operations (addDeviceVersionChanges services commit paths {})) = .ok w) :
    ∀ p ∈ paths, w.contents p = readOptionalBlob services commit p := by
  obtain ⟨htakes, hdel, hkeys⟩ := @changes_of_reads services commit paths
  obtain ⟨hwr, hkept⟩ := files_of_operations htakes hok
  intro p hp
  cases hcont : readOptionalBlob services commit p with
  | none =>
    have hnot : p ∉ (addDeviceVersionChanges services commit paths {}).writes.map fst := by
      rw [hkeys, hcont]
      simp
    have hrem : ∃ r ∈ (addDeviceVersionChanges services commit paths {}).deletes, r ≤ p := by
      refine ⟨p, ?_, le_rfl⟩
      rw [hdel]
      exact mem_filter.mpr ⟨hp, by simp [hcont]⟩
    rw [WorkTree.contents, hkept p hnot, if_pos hrem]
    rfl
  | some content =>
    have hkey : p ∈ (addDeviceVersionChanges services commit paths {}).writes.map fst := by
      rw [hkeys, hcont]
      exact ⟨hp, rfl⟩
    obtain ⟨e, he, rfl⟩ := mem_map.mp hkey
    rw [WorkTree.contents, hwr e he, ← htakes.content e he, hcont]

/-- What the work tree has in the end, when every affected path reads as the device's file. -/
lemma contents_of_reads {rt : Runtime}
    (hread : ∀ p ∈ paths, readOptionalBlob services commit p = blobOid (services.repo.tree commit) p)
    (hok : applyOps rt (readOptionalBlob services commit) (checkout (smudged rt source))
      (operations (addDeviceVersionChanges services commit paths {})) = .ok w) :
    w.contents = resolvedContents rt source (services.repo.tree commit) paths ∧
      ∀ x, (∀ p ∈ paths, ¬ ForestEdits.Overlap p x) → w.files.get x = (smudged rt source).get x := by
  obtain ⟨-, hdel, hkeys⟩ := @changes_of_reads services commit paths
  have hreads := contents_of_paths hok
  obtain ⟨-, hkept⟩ := files_of_operations (@changes_of_reads services commit paths).1 hok
  have hrem : ∀ x, (∃ r ∈ (addDeviceVersionChanges services commit paths {}).deletes, r ≤ x) ↔
      ∃ r ∈ paths, blobOid (services.repo.tree commit) r = none ∧ r ≤ x := by
    intro x
    refine exists_congr fun r => ?_
    rw [hdel, mem_filter, Option.isNone_iff_eq_none, and_assoc]
    exact and_congr_right fun hr => by rw [hread r hr]
  have hnot : ∀ x, x ∉ paths → x ∉ (addDeviceVersionChanges services commit paths {}).writes.map fst :=
    fun x hx hmem => hx ((hkeys x).mp hmem).1
  constructor
  · funext x
    unfold resolvedContents
    split
    · rename_i hx
      exact (hreads x hx).trans (hread x hx)
    · rename_i hx
      rw [WorkTree.contents, hkept x (hnot x hx)]
      simp only [hrem]
      split
      · rfl
      · rw [smudged_get, Option.map_map]
        rfl
  · intro x hx
    have hnone : ¬ ∃ r ∈ paths, blobOid (services.repo.tree commit) r = none ∧ r ≤ x := by
      rintro ⟨r, hr, -, hle⟩
      exact hx r hr (.inl hle)
    rw [hkept x (hnot x fun hmem => hx x hmem (.inl le_rfl)), if_neg (mt (hrem x).mp hnone)]

/-- Where the tree is the device's at the affected paths, each of them was read as the device's file. -/
lemma reads_of_affected {rt : Runtime}
    (hok : applyOps rt (readOptionalBlob services commit) (checkout (smudged rt source))
      (operations (addDeviceVersionChanges services commit paths {})) = .ok w)
    (hstg : stage rt source w (fun _ => true) = .ok tree)
    (haff : ∀ p ∈ paths, (tree.get p).map (·.oid) = blobOid (services.repo.tree commit) p) :
    ∀ p ∈ paths, readOptionalBlob services commit p = blobOid (services.repo.tree commit) p := by
  intro p hp
  have hfile := contents_of_paths hok p hp
  have hget := stage_get hstg p
  have hpres : readOptionalBlob services commit p = none ↔ blobOid (services.repo.tree commit) p = none := by
    rw [← hfile, ← haff p hp, WorkTree.contents, Option.map_eq_none_iff, Option.map_eq_none_iff, hget, if_pos rfl]
    cases hf : w.files.get p with
    | none => simp
    | some f =>
      obtain ⟨oid, hoid⟩ :=
        Option.isSome_iff_exists.mp (stage_succeeds_iff.mp ⟨tree, hstg⟩ p f rfl hf)
      simp [hoid]
  cases hdir : isDirectory (services.repo.tree commit) p with
  | true =>
    obtain ⟨f, hf, hlt⟩ := isDirectory_iff.mp hdir
    rw [readOptionalBlob_directory hdir, blobOid, FileTree.get_eq_none_of_nested hf (.inr hlt)] at hpres
    cases hpres.mpr rfl
  | false =>
    rw [readOptionalBlob_file hdir] at hpres ⊢
    cases hoid : blobOid (services.repo.tree commit) p with
    | none => rfl
    | some oid =>
      rw [hoid] at hpres
      by_cases hsize : services.repo.blobSize oid ≤ maxBuffer
      · simp [Option.filter, hsize]
      · simp [Option.filter, hsize] at hpres

/-- Every affected path reads as the device's file just when none is a directory and every file can be printed. -/
lemma reads_iff : (∀ p ∈ paths, readOptionalBlob services commit p = blobOid (services.repo.tree commit) p) ↔
      (∀ p ∈ paths, isDirectory (services.repo.tree commit) p = false) ∧
      ∀ p ∈ paths, ∀ oid, blobOid (services.repo.tree commit) p = some oid →
        services.repo.blobSize oid ≤ maxBuffer := by
  constructor
  · intro h
    have hdirectory : ∀ p ∈ paths, isDirectory (services.repo.tree commit) p = false := by
      intro p hp
      by_contra hdir
      rw [Bool.not_eq_false] at hdir
      obtain ⟨f, hf, hlt⟩ := isDirectory_iff.mp hdir
      have hread := h p hp
      rw [readOptionalBlob_directory hdir, blobOid, FileTree.get_eq_none_of_nested hf (.inr hlt)] at hread
      cases hread
    refine ⟨hdirectory, fun p hp oid hoid => ?_⟩
    have hread := h p hp
    rw [readOptionalBlob_file (hdirectory p hp), hoid] at hread
    simpa [Option.filter] using hread
  · rintro ⟨hdirectory, hfits⟩ p hp
    rw [readOptionalBlob_file (hdirectory p hp)]
    cases hoid : blobOid (services.repo.tree commit) p with
    | none => rfl
    | some oid => simp [Option.filter, hfits p hp oid hoid]

end Device

/-- Resolving a conflict with affected files for the device returns the device's version of each of them, and
leaves the rest of the source tree alone, just when nothing stands in the way. -/
theorem useDevice_exact_iff (services : Services) (conflict : ConflictRecord)
    (edited : Tree → List Path → Except ResolutionFailure Changes) {source : Tree} {paths : List Path}
    (hsource : resolutionSourceTree services conflict = .ok source)
    (hpaths : conflictFileAffectedPaths services conflict = .ok paths) (hne : paths ≠ []) :
    (∃ tree, buildResolutionArtifacts services conflict .useDevice edited = .ok tree ∧
        UsesDevice source (services.repo.tree conflict.deviceCommit) paths tree) ↔
      Clear services source conflict.deviceCommit paths := by
  obtain ⟨htakes, -, -⟩ := @changes_of_reads services conflict.deviceCommit paths
  set device := services.repo.tree conflict.deviceCommit with hdev
  set rt := services.runtime with hrt
  have hbuild : ∀ tree, buildResolutionArtifacts services conflict .useDevice edited = .ok tree ↔
      ∃ w, applyOps rt (readOptionalBlob services conflict.deviceCommit) (checkout (smudged rt source))
        (operations (addDeviceVersionChanges services conflict.deviceCommit paths {})) = .ok w ∧
          stage rt source w (fun _ => true) = .ok tree := by
    intro tree
    rw [← createTreeWithFileContents_ok_iff htakes, buildResolutionArtifacts, hsource, hpaths]
    simp only [bind, Except.bind, if_neg hne, ← hrt]
    cases createTreeWithFileContents rt source
        (addDeviceVersionChanges services conflict.deviceCommit paths {}) with
    | error e => simp [Except.mapError]
    | ok made => simp [Except.mapError]
  constructor
  · rintro ⟨tree, htree, huses⟩
    obtain ⟨w, hok, hstg⟩ := (hbuild tree).mp htree
    have hread := reads_of_affected hok hstg huses.affected
    obtain ⟨hdir, hfits⟩ := reads_iff.mp hread
    obtain ⟨hfree, hrem⟩ := (applyOps_ok_iff_clear hdir hread).mp ⟨w, hok⟩
    simp only [ne_eq, smudged_eq_none] at hfree hrem
    obtain ⟨hcont, hkept⟩ := contents_of_reads hread hok
    refine ⟨hdir, hfits, hfree, hrem, ?_, ?_, ?_⟩
    · intro x bytes hbytes
      rw [← hcont] at hbytes
      obtain ⟨f, hf, rfl⟩ := Option.map_eq_some_iff.mp hbytes
      rw [resolvedBlob, ← hcont]
      exact stage_succeeds_iff.mp ⟨tree, hstg⟩ x f rfl hf
    · intro p hp oid hoid
      have hfile : w.contents p = some oid := (congrFun hcont p).trans ((if_pos hp).trans hoid)
      obtain ⟨f, hf, rfl⟩ := Option.map_eq_some_iff.mp hfile
      have haff := huses.affected p hp
      rw [stage_get hstg, if_pos rfl, hf, Option.bind_some, Option.map_map, hoid] at haff
      rw [resolvedBlob, ← hcont]
      simpa using haff
    · intro x e he hx
      have hrest := huses.rest x hx
      rw [stage_get hstg, if_pos rfl, hkept x hx, smudged_get, he] at hrest
      obtain ⟨oid, hoid, heq⟩ := Option.map_eq_some_iff.mp hrest
      rw [resolvedBlob, ← hcont]
      exact hoid.trans (congrArg (some ·.oid) heq)
  · rintro ⟨hdir, hfits, hfree, hrem, hconv, has, hunt⟩
    have hread := reads_iff.mpr ⟨hdir, hfits⟩
    obtain ⟨w, hok⟩ : ∃ w, applyOps services.runtime (readOptionalBlob services conflict.deviceCommit)
        (checkout (smudged rt source)) (operations
          (addDeviceVersionChanges services conflict.deviceCommit paths {})) = .ok w :=
      (applyOps_ok_iff_clear hdir hread).mpr ⟨by simpa using hfree, by simpa using hrem⟩
    obtain ⟨hcont, hkept⟩ := contents_of_reads hread hok
    unfold resolvedBlob at hconv has hunt
    rw [← hcont] at hconv has hunt
    obtain ⟨tree, hstg⟩ := stage_succeeds_iff.mpr fun x f (_ : true = true) hf =>
      hconv x f.oid (WorkTree.contents_of_get hf)
    refine ⟨tree, (hbuild tree).mpr ⟨w, hok, hstg⟩, fun p hp => ?_, fun x hx => ?_⟩
    · have hfile : w.contents p = blobOid device p := (congrFun hcont p).trans (if_pos hp)
      rw [stage_get hstg, if_pos rfl, ← hfile]
      cases hf : w.files.get p with
      | none => simp [WorkTree.contents, hf]
      | some f =>
        have hoid := has p hp f.oid (hfile.symm.trans (WorkTree.contents_of_get hf))
        simp [WorkTree.contents, hf, hoid]
    · rw [stage_get hstg, if_pos rfl, hkept x hx, smudged_get]
      cases he : source.get x with
      | none => rfl
      | some e => simp [hunt x e he hx]

lemma nodup_note (path oid : String) :
    ([(⟨path⟩, ⟨.regular, oid⟩)].map (Prod.fst : Path × TreeEntry → Path)).Nodup :=
  List.nodup_singleton _

lemma antichain_note (path oid : String) :
    ∀ a ∈ [(⟨path⟩, ⟨.regular, oid⟩)].map (Prod.fst : Path × TreeEntry → Path),
      ∀ b ∈ [(⟨path⟩, ⟨.regular, oid⟩)].map (Prod.fst : Path × TreeEntry → Path), ¬ a < b := by
  simp

def note (path oid : String) : Tree where
  entries := [(⟨path⟩, ⟨.regular, oid⟩)]
  nodup := nodup_note path oid
  antichain := antichain_note path oid

/-- Main edited the note `n`; the device edited it, or replaced it by the folder `n`. -/
def servicesWith (device : Tree) : Services where
  repo := DisjointMerge.forkedRepository (note "n" "01") (note "n" "02") device
  runtime := ⟨false, fun _ _ => false, fun _ _ oid => oid, fun _ _ _ oid => some oid⟩
  listing _ _ := "listing"

def noteConflict (affectedPaths : List Path) : ConflictRecord where
  conflictId := "conflict"
  vaultId := "vault"
  deviceId := "device"
  status := .open
  baseCommit := "base"
  currentMain := "main"
  deviceCommit := "device"
  expectedMain := "main"
  affectedPaths := affectedPaths
  conflictKind := .content
  renamePairs := []
  reason := .overlappingPaths
  directoryContext := none

theorem useDevice_exact_iff_edited :
    (∃ tree, buildResolutionArtifacts (servicesWith (note "n" "03")) (noteConflict [⟨"n"⟩]) .useDevice
        (fun _ _ => .error .git) = .ok tree ∧ UsesDevice (note "n" "02") (note "n" "03") [⟨"n"⟩] tree) ↔
      Clear (servicesWith (note "n" "03")) (note "n" "02") "device" [⟨"n"⟩] :=
  useDevice_exact_iff (servicesWith (note "n" "03")) (noteConflict [⟨"n"⟩]) _ (by rfl) (by rfl) (by simp)

/-- The listing of the device's folder is written as a file, below which the folder's file cannot be. -/
theorem useDevice_folder_fails :
    ¬ ∀ (services : Services) (conflict : ConflictRecord)
      (edited : Tree → List Path → Except ResolutionFailure Changes)
      (source : Tree) (paths : List Path), resolutionSourceTree services conflict = .ok source →
      conflictFileAffectedPaths services conflict = .ok paths → paths ≠ [] →
      ∃ tree, buildResolutionArtifacts services conflict .useDevice edited = .ok tree ∧
        UsesDevice source (services.repo.tree conflict.deviceCommit) paths tree := by
  intro hclaim
  obtain ⟨tree, htree, -⟩ := hclaim (servicesWith (note "n/x" "03")) (noteConflict [⟨"n"⟩, ⟨"n/x"⟩])
    (fun _ _ => .error .git) (note "n" "02") [⟨"n"⟩, ⟨"n/x"⟩] (by rfl) (by rfl) (by simp)
  have hfails : buildResolutionArtifacts (servicesWith (note "n/x" "03")) (noteConflict [⟨"n"⟩, ⟨"n/x"⟩]) .useDevice
      (fun _ _ => .error .git) = .error (.fileSystem .notDirectory) := by rfl
  cases htree

end ResolutionTrees
