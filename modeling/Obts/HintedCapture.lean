import Obts.MaterialisedScan

/-!
# Captures of hinted paths

Between two inventories the client captures only the paths that the watcher has named. It reads these
paths and rewrites the folders above them, and leaves to the inventory all that the hints alone cannot
show. The hinted capture judges a path by its own text, and the inventory by the folders on the way to
it: the two agree when the inventory comes to every file that the client syncs.
-/
namespace HintedCapture

open InsertionOrder SlashPath FileTrees GitTrees ClientPaths VaultInventory LocalCapture List Option FileTree
open MaterialisedScan (materialise oneFile tmpTree)

/-- What stands at a path, whether every name above it is a folder, and whether a sibling differs from
it only by case. -/
structure Located where
  ancestorsAreTrees : Bool
  entry : Option TreeObject
  caseVariant : Bool

def readEntry (toLowerCase : List Char → List Char) : List (Name × TreeObject) → List Name → Located
  | _, [] => { ancestorsAreTrees := false, entry := none, caseVariant := false }
  | children, [name] =>
    { ancestorsAreTrees := true
      entry := valueAt children name
      caseVariant := children.any fun c => c.1 ≠ name && toLowerCase c.1 = toLowerCase name }
  | children, name :: names =>
    match valueAt children name with
    | some (.node below) => readEntry toLowerCase below names
    | _ => { ancestorsAreTrees := false, entry := none, caseVariant := false }

variable (toLowerCase : List Char → List Char)

def readTreePathEntry (tree : TreeObject) (p : Path) : Located :=
  match tree with
  | .leaf _ => { ancestorsAreTrees := false, entry := none, caseVariant := false }
  | .node children => readEntry toLowerCase children (segments p)

def Located.isTree (located : Located) : Bool :=
  match located.entry with
  | some (.node _) => true
  | _ => false

/-- The entry of a file. -/
def Located.file (located : Located) : Option TreeEntry :=
  match located.entry with
  | some (.leaf entry) => some entry
  | _ => none

def readTreePathOid (tree : TreeObject) (p : Path) : Option String :=
  ((readTreePathEntry toLowerCase tree p).file.filter fun entry => entry.mode.objectType = .blob).map (·.oid)

/-- Paths that an apply has touched, and the commit that they were written over. -/
structure Horizon where
  touched : List Path
  base : String

structure StaleProvenance where
  obligations : List (Path × String)
  renamePairs : List (Path × Path)
  heldProposals : List String
  queuedReplacement : Option String
  /-- The outcome of a recorded intent, if there is an intent. -/
  intent : Option (Option String)
  horizons : List Horizon

/-- Nothing stale is waiting: a settled intent does not count. -/
def StaleProvenance.settled (saved : StaleProvenance) : Bool :=
  saved.obligations = [] && saved.renamePairs = [] && saved.heldProposals = [] && saved.queuedReplacement.isNone &&
    (match saved.intent with
      | none => true
      | some outcome => outcome = some "merged" || outcome = some "noop")

structure CaptureState where
  (inventoryRequestedSeq inventoryCompletedSeq : Nat)
  changedPaths : List Path
  (localHead localMain : Option String)
  initialImportConfirmed : Bool
  serverDeviceRef : Option String
  /-- What `refs/heads/local` resolves to. -/
  localRef : Option String
  scanRequired : Bool
  /-- Whether an apply journal is there, or cannot be read. -/
  applyJournal : Bool
  saved : StaleProvenance
  (pendingIntents explicitEmptyDirs : List Path)

def hintedCaptureMaxPaths : Nat := 256

def CaptureState.fullInventoryCurrent (state : CaptureState) : Bool :=
  state.inventoryCompletedSeq ≥ state.inventoryRequestedSeq

inductive Stat where
  | file
  | folder

def stat (disk : Disk) (p : Path) : Option Stat :=
  if (disk.files.get p).isSome then some .file
  else if p ∈ disk.folders then some .folder else none

inductive HintCheck where
  | declined
  | skipped
  | captured (base : Option TreeEntry)

section Capture
variable (u : SegmentNormalization) (rules : IgnoreRules) (hashes : Hashes)
  (toLowerCase : List Char → List Char) (disk : Disk) (commits : String → Option TreeObject)
  (state : CaptureState)

def hintsOf (flushedPaths : List Path) : List Path :=
  sort (ofList (state.changedPaths ++ flushedPaths.map (normalizePath u)))

/-- Whether a hint is captured, skipped, or left to the inventory. None stands for an error. -/
def checkHint (base : TreeObject) (policy : Policy) (hint : Path) : Option HintCheck :=
  if !isSyncableVaultPath u hint || state.explicitEmptyDirs.contains hint ||
      (directoryPrefixes hint).any fun dir =>
        !isSyncableVaultPath u dir || state.explicitEmptyDirs.contains dir then
    some .declined
  else
    let located := readTreePathEntry toLowerCase base hint
    if !located.ancestorsAreTrees || located.caseVariant || located.isTree then some .declined
    else do
      let ignored ← policy hint false
      if ignored then return if located.entry.isSome then .declined else .skipped
      else
        match stat disk hint, located.entry with
        | some .file, _ => return .captured located.file
        | none, none =>
          -- the watcher's echo of a file that an apply has deleted
          match state.saved.horizons.find? fun horizon => horizon.touched.contains hint with
          | none => return .declined
          | some horizon => do
            let tree ← commits horizon.base
            return if (readTreePathOid toLowerCase tree hint).isSome then .skipped else .declined
        | _, _ => return .declined

/-- The captured hints with what the base has at them, or none when one of the hints is left to the
inventory. -/
def checkHints (base : TreeObject) (policy : Policy) :
    List Path → Option (Option (List (Path × Option TreeEntry)))
  | [] => some (some [])
  | hint :: hints => do
    match ← checkHint u toLowerCase disk commits state base policy hint with
    | .declined => return none
    | .skipped => checkHints base policy hints
    | .captured entry =>
      let found ← checkHints base policy hints
      return found.map ((hint, entry) :: ·)

/-- What is captured once every hint is one that the capture can see. -/
def captureFound (base : TreeObject) (rootPolicy : RootPolicy)
    (found : List (Path × Option TreeEntry)) : Option (Option (Option TreeObject)) :=
  if found = [] then some (some none)
  else do
    let baseEntries := found.filterMap fun f => f.2.map fun entry => (f.1, entry)
    let files := found.map Prod.fst
    let snapshot ← captureLocalFileSnapshot u rules hashes disk (fun _ => none) files baseEntries
      rootPolicy false files
    let current ← readRootIgnorePolicy u rules hashes disk
    if current.oid ≠ rootPolicy.oid then none
    else if snapshot.entries.any fun e =>
        some e.2.oid ≠ (valueAt baseEntries e.1).map (·.oid) &&
          state.saved.horizons.any fun horizon =>
            horizon.touched.any fun p => changedPathsConflict p e.1 then
      return none
    else do
      let tree ← writeTreeWithChanges base snapshot.entries
      return some (if hashes.tree tree = hashes.tree base then none else some tree)

/-- The tree that a capture of the hinted paths commits on the local history, if it differs from its
tree. The outer none stands for an error, and the next one for what only an inventory can show. -/
def captureHintedLocalChanges (flushedPaths : List Path) : Option (Option (Option TreeObject)) :=
  let hints := hintsOf u state flushedPaths
  if !state.fullInventoryCurrent || hints.length > hintedCaptureMaxPaths || hints.contains rootIgnorePath ||
      (ofList (hints.map fun p => toLowerCase p.text.toList)).length ≠ hints.length then
    some none
  else
    match state.localHead with
    | none => some none
    | some head =>
      if head = "" ∨ state.localMain ≠ some head ∨
          state.initialImportConfirmed = false ∧ state.serverDeviceRef = none then some none
      else if state.localRef ≠ some head then some none
      else if state.scanRequired || state.applyJournal || !state.saved.settled then some none
      else if state.pendingIntents ≠ [] then some none
      else do
        let rootPolicy ← readRootIgnorePolicy u rules hashes disk
        let base ← commits head
        if rootPolicy.oid ≠ readTreePathOid toLowerCase base rootIgnorePath then return none
        else
          match ← checkHints u toLowerCase disk commits state base rootPolicy.policy hints with
          | none => return none
          | some found => captureFound u rules hashes disk state base rootPolicy found

end Capture

variable {policy : Policy} {hints : List Path} {base tree : Tree}
  {found : List (Path × Option TreeEntry)} {p : Path}

section Checks
variable {u : SegmentNormalization} {toLowerCase : List Char → List Char}

lemma readEntry_lookup {children : List (Name × TreeObject)} {names : List Name}
    (h : (readEntry toLowerCase children names).ancestorsAreTrees) :
    ((readEntry toLowerCase children names).entry = none → (NameTrees.Tree.node children).lookup names = none) ∧
    ∀ entry, (readEntry toLowerCase children names).entry = some (.leaf entry) →
      (NameTrees.Tree.node children).lookup names = some entry := by
  induction names generalizing children with
  | nil => cases h
  | cons name names ih =>
    rw [NameTrees.Tree.lookup_node_cons]
    cases names with
    | nil =>
      rw [readEntry]
      cases hchild : valueAt children name with
      | none => exact ⟨fun _ => rfl, fun entry hentry => by cases hentry⟩
      | some child =>
        refine ⟨fun hno => absurd hno (some_ne_none child), fun entry hentry => ?_⟩
        cases hentry
        rfl
    | cons next names =>
      rw [readEntry] at h ⊢
      · cases hchild : valueAt children name with
        | none =>
          rw [hchild] at h
          cases h
        | some child =>
          rw [hchild] at h
          cases child with
          | leaf value => cases h
          | node below => exact ih h
      all_goals exact cons_ne_nil _ _

lemma lookup_objectOf (tree : Tree) (p : Path) : (objectOf tree).lookup (segments p) = tree.get p := by
  rw [(objectOf_spec tree).2, valueAt_segments]
  rfl

/-- An entry that is read in a tree of files is the file of the tree. -/
lemma readTreePathEntry_objectOf (h : (readTreePathEntry toLowerCase (objectOf tree) p).ancestorsAreTrees)
    (htree : (readTreePathEntry toLowerCase (objectOf tree) p).isTree = false) :
    (readTreePathEntry toLowerCase (objectOf tree) p).file = tree.get p ∧
      ((readTreePathEntry toLowerCase (objectOf tree) p).entry.isSome ↔ (tree.get p).isSome) := by
  have hlook := lookup_objectOf tree p
  cases hobj : objectOf tree with
  | leaf value =>
    rw [hobj, readTreePathEntry] at h
    cases h
  | node children =>
    rw [hobj, readTreePathEntry] at h htree
    rw [hobj] at hlook
    rw [readTreePathEntry]
    obtain ⟨hnone, hleaf⟩ := readEntry_lookup h
    rw [Located.file]
    rw [Located.isTree] at htree
    cases hentry : (readEntry toLowerCase children (segments p)).entry with
    | none =>
      rw [← hlook, hnone hentry]
      exact ⟨rfl, Iff.rfl⟩
    | some object =>
      cases object with
      | leaf entry =>
        rw [← hlook, hleaf entry hentry]
        exact ⟨rfl, Iff.rfl⟩
      | node below =>
        rw [hentry] at htree
        cases htree

variable {hashes : Hashes} {disk : Disk} {commits : String → Option TreeObject}
  {state : CaptureState}

/-- The entry of the file at a path that is syncable by its own text and is not ignored. -/
def diskEntry (u : SegmentNormalization) (hashes : Hashes) (disk : Disk) (policy : Policy)
    (p : Path) : Option TreeEntry :=
  if isSyncableVaultPath u p = true ∧ policy p false = some false then
    (disk.files.get p).map fun content => ⟨.regular, hashes.blob content⟩
  else none

/-- What a check says of a hint. -/
def Checked (u : SegmentNormalization) (hashes : Hashes) (disk : Disk) (base : Tree)
    (policy : Policy) (hint : Path) : HintCheck → Prop
  | .declined => True
  | .skipped => diskEntry u hashes disk policy hint = none ∧ base.get hint = none
  | .captured entry => isSyncableVaultPath u hint = true ∧ policy hint false = some false ∧
      hint ∈ disk.files.paths ∧ entry = base.get hint

lemma checkHint_spec {hint : Path} {check : HintCheck}
    (h : checkHint u toLowerCase disk commits state (objectOf base) policy hint = some check) :
    Checked u hashes disk base policy hint check := by
  simp only [checkHint] at h
  split at h
  · cases h
    trivial
  rename_i hpaths
  simp only [Bool.or_eq_true, not_or, Bool.not_eq_true', Bool.not_eq_false] at hpaths
  split at h
  · cases h
    trivial
  rename_i hloc
  simp only [Bool.or_eq_true, not_or, Bool.not_eq_true', Bool.not_eq_false, Bool.not_eq_true] at hloc
  obtain ⟨hfile, hentry⟩ := readTreePathEntry_objectOf hloc.1.1 hloc.2
  obtain ⟨ignored, hign, h⟩ := bind_eq_some_iff.mp h
  cases ignored with
  | true =>
    cases h
    cases hbase : base.get hint with
    | some entry =>
      rw [hbase] at hentry
      rw [if_pos (hentry.mpr rfl)]
      trivial
    | none =>
      rw [hbase] at hentry
      rw [if_neg fun hsome => by cases hentry.mp hsome]
      refine ⟨if_neg ?_, hbase⟩
      rintro ⟨-, hno⟩
      rw [hign] at hno
      cases hno
  | false =>
    rw [if_neg Bool.false_ne_true] at h
    cases hcont : disk.files.get hint with
    | some content =>
      have hstat : stat disk hint = some .file := by
        rw [stat, hcont]
        rfl
      rw [hstat] at h
      cases h
      exact ⟨hpaths.1.1, hign, mem_paths.mpr (hcont ▸ some_ne_none _), hfile⟩
    | none =>
      have hdisk : diskEntry u hashes disk policy hint = none := by
        rw [diskEntry, hcont]
        exact ite_self none
      have hstat : stat disk hint = none ∨ stat disk hint = some .folder := by
        rw [stat, hcont]
        by_cases hdir : hint ∈ disk.folders
        · exact Or.inr (if_pos hdir)
        · exact Or.inl (if_neg hdir)
      rcases hstat with hstat | hstat
      · rw [hstat] at h
        cases hbase : (readTreePathEntry toLowerCase (objectOf base) hint).entry with
        | some object =>
          rw [hbase] at h
          cases h
          trivial
        | none =>
          rw [hbase] at h hentry
          have hno : base.get hint = none := by
            cases hget : base.get hint with
            | none => rfl
            | some entry =>
              rw [hget] at hentry
              cases hentry.mpr rfl
          simp only at h
          split at h
          · cases h
            trivial
          obtain ⟨tree, -, h⟩ := bind_eq_some_iff.mp h
          cases h
          split
          · exact ⟨hdisk, hno⟩
          · trivial
      · rw [hstat] at h
        cases h
        trivial

/-- The hints that are captured are syncable files of the vault, and the others are neither in the
vault nor in the base. -/
lemma checkHints_spec (h : checkHints u toLowerCase disk commits state (objectOf base) policy hints
      = some (some found)) : (found.map Prod.fst).Sublist hints ∧
      (∀ f ∈ found, Checked u hashes disk base policy f.1 (.captured f.2)) ∧
      ∀ p ∈ hints, p ∉ found.map Prod.fst → diskEntry u hashes disk policy p = none ∧ base.get p = none := by
  induction hints generalizing found with
  | nil =>
    cases h
    exact ⟨.slnil, by simp, by simp⟩
  | cons hint hints ih =>
    obtain ⟨check, hcheck, h⟩ := bind_eq_some_iff.mp h
    have hspec : Checked u hashes disk base policy hint check := checkHint_spec hcheck
    cases check with
    | declined => cases h
    | skipped =>
      obtain ⟨hsub, hfound, hrest⟩ := ih h
      refine ⟨hsub.cons hint, hfound, fun p hp hno => ?_⟩
      rcases mem_cons.mp hp with rfl | hp
      · exact hspec
      · exact hrest p hp hno
    | captured entry =>
      obtain ⟨rest, hrest, h⟩ := bind_eq_some_iff.mp h
      obtain ⟨more, rfl, rfl⟩ := map_eq_some_iff.mp (some.inj h)
      obtain ⟨hsub, hfound, hoth⟩ := ih hrest
      refine ⟨hsub.cons_cons hint, fun f hf => ?_, fun p hp hno => ?_⟩
      · rcases mem_cons.mp hf with rfl | hf
        · exact hspec
        · exact hfound f hf
      rw [map_cons, mem_cons, not_or] at hno
      rcases mem_cons.mp hp with rfl | hp
      · exact absurd rfl hno.1
      · exact hoth p hp hno.2

end Checks

section Writing
variable {tree : Tree} {changes : List (Path × TreeEntry)} {written : TreeObject}

/-- Changes that are written into the object of a tree replace what stands at their paths. -/
lemma writeTreeWithChanges_spec (hnodup : (changes.map Prod.fst).Nodup)
    (h : writeTreeWithChanges (objectOf tree) changes = some written) :
    written.Canonical ∧ ∀ path, written.lookup path
      = (valueAt (changes.map fun e => (segments e.1, e.2)) path).or ((objectOf tree).lookup path) := by
  obtain ⟨hcan, -⟩ := objectOf_spec tree
  cases hobj : objectOf tree with
  | leaf value =>
    rw [hobj] at h
    cases h
  | node children =>
    rw [hobj] at h hcan
    obtain ⟨hwr, hlook⟩ := (NameTrees.Plan.sound_ofEntries _).write hcan h
    refine ⟨hwr, fun path => (hlook path).trans ?_⟩
    exact congrArg (Option.or · _) (lookup_planOf hnodup path)

lemma writeTreeWithChanges_eq_object {view : Tree} (hnodup : (changes.map Prod.fst).Nodup)
    (h : writeTreeWithChanges (objectOf tree) changes = some written)
    (hsame : ∀ p, (valueAt changes p).or (tree.get p) = view.get p) : written = objectOf view := by
  obtain ⟨hwr, hlook⟩ := writeTreeWithChanges_spec hnodup h
  obtain ⟨hview, hvie⟩ := objectOf_spec view
  refine hwr.ext hview fun path => ?_
  rw [hlook, hvie, (objectOf_spec tree).2]
  by_cases hpath : ∃ p, segments p = path
  · obtain ⟨p, rfl⟩ := hpath
    rw [valueAt_segments, valueAt_segments, valueAt_segments]
    exact hsame p
  · rw [valueAt_of_no_path hpath, valueAt_of_no_path hpath, valueAt_of_no_path hpath]
    rfl

/-- Writing the changes is writing anew all the entries with the changes put in. -/
lemma writeTreeWithChanges_eq (htree : ∀ p ∈ tree.paths, basename p ≠ [])
    (hnodup : (changes.map Prod.fst).Nodup) (hnamed : ∀ e ∈ changes, basename e.1 ≠ [])
    (h : writeTreeWithChanges (objectOf tree) changes = some written) :
    written = writeTreeFromEntries (NameTrees.setAll (flattenTree (objectOf tree)) changes) := by
  obtain ⟨hwr, hlook⟩ := writeTreeWithChanges_spec hnodup h
  have hmap : ((NameTrees.setAll (flattenTree (objectOf tree)) changes).map Prod.fst).Nodup :=
    NameTrees.nodup_setAll (nodup_flattenTree tree)
  have hvalue : ∀ p, valueAt (NameTrees.setAll (flattenTree (objectOf tree)) changes) p
      = (valueAt changes p).or (tree.get p) := by
    intro p
    rw [NameTrees.valueAt_setAll hnodup, valueAt_flattenTree]
  have hall : ∀ e ∈ NameTrees.setAll (flattenTree (objectOf tree)) changes, basename e.1 ≠ [] := by
    intro e he
    have hentry := (valueAt_eq_some hmap).mpr he
    rw [hvalue] at hentry
    rcases or_eq_some_iff.mp hentry with hchg | ⟨-, hold⟩
    · exact hnamed e ((valueAt_eq_some hnodup).mp hchg)
    · exact htree e.1 (mem_paths.mpr (hold ▸ some_ne_none e.2))
  rw [writeTreeFromEntries_of_named hall]
  refine (NameTrees.Plan.build_ofEntries hwr (nodup_segments hmap) ?_ fun path => ?_).symm
  · intro e he
    obtain ⟨e', -, rfl⟩ := mem_map.mp he
    exact segments_ne_nil e'.1
  rw [hlook, (objectOf_spec tree).2]
  by_cases hpath : ∃ p, segments p = path
  · obtain ⟨p, rfl⟩ := hpath
    rw [valueAt_segments, valueAt_segments, valueAt_segments]
    exact hvalue p
  · rw [valueAt_of_no_path hpath, valueAt_of_no_path hpath, valueAt_of_no_path hpath]
    rfl

end Writing

section Agreement
variable {u : SegmentNormalization} {rules : IgnoreRules} {hashes : Hashes}
  {toLowerCase : List Char → List Char} {disk : Disk} {commits : String → Option TreeObject}
  {state : CaptureState} {base : Tree} {rootPolicy : RootPolicy} {commit : Option TreeObject}
  {forcePaths flushedPaths : List Path} {cache : ScanCache}

/-- The files of the vault that are syncable by their own paths and are not ignored. -/
def viewFiles (u : SegmentNormalization) (disk : Disk) (policy : Policy) : List Path :=
  disk.files.paths.filter fun p => isSyncableVaultPath u p && policy p false = some false

def viewTree (u : SegmentNormalization) (hashes : Hashes) (disk : Disk) (policy : Policy) : Tree :=
  vaultTree hashes disk (viewFiles u disk policy)

lemma mem_viewFiles : p ∈ viewFiles u disk policy ↔ p ∈ disk.files.paths ∧ isSyncableVaultPath u p ∧
      policy p false = some false := by
  rw [viewFiles, mem_filter, Bool.and_eq_true, decide_eq_true_eq]

lemma get_viewTree (policy : Policy) (p : Path) :
    (viewTree u hashes disk policy).get p = diskEntry u hashes disk policy p := by
  rw [viewTree, get_vaultTree, diskEntry]
  by_cases hfile : p ∈ disk.files.paths
  · by_cases hseen : isSyncableVaultPath u p = true ∧ policy p false = some false
    · rw [if_pos (mem_viewFiles.mpr ⟨hfile, hseen⟩), if_pos hseen]
    · rw [if_neg fun hmem => hseen (mem_viewFiles.mp hmem).2, if_neg hseen]
  · rw [if_neg fun hmem => hfile (mem_viewFiles.mp hmem).1, get_eq_none.mpr hfile]
    exact (ite_self none).symm

/-- The hints name every path at which the vault and the base differ. -/
def Complete (u : SegmentNormalization) (hashes : Hashes) (disk : Disk) (policy : Policy)
    (base : Tree) (hints : List Path) : Prop :=
  ∀ p, diskEntry u hashes disk policy p ≠ base.get p → p ∈ hints

/-- What is captured of complete hints is the tree of all the files in view. -/
lemma captureFound_eq (hroot : readRootIgnorePolicy u rules hashes disk = some rootPolicy)
    (hnodup : hints.Nodup) (hcpl : Complete u hashes disk rootPolicy.policy base hints)
    (hchk : checkHints u toLowerCase disk commits state (objectOf base) rootPolicy.policy hints
      = some (some found)) (h : captureFound u rules hashes disk state (objectOf base) rootPolicy found
      = some (some commit)) : commit = if hashes.tree (objectOf (viewTree u hashes disk rootPolicy.policy))
        = hashes.tree (objectOf base) then none
      else some (objectOf (viewTree u hashes disk rootPolicy.policy)) := by
  have hspec : (found.map Prod.fst).Sublist hints ∧
      (∀ f ∈ found, Checked u hashes disk base rootPolicy.policy f.1 (.captured f.2)) ∧
      ∀ p ∈ hints, p ∉ found.map Prod.fst →
        diskEntry u hashes disk rootPolicy.policy p = none ∧ base.get p = none :=
    checkHints_spec hchk
  obtain ⟨hsub, hfound, hoth⟩ := hspec
  obtain ⟨hbytes, -, -, hsize, -⟩ := readRootIgnorePolicy_eq_some hroot
  have hother : ∀ p, p ∉ found.map Prod.fst →
      base.get p = diskEntry u hashes disk rootPolicy.policy p := by
    intro p hp
    by_cases hhint : p ∈ hints
    · obtain ⟨hdisk, hbase⟩ := hoth p hhint hp
      rw [hdisk, hbase]
    · by_contra hne
      exact hhint (hcpl p (Ne.symm hne))
  rw [captureFound] at h
  split at h
  · rename_i hempty
    cases h
    subst hempty
    rw [if_pos]
    refine congrArg hashes.tree (objectOf_eq fun p => ?_)
    rw [get_viewTree, hother p not_mem_nil]
  · obtain ⟨snapshot, hsnap, h⟩ := bind_eq_some_iff.mp h
    obtain ⟨entries, hents, hsnap⟩ := bind_eq_some_iff.mp hsnap
    cases hsnap
    obtain ⟨current, -, h⟩ := bind_eq_some_iff.mp h
    split at h
    · cases h
    split at h
    · cases h
    obtain ⟨written, hwr, h⟩ := bind_eq_some_iff.mp h
    cases h
    have hfound' : ∀ p ∈ sort (found.map Prod.fst), p ∈ disk.files.paths := by
      intro p hp
      obtain ⟨f, hf, rfl⟩ := mem_map.mp (mem_sort.mp hp)
      exact (hfound f hf).2.2.1
    obtain ⟨entries', hents', hkeys, hvals⟩ := captureEntries_eq (found.map Prod.fst) hbytes
      hsize (fun _ _ _ oid _ hno => absurd hno.symm (some_ne_none oid)) hfound'
    cases hents.symm.trans hents'
    have hfiles : (found.map Prod.fst).Nodup := hnodup.sublist hsub
    have hentN : (entries.map Prod.fst).Nodup := by
      rw [hkeys]
      exact (sortBy_perm _ _).nodup_iff.mpr hfiles
    have hview : ∀ p, (valueAt entries p).or (base.get p)
        = (viewTree u hashes disk rootPolicy.policy).get p := by
      intro p
      rw [hvals, get_vaultTree, get_viewTree]
      by_cases hp : p ∈ found.map Prod.fst
      · obtain ⟨f, hf, rfl⟩ := mem_map.mp hp
        obtain ⟨hsync, hign, hmem, -⟩ := hfound f hf
        obtain ⟨content, hcont⟩ := ne_none_iff_exists'.mp (mem_paths.mp hmem)
        rw [if_pos (mem_sort.mpr hp), diskEntry, if_pos ⟨hsync, hign⟩, hcont]
        rfl
      · rw [if_neg fun hmem => hp (mem_sort.mp hmem), hother p hp]
        rfl
    rw [writeTreeWithChanges_eq_object hentN hwr hview]

/-- The inventory reads the vault, and of the files that are syncable by their own paths and are not
ignored it comes to those that are there. -/
structure SeesFiles (u : SegmentNormalization) (disk : Disk) (policy : Policy) : Prop where
  readable : Readable u disk
  found : ∀ p, isSyncableVaultPath u p = true → policy p false = some false →
    (Found u disk p ↔ p ∈ disk.files.paths)

/-- What the cache says of the hinted paths is true, unless they are read anyway. -/
def VouchedHints (u : SegmentNormalization) (hashes : Hashes) (disk : Disk) (cache : ScanCache)
    (forcePaths hints : List Path) : Prop :=
  ∀ p ∈ hints, isForced u forcePaths p = false → ∀ oid content, cache p = some oid →
    disk.files.get p = some content → oid = hashes.blob content

/-- The cache is asked only about blobs of the base, and at other paths the vault has these. -/
lemma VouchedHints.vouchedAt (h : VouchedHints u hashes disk cache forcePaths hints)
    (hcpl : Complete u hashes disk policy base hints)
    (hsync : isSyncableVaultPath u p) (hign : policy p false = some false) :
    VouchedAt hashes disk cache (isForced u forcePaths) (flattenTree (objectOf base)) p := by
  intro hforc oid content hcach hbase hcont
  by_cases hp : p ∈ hints
  · exact h p hp hforc oid content hcach hcont
  have hsame : diskEntry u hashes disk policy p = base.get p := by
    by_contra hne
    exact hp (hcpl p hne)
  rw [diskEntry, if_pos ⟨hsync, hign⟩, hcont] at hsame
  rw [valueAt_flattenTree, ← hsame] at hbase
  exact (some.inj hbase).symm

/-- The inventory captures the files in view when it comes to them. -/
lemma createLocalCommit_eq_view (hroot : readRootIgnorePolicy u rules hashes disk = some rootPolicy)
    (hcache : ∀ p, isSyncableVaultPath u p → rootPolicy.policy p false = some false →
      VouchedAt hashes disk cache (isForced u forcePaths) (flattenTree (objectOf base)) p)
    (hsees : SeesFiles u disk rootPolicy.policy) :
    createLocalCommit u rules hashes disk cache forcePaths (some (objectOf base))
      = some (if hashes.tree (objectOf base)
          = hashes.tree (objectOf (viewTree u hashes disk rootPolicy.policy)) then none
        else some (objectOf (viewTree u hashes disk rootPolicy.policy))) := by
  obtain ⟨-, -, -, -, contents, hpol⟩ := readRootIgnorePolicy_eq_some hroot
  have hansw : Answers u (some rootPolicy.policy) := hpol ▸ answers_rulesPolicy contents
  obtain ⟨files, hscan⟩ := (exists_scanSyncableFiles_iff hansw).mpr hsees.readable
  obtain ⟨hnodup, hspec⟩ := scanSyncableFiles_spec hscan
  have hfiles : ∀ p, p ∈ files ↔ p ∈ viewFiles u disk rootPolicy.policy := by
    intro p
    rw [hspec, mem_viewFiles]
    constructor
    · rintro ⟨hfound, hsync, hign⟩
      exact ⟨(hsees.found p hsync hign).mp hfound, hsync, hign⟩
    · rintro ⟨hmem, hsync, hign⟩
      exact ⟨(hsees.found p hsync hign).mpr hmem, hsync, hign⟩
  have hpolF : rootIgnorePath ∈ disk.files.paths → rootIgnorePath ∈ files := by
    intro hmem
    refine (hfiles _).mpr (mem_viewFiles.mpr ⟨hmem, isSyncable_rootIgnorePath, ?_⟩)
    rw [hpol]
    exact rulesPolicy_rootIgnorePath contents
  have hcmt := createLocalCommit_of_scan hroot
    (fun p hp => hcache p ((hspec p).mp hp).2.1 ((hspec p).mp hp).2.2) hscan hnodup
    (fun p hp => (mem_viewFiles.mp ((hfiles p).mp hp)).1) hpolF
  have hsame : objectOf (vaultTree hashes disk files)
      = objectOf (viewTree u hashes disk rootPolicy.policy) := by
    refine objectOf_eq fun p => ?_
    rw [viewTree, get_vaultTree, get_vaultTree]
    by_cases hp : p ∈ files
    · rw [if_pos hp, if_pos ((hfiles p).mp hp)]
    · rw [if_neg hp, if_neg fun hmem => hp ((hfiles p).mpr hmem)]
  rwa [hsame] at hcmt

/-- A tree object says what files it holds. -/
lemma get_of_objectOf_eq {tree' : Tree} (h : objectOf tree = objectOf tree') (p : Path) :
    tree.get p = tree'.get p := by
  rw [← valueAt_flattenTree, h, valueAt_flattenTree]

/-- An inventory that captures the files in view comes to them. -/
lemma seesFiles_of_createLocalCommit (hroot : readRootIgnorePolicy u rules hashes disk = some rootPolicy)
    (hcache : ∀ p, isSyncableVaultPath u p → rootPolicy.policy p false = some false →
      VouchedAt hashes disk cache (isForced u forcePaths) (flattenTree (objectOf base)) p)
    (hhash : ∀ object, hashes.tree object = hashes.tree (objectOf base) → object = objectOf base)
    (h : createLocalCommit u rules hashes disk cache forcePaths (some (objectOf base))
      = some (if hashes.tree (objectOf (viewTree u hashes disk rootPolicy.policy))
          = hashes.tree (objectOf base) then none
        else some (objectOf (viewTree u hashes disk rootPolicy.policy)))) : SeesFiles u disk rootPolicy.policy := by
  obtain ⟨-, -, -, -, contents, hpol⟩ := readRootIgnorePolicy_eq_some hroot
  have hansw : Answers u (some rootPolicy.policy) := hpol ▸ answers_rulesPolicy contents
  obtain ⟨rootPolicy', files, hroot', hscan, hfiles⟩ := scan_of_createLocalCommit h
  cases hroot.symm.trans hroot'
  have hrdb := (exists_scanSyncableFiles_iff hansw).mp ⟨files, hscan⟩
  obtain ⟨hnodup, hspec⟩ := scanSyncableFiles_spec hscan
  have hpolF : rootIgnorePath ∈ disk.files.paths → rootIgnorePath ∈ files := by
    intro hmem
    have hnorm : normalizePath u rootIgnorePath = rootIgnorePath :=
      normal_of (by decide) (by decide) (u.nfc_ascii _ (all_iff_forall_prop.mp (by decide)))
    refine (hspec _).mpr ⟨⟨rootIgnorePath, hmem, ?_, hnorm⟩, isSyncable_rootIgnorePath, ?_⟩
    · exact Visited.start
    · rw [ignoredBy, hpol]
      exact rulesPolicy_rootIgnorePath contents
  have hcmt := createLocalCommit_of_scan hroot
    (fun p hp => hcache p ((hspec p).mp hp).2.1 ((hspec p).mp hp).2.2) hscan hnodup hfiles
    hpolF
  have hsame : objectOf (vaultTree hashes disk files)
      = objectOf (viewTree u hashes disk rootPolicy.policy) := by
    have hboth := some.inj (hcmt.symm.trans h)
    split at hboth
    · rename_i hvault
      split at hboth
      · rename_i hview
        rw [hhash _ hvault.symm, hhash _ hview]
      · cases hboth
    · split at hboth
      · cases hboth
      · exact some.inj hboth
  refine ⟨hrdb, fun p hsync hign => ?_⟩
  have hget := get_of_objectOf_eq hsame p
  rw [viewTree, get_vaultTree, get_vaultTree] at hget
  constructor
  · exact fun hfound => hfiles p ((hspec p).mpr ⟨hfound, hsync, hign⟩)
  intro hmem
  by_contra hno
  rw [if_neg fun hfile => hno ((hspec p).mp hfile).1, if_pos (mem_viewFiles.mpr ⟨hmem, hsync, hign⟩)] at hget
  obtain ⟨content, hcont⟩ := ne_none_iff_exists'.mp (mem_paths.mp hmem)
  rw [hcont] at hget
  cases hget

/-- The parts of a hinted capture that gives a result. -/
lemma captureHintedLocalChanges_eq_some
    (h : captureHintedLocalChanges u rules hashes toLowerCase disk commits state flushedPaths
      = some (some commit)) :
    ∃ head object rootPolicy found, state.localHead = some head ∧ state.localRef = some head ∧
      commits head = some object ∧ readRootIgnorePolicy u rules hashes disk = some rootPolicy ∧
      checkHints u toLowerCase disk commits state object rootPolicy.policy
        (hintsOf u state flushedPaths) = some (some found) ∧
      captureFound u rules hashes disk state object rootPolicy found = some (some commit) := by
  simp only [captureHintedLocalChanges] at h
  split at h
  · cases h
  split at h
  · cases h
  rename_i head hhead
  split at h
  · cases h
  split at h
  · cases h
  rename_i href
  split at h
  · cases h
  split at h
  · cases h
  obtain ⟨rootPolicy, hroot, h⟩ := bind_eq_some_iff.mp h
  obtain ⟨object, hobj, h⟩ := bind_eq_some_iff.mp h
  split at h
  · cases h
  obtain ⟨checks, hchk, h⟩ := bind_eq_some_iff.mp h
  cases checks with
  | none => cases h
  | some found =>
    exact ⟨head, object, rootPolicy, found, hhead, not_not.mp href, hobj, hroot, hchk, h⟩

/-- A hinted capture of complete hints captures the files in view. -/
lemma captureHintedLocalChanges_view
    (hhead : ∀ head, state.localHead = some head → commits head = some (objectOf base))
    (hroot : readRootIgnorePolicy u rules hashes disk = some rootPolicy)
    (hcpl : Complete u hashes disk rootPolicy.policy base (hintsOf u state flushedPaths))
    (h : captureHintedLocalChanges u rules hashes toLowerCase disk commits state flushedPaths
      = some (some commit)) : commit = if hashes.tree (objectOf (viewTree u hashes disk rootPolicy.policy))
        = hashes.tree (objectOf base) then none
      else some (objectOf (viewTree u hashes disk rootPolicy.policy)) := by
  obtain ⟨head, object, rootPolicy', found, hhead', -, hobj, hroot', hchk, hcapt⟩ :=
    captureHintedLocalChanges_eq_some h
  cases hroot.symm.trans hroot'
  cases (hhead head hhead').symm.trans hobj
  refine captureFound_eq hroot ?_ hcpl hchk hcapt
  exact (sortBy_perm _ _).nodup_iff.mpr (nodup_ofList _)

/-- The hinted capture and the inventory agree exactly when the inventory comes to the files in view. -/
lemma agrees_iff_seesFiles (hhead : ∀ head, state.localHead = some head → commits head = some (objectOf base))
    (hroot : readRootIgnorePolicy u rules hashes disk = some rootPolicy)
    (hcpl : Complete u hashes disk rootPolicy.policy base (hintsOf u state flushedPaths))
    (hcache : VouchedHints u hashes disk cache forcePaths (hintsOf u state flushedPaths))
    (hhash : ∀ object, hashes.tree object = hashes.tree (objectOf base) → object = objectOf base)
    (h : captureHintedLocalChanges u rules hashes toLowerCase disk commits state flushedPaths
      = some (some commit)) :
    createLocalCommit u rules hashes disk cache forcePaths (some (objectOf base)) = some commit
      ↔ SeesFiles u disk rootPolicy.policy := by
  have hvouc := fun p hsync hign =>
    hcache.vouchedAt (p := p) hcpl hsync hign
  obtain rfl := captureHintedLocalChanges_view hhead hroot hcpl h
  constructor
  · exact seesFiles_of_createLocalCommit hroot hvouc hhash
  intro hsees
  rw [createLocalCommit_eq_view hroot hvouc hsees]
  by_cases hsame : hashes.tree (objectOf base) = hashes.tree (objectOf (viewTree u hashes disk rootPolicy.policy))
  · rw [if_pos hsame, if_pos hsame.symm]
  · rw [if_neg hsame, if_neg (Ne.symm hsame)]

/-- A hinted capture of complete hints gives the result of the inventory exactly when the inventory
comes to every file that is syncable by its own path and is not ignored; and writing changes into a
tree is writing anew its entries with the changes put in. -/
theorem captureHintedLocalChanges_agrees_iff {flushedPaths : List Path} {commit : Option TreeObject}
    {cache : ScanCache} {forcePaths : List Path}
    (hhead : ∀ head, state.localHead = some head → commits head = some (objectOf base))
    (hroot : readRootIgnorePolicy u rules hashes disk = some rootPolicy)
    (hcomplete : Complete u hashes disk rootPolicy.policy base (hintsOf u state flushedPaths))
    (hcache : VouchedHints u hashes disk cache forcePaths (hintsOf u state flushedPaths))
    (hhashes : ∀ object, hashes.tree object = hashes.tree (objectOf base) → object = objectOf base)
    (h : captureHintedLocalChanges u rules hashes toLowerCase disk commits state flushedPaths
      = some (some commit)) :
    (createLocalCommit u rules hashes disk cache forcePaths (some (objectOf base)) = some commit
      ↔ SeesFiles u disk rootPolicy.policy) ∧
    ∀ (tree : Tree) (changes : List (Path × TreeEntry)) (written : TreeObject),
      (∀ p ∈ tree.paths, basename p ≠ []) → (changes.map Prod.fst).Nodup → (∀ e ∈ changes, basename e.1 ≠ []) →
      writeTreeWithChanges (objectOf tree) changes = some written →
      written = writeTreeFromEntries (NameTrees.setAll (flattenTree (objectOf tree)) changes) :=
  ⟨agrees_iff_seesFiles hhead hroot hcomplete hcache hhashes h,
    fun _ _ _ htree hnodup hnamed hwr => writeTreeWithChanges_eq htree hnodup hnamed hwr⟩

end Agreement

/-- A settled device with these hints. -/
def settledState (hints : List Path) : CaptureState where
  inventoryRequestedSeq := 1
  inventoryCompletedSeq := 1
  changedPaths := hints
  localHead := some "36c7a02a1b8a4d2d1a2b1e6a3b7ad0e0f4f2c5d1"
  localMain := some "36c7a02a1b8a4d2d1a2b1e6a3b7ad0e0f4f2c5d1"
  initialImportConfirmed := true
  serverDeviceRef := some "36c7a02a1b8a4d2d1a2b1e6a3b7ad0e0f4f2c5d1"
  localRef := some "36c7a02a1b8a4d2d1a2b1e6a3b7ad0e0f4f2c5d1"
  scanRequired := false
  applyJournal := false
  saved := { obligations := [], renamePairs := [], heldProposals := [], queuedReplacement := none,
             intent := none, horizons := [] }
  pendingIntents := []
  explicitEmptyDirs := []

/-- The object names of a note, of the tree that has it, and of the empty tree. -/
def noteHashes : Hashes where
  blob _ := "be54354a9433a1e798cf17a5cddffbf581e3afa2"
  tree
    | .node [] => "4b825dc642cb6eb9a060e54bf8d69288fbee4904"
    | _ => "e372b4db9dc4886ee37405a947eb1566e8f5fa6d"

lemma complete_of_paths {u : SegmentNormalization} {hashes : Hashes} {disk : Disk}
    (h : ∀ p ∈ disk.files.paths ++ base.paths, p ∉ hints →
      diskEntry u hashes disk policy p = base.get p) : Complete u hashes disk policy base hints := by
  intro p hne
  by_contra hno
  by_cases hmem : p ∈ disk.files.paths ++ base.paths
  · exact hne (h p hmem hno)
  rw [mem_append, not_or] at hmem
  refine hne ?_
  rw [diskEntry, get_eq_none.mpr hmem.1, get_eq_none.mpr hmem.2]
  exact ite_self none

/-- A new note is captured by its hint as by the inventory, which comes to it. -/
theorem captureHintedLocalChanges_agrees_note :
    createLocalCommit asciiSegmentNormalization { ignores := fun _ _ => false } noteHashes
        (materialise (oneFile "a.md" [104]) (by decide)) (fun _ => none) [⟨"a.md"⟩]
        (some (objectOf FileTree.empty))
      = some (some (.node [("a.md".toList, .leaf ⟨.regular, "be54354a9433a1e798cf17a5cddffbf581e3afa2"⟩)])) ↔
    SeesFiles asciiSegmentNormalization (materialise (oneFile "a.md" [104]) (by decide))
      (rulesPolicy asciiSegmentNormalization { ignores := fun _ _ => false } []) := by
  have hhead : ∀ head, (settledState [⟨"a.md"⟩]).localHead = some head →
      (fun _ : String => some (objectOf empty)) head = some (objectOf empty) :=
    fun _ _ => rfl
  have hroot : readRootIgnorePolicy asciiSegmentNormalization { ignores := fun _ _ => false } noteHashes
      (materialise (oneFile "a.md" [104]) (by decide))
      = some ⟨none, none, rulesPolicy asciiSegmentNormalization { ignores := fun _ _ => false } []⟩ :=
    rfl
  have hcpl : Complete asciiSegmentNormalization noteHashes (materialise (oneFile "a.md" [104]) (by decide))
      (rulesPolicy asciiSegmentNormalization { ignores := fun _ _ => false } []) empty
      (hintsOf asciiSegmentNormalization (settledState [⟨"a.md"⟩]) []) := by
    refine complete_of_paths ?_
    decide
  have hcache : VouchedHints asciiSegmentNormalization noteHashes
      (materialise (oneFile "a.md" [104]) (by decide)) (fun _ => none) [⟨"a.md"⟩]
      (hintsOf asciiSegmentNormalization (settledState [⟨"a.md"⟩]) []) := by
    intro p _ _ oid content hno
    cases hno
  have hhash : ∀ object, noteHashes.tree object = noteHashes.tree (objectOf empty) →
      object = objectOf empty := by
    have hne : "e372b4db9dc4886ee37405a947eb1566e8f5fa6d" ≠ "4b825dc642cb6eb9a060e54bf8d69288fbee4904" := by decide
    intro object hobj
    match object with
    | .leaf _ => exact absurd hobj hne
    | .node [] => rfl
    | .node (_ :: _) => exact absurd hobj hne
  have hcapt : captureHintedLocalChanges asciiSegmentNormalization { ignores := fun _ _ => false }
      noteHashes id (materialise (oneFile "a.md" [104]) (by decide))
      (fun _ => some (objectOf empty)) (settledState [⟨"a.md"⟩]) []
      = some (some (some (.node [("a.md".toList,
          .leaf ⟨.regular, "be54354a9433a1e798cf17a5cddffbf581e3afa2"⟩)]))) := rfl
  exact (captureHintedLocalChanges_agrees_iff hhead hroot hcpl hcache hhash hcapt).1

/-- A note in a folder with the name of a temporary file: nothing has changed and there are no hints,
so nothing is captured, but the inventory commits a tree without the note. -/
theorem tmp_folder_disagrees : ¬ ∀ (u : SegmentNormalization) (rules : IgnoreRules) (hashes : Hashes)
      (toLowerCase : List Char → List Char) (disk : Disk) (commits : String → Option TreeObject)
      (state : CaptureState) (base : Tree) (rootPolicy : RootPolicy) (flushedPaths : List Path)
      (commit : Option TreeObject) (cache : ScanCache) (forcePaths : List Path),
      (∀ head, state.localHead = some head → commits head = some (objectOf base)) →
      readRootIgnorePolicy u rules hashes disk = some rootPolicy →
      Complete u hashes disk rootPolicy.policy base (hintsOf u state flushedPaths) →
      VouchedHints u hashes disk cache forcePaths (hintsOf u state flushedPaths) →
      (∀ object, hashes.tree object = hashes.tree (objectOf base) → object = objectOf base) →
      captureHintedLocalChanges u rules hashes toLowerCase disk commits state flushedPaths = some (some commit) →
      createLocalCommit u rules hashes disk cache forcePaths (some (objectOf base)) = some commit := by
  classical
  intro hclaim
  let base : Tree := gitTree noteHashes tmpTree
  let hashes : Hashes :=
    { blob := noteHashes.blob
      tree := fun object => if object = objectOf base then "base" else "other" }
  have hhead : ∀ head, (settledState []).localHead = some head →
      (fun _ : String => some (objectOf base)) head = some (objectOf base) := fun _ _ => rfl
  have hroot : readRootIgnorePolicy asciiSegmentNormalization { ignores := fun _ _ => false } hashes
      (materialise tmpTree (by decide))
      = some ⟨none, none, rulesPolicy asciiSegmentNormalization { ignores := fun _ _ => false } []⟩ :=
    rfl
  have hcpl : Complete asciiSegmentNormalization hashes (materialise tmpTree (by decide))
      (rulesPolicy asciiSegmentNormalization { ignores := fun _ _ => false } []) base
      (hintsOf asciiSegmentNormalization (settledState []) []) := by
    refine complete_of_paths ?_
    decide
  have hcache : VouchedHints asciiSegmentNormalization hashes (materialise tmpTree (by decide))
      (fun _ => none) [] (hintsOf asciiSegmentNormalization (settledState []) []) := by
    intro p _ _ oid content hno
    cases hno
  have hhash : ∀ object, hashes.tree object = hashes.tree (objectOf base) →
      object = objectOf base := by
    intro object hobj
    by_contra hne
    have hbase : hashes.tree (objectOf base) = "base" := if_pos rfl
    have hother : hashes.tree object = "other" := if_neg hne
    rw [hbase, hother] at hobj
    exact absurd hobj (by decide)
  have hcapt : captureHintedLocalChanges asciiSegmentNormalization { ignores := fun _ _ => false }
      hashes id (materialise tmpTree (by decide)) (fun _ => some (objectOf base)) (settledState []) []
      = some (some none) := rfl
  have hsees := (agrees_iff_seesFiles hhead hroot hcpl hcache hhash hcapt).mp
    (hclaim _ _ _ _ _ _ _ _ _ _ _ _ _ hhead hroot hcpl hcache hhash hcapt)
  -- the inventory would have to come to the folder of the note
  obtain ⟨file, hfile, hvis, -⟩ :=
    (hsees.found ⟨"draft.tmp/a.md"⟩ (by decide) (by decide)).mpr (by decide)
  obtain rfl := mem_singleton.mp hfile
  have hpar : parent ⟨"draft.tmp/a.md"⟩ = ⟨"draft.tmp"⟩ := by decide
  have hnot : ∀ dir, Visited asciiSegmentNormalization (materialise tmpTree (by decide)) dir →
      dir ≠ ⟨"draft.tmp"⟩ := by
    intro dir hdir
    cases hdir with
    | start => decide
    | folder _ hfold _ hsync =>
      obtain rfl := mem_singleton.mp hfold
      exact absurd hsync (by decide)
  exact hnot _ hvis rfl

end HintedCapture
