import Obts.GitTrees
import Obts.Metadata

/-!
# Structural changes

The changes between two commits, read as renames, edits, deletions and additions. Besides the
renames that Git pairs, a deletion and an addition are paired when their blobs are equal or
their texts similar and no other pairing is possible. Two summaries conflict when they treat
one base path in incompatible ways or one side's rename lands on a path of the other.

How similar two texts are is a parameter: `similar base target` says that the two files have
the same extension and that their contents pass the threshold.
-/
namespace StructuralChanges

open SlashPath InsertionOrder GitTrees Metadata

inductive ActionKind where
  | add
  | edit
  | delete
  | rename
  deriving DecidableEq

inductive RenameConfidence where
  | git
  | exactBlob
  | similarContent

structure StructuralAction where
  kind : ActionKind
  (basePath targetPath : Option Path)
  (baseOid targetOid : Option String)
  renameConfidence : Option RenameConfidence

structure StructuralSummary where
  actions : List StructuralAction
  (byBasePath addsByPath : List (Path × StructuralAction))
  renameCandidatesByBasePath : List (Path × List Path)

structure PairedRename where
  (basePath targetPath : Path)
  confidence : RenameConfidence

structure StructuralConflict where
  reason : ConflictReason
  affectedPaths : List Path

/-- The blobs of a tree by path. -/
def blobOid (tree : Tree) (path : Path) : Option String :=
  match tree.get path with
  | some entry => if entry.mode.objectType = .blob then some entry.oid else none
  | none => none

def recordRenameCandidate (candidates : List (Path × List Path)) (basePath targetPath : Path) :
    List (Path × List Path) :=
  set candidates basePath (add ((valueAt candidates basePath).getD []) targetPath)

/-- The changes sorted by kind, before deletions and additions are paired. -/
structure SortedChanges where
  explicitRenames : List PairedRename := []
  deletePaths : List Path := []
  addPaths : List Path := []
  editPaths : List Path := []
  renameCandidates : List (Path × List Path) := []

def sortChange (base target : Tree) (sorted : SortedChanges) (entry : GitDiffEntry) : SortedChanges :=
  let byBlobs :=
    if (blobOid base entry.path).isSome then
      if (blobOid target entry.path).isSome then
        { sorted with editPaths := add sorted.editPaths entry.path }
      else { sorted with deletePaths := add sorted.deletePaths entry.path }
    else if (blobOid target entry.path).isSome then
      { sorted with addPaths := add sorted.addPaths entry.path }
    else sorted
  match entry.status with
  | .renamed =>
    match entry.oldPath with
    | some oldPath =>
      if oldPath ≠ entry.path then
        { sorted with
          explicitRenames := sorted.explicitRenames ++ [⟨oldPath, entry.path, .git⟩]
          renameCandidates := recordRenameCandidate sorted.renameCandidates oldPath entry.path }
      else byBlobs
    | none => byBlobs
  | .deleted => { sorted with deletePaths := add sorted.deletePaths entry.path }
  | .added => { sorted with addPaths := add sorted.addPaths entry.path }
  | .modified | .typeChanged => byBlobs

def groupPathsByOid (paths : List Path) (tree : Tree) : List (String × List Path) :=
  paths.foldl (fun groups path =>
    match blobOid tree path with
    | some oid => set groups oid ((valueAt groups oid).getD [] ++ [path])
    | none => groups) []

/-- Every deletion and addition of one blob is a candidate; a lone pair is a rename. -/
def inferExactRenamePairs (base target : Tree) (sorted : SortedChanges) :
    List PairedRename × List (Path × List Path) :=
  let addsByOid := groupPathsByOid sorted.addPaths target
  (groupPathsByOid sorted.deletePaths base).foldl (fun (pairs, candidates) (oid, deleted) =>
    let added := (valueAt addsByOid oid).getD []
    let candidates := deleted.foldl (fun candidates basePath =>
      added.foldl (fun candidates targetPath =>
        recordRenameCandidate candidates basePath targetPath) candidates) candidates
    match deleted, added with
    | [basePath], [targetPath] => (pairs ++ [⟨basePath, targetPath, .exactBlob⟩], candidates)
    | _, _ => (pairs, candidates)) ([], sorted.renameCandidates)

variable (similar : Path → Path → Bool)

/-- The remaining deletions and additions whose texts are similar, paired when each is the
other's only candidate. -/
def inferSimilarRenamePairs (deletePaths addPaths : List Path)
    (candidates : List (Path × List Path)) : List PairedRename × List (Path × List Path) :=
  let targetsOf (basePath : Path) := addPaths.filter (similar basePath)
  let basesOf (targetPath : Path) := deletePaths.filter (similar · targetPath)
  let candidates := deletePaths.foldl (fun candidates basePath =>
    (targetsOf basePath).foldl (fun candidates targetPath =>
      recordRenameCandidate candidates basePath targetPath) candidates) candidates
  let pairs := deletePaths.filterMap fun basePath =>
    match targetsOf basePath with
    | [targetPath] =>
      if (basesOf targetPath).length = 1 then some ⟨basePath, targetPath, .similarContent⟩ else none
    | _ => none
  (pairs, candidates)

/-- The maps of a summary: the last action of a base path, and the additions. -/
def summaryOf (actions : List StructuralAction) (candidates : List (Path × List Path)) : StructuralSummary where
  actions := actions
  byBasePath := actions.foldl (fun m action =>
    match action.basePath with
    | some path => set m path action
    | none => m) []
  addsByPath := actions.foldl (fun m action =>
    match action.kind, action.targetPath with
    | .add, some path => set m path action
    | _, _ => m) []
  renameCandidatesByBasePath := candidates

def summarizeStructuralChanges (base target : Tree)
    (changes : List GitDiffEntry) : StructuralSummary :=
  let sorted := changes.foldl (sortChange base target) {}
  let (exactRenames, candidates) := inferExactRenamePairs base target sorted
  let deletePaths := sorted.deletePaths.filter fun p => p ∉ exactRenames.map (·.basePath)
  let addPaths := sorted.addPaths.filter fun p => p ∉ exactRenames.map (·.targetPath)
  let (similarRenames, candidates) := inferSimilarRenamePairs similar deletePaths addPaths candidates
  let deletePaths := deletePaths.filter fun p => p ∉ similarRenames.map (·.basePath)
  let addPaths := addPaths.filter fun p => p ∉ similarRenames.map (·.targetPath)
  let renames := (sorted.explicitRenames ++ exactRenames ++ similarRenames).map fun pair =>
    ⟨.rename, some pair.basePath, some pair.targetPath, blobOid base pair.basePath,
      blobOid target pair.targetPath, some pair.confidence⟩
  let edits := (sort sorted.editPaths).map fun path =>
    ⟨.edit, some path, some path, blobOid base path, blobOid target path, none⟩
  let deletes := (sort deletePaths).map fun path =>
    ⟨.delete, some path, none, blobOid base path, none, none⟩
  let adds := (sort addPaths).map fun path =>
    ⟨.add, none, some path, none, blobOid target path, none⟩
  summaryOf (renames ++ edits ++ deletes ++ adds) candidates

def structuralActionPaths (actions : List StructuralAction) : List Path :=
  sort (ofList (actions.flatMap fun action => action.basePath.toList ++ action.targetPath.toList))

def structuralConflict (reason : ConflictReason) (paths : List Path) : StructuralConflict :=
  ⟨reason, sort (ofList paths)⟩

def actionTouchesPath (action : StructuralAction) (path : Path) : Bool :=
  action.targetPath.any (changedPathsConflict · path) ||
    (action.kind = .delete && action.basePath.any (changedPathsConflict · path))

def renameEditPathCollision (basePath : Path) (renameAction : StructuralAction)
    (editingSide : StructuralSummary) : Option StructuralConflict := do
  let targetPath ← renameAction.targetPath
  let action ← editingSide.actions.find? fun action =>
    action.basePath ≠ some basePath && actionTouchesPath action targetPath
  return structuralConflict .renamePathCollision (structuralActionPaths [renameAction, action])

def renameTargetCollision (left right : StructuralSummary) : Option StructuralConflict :=
  (left.actions.filter (·.kind = .rename)).findSome? fun renameAction => do
    let targetPath ← renameAction.targetPath
    let otherAction ← right.actions.find? fun otherAction =>
      !(otherAction.kind = .rename && otherAction.basePath = renameAction.basePath &&
        otherAction.targetPath = renameAction.targetPath) &&
      actionTouchesPath otherAction targetPath
    return structuralConflict .renamePathCollision (structuralActionPaths [renameAction, otherAction])

def singleSamePath (left right : List Path) : Bool :=
  match left, right with
  | [l], [r] => l = r
  | _, _ => false

def structuralBasePathConflict (basePath : Path) (leftAction rightAction : StructuralAction)
    (left right : StructuralSummary) : Option StructuralConflict :=
  let paths := structuralActionPaths [leftAction, rightAction]
  match leftAction.kind, rightAction.kind with
  | .rename, .rename =>
    if leftAction.targetPath = rightAction.targetPath then none
    else some (structuralConflict .renameRenameConflict paths)
  | .rename, .delete | .delete, .rename => some (structuralConflict .renameDeleteConflict paths)
  | .delete, .edit | .edit, .delete => some (structuralConflict .deleteEditConflict paths)
  | .rename, .edit => renameEditPathCollision basePath leftAction right
  | .edit, .rename => renameEditPathCollision basePath rightAction left
  | .delete, .delete =>
    let leftTargets := (valueAt left.renameCandidatesByBasePath basePath).getD []
    let rightTargets := (valueAt right.renameCandidatesByBasePath basePath).getD []
    if leftTargets = [] ∧ rightTargets = [] then none
    else if singleSamePath leftTargets rightTargets then none
    else some (structuralConflict .ambiguousRenameConflict (basePath :: leftTargets ++ rightTargets))
  | _, _ => none

def structuralMergeConflict (left right : StructuralSummary) : Option StructuralConflict :=
  let ofBasePaths := left.byBasePath.findSome? fun (basePath, leftAction) => do
    let rightAction ← valueAt right.byBasePath basePath
    structuralBasePathConflict basePath leftAction rightAction left right
  ofBasePaths.orElse fun _ =>
    (renameTargetCollision left right).orElse fun _ => renameTargetCollision right left

def actionWithoutIdentities (identities : List Path) (action : StructuralAction) : List StructuralAction :=
  match action.kind, action.basePath, action.targetPath with
  | .rename, some basePath, some targetPath =>
    if targetPath ∉ identities then [action]
    else if basePath ∈ identities then []
    else [{ action with kind := .delete, targetPath := none, targetOid := none, renameConfidence := none }]
  | _, _, _ =>
    match action.targetPath.or action.basePath with
    | some path => if path ∈ identities then [] else [action]
    | none => [action]

def structuralSummaryWithoutIdentities (summary : StructuralSummary) (identities : List Path) : StructuralSummary :=
  summaryOf (summary.actions.flatMap (actionWithoutIdentities identities))
    ((summary.renameCandidatesByBasePath.filter fun (path, _) => path ∉ identities).map
      fun (path, targets) => (path, targets.filter (· ∉ identities)))

/-- Identical paths that stay in the classification because a rename from them has a target
that differs. -/
def structuralIdentities (identicalPaths : List Path) (summaries : List StructuralSummary) : List Path :=
  summaries.foldl (fun identities summary =>
    summary.renameCandidatesByBasePath.foldl (fun identities (source, targets) =>
      if targets.any (· ∉ identicalPaths) then identities.filter (· ≠ source) else identities)
      identities) identicalPaths

structure GitMergeRename where
  (sourcePath targetPath : Path)
  deriving DecidableEq

/-- The trees of a merge: the explicit base, the natural base, main and the device's commit. -/
structure MergeTrees where
  (base naturalBase main device : Tree)

/-- The conflict of the two sides, and the renames of main after the natural base that follow
a file the device changed. -/
def classifyStructuralMergeConflict (similar : Tree → Tree → Path → Path → Bool) (t : MergeTrees)
    (mainChanges deviceChanges mainSinceNaturalBase : List GitDiffEntry)
    (sameBase : Bool) (identicalPaths : List Path) : Option StructuralConflict × List GitMergeRename :=
  let mainSummary := summarizeStructuralChanges (similar t.base t.main) t.base t.main mainChanges
  let deviceSummary := summarizeStructuralChanges (similar t.naturalBase t.device) t.naturalBase
    t.device deviceChanges
  let identities := structuralIdentities identicalPaths [mainSummary, deviceSummary]
  let authorizationSummary := if sameBase then mainSummary
    else summarizeStructuralChanges (similar t.naturalBase t.main) t.naturalBase t.main
      mainSinceNaturalBase
  let changedExistingSources := (deviceSummary.actions.filter fun action =>
    action.kind = .edit || action.kind = .delete || action.kind = .rename).map (·.basePath)
  (structuralMergeConflict (structuralSummaryWithoutIdentities mainSummary identities)
      (structuralSummaryWithoutIdentities deviceSummary identities),
    authorizationSummary.actions.filterMap fun action =>
      match action.kind, action.basePath, action.targetPath with
      | .rename, some basePath, some targetPath =>
        if (blobOid t.naturalBase basePath).isSome ∧ some basePath ∈ changedExistingSources then
          some ⟨basePath, targetPath⟩
        else none
      | _, _, _ => none)

end StructuralChanges
