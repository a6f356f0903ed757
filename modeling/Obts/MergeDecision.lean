import Obts.DirectoryProposals
import Obts.StructuralChanges

/-!
# The merge decision

What the server does with a commit that a device pushed: nothing when main already contains
it, a conflict when the two sides cannot be reconciled by policy, and otherwise one of three
ways to build a merge tree. The decision reads the repository and the metadata and changes
neither.

The repository is what Git answers about its commits. Differences come with renames paired by
Git, so the repository carries the law of its own `git diff`.
-/
namespace MergeDecision

open SlashPath InsertionOrder GitTrees StructuralChanges Metadata DirectoryProposals

/-- A path policy violation or a malformed root ignore file. -/
structure PolicyViolation where
  code : String
  path : Option Path := none
  deriving DecidableEq

inductive MergeFailure where
  | policy (violation : PolicyViolation)
  | failure (failure : Failure)
  deriving DecidableEq

structure Repository where
  tree : String → Tree
  /-- The object a directory of a commit is listed with. -/
  directoryOid : String → Path → String
  blobSize : String → Nat
  commitExists : String → Bool
  isAncestor : String → String → Bool
  mergeBase : String → String → Option String
  changedPaths : String → String → List GitDiffEntry
  isDiff : ∀ base commit, IsDiff (tree base) (tree commit) (changedPaths base commit)
  similar : Tree → Tree → Path → Path → Bool
  assertSyncableTreePaths : List Path → Except PolicyViolation Unit
  /-- The paths that a root ignore file excludes, when its text is well formed. -/
  rootIgnorePolicy : String → Except PolicyViolation (Path → Bool)

def unsupportedFileMode : PolicyViolation := ⟨"unsupported_file_mode", none⟩

variable (repo : Repository) (maxBlobBytes : Option Nat)

def checkEntry (entry : TreeEntry) : Except PolicyViolation Unit := do
  if entry.mode = .symlink ∨ entry.mode = .gitlink then throw unsupportedFileMode
  match maxBlobBytes with
  | some limit => if limit < repo.blobSize entry.oid then throw ⟨"file_too_large", none⟩
  | none => pure ()

variable (tree : Tree)

def validateTreePathPolicy : Except PolicyViolation Unit := do
  repo.assertSyncableTreePaths tree.paths
  tree.entries.forM fun (_, entry) => checkEntry repo maxBlobBytes entry

def maxRootIgnoreBytes : Nat := 1024 * 1024

def rootIgnorePath : Path := ⟨".gitignore"⟩

/-- A directory of the tree: some file lies below the path. -/
def isDirectory (path : Path) : Bool := tree.paths.any fun p => path < p

lemma isDirectory_iff {tree : Tree} {p : Path} : isDirectory tree p ↔ ∃ f, tree.get f ≠ none ∧ p < f := by
  simp [isDirectory, FileTrees.FileTree.mem_paths]

def readRootIgnoreBlob : Except PolicyViolation (Option String) :=
  match tree.get rootIgnorePath with
  | some entry =>
    if entry.mode = .symlink ∨ entry.mode = .gitlink then .error ⟨"invalid_root_ignore", none⟩
    else if maxRootIgnoreBytes < repo.blobSize entry.oid then .error ⟨"policy_too_large", none⟩
    else .ok (some entry.oid)
  | none =>
    if isDirectory tree rootIgnorePath then .error ⟨"invalid_root_ignore", none⟩ else .ok none

def validateTreeRootIgnorePolicy : Except PolicyViolation Unit := do
  validateTreePathPolicy repo maxBlobBytes tree
  match ← readRootIgnoreBlob repo tree with
  | none => pure ()
  | some oid =>
    let ignores ← repo.rootIgnorePolicy oid
    tree.paths.forM fun path =>
      if ignores path then throw ⟨"excluded_root_ignore_path", some path⟩ else pure ()

/-- What a push attests of the root ignore file of its target; an absent oid is `none`. -/
structure Attestation where
  rootIgnoreCapability : Bool
  rootIgnoreOid : Option (Option String)
  renamePairs : List RenamePair

def hasRootIgnoreAdmission (maxUploadBytes : Nat) (commit main : String)
    (attestation : Option Attestation) : Except PolicyViolation Bool := do
  let proposed ← readRootIgnoreBlob repo (repo.tree commit)
  let canonical ← readRootIgnoreBlob repo (repo.tree main)
  match attestation.filter (·.rootIgnoreCapability) |>.bind (·.rootIgnoreOid) with
  | none => return proposed.isNone && canonical.isNone
  | some oid =>
    if oid ≠ proposed then return false
    validateTreeRootIgnorePolicy repo (some maxUploadBytes) (repo.tree commit)
    return true

/-- The listing of a commit with its directories. -/
def nodeAt (commit : String) (path : Path) : Option (ObjectType × String) :=
  match (repo.tree commit).get path with
  | some entry => some (entry.mode.objectType, entry.oid)
  | none =>
    if isDirectory (repo.tree commit) path then some (.tree, repo.directoryOid commit path)
    else none

/-- The paths the device changed that main and the device hold with one kind and object. -/
def identicalPaths (main deviceCommit : String) (deviceChanges : List GitDiffEntry) : List Path :=
  (changedPathSet deviceChanges).filter fun path =>
    nodeAt repo main path = nodeAt repo deviceCommit path

def source (pair : RenamePair) : Path := ⟨pair.sourcePath⟩

def destination (pair : RenamePair) : Path := ⟨pair.destinationPath⟩

/-- The conflict of one explicit pair with main, if it has one. -/
def renamePairConflict (base main : String) (mainChanges : List GitDiffEntry)
    (pair : RenamePair) : Option StructuralConflict :=
  let hasSource := (nodeAt repo main (source pair)).isSome
  let hasDestination := (nodeAt repo main (destination pair)).isSome
  if hasSource = hasDestination then
    let competing := (mainChanges.find? (·.oldPath = some (source pair))).map (·.path)
    some (structuralConflict (if hasSource then .renameDestinationOccupied else .competingRename)
      (source pair :: destination pair :: competing.toList))
  else if hasSource then none
  else
    let baseTree := repo.tree base
    let mainTree := repo.tree main
    let summary := summarizeStructuralChanges (repo.similar baseTree mainTree) baseTree mainTree
      mainChanges
    let lineage := (valueAt summary.renameCandidatesByBasePath (source pair)).getD []
    let mainType := (nodeAt repo main (destination pair)).map Prod.fst
    if lineage = [destination pair] ∧ mainType = some .blob then none
    else some (structuralConflict .competingRename (source pair :: destination pair :: lineage))

structure MergeInput where
  (vaultId deviceId deviceCommit : String)
  proposalBase : Option String
  detachedProposal : Bool
  directoryProposal : Option DirectoryProposal
  attestation : Option Attestation

def MergeInput.renamePairs (input : MergeInput) : List RenamePair :=
  match input.attestation with
  | some attestation => attestation.renamePairs
  | none => []

structure ConflictRequest where
  (base main : String)
  affectedPaths : List Path
  reason : ConflictReason
  directoryPlan : Option DirectoryMergePlan
  deriving DecidableEq

/-- The commits a merge starts from. -/
structure MergePoint where
  (base naturalBase main : String)
  directoryPlan : Option DirectoryMergePlan
  deriving DecidableEq

inductive MergeRoute where
  | missingMain
  | covered (main : String) (result : Option DirectoryProposalResultRow)
  | directoryAccepted (main : String) (plan : DirectoryMergePlan)
  | existingConflict (main : String) (conflict : ConflictRecord)
  | conflict (request : ConflictRequest)
  | identityMerge (point : MergePoint) (deviceChanges : List GitDiffEntry) (overlapping : List Path)
  | overlapMerge (point : MergePoint) (deviceChanges : List GitDiffEntry) (overlapping : List Path)
      (mainRenames : List GitMergeRename)
  | disjointMerge (point : MergePoint)
  deriving DecidableEq

/-- What the decision reads besides the repository. -/
structure Server where
  services : DirectoryProposals.Services
  maxUploadBytes : Nat
  db : MetadataDb
  mainRef : Option String

def liftPolicy {α : Type} : Except PolicyViolation α → Except MergeFailure α
  | .ok a => .ok a
  | .error violation => .error (.policy violation)

def liftFailure {α : Type} : Except Failure α → Except MergeFailure α
  | .ok a => .ok a
  | .error failure => .error (.failure failure)

def findOpenConflict (db : MetadataDb) (vaultId deviceId deviceCommit : String) : Option ConflictRecord :=
  db.conflicts.find? fun conflict =>
    conflict.vaultId = vaultId && conflict.deviceId = deviceId &&
      conflict.deviceCommit = deviceCommit && conflict.status = .open

def rootIgnoreConflict (main : String) : MergeRoute :=
  .conflict ⟨main, main, [rootIgnorePath], .rootIgnoreCapabilityRequired, none⟩

/-- The route of a commit that main already contains. -/
def coveredRoute (server : Server) (input : MergeInput) (main : String) : Except MergeFailure MergeRoute := do
  match input.directoryProposal with
  | none => return .covered main none
  | some proposal =>
    let result ← liftFailure <|
      findDirectoryProposalResult server.services server.db input.vaultId input.deviceId proposal
    if result.isSome then return .covered main result
    let admitted ← liftPolicy <|
      hasRootIgnoreAdmission repo server.maxUploadBytes input.deviceCommit main input.attestation
    if !admitted then return rootIgnoreConflict main
    let plan ← liftFailure <|
      classifyDirectoryProposal server.services server.db input.vaultId input.deviceId proposal
    if plan.affectedRoots ≠ [] then
      return .conflict ⟨proposal.baseMain.getD main, main, plan.affectedRoots, .directoryOverlap, some plan⟩
    return .directoryAccepted main plan

variable (entries : List GitDiffEntry)

def hasDestructiveChanges : Bool :=
  entries.any fun entry => entry.status = .deleted || entry.status = .renamed

def destructiveChangedPaths : List Path :=
  sort (ofList (entries.flatMap fun entry =>
    match entry.status with
    | .deleted => [entry.path]
    | .renamed => [entry.oldPath.getD entry.path, entry.path]
    | _ => []))

/-- The changes the structural classification sees: those that no explicit rename owns. -/
def withoutEndpoints (endpoints : List Path) (changes : List GitDiffEntry) : List GitDiffEntry :=
  changes.filter fun entry => entry.endpoints.all (· ∉ endpoints)

/-- The roots that the directory plan contests. -/
def affectedRoots (plan : Option DirectoryMergePlan) : List Path :=
  match plan with
  | some plan => plan.affectedRoots
  | none => []

variable (input : MergeInput)

/-- The paths changed on both sides, or nested between them, that the two sides do not hold
identically. -/
def divergentOverlaps (point : MergePoint) : List Path :=
  let deviceChanges := repo.changedPaths point.naturalBase input.deviceCommit
  let identical := identicalPaths repo point.main input.deviceCommit deviceChanges
  intersectChangedPaths (changesWithoutIdentities (repo.changedPaths point.base point.main) identical)
    (changesWithoutIdentities deviceChanges identical)

/-- The route of a commit whose bases are known: conflicts first, then the three merges. -/
def contentRoute (point : MergePoint) : MergeRoute :=
  let conflict (paths : List Path) (reason : ConflictReason) : MergeRoute :=
    .conflict ⟨point.base, point.main, paths, reason, point.directoryPlan⟩
  let mainChanges := repo.changedPaths point.base point.main
  let deviceChanges := repo.changedPaths point.naturalBase input.deviceCommit
  match input.renamePairs.findSome? (renamePairConflict repo point.base point.main mainChanges) with
  | some found => conflict found.affectedPaths found.reason
  | none =>
    let identical := identicalPaths repo point.main input.deviceCommit deviceChanges
    if input.detachedProposal ∧ hasDestructiveChanges deviceChanges then
      conflict (destructiveChangedPaths deviceChanges) .detachedProposalDeletes
    else
      let endpoints := ofList (input.renamePairs.flatMap fun pair => [source pair, destination pair])
      let (structural, mainRenames) := classifyStructuralMergeConflict repo.similar
        ⟨repo.tree point.base, repo.tree point.naturalBase, repo.tree point.main, repo.tree input.deviceCommit⟩
        (withoutEndpoints endpoints mainChanges) (withoutEndpoints endpoints deviceChanges)
        (repo.changedPaths point.naturalBase point.main) (point.naturalBase = point.base) identical
      let roots := affectedRoots point.directoryPlan
      match structural with
      | some found =>
        if roots ≠ [] then conflict (sort (ofList (found.affectedPaths ++ roots))) .mixedDirectoryOverlap
        else conflict found.affectedPaths found.reason
      | none =>
        let overlapping := divergentOverlaps repo input point
        if roots ≠ [] then
          conflict (sort (ofList (overlapping ++ roots)))
            (if overlapping ≠ [] then .mixedDirectoryOverlap else .directoryOverlap)
        else
          let identicalOverlaps := (intersectChangedPaths mainChanges deviceChanges).filter (· ∈ identical)
          if overlapping = [] then
            if identicalOverlaps ≠ [] ∧ input.renamePairs = [] then
              .identityMerge point deviceChanges identicalOverlaps
            else .disjointMerge point
          else .overlapMerge point deviceChanges overlapping mainRenames

/-- The base of the three-way merge: the proposal's, when it belongs to both histories, else
the natural one. -/
inductive BaseChoice where
  | valid (base : String)
  | invalid
  | missing

def chooseBase (main : String) (naturalBase : Option String) : BaseChoice :=
  match input.proposalBase.filter (· ≠ "") with
  | some base =>
    if repo.commitExists base && repo.isAncestor base main && repo.isAncestor base input.deviceCommit
    then .valid base else .invalid
  | none =>
    match naturalBase with
    | some base => .valid base
    | none => .missing

def mergeRoute (server : Server) (input : MergeInput) : Except MergeFailure MergeRoute := do
  let some main := server.mainRef | return .missingMain
  if repo.isAncestor input.deviceCommit main then
    coveredRoute repo server input main
  else
    match findOpenConflict server.db input.vaultId input.deviceId input.deviceCommit with
    | some conflict => return .existingConflict main conflict
    | none =>
      let admitted ← liftPolicy <|
        hasRootIgnoreAdmission repo server.maxUploadBytes input.deviceCommit main input.attestation
      if !admitted then return rootIgnoreConflict main
      let naturalBase := repo.mergeBase main input.deviceCommit
      match chooseBase repo input main naturalBase, naturalBase with
      | .invalid, _ => return .conflict ⟨"", main, [], .invalidProposalBase, none⟩
      | .valid base, some naturalBase =>
        let directoryPlan ← input.directoryProposal.mapM fun proposal => liftFailure <|
          classifyDirectoryProposal server.services server.db input.vaultId input.deviceId proposal
        return contentRoute repo input ⟨base, naturalBase, main, directoryPlan⟩
      | _, _ => return .conflict ⟨"", main, [], .noMergeBase, none⟩

/-- What the decision has established when it reaches the contents. -/
structure IsMergePoint (repo : Repository) (server : Server) (input : MergeInput) (point : MergePoint) : Prop where
  mainRef : server.mainRef = some point.main
  uncovered : repo.isAncestor input.deviceCommit point.main = false
  naturalBase : repo.mergeBase point.main input.deviceCommit = some point.naturalBase
  base : chooseBase repo input point.main (some point.naturalBase) = .valid point.base

/-- The content route ends in a conflict at the point's own base, or in one of the merges. -/
lemma contentRoute_cases (repo : Repository) (input : MergeInput) (point : MergePoint) :
    (∃ paths reason, contentRoute repo input point
      = .conflict ⟨point.base, point.main, paths, reason, point.directoryPlan⟩) ∨
    (divergentOverlaps repo input point = [] ∧ input.renamePairs = [] ∧
      ∃ overlapping, overlapping ≠ [] ∧ contentRoute repo input point = .identityMerge point
        (repo.changedPaths point.naturalBase input.deviceCommit) overlapping) ∨
    (∃ overlapping renames, overlapping ≠ [] ∧ contentRoute repo input point = .overlapMerge point
        (repo.changedPaths point.naturalBase input.deviceCommit) overlapping renames) ∨
    (divergentOverlaps repo input point = [] ∧ contentRoute repo input point = .disjointMerge point) := by
  unfold contentRoute
  dsimp only
  split
  · exact .inl ⟨_, _, rfl⟩
  split
  · exact .inl ⟨_, _, rfl⟩
  split
  · split
    · exact .inl ⟨_, _, rfl⟩
    · exact .inl ⟨_, _, rfl⟩
  split
  · exact .inl ⟨_, _, rfl⟩
  split
  · rename_i hover
    split
    · rename_i hiden
      exact .inr (.inl ⟨hover, hiden.2, _, hiden.1, rfl⟩)
    · exact .inr (.inr (.inr ⟨hover, rfl⟩))
  · rename_i hover
    exact .inr (.inr (.inl ⟨_, _, hover, rfl⟩))

variable {input : MergeInput} {repo : Repository}

/-- The routes that merge contents. -/
def MergeRoute.mergesContent : MergeRoute → Bool
  | .identityMerge _ _ _ | .overlapMerge _ _ _ _ | .disjointMerge _ => true
  | _ => false

variable {server : Server} {route : MergeRoute}

lemma coveredRoute_mergesContent {main : String} (h : coveredRoute repo server input main = .ok route) :
    ¬ route.mergesContent := by
  unfold coveredRoute at h
  split at h
  · cases h
    exact Bool.false_ne_true
  obtain ⟨result, -, h⟩ := bind_eq_ok.mp h
  split at h
  · cases h
    exact Bool.false_ne_true
  obtain ⟨admitted, -, h⟩ := bind_eq_ok.mp h
  split at h
  · cases h
    exact Bool.false_ne_true
  obtain ⟨plan, -, h⟩ := bind_eq_ok.mp h
  split at h
  all_goals
    cases h
    exact Bool.false_ne_true

/-- Contents are merged by the content route only. -/
lemma contentRoute_of_mergesContent (h : mergeRoute repo server input = .ok route) (hmerges : route.mergesContent) :
    ∃ point, IsMergePoint repo server input point ∧ route = contentRoute repo input point := by
  unfold mergeRoute at h
  cases hmain : server.mainRef with
  | none =>
    simp only [hmain] at h
    cases h
    cases hmerges
  | some main =>
    simp only [hmain] at h
    split at h
    · exact absurd hmerges (coveredRoute_mergesContent h)
    rename_i hunc
    split at h
    · cases h
      cases hmerges
    obtain ⟨admitted, -, h⟩ := bind_eq_ok.mp h
    split at h
    · cases h
      cases hmerges
    split at h
    · cases h
      cases hmerges
    · rename_i base naturalBase hbase hnat
      obtain ⟨plan, -, h⟩ := bind_eq_ok.mp h
      cases h
      rw [hnat] at hbase
      exact ⟨⟨base, naturalBase, main, plan⟩, ⟨hmain, by simpa using hunc, hnat, hbase⟩, rfl⟩
    · cases h
      cases hmerges

end MergeDecision
