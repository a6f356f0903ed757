import Obts.FileTrees
import Obts.SlashPath

/-!
# Git trees and their differences

The trees of commits, the two ways the server reads their differences, and the merge tree
that it assembles through a temporary index. `git diff` pairs renames by content, which
belongs to Git: its output is any list of entries that names every differing path once and
pairs removed paths with added ones.
-/
namespace GitTrees

open SlashPath FileTrees InsertionOrder List

inductive FileMode where
  | regular
  | executable
  | symlink
  | gitlink
  deriving DecidableEq

inductive ObjectType where
  | blob
  | tree
  | commit
  deriving DecidableEq

def FileMode.objectType : FileMode → ObjectType
  | .gitlink => .commit
  | _ => .blob

structure TreeEntry where
  mode : FileMode
  oid : String
  deriving DecidableEq

abbrev Tree := FileTree Path TreeEntry

/-- Git lists paths by their bytes, which for UTF-8 is the order of code points. -/
def gitOrder : Path → Path → Ordering := compareOn fun p => p.text.toList.map Char.toNat

/-- The raw difference of two trees without rename pairing: each differing path with its new
entry, or none when the path is removed. -/
def diffTree (base target : Tree) : List (Path × Option TreeEntry) :=
  sortBy (fun a b => gitOrder a.1 b.1) (diff base target)

lemma diffTree_perm (base target : Tree) : (diffTree base target).Perm (diff base target) :=
  sortBy_perm _ _

/-- The index that starts as the current tree and takes each raw difference: a removed path is
dropped, any other replaces what stands at, above or below it. -/
def disjointMergeTree (base currentMain device : Tree) : Tree :=
  applyEdits currentMain (diffTree base device)

/-- A file that the device wrote since the base stands strictly above or below the path. -/
abbrev DeviceWroteBeside (base device : Tree) (p : Path) : Prop := WrittenBeside base device p

variable {p : Path} {entries : List GitDiffEntry} {identities : List Path} {e : GitDiffEntry}
  {currentMain device base : Tree}

lemma disjointMergeTree_of_ne (h : base.get p ≠ device.get p) :
    (disjointMergeTree base currentMain device).get p = device.get p :=
  get_replay_of_ne (diffTree_perm base device) currentMain h

lemma disjointMergeTree_of_eq (h : base.get p = device.get p) (hbes : ¬ DeviceWroteBeside base device p) :
    (disjointMergeTree base currentMain device).get p = currentMain.get p :=
  get_replay_of_eq (diffTree_perm base device) currentMain h hbes

lemma disjointMergeTree_of_wroteBeside (h : base.get p = device.get p) (hbes : DeviceWroteBeside base device p) :
    (disjointMergeTree base currentMain device).get p = none :=
  get_replay_of_writtenBeside (diffTree_perm base device) currentMain h hbes

/-- A path beside a file that the device wrote is absent from the device's tree. -/
lemma device_get_of_wroteBeside (h : DeviceWroteBeside base device p) : device.get p = none := by
  obtain ⟨w, _, hw, hn⟩ := h
  exact FileTree.get_eq_none_of_nested hw hn

inductive DiffStatus where
  | added
  | modified
  | typeChanged
  | deleted
  | renamed
  deriving DecidableEq

structure GitDiffEntry where
  status : DiffStatus
  oldPath : Option Path
  path : Path
  deriving DecidableEq

namespace GitDiffEntry

/-- The paths an entry names. -/
def endpoints (e : GitDiffEntry) : List Path := e.path :: e.oldPath.toList

lemma mem_endpoints : p ∈ e.endpoints ↔ p = e.path ∨ e.oldPath = some p := by
  simp [endpoints]

/-- What one line of the output says of the two trees. -/
def Describes (e : GitDiffEntry) (x y : Tree) : Prop :=
  match e.status, e.oldPath with
  | .added, none => x.get e.path = none ∧ y.get e.path ≠ none
  | .modified, none | .typeChanged, none =>
    x.get e.path ≠ none ∧ y.get e.path ≠ none ∧ x.get e.path ≠ y.get e.path
  | .deleted, none => x.get e.path ≠ none ∧ y.get e.path = none
  | .renamed, some old =>
    (x.get old ≠ none ∧ y.get old = none) ∧ (x.get e.path = none ∧ y.get e.path ≠ none)
  | _, _ => False

instance (e : GitDiffEntry) (x y : Tree) : Decidable (e.Describes x y) := by
  unfold Describes
  split <;> infer_instance

end GitDiffEntry

/-- The output of `git diff --name-status -M` on two trees. -/
structure IsDiff (x y : Tree) (entries : List GitDiffEntry) : Prop where
  describes : ∀ e ∈ entries, e.Describes x y
  complete : ∀ p, x.get p ≠ y.get p → p ∈ entries.flatMap GitDiffEntry.endpoints
  nodup : (entries.flatMap GitDiffEntry.endpoints).Nodup

lemma GitDiffEntry.Describes.ne {x y : Tree} (h : e.Describes x y) (hp : p ∈ e.endpoints) : x.get p ≠ y.get p := by
  obtain ⟨status, oldPath, path⟩ := e
  cases oldPath with
  | none =>
    simp only [endpoints, Option.toList_none, mem_singleton] at hp
    subst hp
    cases status with
    | added => exact fun heq => h.2 (heq ▸ h.1)
    | modified | typeChanged => exact h.2.2
    | deleted => exact fun heq => h.1 (heq ▸ h.2)
    | renamed => exact h.elim
  | some old =>
    cases status with
    | renamed =>
      simp only [endpoints, Option.toList_some, mem_cons, not_mem_nil, or_false] at hp
      rcases hp with rfl | rfl
      · exact fun heq => h.2.2 (heq ▸ h.2.1)
      · exact fun heq => h.1.1 (heq ▸ h.1.2)
    | added | modified | typeChanged | deleted => exact h.elim

def changedPathSet (entries : List GitDiffEntry) : List Path :=
  ofList (entries.flatMap GitDiffEntry.endpoints)

@[simp] lemma mem_changedPathSet : p ∈ changedPathSet entries ↔ ∃ e ∈ entries, p ∈ e.endpoints := by
  simp [changedPathSet]

/-- The changed paths are those at which the trees differ. -/
lemma IsDiff.mem_changedPathSet {x y : Tree}
    (h : IsDiff x y entries) : p ∈ changedPathSet entries ↔ x.get p ≠ y.get p := by
  constructor
  · intro hp
    obtain ⟨e, he, hpe⟩ := GitTrees.mem_changedPathSet.mp hp
    exact (h.describes e he).ne hpe
  · intro hne
    simpa [changedPathSet] using h.complete p hne

/-- One line of a difference without renames. -/
def plainEntry (x y : Tree) (p : Path) : GitDiffEntry :=
  ⟨if x.get p = none then .added else if y.get p = none then .deleted else .modified, none, p⟩

/-- The difference when Git pairs no rename. -/
def plainDiff (x y : Tree) : List GitDiffEntry := (diffTree x y).map fun e => plainEntry x y e.1

lemma endpoints_plainDiff (x y : Tree) :
    (plainDiff x y).flatMap GitDiffEntry.endpoints = (diffTree x y).map Prod.fst := by
  rw [plainDiff, flatMap_map, ← flatMap_singleton' ((diffTree x y).map Prod.fst), flatMap_map]
  rfl

lemma isDiff_plainDiff (x y : Tree) : IsDiff x y (plainDiff x y) where
  describes e he := by
    obtain ⟨edit, hedit, rfl⟩ := mem_map.mp he
    have hne := (mem_diff.mp ((diffTree_perm x y).mem_iff.mp hedit)).1
    by_cases hx : x.get edit.1 = none
    · rw [hx] at hne
      simp [plainEntry, GitDiffEntry.Describes, hx, hne.symm]
    by_cases hy : y.get edit.1 = none
    · simp [plainEntry, GitDiffEntry.Describes, hx, hy]
    · simp [plainEntry, GitDiffEntry.Describes, hx, hy, hne]
  complete p hne := by
    rw [endpoints_plainDiff]
    have hmem : (p, y.get p) ∈ diffTree x y :=
      (diffTree_perm x y).mem_iff.mpr (mem_diff.mpr ⟨hne, rfl⟩)
    exact mem_map_of_mem (f := Prod.fst) hmem
  nodup := by
    rw [endpoints_plainDiff]
    exact ((diffTree_perm x y).map Prod.fst).nodup_iff.mpr (nodup_diff x y)

def changedPathsConflict (left right : Path) : Bool :=
  left = right || left.startsWithDir right || right.startsWithDir left

lemma changedPathsConflict_iff {left right : Path} :
    changedPathsConflict left right ↔ left = right ∨ Nested left right := by
  simp [changedPathsConflict, Nested, Path.startsWithDir_iff_lt]
  tauto

def intersectChangedPaths (left right : List GitDiffEntry) : List Path :=
  sort (ofList ((changedPathSet left).flatMap fun leftPath =>
    (changedPathSet right).flatMap fun rightPath =>
      if changedPathsConflict leftPath rightPath then [leftPath, rightPath] else []))

lemma mem_intersectChangedPaths {left right : List GitDiffEntry} :
    p ∈ intersectChangedPaths left right ↔ ∃ l ∈ changedPathSet left, ∃ r ∈ changedPathSet right,
        changedPathsConflict l r ∧ (p = l ∨ p = r) := by
  simp only [intersectChangedPaths, mem_sort, mem_ofList, mem_flatMap]
  constructor
  · rintro ⟨l, hl, r, hr, hp⟩
    split at hp
    · rename_i hconf
      exact ⟨l, hl, r, hr, hconf, by simpa using hp⟩
    · simp at hp
  · rintro ⟨l, hl, r, hr, hconf, hp⟩
    exact ⟨l, hl, r, hr, by simpa [hconf] using hp⟩

/-- Changes do not overlap when no path of one is, or stands above or below, a path of the
other. -/
lemma intersectChangedPaths_eq_nil {left right : List GitDiffEntry} : intersectChangedPaths left right = [] ↔
      ∀ l ∈ changedPathSet left, ∀ r ∈ changedPathSet right, l ≠ r ∧ ¬ Nested l r := by
  rw [eq_nil_iff_forall_not_mem]
  constructor
  · intro h l hl r hr
    rw [← not_or, ← changedPathsConflict_iff]
    exact fun hconf => h l (mem_intersectChangedPaths.mpr ⟨l, hl, r, hr, hconf, Or.inl rfl⟩)
  intro h p hp
  obtain ⟨l, hl, r, hr, hconf, _⟩ := mem_intersectChangedPaths.mp hp
  obtain ⟨hne, hnst⟩ := h l hl r hr
  rcases changedPathsConflict_iff.mp hconf with heq | hn
  · exact hne heq
  · exact hnst hn

/-- A rename whose endpoints both diverge stays; one that diverges at a single endpoint is
split. -/
def withoutIdentities (identities : List Path) (entry : GitDiffEntry) : List GitDiffEntry :=
  match entry.oldPath with
  | some oldPath =>
    if entry.path ∉ identities ∧ oldPath ∉ identities then [entry]
    else (if oldPath ∉ identities then [⟨.deleted, none, oldPath⟩] else []) ++
      (if entry.path ∉ identities then [⟨.added, none, entry.path⟩] else [])
  | none => if entry.path ∈ identities then [] else [entry]

def changesWithoutIdentities (changes : List GitDiffEntry) (identities : List Path) : List GitDiffEntry :=
  changes.flatMap (withoutIdentities identities)

lemma mem_endpoints_withoutIdentities {entry : GitDiffEntry} :
    (∃ e ∈ withoutIdentities identities entry, p ∈ e.endpoints) ↔ p ∈ entry.endpoints ∧ p ∉ identities := by
  obtain ⟨status, oldPath, path⟩ := entry
  cases oldPath with
  | none =>
    by_cases hpath : path ∈ identities
    · simpa [withoutIdentities, GitDiffEntry.mem_endpoints, hpath] using fun h : p = path => h ▸ hpath
    · simpa [withoutIdentities, GitDiffEntry.mem_endpoints, hpath] using fun h : p = path => h ▸ hpath
  | some old =>
    simp only [withoutIdentities]
    by_cases hpath : path ∈ identities
    · by_cases hold : old ∈ identities
      · simp only [GitDiffEntry.mem_endpoints, hpath, hold]
        simpa using fun h => h.elim (fun h => h ▸ hpath) (fun h => h ▸ hold)
      by_cases hp : p = old
      · simp [GitDiffEntry.mem_endpoints, hpath, hold, hp]
      · simpa [GitDiffEntry.mem_endpoints, hpath, hold, hp, Ne.symm hp] using
          fun h : p = path => h ▸ hpath
    · by_cases hold : old ∈ identities
      · by_cases hp : p = path
        · simp [GitDiffEntry.mem_endpoints, hpath, hold, hp]
        · simpa [GitDiffEntry.mem_endpoints, hpath, hold, hp] using fun h : old = p => h ▸ hold
      · simp only [GitDiffEntry.mem_endpoints, hpath, hold]
        simpa using fun h => h.elim (fun h => h ▸ hpath) (fun h => h ▸ hold)

/-- Filtering identities removes exactly the identical paths. -/
lemma mem_changedPathSet_changesWithoutIdentities {changes : List GitDiffEntry} :
    p ∈ changedPathSet (changesWithoutIdentities changes identities) ↔
      p ∈ changedPathSet changes ∧ p ∉ identities := by
  rw [mem_changedPathSet, mem_changedPathSet]
  constructor
  · rintro ⟨e, he, hp⟩
    obtain ⟨entry, hentry, he⟩ := mem_flatMap.mp he
    obtain ⟨hpe, hnot⟩ := mem_endpoints_withoutIdentities.mp ⟨e, he, hp⟩
    exact ⟨⟨entry, hentry, hpe⟩, hnot⟩
  · rintro ⟨⟨entry, hentry, hpe⟩, hnot⟩
    obtain ⟨e, he, hp⟩ := mem_endpoints_withoutIdentities.mpr ⟨hpe, hnot⟩
    exact ⟨e, mem_flatMap.mpr ⟨entry, hentry, he⟩, hp⟩

end GitTrees
