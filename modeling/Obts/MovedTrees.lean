import Obts.MergeDecision
import Obts.PushManifests

/-!
# Trees with moved files

Before a merge with explicit renames, the trees of the base, of main and of the device are rewritten as if the
renames had been made: every source that a tree has is deleted from a temporary index, and its entry is added
at its destination. The listing that is consulted has directories as well as files. Adding an entry to the
index replaces the entries it conflicts with; a destination is checked for being occupied, but not for lying
below a file.

What Git makes of a directory's own entry is a parameter: it is refused, or whatever is staged for it leaves
the files beside the destination in the index.
-/
namespace MovedTrees

open SlashPath FileTrees ForestEdits InsertionOrder GitTrees JsonRecords PathPolicy PushManifests List Option FileTree
open MergeDecision (isDirectory isDirectory_iff)
open Metadata (bind_eq_ok RenamePair)

structure GitCommandError where
  message : String

/-- What `update-index` does with an entry of mode 040000. -/
structure DirectoryStaging where
  accepts : Bool
  /-- The index after the directory at `source` of the commit is added at `destination`. -/
  stage (commit : Tree) (source : Path) (index : Tree) (destination : Path) : Tree
  kept : ∀ commit source index destination x, ¬ Overlap destination x → index.get x ≠ none →
    (stage commit source index destination).get x ≠ none

def source (pair : RenamePair) : Path := ⟨pair.sourcePath⟩

def destination (pair : RenamePair) : Path := ⟨pair.destinationPath⟩

def parseRenamePairs (u : Normalization) (value : Option Json) : Except ValidationError (List RenamePair) := do
  match ← readOptionalRenamePairs u (value.toList.map fun value => ("rename_pairs", value)) with
  | some pairs => .ok pairs
  | none => .error (invalidRequest "Rename pairs are required." "rename_pairs")

inductive ListedEntry where
  | file (entry : TreeEntry)
  | directory

variable (commit : Tree)

/-- The entry of `ls-tree -r -t` at a path. -/
def listed (path : Path) : Option ListedEntry :=
  match commit.get path with
  | some entry => some (.file entry)
  | none => if isDirectory commit path then some .directory else none

structure Move where
  source : Path
  entry : ListedEntry
  destination : Path

structure Moves where
  sourceDeletions : List Path := []
  moved : List Move := []

/-- One round of the loop over the pairs. -/
def collect (moves : Moves) (pair : RenamePair) : Except GitCommandError Moves :=
  match listed commit (source pair) with
  | none => .ok moves
  | some entry =>
    if (listed commit (destination pair)).isSome then .error ⟨"Rename destination is occupied."⟩
    else .ok
      { sourceDeletions := moves.sourceDeletions ++ [source pair]
        moved := moves.moved ++ [⟨source pair, entry, destination pair⟩] }

/-- One added line of the index information. -/
def stage (git : DirectoryStaging) (commit index : Tree) (move : Move) : Except GitCommandError Tree :=
  match move.entry with
  | .file entry => .ok (index.put move.destination entry)
  | .directory =>
    if git.accepts then .ok (git.stage commit move.source index move.destination)
    else .error ⟨"git update-index failed"⟩

def createMovedTree (git : DirectoryStaging) (commit : Tree) (pairs : List RenamePair) :
    Except GitCommandError Tree := do
  let moves ← pairs.foldlM (collect commit) {}
  if moves.sourceDeletions = [] then return commit
  moves.moved.foldlM (stage git commit) (moves.sourceDeletions.foldl FileTree.erase commit)

/-- The endpoints of all pairs, in order. -/
def footprint (pairs : List RenamePair) : List Path := pairs.flatMap fun pair => [source pair, destination pair]

variable {path : Path} {tree : Tree}

section Footprint

variable {u : Normalization} {pairs : List RenamePair} {endpoints : List Path}

lemma addEndpoint_ok {endpoints' : List Path} (h : addEndpoint endpoints path = .ok endpoints') :
    (∀ e ∈ endpoints, ¬ Overlap path e) ∧ ∀ e, e ∈ endpoints' ↔ e ∈ endpoints ∨ e = path := by
  unfold addEndpoint at h
  split at h
  · cases h
  rename_i hnone
  cases h
  constructor
  · intro e he hover
    exact hnone (any_eq_true.mpr ⟨e, he, pathsOverlap_iff.mpr hover⟩)
  · intro e
    exact mem_add

/-- The endpoints of accepted pairs do not overlap each other or the endpoints before them. -/
lemma footprint_readRenamePairs {previous : Option Path} {items : List Json}
    (h : readRenamePairs u previous endpoints items = .ok pairs) :
    (footprint pairs).Pairwise (fun a b => ¬ Overlap a b) ∧
      ∀ p ∈ footprint pairs, ∀ e ∈ endpoints, ¬ Overlap p e := by
  induction items generalizing previous endpoints pairs with
  | nil =>
    cases h
    exact ⟨List.Pairwise.nil, fun p hp => absurd hp not_mem_nil⟩
  | cons item items ih =>
    obtain ⟨⟨pair, key, next⟩, hpair, h⟩ := bind_eq_ok.mp h
    obtain ⟨rest, hrest, h⟩ := bind_eq_ok.mp h
    cases h
    obtain ⟨hapart, hnext⟩ := ih hrest
    obtain ⟨fields, -, hpair⟩ := bind_eq_ok.mp hpair
    split at hpair
    · cases hpair
    obtain ⟨sourcePath, -, hpair⟩ := bind_eq_ok.mp hpair
    obtain ⟨destinationPath, -, hpair⟩ := bind_eq_ok.mp hpair
    split at hpair
    · cases hpair
    dsimp only at hpair
    split at hpair
    · cases hpair
    obtain ⟨first, hfirst, hpair⟩ := bind_eq_ok.mp hpair
    obtain ⟨second, hsnd, hpair⟩ := bind_eq_ok.mp hpair
    obtain ⟨rfl, rfl, rfl⟩ : ⟨sourcePath, destinationPath⟩ = pair ∧ _ = key ∧ second = next := by
      simpa using hpair
    obtain ⟨hsouA, hfirst⟩ := addEndpoint_ok hfirst
    obtain ⟨hdesA, hsnd⟩ := addEndpoint_ok hsnd
    have hends : footprint (⟨sourcePath, destinationPath⟩ :: rest)
        = ⟨sourcePath⟩ :: ⟨destinationPath⟩ :: footprint rest := rfl
    rw [hends]
    have hlater : ∀ p ∈ footprint rest, ¬ Overlap (⟨sourcePath⟩ : Path) p ∧
        ¬ Overlap (⟨destinationPath⟩ : Path) p := by
      intro p hp
      constructor
      · intro hover
        exact hnext p hp _ ((hsnd _).mpr (.inl ((hfirst _).mpr (.inr rfl)))) hover.symm
      · intro hover
        exact hnext p hp _ ((hsnd _).mpr (.inr rfl)) hover.symm
    have hpaiA : ¬ Overlap (⟨sourcePath⟩ : Path) ⟨destinationPath⟩ := by
      intro hover
      exact hdesA _ ((hfirst _).mpr (.inr rfl)) hover.symm
    constructor
    · rw [pairwise_cons, pairwise_cons]
      refine ⟨fun p hp => ?_, fun p hp => (hlater p hp).2, hapart⟩
      rcases mem_cons.mp hp with rfl | hp
      · exact hpaiA
      · exact (hlater p hp).1
    · intro p hp e he
      rcases mem_cons.mp hp with rfl | hp
      · exact hsouA e he
      rcases mem_cons.mp hp with rfl | hp
      · exact hdesA e ((hfirst e).mpr (.inl he))
      · exact hnext p hp e ((hsnd e).mpr (.inl ((hfirst e).mpr (.inl he))))

lemma footprint_parseRenamePairs {value : Option Json}
    (h : parseRenamePairs u value = .ok pairs) : (footprint pairs).Pairwise fun a b => ¬ Overlap a b := by
  obtain ⟨read, hread, h⟩ := bind_eq_ok.mp h
  cases read with
  | none => cases h
  | some read =>
    cases h
    unfold readOptionalRenamePairs at hread
    split at hread
    · cases hread
    · split at hread
      · cases hread
      cases hitems : readRenamePairs u none [] _ with
      | error e =>
        rw [hitems] at hread
        cases hread
      | ok found =>
        rw [hitems] at hread
        cases hread
        exact (footprint_readRenamePairs hitems).1
    · cases hread

end Footprint

/-- The moves of the pairs whose source the commit has. -/
def presentMoves (pairs : List RenamePair) : List Move :=
  pairs.filterMap fun pair => (listed commit (source pair)).map fun entry => ⟨source pair, entry, destination pair⟩

/-- A pair to move has its destination taken. -/
def Occupied (pairs : List RenamePair) : Prop :=
  ∃ pair ∈ pairs, (listed commit (source pair)).isSome ∧ (listed commit (destination pair)).isSome

section Moves

variable {git : DirectoryStaging} {commit : Tree} {pairs : List RenamePair} {moves : List Move}
  {move : Move}

lemma collect_ok_iff {moves moves' : Moves} : pairs.foldlM (collect commit) moves = .ok moves' ↔
      ¬ Occupied commit pairs ∧ moves' = ⟨moves.sourceDeletions ++ (presentMoves commit pairs).map Move.source,
          moves.moved ++ presentMoves commit pairs⟩ := by
  induction pairs generalizing moves with
  | nil =>
    simp only [foldlM_nil, presentMoves, filterMap_nil, map_nil, append_nil]
    constructor
    · intro h
      cases h
      exact ⟨fun ⟨_, hpair, _⟩ => absurd hpair not_mem_nil, rfl⟩
    · rintro ⟨-, rfl⟩
      rfl
  | cons pair pairs ih =>
    have hocc : Occupied commit (pair :: pairs) ↔
        ((listed commit (source pair)).isSome ∧ (listed commit (destination pair)).isSome) ∨
          Occupied commit pairs := by
      simp [Occupied]
    rw [foldlM_cons, hocc]
    cases hsrc : listed commit (source pair) with
    | none =>
      have hcoll : collect commit moves pair = .ok moves := by rw [collect, hsrc]
      rw [hcoll]
      change List.foldlM (collect commit) moves pairs = .ok moves' ↔ _
      rw [ih]
      simp [presentMoves, hsrc]
    | some entry =>
      by_cases htaken : (listed commit (destination pair)).isSome
      · have hcoll : collect commit moves pair = .error ⟨"Rename destination is occupied."⟩ := by
          rw [collect, hsrc]
          exact if_pos htaken
        rw [hcoll]
        constructor
        · intro h
          cases h
        · rintro ⟨hfree, -⟩
          exact absurd (.inl ⟨rfl, htaken⟩) hfree
      · have hcoll : collect commit moves pair = .ok ⟨moves.sourceDeletions ++ [source pair],
            moves.moved ++ [⟨source pair, entry, destination pair⟩]⟩ := by
          rw [collect, hsrc]
          exact if_neg htaken
        rw [hcoll]
        change List.foldlM (collect commit) _ pairs = .ok moves' ↔ _
        rw [ih]
        simp [presentMoves, hsrc, htaken]

lemma mem_presentMoves :
    move ∈ presentMoves commit pairs ↔ ∃ pair ∈ pairs, listed commit (source pair) = some move.entry ∧
      move.source = source pair ∧ move.destination = destination pair := by
  obtain ⟨left, entry, arrived⟩ := move
  simp only [presentMoves, mem_filterMap, map_eq_some_iff, Move.mk.injEq]
  constructor
  · rintro ⟨pair, hpair, entry', hlst, rfl, rfl, rfl⟩
    exact ⟨pair, hpair, hlst, rfl, rfl⟩
  · rintro ⟨pair, hpair, hlst, rfl, rfl⟩
    exact ⟨pair, hpair, entry, hlst, rfl, rfl, rfl⟩

lemma createMovedTree_ok_iff : createMovedTree git commit pairs = .ok tree ↔ ¬ Occupied commit pairs ∧
      (presentMoves commit pairs).foldlM (stage git commit)
        (((presentMoves commit pairs).map Move.source).foldl FileTree.erase commit) = .ok tree := by
  constructor
  · intro h
    obtain ⟨moves, hmoves, h⟩ := bind_eq_ok.mp h
    obtain ⟨hfree, rfl⟩ := collect_ok_iff.mp hmoves
    refine ⟨hfree, ?_⟩
    split at h
    · rename_i hnone
      rw [map_eq_nil_iff.mp hnone]
      exact h
    · exact h
  · rintro ⟨hfree, h⟩
    refine bind_eq_ok.mpr ⟨_, collect_ok_iff.mpr ⟨hfree, rfl⟩, ?_⟩
    split
    · rename_i hnone
      rw [map_eq_nil_iff.mp hnone] at h
      exact h
    · exact h

/-- The entry of a moved file. -/
def Move.file (move : Move) : Option TreeEntry :=
  match move.entry with
  | .file entry => some entry
  | .directory => none

/-- The lines of the index information: deletions, then additions. -/
def edits (moves : List Move) : List (Path × Option TreeEntry) :=
  moves.map (fun move => (move.source, none)) ++ moves.map fun move => (move.destination, move.file)

lemma stage_files (hfiles : ∀ move ∈ moves, move.entry ≠ .directory) (index : Tree) :
    moves.foldlM (stage git commit) index
      = .ok (applyEdits index (moves.map fun move => (move.destination, move.file))) := by
  induction moves generalizing index with
  | nil => rfl
  | cons move moves ih =>
    have hstage : stage git commit index move = .ok (applyEdit index (move.destination, move.file)) := by
      have hmove := hfiles move mem_cons_self
      rw [stage, Move.file]
      cases hentry : move.entry with
      | file entry => rfl
      | directory => exact absurd hentry hmove
    rw [foldlM_cons, hstage]
    exact ih (fun other hother => hfiles other (mem_cons_of_mem _ hother)) _

lemma stage_erased_files (hfiles : ∀ move ∈ moves, move.entry ≠ .directory) :
    moves.foldlM (stage git commit) ((moves.map Move.source).foldl FileTree.erase commit)
      = .ok (applyEdits commit (edits moves)) := by
  have herase : (moves.map Move.source).foldl erase commit
      = applyEdits commit (moves.map fun move => (move.source, none)) := by
    rw [applyEdits, foldl_map, foldl_map]
    rfl
  rw [stage_files hfiles, herase, edits, applyEdits, applyEdits, applyEdits, foldl_append]

variable (hapart : (footprint pairs).Pairwise fun a b => ¬ Overlap a b)
include hapart

lemma eq_of_overlap {p q : Path} (hp : p ∈ footprint pairs) (hq : q ∈ footprint pairs) (h : Overlap p q) :
    p = q := by
  by_contra hne
  have hsymm : Std.Symm fun a b : Path => ¬ Overlap a b := ⟨fun a b hab hba => hab hba.symm⟩
  exact hapart.forall hp hq hne h

omit hapart in
lemma source_mem_footprint (h : move ∈ presentMoves commit pairs) :
    move.source ∈ footprint pairs ∧ move.destination ∈ footprint pairs := by
  obtain ⟨pair, hpair, -, hsrc, hdst⟩ := mem_presentMoves.mp h
  rw [hsrc, hdst]
  constructor
  · exact mem_flatMap.mpr ⟨pair, hpair, by simp⟩
  · exact mem_flatMap.mpr ⟨pair, hpair, by simp⟩

lemma nodup_endpoints : ((presentMoves commit pairs).map Move.source ++
    (presentMoves commit pairs).map Move.destination).Nodup := by
  have hpres : ((presentMoves commit pairs).flatMap fun move => [move.source, move.destination]).Sublist
      (footprint pairs) := by
    clear hapart
    induction pairs with
    | nil => exact List.Sublist.slnil
    | cons pair pairs ih =>
      have hends : footprint (pair :: pairs) = [source pair, destination pair] ++ footprint pairs := rfl
      cases hlst : listed commit (source pair) with
      | none =>
        have hmoves : presentMoves commit (pair :: pairs) = presentMoves commit pairs := by
          simp [presentMoves, hlst]
        rw [hmoves]
        exact ih.trans (sublist_append_right _ _)
      | some entry =>
        have hmoves : presentMoves commit (pair :: pairs)
            = ⟨source pair, entry, destination pair⟩ :: presentMoves commit pairs := by
          simp [presentMoves, hlst]
        rw [hmoves, flatMap_cons]
        exact List.Sublist.append_left ih _
  have hperm : ∀ moves : List Move, (moves.map Move.source ++ moves.map Move.destination).Perm
      (moves.flatMap fun move => [move.source, move.destination]) := by
    intro moves
    induction moves with
    | nil => exact List.Perm.nil
    | cons move moves ih =>
      apply List.Perm.cons
      exact perm_middle.trans (List.Perm.cons _ ih)
  rw [(hperm _).nodup_iff]
  refine (hapart.sublist hpres).imp fun {a b} hab heq => ?_
  exact hab (heq ▸ .inl le_rfl)

lemma independent_edits : Independent (edits (presentMoves commit pairs)) where
  nodup := by
    have hkeys : (edits (presentMoves commit pairs)).map Prod.fst
        = (presentMoves commit pairs).map Move.source ++ (presentMoves commit pairs).map Move.destination := by
      simp [edits, Function.comp_def]
    rw [hkeys]
    exact nodup_endpoints hapart
  writes e he f hf hew hfw hlt := by
    have hends : ∀ g ∈ edits (presentMoves commit pairs), g.1 ∈ footprint pairs := by
      intro g hg
      rcases mem_append.mp hg with hg | hg
      · obtain ⟨move, hmove, rfl⟩ := mem_map.mp hg
        exact (source_mem_footprint hmove).1
      · obtain ⟨move, hmove, rfl⟩ := mem_map.mp hg
        exact (source_mem_footprint hmove).2
    exact hlt.ne (eq_of_overlap hapart (hends e he) (hends f hf) (.inl hlt.le))

end Moves

/-- Where a file below the source of a pair belongs. -/
def below (pair : RenamePair) (file : Path) : Path :=
  ⟨pair.destinationPath ++ String.ofList (file.text.toList.drop pair.sourcePath.length)⟩

/-- Every source that the commit has stands at its destination, a directory with the files below it, and every
other file where it was. -/
structure Relocated (commit : Tree) (pairs : List RenamePair) (tree : Tree) : Prop where
  moved : ∀ pair ∈ pairs, ∀ entry, commit.get (source pair) = some entry →
    tree.get (source pair) = none ∧ tree.get (destination pair) = some entry
  movedBelow : ∀ pair ∈ pairs, ∀ file entry, source pair < file → commit.get file = some entry →
    tree.get file = none ∧ tree.get (below pair file) = some entry
  kept : ∀ path, (∀ pair ∈ pairs, commit.get (source pair) ≠ none → path ≠ source pair ∧ path ≠ destination pair) →
    (∀ pair ∈ pairs, isDirectory commit (source pair) → ¬ source pair ≤ path ∧ ¬ destination pair ≤ path) →
    tree.get path = commit.get path

/-- No source is a directory, and no destination of a file lies below a file. -/
structure Free (commit : Tree) (pairs : List RenamePair) : Prop where
  noDirectory : ∀ pair ∈ pairs, isDirectory commit (source pair) = false
  notBelow : ∀ pair ∈ pairs, commit.get (source pair) ≠ none → ∀ q, q < destination pair → commit.get q = none

/-- A source is a directory and Git refuses its entry. -/
def Refused (git : DirectoryStaging) (commit : Tree) (pairs : List RenamePair) : Prop :=
  git.accepts = false ∧ ∃ pair ∈ pairs, isDirectory commit (source pair) = true

section Exact

variable {git : DirectoryStaging} {commit : Tree} {pairs : List RenamePair} {pair : RenamePair}

lemma listed_eq_directory (h : isDirectory commit path) : listed commit path = some .directory := by
  obtain ⟨f, hf, hlt⟩ := isDirectory_iff.mp h
  rw [listed, get_eq_none_of_nested hf (.inr hlt)]
  exact if_pos h

lemma listed_eq_file_iff {entry : TreeEntry} :
    listed commit path = some (.file entry) ↔ commit.get path = some entry := by
  rw [listed]
  cases commit.get path with
  | none =>
    dsimp only
    split <;> simp
  | some found => simp

lemma isDirectory_of_listed (h : listed commit path = some .directory) : isDirectory commit path := by
  rw [listed] at h
  cases hget : commit.get path with
  | some entry =>
    rw [hget] at h
    cases h
  | none =>
    rw [hget] at h
    obtain ⟨hguard, h⟩ := ite_none_right_eq_some.mp h
    assumption

/-- Without directories among the sources, every move is of a file. -/
lemma no_directory_moves (hfiles : ∀ pair ∈ pairs, isDirectory commit (source pair) = false) :
    ∀ move ∈ presentMoves commit pairs, move.entry ≠ .directory := by
  intro move hmove hentry
  obtain ⟨pair, hpair, hlst, -⟩ := mem_presentMoves.mp hmove
  rw [hentry] at hlst
  have hdir := isDirectory_of_listed hlst
  rw [hfiles pair hpair] at hdir
  cases hdir

lemma listed_isSome_of_get (h : commit.get path ≠ none) : (listed commit path).isSome := by
  obtain ⟨entry, hentry⟩ := ne_none_iff_exists'.mp h
  rw [listed_eq_file_iff.mpr hentry]
  rfl

/-- Nothing of the commit stands at or below a path that is not listed. -/
lemma get_of_not_listed {x : Path} (h : listed commit path = none) (hle : path ≤ x) : commit.get x = none := by
  by_contra hx
  rcases hle.lt_or_eq with hlt | rfl
  · rw [listed_eq_directory (isDirectory_iff.mpr ⟨x, hx, hlt⟩)] at h
    cases h
  obtain ⟨entry, hentry⟩ := ne_none_iff_exists'.mp hx
  rw [listed_eq_file_iff.mpr hentry] at h
  cases h

lemma not_listed_destination (hfree : ¬ Occupied commit pairs) (hpair : pair ∈ pairs)
    (hsrc : (listed commit (source pair)).isSome) : listed commit (destination pair) = none := by
  by_contra hlst
  exact hfree ⟨pair, hpair, hsrc, isSome_iff_ne_none.mpr hlst⟩

/-- A refused directory fails the whole. -/
lemma createMovedTree_refused (h : Refused git commit pairs) : createMovedTree git commit pairs ≠ .ok tree := by
  obtain ⟨href, pair, hpair, hdir⟩ := h
  have hmove : ⟨source pair, .directory, destination pair⟩ ∈ presentMoves commit pairs :=
    mem_presentMoves.mpr ⟨pair, hpair, listed_eq_directory hdir, rfl, rfl⟩
  have hfails : ∀ (moves : List Move) (index : Tree), (∃ move ∈ moves, move.entry = .directory) →
      moves.foldlM (stage git commit) index ≠ .ok tree := by
    intro moves
    induction moves with
    | nil => exact fun index ⟨move, hmem, _⟩ => absurd hmem not_mem_nil
    | cons move moves ih =>
      rintro index ⟨other, hmem, hentry⟩ hok
      obtain ⟨index', hstage, hok⟩ := bind_eq_ok.mp hok
      rcases mem_cons.mp hmem with rfl | hmem
      · rw [stage, hentry] at hstage
        simp only [href] at hstage
        cases hstage
      · exact ih index' ⟨other, hmem, hentry⟩ hok
  intro hok
  exact hfails _ _ ⟨_, hmove, rfl⟩ (createMovedTree_ok_iff.mp hok).2

variable (hapart : (footprint pairs).Pairwise fun a b => ¬ Overlap a b)
include hapart

/-- Moving files relocates them just when no destination lies below a file. -/
lemma relocated_edits_iff (hfree : ¬ Occupied commit pairs)
    (hfiles : ∀ pair ∈ pairs, isDirectory commit (source pair) = false) :
    Relocated commit pairs (applyEdits commit (edits (presentMoves commit pairs))) ↔
      ∀ pair ∈ pairs, commit.get (source pair) ≠ none → ∀ q, q < destination pair → commit.get q = none := by
  have hind : Independent (edits (presentMoves commit pairs)) := independent_edits hapart
  have hpres : ∀ move ∈ presentMoves commit pairs, ∃ pair ∈ pairs, commit.get (source pair) ≠ none ∧
      commit.get (source pair) = move.file ∧ move.source = source pair ∧ move.destination = destination pair := by
    intro move hmove
    obtain ⟨pair, hpair, hlst, hsrc, hdst⟩ := mem_presentMoves.mp hmove
    cases hentry : move.entry with
    | directory =>
      rw [hentry] at hlst
      have hdir := isDirectory_of_listed hlst
      rw [hfiles pair hpair] at hdir
      cases hdir
    | file entry =>
      rw [hentry] at hlst
      have hget := listed_eq_file_iff.mp hlst
      refine ⟨pair, hpair, by rw [hget]; exact some_ne_none entry, ?_, hsrc, hdst⟩
      rw [hget, Move.file, hentry]
  have hmove : ∀ pair ∈ pairs, ∀ entry, commit.get (source pair) = some entry →
      ⟨source pair, .file entry, destination pair⟩ ∈ presentMoves commit pairs := by
    intro pair hpair entry hget
    exact mem_presentMoves.mpr ⟨pair, hpair, listed_eq_file_iff.mpr hget, rfl, rfl⟩
  have hkeys : ∀ x, x ∈ (edits (presentMoves commit pairs)).map Prod.fst →
      ∃ pair ∈ pairs, commit.get (source pair) ≠ none ∧ (x = source pair ∨ x = destination pair) := by
    intro x hx
    obtain ⟨edit, hedit, rfl⟩ := mem_map.mp hx
    rcases mem_append.mp hedit with hedit | hedit
    · obtain ⟨move, hmem, rfl⟩ := mem_map.mp hedit
      obtain ⟨pair, hpair, hget, -, hsrc, -⟩ := hpres move hmem
      exact ⟨pair, hpair, hget, .inl hsrc⟩
    obtain ⟨move, hmem, rfl⟩ := mem_map.mp hedit
    obtain ⟨pair, hpair, hget, -, -, hdst⟩ := hpres move hmem
    exact ⟨pair, hpair, hget, .inr hdst⟩
  have hdsp : ∀ x, Displaced (edits (presentMoves commit pairs)) x ↔
      ∃ pair ∈ pairs, commit.get (source pair) ≠ none ∧ Nested (destination pair) x := by
    intro x
    constructor
    · rintro ⟨edit, hedit, hwrite, hnst⟩
      rcases mem_append.mp hedit with hedit | hedit
      · obtain ⟨move, -, rfl⟩ := mem_map.mp hedit
        exact absurd rfl hwrite
      obtain ⟨move, hmem, rfl⟩ := mem_map.mp hedit
      obtain ⟨pair, hpair, hget, -, -, hdst⟩ := hpres move hmem
      exact ⟨pair, hpair, hget, hdst ▸ hnst⟩
    · rintro ⟨pair, hpair, hget, hnst⟩
      obtain ⟨entry, hentry⟩ := ne_none_iff_exists'.mp hget
      refine ⟨(destination pair, some entry), mem_append_right _ ?_, some_ne_none entry, hnst⟩
      exact mem_map.mpr ⟨_, hmove pair hpair entry hentry, rfl⟩
  constructor
  · intro h pair hpair hget q hlt
    by_contra hq
    have hnotK : ∀ other ∈ pairs, commit.get (source other) ≠ none → q ≠ source other ∧ q ≠ destination other := by
      intro other hother _
      have hends : source other ∈ footprint pairs ∧ destination other ∈ footprint pairs :=
        ⟨mem_flatMap.mpr ⟨other, hother, by simp⟩, mem_flatMap.mpr ⟨other, hother, by simp⟩⟩
      have hend : destination pair ∈ footprint pairs := mem_flatMap.mpr ⟨pair, hpair, by simp⟩
      constructor
      · rintro rfl
        exact hlt.ne (eq_of_overlap hapart hends.1 hend (.inl hlt.le))
      · rintro rfl
        exact hlt.ne (eq_of_overlap hapart hends.2 hend (.inl hlt.le))
    have hnot : q ∉ (edits (presentMoves commit pairs)).map Prod.fst := by
      intro hkey
      obtain ⟨other, hother, hsrc, heq⟩ := hkeys q hkey
      rcases heq with heq | heq
      · exact (hnotK other hother hsrc).1 heq
      · exact (hnotK other hother hsrc).2 heq
    have hlost := (get_applyEdits_of_not_mem commit hnot).1 ((hdsp q).mpr ⟨pair, hpair, hget, .inr hlt⟩)
    rw [h.kept q hnotK fun other hother hdir => by simp [hfiles other hother] at hdir] at hlost
    exact hq hlost
  · intro hbelow
    constructor
    · intro pair hpair entry hentry
      have hmem := hmove pair hpair entry hentry
      constructor
      · apply get_applyEdits_of_mem commit hind (e := (source pair, none))
        exact mem_append_left _ (mem_map.mpr ⟨_, hmem, rfl⟩)
      · apply get_applyEdits_of_mem commit hind (e := (destination pair, some entry))
        exact mem_append_right _ (mem_map.mpr ⟨_, hmem, rfl⟩)
    · intro pair hpair file entry hlt hentry
      have hdir : isDirectory commit (source pair) = true :=
        isDirectory_iff.mpr ⟨file, by rw [hentry]; exact some_ne_none entry, hlt⟩
      rw [hfiles pair hpair] at hdir
      cases hdir
    · intro x hx _
      have hnot : x ∉ (edits (presentMoves commit pairs)).map Prod.fst := by
        intro hkey
        obtain ⟨other, hother, hsrc, heq⟩ := hkeys x hkey
        rcases heq with heq | heq
        · exact (hx other hother hsrc).1 heq
        · exact (hx other hother hsrc).2 heq
      obtain ⟨hlost, hkept⟩ := get_applyEdits_of_not_mem commit hnot
      by_cases hnst : Displaced (edits (presentMoves commit pairs)) x
      · rw [hlost hnst]
        obtain ⟨pair, hpair, hget, hlt | hlt⟩ := (hdsp x).mp hnst
        · have hlst := not_listed_destination hfree hpair (listed_isSome_of_get hget)
          exact (get_of_not_listed hlst hlt.le).symm
        · exact (hbelow pair hpair hget x hlt).symm
      · exact hkept hnst

/-- A directory's entry is in the way of every relocation: the files below the directory stay. -/
lemma not_relocated_of_directory (hacc : git.accepts) (hpair : pair ∈ pairs)
    (hdir : isDirectory commit (source pair))
    (hok : createMovedTree git commit pairs = .ok tree) : ¬ Relocated commit pairs tree := by
  obtain ⟨-, hok⟩ := createMovedTree_ok_iff.mp hok
  obtain ⟨file, hfile, hlt⟩ := isDirectory_iff.mp hdir
  have hsrc : source pair ∈ footprint pairs := mem_flatMap.mpr ⟨pair, hpair, by simp⟩
  have hbes : ∀ p ∈ footprint pairs, Overlap p file → p = source pair := by
    rintro p hp (hle | hle)
    · exact eq_of_overlap hapart hp hsrc (overlap_of_le_le hle hlt.le)
    · exact eq_of_overlap hapart hp hsrc (.inr (hlt.le.trans hle))
  have herased : ∀ (moves : List Move) (index : Tree), (∀ move ∈ moves, move.source ∈ footprint pairs) →
      index.get file ≠ none → ((moves.map Move.source).foldl erase index).get file ≠ none := by
    intro moves
    induction moves with
    | nil => exact fun index _ h => h
    | cons move moves ih =>
      intro index hmoves h
      apply ih _ fun other hother => hmoves other (mem_cons_of_mem _ hother)
      rw [get_erase, if_neg]
      · exact h
      · rintro rfl
        exact hlt.ne' (hbes _ (hmoves move mem_cons_self) (.inl le_rfl))
  have hstaged : ∀ (moves : List Move) (index index' : Tree), moves.foldlM (stage git commit) index = .ok index' →
      (∀ move ∈ moves, ¬ Overlap move.destination file) → index.get file ≠ none → index'.get file ≠ none := by
    intro moves
    induction moves with
    | nil =>
      rintro index index' h - hsome
      cases h
      exact hsome
    | cons move moves ih =>
      intro index index' h hmoves hsome
      obtain ⟨next, hstage, h⟩ := bind_eq_ok.mp h
      refine ih next index' h (fun other hother => hmoves other (mem_cons_of_mem _ hother)) ?_
      have hover := hmoves move mem_cons_self
      rw [stage] at hstage
      cases hentry : move.entry with
      | file entry =>
        rw [hentry] at hstage
        cases hstage
        have hne : file ≠ move.destination := fun heq => hover (heq ▸ .inl le_rfl)
        have hnst : ¬ Nested file move.destination := by
          rintro (hlt | hlt)
          · exact hover (.inr hlt.le)
          · exact hover (.inl hlt.le)
        rwa [get_put, if_neg hne, if_neg hnst]
      | directory =>
        rw [hentry] at hstage
        simp only [hacc, if_true] at hstage
        cases hstage
        exact git.kept _ _ _ _ _ hover hsome
  have hmoves : ∀ move ∈ presentMoves commit pairs, ¬ Overlap move.destination file := by
    intro move hmove hover
    have heq := hbes _ (source_mem_footprint hmove).2 hover
    have hends : ((presentMoves commit pairs).map Move.source ++
        (presentMoves commit pairs).map Move.destination).Nodup := nodup_endpoints hapart
    have hmem : ⟨source pair, .directory, destination pair⟩ ∈ presentMoves commit pairs :=
      mem_presentMoves.mpr ⟨pair, hpair, listed_eq_directory hdir, rfl, rfl⟩
    exact (nodup_append.mp hends).2.2 _ (mem_map_of_mem hmem) _ (mem_map_of_mem hmove) heq.symm
  intro h
  obtain ⟨entry, hentry⟩ := ne_none_iff_exists'.mp hfile
  refine hstaged _ _ tree hok hmoves ?_ (h.movedBelow pair hpair file entry hlt hentry).1
  exact herased _ commit (fun move hmove => (source_mem_footprint hmove).1) hfile

omit hapart in
lemma stage_accepted (hacc : git.accepts) (moves : List Move) (index : Tree) :
    ∃ tree, moves.foldlM (stage git commit) index = .ok tree := by
  induction moves generalizing index with
  | nil => exact ⟨index, rfl⟩
  | cons move moves ih =>
    obtain ⟨next, hnext⟩ : ∃ next, stage git commit index move = .ok next := by
      cases hentry : move.entry with
      | file entry => exact ⟨_, by rw [stage, hentry]⟩
      | directory => exact ⟨_, by rw [stage, hentry]; exact if_pos hacc⟩
    obtain ⟨tree, htree⟩ := ih next
    refine ⟨tree, ?_⟩
    rw [foldlM_cons, hnext]
    exact htree

end Exact

/-- Renaming a tree fails or relocates the sources and nothing else, unless a destination of a present source lies
below a file or Git takes the entry of a directory. -/
theorem createMovedTree_relocates_iff {u : Normalization} {value : Option Json} {pairs : List RenamePair}
    (h : parseRenamePairs u value = .ok pairs) (git : DirectoryStaging) (commit : Tree) :
    (∀ tree, createMovedTree git commit pairs = .ok tree → Relocated commit pairs tree) ↔
      Occupied commit pairs ∨ Refused git commit pairs ∨ Free commit pairs := by
  have hapart := footprint_parseRenamePairs h
  constructor
  · intro hrel
    by_cases hocc : Occupied commit pairs
    · exact .inl hocc
    apply Or.inr
    by_cases hdir : ∃ pair ∈ pairs, isDirectory commit (source pair) = true
    · cases hacc : git.accepts with
      | false => exact .inl ⟨hacc, hdir⟩
      | true =>
        obtain ⟨pair, hpair, hdir⟩ := hdir
        obtain ⟨tree, htree⟩ := stage_accepted hacc (presentMoves commit pairs)
          (((presentMoves commit pairs).map Move.source).foldl erase commit)
        have hok := createMovedTree_ok_iff.mpr ⟨hocc, htree⟩
        exact absurd (hrel tree hok) (not_relocated_of_directory hapart hacc hpair hdir hok)
    · apply Or.inr
      have hfiles : ∀ pair ∈ pairs, isDirectory commit (source pair) = false := by
        intro pair hpair
        exact Bool.eq_false_iff.mpr fun hsome => hdir ⟨pair, hpair, hsome⟩
      have hstg := @stage_erased_files git commit _ (no_directory_moves hfiles)
      have hok := createMovedTree_ok_iff.mpr ⟨hocc, hstg⟩
      exact ⟨hfiles, (relocated_edits_iff hapart hocc hfiles).mp (hrel _ hok)⟩
  · rintro (hocc | href | hfree) tree hok
    · exact absurd hocc (createMovedTree_ok_iff.mp hok).1
    · exact absurd hok (createMovedTree_refused href)
    obtain ⟨hocc, hstg⟩ := createMovedTree_ok_iff.mp hok
    rw [stage_erased_files (no_directory_moves hfree.noDirectory)] at hstg
    cases hstg
    exact (relocated_edits_iff hapart hocc hfree.noDirectory).mpr hfree.notBelow

def twoNotes : Tree where
  entries := [(⟨"a"⟩, ⟨.regular, "01"⟩), (⟨"b"⟩, ⟨.regular, "02"⟩)]
  nodup := by decide
  antichain := by
    simp only [List.map_cons, List.map_nil, List.mem_cons, List.not_mem_nil, or_false]
    rintro p (rfl | rfl) q (rfl | rfl) hlt <;> revert hlt <;> decide +kernel

/-- The entry of a directory is refused. -/
def refusing : DirectoryStaging := ⟨false, fun _ _ index _ => index, fun _ _ _ _ _ _ => id⟩

def onePair (pair : RenamePair) : Option Json := some (.array [pairToJson pair])

theorem createMovedTree_relocates_iff_beside :
    (∀ tree, createMovedTree refusing twoNotes [⟨"b", "c/b"⟩] = .ok tree → Relocated twoNotes [⟨"b", "c/b"⟩] tree) ↔
      Occupied twoNotes [⟨"b", "c/b"⟩] ∨ Refused refusing twoNotes [⟨"b", "c/b"⟩] ∨ Free twoNotes [⟨"b", "c/b"⟩] := by
  have h : parseRenamePairs asciiNormalization (onePair ⟨"b", "c/b"⟩) = .ok [⟨"b", "c/b"⟩] := by decide +kernel
  exact createMovedTree_relocates_iff h refusing twoNotes

/-- Moving `b` to `a/c` removes the note `a`. -/
theorem createMovedTree_loses_file : ¬ ∀ (u : Normalization) (value : Option Json) (pairs : List RenamePair),
      parseRenamePairs u value = .ok pairs → ∀ (git : DirectoryStaging) (commit tree : Tree),
      createMovedTree git commit pairs = .ok tree → Relocated commit pairs tree := by
  intro hclaim
  have hprs : parseRenamePairs asciiNormalization (onePair ⟨"b", "a/c"⟩) = .ok [⟨"b", "a/c"⟩] := by
    decide +kernel
  have hmoved : createMovedTree refusing twoNotes [⟨"b", "a/c"⟩] = .ok ((twoNotes.erase ⟨"b"⟩).put ⟨"a/c"⟩
      ⟨.regular, "02"⟩) := by rfl
  have hkept := (hclaim _ _ _ hprs refusing twoNotes _ hmoved).kept ⟨"a"⟩ (by decide)
  revert hkept
  decide +kernel

end MovedTrees
