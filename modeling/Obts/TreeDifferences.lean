import Obts.LocalCapture

/-!
# Differences of two commits

The blob paths that differ between two commits are found without flattening them: the two trees are
visited together, and equal subtrees are not read.
-/
namespace TreeDifferences

open InsertionOrder SlashPath GitTrees ClientPaths LocalCapture List

/-- What a tree has under a name. -/
structure StoredEntry where
  type : ObjectType
  oid : String
  deriving DecidableEq

def IsEntryName (name : List Char) : Prop := name ≠ [] ∧ '/' ∉ name

/-- The commits and trees of a repository. A tree has each name once, and is not below itself. -/
structure TreeStore where
  readCommitTreeOid : String → String
  readTreeEntries : String → List (Name × StoredEntry)
  depth : String → Nat
  nodup : ∀ oid, ((readTreeEntries oid).map Prod.fst).Nodup
  named : ∀ oid, ∀ e ∈ readTreeEntries oid, IsEntryName e.1
  below : ∀ oid, ∀ e ∈ readTreeEntries oid, e.2.type = .tree → depth e.2.oid < depth oid

def treeOid : Option StoredEntry → Option String
  | some ⟨.tree, oid⟩ => some oid
  | _ => none

def blobOid : Option StoredEntry → Option String
  | some ⟨.blob, oid⟩ => some oid
  | _ => none

lemma eq_of_blobOid {entry : Option StoredEntry} {oid : String} (h : blobOid entry = some oid) :
    entry = some ⟨.blob, oid⟩ := by
  rw [blobOid.eq_def] at h
  split at h
  · cases h
    rfl
  · cases h

namespace TreeStore
variable (store : TreeStore) (tree : Option String)

def entriesOf : List (Name × StoredEntry) := tree.elim [] store.readTreeEntries

def entryAt (name : Name) : Option StoredEntry :=
  valueAt (store.entriesOf tree) name

def rank : Nat := tree.elim 0 fun oid => store.depth oid + 1

lemma rank_treeOid_le (tree : Option String) (name : Name) :
    store.rank (treeOid (store.entryAt tree name)) ≤ store.rank tree - 1 := by
  cases tree with
  | none => exact Nat.le_refl 0
  | some oid =>
    cases hvalue : store.entryAt (some oid) name with
    | none => exact Nat.zero_le _
    | some entry =>
      obtain ⟨type, child⟩ := entry
      cases type with
      | tree => exact store.below oid (name, ⟨.tree, child⟩) (mem_of_valueAt hvalue) rfl
      | blob | commit => exact Nat.zero_le _

/-- The blobs of a tree with the names that lead to them. -/
def walkTree (oid : String) (above : List Name) : List (List Name × String) :=
  (store.readTreeEntries oid).attach.flatMap fun e =>
    (if e.1.2.type = .blob then [(above ++ [e.1.1], e.1.2.oid)] else []) ++
    (if h : e.1.2.type = .tree then walkTree e.1.2.oid (above ++ [e.1.1]) else [])
termination_by store.depth oid
decreasing_by exact store.below oid e.1 e.2 h

def flattenTree (commit : String) : List (Path × String) :=
  (store.walkTree (store.readCommitTreeOid commit) []).map fun e => (joinSegments e.1, e.2)

/-- The trees that are read on a joint visit of two trees, and the paths that are found changed. -/
def visit (left right : Option String) (above : List Name) : List String × List (List Name) :=
  if left = right then ([], [])
  else
    let names := ofList ((store.entriesOf left).map Prod.fst ++ (store.entriesOf right).map Prod.fst)
    let found := names.map fun name =>
      let before := store.entryAt left name
      let after := store.entryAt right name
      if before = after then ([], [])
      else
        let below := visit (treeOid before) (treeOid after) (above ++ [name])
        (below.1, below.2 ++ if (blobOid before).isSome || (blobOid after).isSome then [above ++ [name]] else [])
    (left.toList ++ right.toList ++ found.flatMap Prod.fst, found.flatMap Prod.snd)
termination_by store.rank left + store.rank right
decreasing_by
  have hleft := store.rank_treeOid_le left name
  have hright := store.rank_treeOid_le right name
  cases left with
  | none =>
    cases right with
    | none => simp at *
    | some => simp only [rank, Option.elim] at *; omega
  | some => simp only [rank, Option.elim] at *; omega

def visitCommits (left right : String) : List String × List (List Name) :=
  store.visit (some (store.readCommitTreeOid left)) (some (store.readCommitTreeOid right)) []

/-- Blob paths that differ between two commits. -/
def changedTreePaths (u : SegmentNormalization) (left right : String) : List Path :=
  sort (((store.visitCommits left right).2.map joinSegments).filter (isSyncableVaultPath u))

/-- The blob that names lead to from an entry. -/
def blobAt (entry : Option StoredEntry) : List Name → Option String
  | [] => blobOid entry
  | name :: names => blobAt (store.entryAt (treeOid entry) name) names

/-- The blob that names lead to from a tree. -/
def blobBelow : List Name → Option String
  | [] => none
  | name :: names => store.blobAt (store.entryAt tree name) names

/-- The tree that names lead to from a tree. -/
def treeAt (tree : Option String) : List Name → Option String
  | [] => tree
  | name :: names => treeAt (treeOid (store.entryAt tree name)) names

variable {store} {u : SegmentNormalization} {left right tree : Option String} {a b oid blob : String}
  {name : Name} {above names path : List Name} {before after entry : Option StoredEntry}

lemma ne_nil_of_blobBelow (h : store.blobBelow tree names ≠ none) : names ≠ [] := by
  rintro rfl
  exact h rfl

lemma blobBelow_treeOid (hnames : names ≠ []) :
    store.blobBelow (treeOid entry) names = store.blobAt entry names := by
  cases names with
  | nil => exact absurd rfl hnames
  | cons => rfl

lemma blobAt_none (names : List Name) : store.blobAt none names = none := by
  induction names with
  | nil => rfl
  | cons name names ih => exact ih

/-- Entries that differ have different blobs as soon as one of them is a blob. -/
lemma blobOid_ne_iff (h : before ≠ after) :
    blobOid before ≠ blobOid after ↔ ((blobOid before).isSome || (blobOid after).isSome) := by
  constructor
  · intro hne
    by_contra hnone
    simp only [Bool.or_eq_true, not_or, Option.not_isSome_iff_eq_none] at hnone
    exact hne (hnone.1.trans hnone.2.symm)
  intro hsome heq
  obtain ⟨oid, hoid⟩ : ∃ oid, blobOid before = some oid := by
    rw [← heq, Bool.or_self] at hsome
    exact Option.isSome_iff_exists.mp hsome
  exact h ((eq_of_blobOid hoid).trans (eq_of_blobOid (heq ▸ hoid)).symm)

/-- What a joint visit finds at a name. -/
def found (store : TreeStore) (left right : Option String) (above : List Name)
    (name : Name) : List String × List (List Name) :=
  let before := store.entryAt left name
  let after := store.entryAt right name
  if before = after then ([], [])
  else
    let below := store.visit (treeOid before) (treeOid after) (above ++ [name])
    (below.1, below.2 ++ if (blobOid before).isSome || (blobOid after).isSome then [above ++ [name]] else [])

lemma visit_of_ne (above : List Name) (h : left ≠ right) : ∃ names : List Name, names.Nodup ∧
    (∀ name, store.entryAt left name ≠ store.entryAt right name → name ∈ names) ∧ store.visit left right above =
      (left.toList ++ right.toList ++ (names.map (store.found left right above)).flatMap Prod.fst,
        (names.map (store.found left right above)).flatMap Prod.snd) := by
  refine ⟨_, nodup_ofList _, fun name hname => ?_, by rw [visit, if_neg h]; rfl⟩
  rw [mem_ofList, mem_append]
  by_contra hnone
  obtain ⟨hleft, hright⟩ := not_or.mp hnone
  exact hname ((valueAt_eq_none.mpr hleft).trans (valueAt_eq_none.mpr hright).symm)

/-- A joint visit finds the paths at which the blobs of the two trees differ. -/
lemma mem_visit : path ∈ (store.visit left right above).2 ↔
    ∃ names, path = above ++ names ∧ store.blobBelow left names ≠ store.blobBelow right names := by
  induction left, right, above using visit.induct store with
  | case1 tree above => simp [visit]
  | case2 left right above hne ih =>
    obtain ⟨all, -, hall, hvisit⟩ := store.visit_of_ne above hne
    rw [hvisit]
    constructor
    · intro hmem
      obtain ⟨_, hfound, hpath⟩ := mem_flatMap.mp hmem
      obtain ⟨name, -, rfl⟩ := mem_map.mp hfound
      rw [found] at hpath
      by_cases hsame : store.entryAt left name = store.entryAt right name
      · rw [if_pos hsame] at hpath
        cases hpath
      rw [if_neg hsame] at hpath
      rcases mem_append.mp hpath with hpath | hpath
      · obtain ⟨names, rfl, hdiff⟩ := (ih name hsame).mp hpath
        have hnames : names ≠ [] := by
          rintro rfl
          exact hdiff rfl
        rw [blobBelow_treeOid hnames, blobBelow_treeOid hnames] at hdiff
        exact ⟨name :: names, append_assoc _ _ _, hdiff⟩
      · obtain ⟨hsome, hpath⟩ := mem_ite_nil_right.mp hpath
        exact ⟨[name], mem_singleton.mp hpath, (blobOid_ne_iff hsame).mpr hsome⟩
    · rintro ⟨names, rfl, hdiff⟩
      cases names with
      | nil => exact absurd rfl hdiff
      | cons name names =>
        have hsame : store.entryAt left name ≠ store.entryAt right name :=
          fun h => hdiff (congrArg (store.blobAt · names) h)
        refine mem_flatMap.mpr ⟨_, mem_map_of_mem (hall name hsame), ?_⟩
        rw [found, if_neg hsame]
        cases names with
        | nil =>
          refine mem_append_right _ (mem_ite_nil_right.mpr ⟨?_, mem_singleton_self _⟩)
          exact (blobOid_ne_iff hsame).mp hdiff
        | cons next names =>
          exact mem_append_left _ ((ih name hsame).mpr ⟨next :: names, append_cons _ _ _, hdiff⟩)

lemma exists_of_mem_found (h : path ∈ (store.found left right above name).2) :
    ∃ names, path = above ++ [name] ++ names := by
  rw [found] at h
  split at h
  · cases h
  rcases mem_append.mp h with h | h
  · obtain ⟨names, rfl, -⟩ := mem_visit.mp h
    exact ⟨names, rfl⟩
  · exact ⟨[], (mem_singleton.mp (mem_ite_nil_right.mp h).2).trans (append_nil _).symm⟩

lemma nodup_visit (left right : Option String) (above : List Name) : (store.visit left right above).2.Nodup := by
  induction left, right, above using visit.induct store with
  | case1 tree above => simp [visit]
  | case2 left right above hne ih =>
    obtain ⟨all, hnodup, -, hvisit⟩ := store.visit_of_ne above hne
    rw [hvisit]
    change ((all.map (store.found left right above)).flatMap Prod.snd).Nodup
    rw [flatMap_map, nodup_flatMap]
    refine ⟨fun name _ => ?_, hnodup.imp fun hname path hpath hpath' => ?_⟩
    · rw [found]
      split
      · exact nodup_nil
      rename_i hsame
      refine (ih name hsame).append (by split <;> simp) fun path hpath hpath' => ?_
      obtain ⟨names, rfl, hdiff⟩ := mem_visit.mp hpath
      have hnil := append_right_eq_self.mp (mem_singleton.mp (mem_ite_nil_right.mp hpath').2)
      subst hnil
      exact hdiff rfl
    · obtain ⟨names, rfl⟩ := exists_of_mem_found hpath
      obtain ⟨names', hpath⟩ := exists_of_mem_found hpath'
      simp only [append_assoc, append_cancel_left_eq, cons_append, cons.injEq] at hpath
      exact hname hpath.1

/-- The trees that are read differ from those in their place. -/
lemma differs_of_read (h : oid ∈ (store.visit left right above).1) :
    ∃ names, store.treeAt left names ≠ store.treeAt right names ∧
      (store.treeAt left names = some oid ∨ store.treeAt right names = some oid) := by
  induction left, right, above using visit.induct store with
  | case1 tree above => simp [visit] at h
  | case2 left right above hne ih =>
    obtain ⟨all, -, -, hvisit⟩ := store.visit_of_ne above hne
    rw [hvisit] at h
    rcases mem_append.mp h with h | h
    · exact ⟨[], hne, by simpa [treeAt] using h⟩
    obtain ⟨_, hfound, hoid⟩ := mem_flatMap.mp h
    obtain ⟨name, -, rfl⟩ := mem_map.mp hfound
    rw [found] at hoid
    split at hoid
    · cases hoid
    rename_i hsame
    obtain ⟨names, hnames⟩ := ih name hsame hoid
    exact ⟨name :: names, hnames⟩

lemma mem_walkTree : (path, blob) ∈ store.walkTree oid above ↔
    ∃ names, path = above ++ names ∧ store.blobBelow (some oid) names = some blob := by
  induction oid, above using walkTree.induct store generalizing path with
  | case1 oid above ih =>
    rw [walkTree, mem_flatMap]
    constructor
    · rintro ⟨⟨⟨name, type, child⟩, he⟩, -, hmem⟩
      have hvalue : store.entryAt (some oid) name = some ⟨type, child⟩ :=
        (valueAt_eq_some (store.nodup oid)).mpr he
      rcases mem_append.mp hmem with hmem | hmem
      · obtain ⟨hblob, hmem⟩ := mem_ite_nil_right.mp hmem
        cases mem_singleton.mp hmem
        cases hblob
        exact ⟨[name], rfl, by rw [blobBelow, hvalue]; rfl⟩
      split at hmem
      · rename_i htree
        obtain ⟨names, rfl, hblob⟩ := (ih ⟨_, he⟩ htree).mp hmem
        refine ⟨name :: names, append_assoc _ _ _, ?_⟩
        cases htree
        rw [blobBelow, hvalue, ← blobBelow_treeOid (ne_nil_of_blobBelow (hblob ▸ Option.some_ne_none _))]
        exact hblob
      · cases hmem
    · rintro ⟨names, rfl, hblob⟩
      cases names with
      | nil => cases hblob
      | cons name names =>
        rw [blobBelow] at hblob
        cases hvalue : store.entryAt (some oid) name with
        | none =>
          rw [hvalue, blobAt_none] at hblob
          cases hblob
        | some entry =>
          rw [hvalue] at hblob
          refine ⟨⟨(name, entry), mem_of_valueAt hvalue⟩, mem_attach _ _, ?_⟩
          cases names with
          | nil =>
            cases eq_of_blobOid hblob
            exact mem_append_left _ (mem_singleton_self _)
          | cons next names =>
            obtain ⟨type, child⟩ := entry
            cases type with
            | tree =>
              exact mem_append_right _ ((ih ⟨_, mem_of_valueAt hvalue⟩ rfl).mpr
                ⟨next :: names, append_cons _ _ _, hblob⟩)
            | blob | commit => cases (blobAt_none names).symm.trans hblob

lemma named_of_blobBelow (h : store.blobBelow tree names ≠ none) : ∀ name ∈ names, IsEntryName name := by
  induction names generalizing tree with
  | nil => simp
  | cons name names ih =>
    rw [blobBelow] at h
    cases hvalue : store.entryAt tree name with
    | none => exact absurd (hvalue ▸ blobAt_none names) h
    | some entry =>
      cases tree with
      | none => cases hvalue
      | some oid =>
        refine forall_mem_cons.mpr ⟨store.named oid _ (mem_of_valueAt hvalue), ?_⟩
        cases names with
        | nil => simp
        | cons => exact ih (blobBelow_treeOid (cons_ne_nil _ _) ▸ h)

lemma segments_joinSegments (h : store.blobBelow tree names ≠ none) : segments (joinSegments names) = names := by
  rw [segments, joinSegments, String.toList_ofList]
  exact splitOn_intercalate '/' (fun name hname => (named_of_blobBelow h name hname).2) (ne_nil_of_blobBelow h)

lemma segments_joinSegments_of_ne {tree' : Option String}
    (h : store.blobBelow tree names ≠ store.blobBelow tree' names) : segments (joinSegments names) = names := by
  by_cases hnone : store.blobBelow tree names = none
  · exact segments_joinSegments (hnone ▸ h.symm)
  · exact segments_joinSegments hnone

lemma valueAt_flattenTree (commit : String) (p : Path) : valueAt (store.flattenTree commit) p =
    store.blobBelow (some (store.readCommitTreeOid commit)) (segments p) := by
  have hmem : ∀ blob, (p, blob) ∈ store.flattenTree commit ↔
      store.blobBelow (some (store.readCommitTreeOid commit)) (segments p) = some blob := by
    intro blob
    constructor
    · intro h
      obtain ⟨⟨names, oid⟩, hwalk, heq⟩ := mem_map.mp h
      cases heq
      obtain ⟨_, rfl, hblob⟩ := mem_walkTree.mp hwalk
      rwa [segments_joinSegments (hblob ▸ Option.some_ne_none _)]
    · intro h
      exact mem_map.mpr ⟨(segments p, blob), mem_walkTree.mpr ⟨_, rfl, h⟩, by rw [joinSegments_segments]⟩
  cases hvalue : valueAt (store.flattenTree commit) p with
  | some blob => exact ((hmem blob).mp (mem_of_valueAt hvalue)).symm
  | none =>
    cases hblob : store.blobBelow (some (store.readCommitTreeOid commit)) (segments p) with
    | none => rfl
    | some blob =>
      exact absurd (mem_map_of_mem ((hmem blob).mpr hblob)) (valueAt_eq_none.mp hvalue)

lemma mem_visitCommits {p : Path} : p ∈ (store.visitCommits a b).2.map joinSegments ↔
      valueAt (store.flattenTree a) p ≠ valueAt (store.flattenTree b) p := by
  rw [valueAt_flattenTree, valueAt_flattenTree, mem_map]
  constructor
  · rintro ⟨names, hnames, rfl⟩
    obtain ⟨_, rfl, hdiff⟩ := mem_visit.mp hnames
    rwa [segments_joinSegments_of_ne hdiff]
  · intro hdiff
    exact ⟨segments p, mem_visit.mpr ⟨_, rfl, hdiff⟩, joinSegments_segments p⟩

/-- The changed paths are the sorted list, without duplicates, of the syncable paths whose blob differs
between the flattened trees. A tree that is read is another one in the other commit. -/
theorem changedTreePaths_flattened (store : TreeStore) (u : SegmentNormalization) (a b : String) :
    let changed := store.changedTreePaths u a b
    changed.Pairwise (fun p q => (compareOn Path.codeUnits p q).isLE = true) ∧ changed.Nodup ∧
    (∀ p, p ∈ changed ↔ isSyncableVaultPath u p = true ∧
      valueAt (store.flattenTree a) p ≠ valueAt (store.flattenTree b) p) ∧
    ∀ oid ∈ (store.visitCommits a b).1, ∃ names, let before := store.treeAt (some (store.readCommitTreeOid a)) names
      let after := store.treeAt (some (store.readCommitTreeOid b)) names
      before ≠ after ∧ (before = some oid ∨ after = some oid) := by
  refine ⟨pairwise_sortBy _ _, (sortBy_perm _ _).nodup_iff.mpr ?_, fun p => ?_,
    fun oid hoid => differs_of_read hoid⟩
  · refine Nodup.filter _ (Nodup.map_on ?_ (nodup_visit _ _ _))
    intro names hnames names' hnames' hsame
    obtain ⟨_, rfl, hdiff⟩ := mem_visit.mp hnames
    obtain ⟨_, rfl, hdiff'⟩ := mem_visit.mp hnames'
    exact (segments_joinSegments_of_ne hdiff).symm.trans
      ((congrArg segments hsame).trans (segments_joinSegments_of_ne hdiff'))
  · rw [changedTreePaths, mem_sort, mem_filter, mem_visitCommits, and_comm]

/-- A folder with a note, and nothing under any other object id. -/
def sampleStore : TreeStore where
  readCommitTreeOid := id
  readTreeEntries oid := if oid = "root" then [("n".toList, ⟨.tree, "folder"⟩)]
    else if oid = "folder" then [("a.md".toList, ⟨.blob, "01"⟩)] else []
  depth oid := if oid = "root" then 1 else 0
  nodup oid := by split_ifs <;> decide
  named oid := by split_ifs <;> simp [IsEntryName]
  below oid := by split_ifs <;> simp

example : sampleStore.changedTreePaths asciiSegmentNormalization "" "root" = [⟨"n/a.md"⟩] := by
  decide +kernel

end TreeStore
end TreeDifferences
