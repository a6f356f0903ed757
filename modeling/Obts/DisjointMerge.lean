import Obts.MergeDecision

/-!
# The disjoint merge

When no path diverges, main takes the device's differences from the natural base. The merged
tree has the device's entry at every path the device changed and main's entry at the others.
Identity is a matter of kind and object: a path both sides changed to one blob under different
modes takes the device's mode. Overlaps are measured from the explicit base on main's side, so
a file of main that equals the base but is missing from the natural base is not seen there; if
the device put a file above or below it, the statement says nothing of it.
-/
namespace DisjointMerge

open SlashPath FileTrees GitTrees Metadata DirectoryProposals MergeDecision

def createDisjointMergeTree (repo : Repository) (base currentMain device : Tree) :
    Except PolicyViolation Tree := do
  let tree := disjointMergeTree base currentMain device
  validateTreePathPolicy repo none tree
  return tree

variable {repo : Repository} {p : Path} {input : MergeInput} {commit : String} {server : Server}

lemma createDisjointMergeTree_ok {base currentMain device tree : Tree}
    (h : createDisjointMergeTree repo base currentMain device = .ok tree) :
    tree = disjointMergeTree base currentMain device := by
  obtain ⟨_, -, h⟩ := bind_eq_ok.mp h
  exact (Except.ok.inj h).symm

/-- Two entries of one kind with one object, or two absent ones. -/
def SameObject (a b : Option TreeEntry) : Prop :=
  a.map (fun e => (e.mode.objectType, e.oid)) = b.map (fun e => (e.mode.objectType, e.oid))

instance (a b : Option TreeEntry) : Decidable (SameObject a b) :=
  inferInstanceAs (Decidable (_ = _))

/-- The four trees of a merge and the tree it builds. -/
structure MergedTrees where
  (base naturalBase main device merged : Tree)

/-- The strict three-way rule: device paths come from the device and were not changed
differently on main; all others stay as main has them. -/
def ThreeWay (t : MergedTrees) : Prop :=
  ∀ p, (t.device.get p ≠ t.naturalBase.get p → t.merged.get p = t.device.get p ∧
      (t.main.get p = t.base.get p ∨ t.main.get p = t.device.get p)) ∧
    (t.device.get p = t.naturalBase.get p → t.merged.get p = t.main.get p)

/-- A file that main has exactly as the explicit base, that the natural base lacks, and that
stands strictly above or below a file the device wrote. -/
def RestoredBesideDevice (t : MergedTrees) (p : Path) : Prop :=
  t.main.get p ≠ none ∧ t.main.get p = t.base.get p ∧ t.naturalBase.get p = none ∧
    DeviceWroteBeside t.naturalBase t.device p

lemma nodeAt_of_some {e : TreeEntry} (h : (repo.tree commit).get p = some e) :
    nodeAt repo commit p = some (e.mode.objectType, e.oid) := by
  simp [nodeAt, h]

lemma objectType_ne_tree (mode : FileMode) : mode.objectType ≠ .tree := by
  cases mode <;> simp [FileMode.objectType]

/-- Without a file, a path is absent from the listing or a directory of it. -/
lemma nodeAt_of_none (h : (repo.tree commit).get p = none) :
    nodeAt repo commit p = none ∨ ∃ oid, nodeAt repo commit p = some (.tree, oid) := by
  simp only [nodeAt, h]
  split
  · exact .inr ⟨_, rfl⟩
  · exact .inl rfl

lemma sameObject_of_nodeAt_eq {main device : String} (h : nodeAt repo main p = nodeAt repo device p) :
    SameObject ((repo.tree main).get p) ((repo.tree device).get p) := by
  cases hm : (repo.tree main).get p with
  | none =>
    cases hd : (repo.tree device).get p with
    | none => rfl
    | some d =>
      rw [nodeAt_of_some hd] at h
      rcases nodeAt_of_none hm with hnode | ⟨oid, hnode⟩
      · rw [hnode] at h
        cases h
      · rw [hnode] at h
        exact absurd (congrArg Prod.fst (Option.some.inj h)).symm (objectType_ne_tree _)
  | some m =>
    cases hd : (repo.tree device).get p with
    | none =>
      rw [nodeAt_of_some hm] at h
      rcases nodeAt_of_none hd with hnode | ⟨oid, hnode⟩
      · rw [hnode] at h
        cases h
      · rw [hnode] at h
        exact absurd (congrArg Prod.fst (Option.some.inj h)) (objectType_ne_tree _)
    | some d =>
      rw [nodeAt_of_some hm, nodeAt_of_some hd] at h
      exact h

lemma mem_identicalPaths {main deviceCommit : String} {changes : List GitDiffEntry} :
    p ∈ identicalPaths repo main deviceCommit changes ↔
      p ∈ changedPathSet changes ∧ nodeAt repo main p = nodeAt repo deviceCommit p := by
  simp [identicalPaths]

section Divergence

variable {repo : Repository} {input : MergeInput} {point : MergePoint}

section
variable (h : divergentOverlaps repo input point = [])
include h

/-- No overlap: a path that main changed and a path the device changed, neither of them
identical, differ and are not nested. -/
lemma separate_of_no_overlap {m d : Path} (hm : (repo.tree point.base).get m ≠ (repo.tree point.main).get m)
    (hd : (repo.tree point.naturalBase).get d ≠ (repo.tree input.deviceCommit).get d)
    (hmi : m ∉ identicalPaths repo point.main input.deviceCommit
      (repo.changedPaths point.naturalBase input.deviceCommit))
    (hdi : nodeAt repo point.main d ≠ nodeAt repo input.deviceCommit d) : m ≠ d ∧ ¬ Nested m d := by
  have hmain := (repo.isDiff point.base point.main).mem_changedPathSet.mpr hm
  have hdev := (repo.isDiff point.naturalBase input.deviceCommit).mem_changedPathSet.mpr hd
  refine intersectChangedPaths_eq_nil.mp h m ?_ d ?_
  · exact mem_changedPathSet_changesWithoutIdentities.mpr ⟨hmain, hmi⟩
  · refine mem_changedPathSet_changesWithoutIdentities.mpr ⟨hdev, ?_⟩
    exact fun hmem => hdi (mem_identicalPaths.mp hmem).2

/-- A path the device changed was left alone by main or holds the device's object there. -/
lemma main_eq_base_or_sameObject (hd : (repo.tree point.naturalBase).get p ≠ (repo.tree input.deviceCommit).get p) :
    (repo.tree point.main).get p = (repo.tree point.base).get p ∨
      SameObject ((repo.tree point.main).get p) ((repo.tree input.deviceCommit).get p) := by
  by_cases hnode : nodeAt repo point.main p = nodeAt repo input.deviceCommit p
  · exact .inr (sameObject_of_nodeAt_eq hnode)
  left
  by_contra hne
  have hmi : p ∉ identicalPaths repo point.main input.deviceCommit
      (repo.changedPaths point.naturalBase input.deviceCommit) :=
    fun hmem => hnode (mem_identicalPaths.mp hmem).2
  exact (separate_of_no_overlap h (Ne.symm hne) hd hmi hnode).1 rfl

/-- A file of main beside a file the device wrote equals the explicit base. -/
lemma main_eq_base_of_wroteBeside (hp : (repo.tree point.naturalBase).get p = (repo.tree input.deviceCommit).get p)
    (hmain : (repo.tree point.main).get p ≠ none)
    (hbes : DeviceWroteBeside (repo.tree point.naturalBase) (repo.tree input.deviceCommit) p) :
    (repo.tree point.main).get p = (repo.tree point.base).get p := by
  obtain ⟨w, hw, hwr, hnst⟩ := hbes
  by_contra hne
  have hmi : p ∉ identicalPaths repo point.main input.deviceCommit
      (repo.changedPaths point.naturalBase input.deviceCommit) := by
    intro hmem
    have hchg := (repo.isDiff point.naturalBase input.deviceCommit).mem_changedPathSet.mp
      (mem_identicalPaths.mp hmem).1
    exact hchg hp
  -- main holds a file nested with `w`, so at `w` it has a directory or nothing
  have hdi : nodeAt repo point.main w ≠ nodeAt repo input.deviceCommit w := by
    intro hnode
    have hnone := FileTree.get_eq_none_of_nested hmain hnst.symm
    have hsame := sameObject_of_nodeAt_eq hnode
    rw [hnone] at hsame
    exact hwr (Option.map_eq_none_iff.mp hsame.symm)
  exact (separate_of_no_overlap h (Ne.symm hne) hw hmi hdi).2 hnst.symm

end

end Divergence

/-- The trees of a merge point with a tree built from them. -/
def treesAt (repo : Repository) (input : MergeInput) (point : MergePoint) (merged : Tree) : MergedTrees :=
  ⟨repo.tree point.base, repo.tree point.naturalBase, repo.tree point.main, repo.tree input.deviceCommit, merged⟩

lemma no_overlap_of_disjointMerge
    {point : MergePoint} (h : mergeRoute repo server input = .ok (.disjointMerge point)) :
    divergentOverlaps repo input point = [] := by
  obtain ⟨point', -, hroute⟩ := contentRoute_of_mergesContent h rfl
  rcases contentRoute_cases repo input point' with ⟨_, _, hcont⟩ | ⟨-, -, _, -, hcont⟩ |
    ⟨_, _, -, hcont⟩ | ⟨hnone, hcont⟩
  · rw [hcont] at hroute
    cases hroute
  · rw [hcont] at hroute
    cases hroute
  · rw [hcont] at hroute
    cases hroute
  · rw [hcont] at hroute
    cases hroute
    exact hnone

/-- The committed tree of the disjoint branch, path by path. -/
theorem disjointMerge_three_way {repo : Repository} {server : Server} {input : MergeInput}
    {point : MergePoint} {merged : Tree}
    (hroute : mergeRoute repo server input = .ok (.disjointMerge point))
    (htree : createDisjointMergeTree repo (repo.tree point.naturalBase) (repo.tree point.main)
      (repo.tree input.deviceCommit) = .ok merged) (p : Path) :
    let t := treesAt repo input point merged
    (t.device.get p ≠ t.naturalBase.get p → t.merged.get p = t.device.get p ∧
      (t.main.get p = t.base.get p ∨ SameObject (t.main.get p) (t.device.get p))) ∧
    (t.device.get p = t.naturalBase.get p → t.merged.get p = t.main.get p ∨
      RestoredBesideDevice t p) := by
  have hover := no_overlap_of_disjointMerge hroute
  obtain rfl := createDisjointMergeTree_ok htree
  constructor
  · intro hd
    exact ⟨disjointMergeTree_of_ne (Ne.symm hd), main_eq_base_or_sameObject hover (Ne.symm hd)⟩
  intro hd
  by_cases hbes : DeviceWroteBeside (repo.tree point.naturalBase) (repo.tree input.deviceCommit) p
  · have hmrg : (disjointMergeTree (repo.tree point.naturalBase) (repo.tree point.main)
        (repo.tree input.deviceCommit)).get p = none :=
      disjointMergeTree_of_wroteBeside hd.symm hbes
    by_cases hmain : (repo.tree point.main).get p = none
    · exact .inl (hmrg.trans hmain.symm)
    have hnone := device_get_of_wroteBeside hbes
    exact .inr ⟨hmain, main_eq_base_of_wroteBeside hover hd.symm hmain hbes, hd.symm.trans hnone, hbes⟩
  · exact .inl (disjointMergeTree_of_eq hd.symm hbes)

/-- A merge that is made again changes nothing. -/
theorem disjointMergeTree_again (base main device : Tree) (p : Path) :
    (disjointMergeTree base (disjointMergeTree base main device) device).get p
      = (disjointMergeTree base main device).get p := by
  by_cases hp : base.get p = device.get p
  · by_cases hbes : DeviceWroteBeside base device p
    · rw [disjointMergeTree_of_wroteBeside hp hbes, disjointMergeTree_of_wroteBeside hp hbes]
    · exact disjointMergeTree_of_eq hp hbes
  · rw [disjointMergeTree_of_ne hp, disjointMergeTree_of_ne hp]

section Order
variable {base main left right : Tree}

/-- What one of two devices changed apart from the other stands when both are merged. -/
lemma disjointMergeTree_first (hp : base.get p ≠ left.get p)
    (hapart : ∀ q, base.get q ≠ right.get q → p ≠ q ∧ ¬ Nested p q) :
    (disjointMergeTree base (disjointMergeTree base main left) right).get p = left.get p := by
  have hsame : base.get p = right.get p := by
    by_contra hne
    exact (hapart p hne).1 rfl
  rw [disjointMergeTree_of_eq hsame, disjointMergeTree_of_ne hp]
  rintro ⟨w, hw, -, hn⟩
  exact (hapart w hw).2 hn.symm

/-- Two devices between whose changes no overlap is found may be merged in either order. -/
theorem disjointMergeTree_comm {leftChanges rightChanges : List GitDiffEntry}
    (hleft : IsDiff base left leftChanges) (hright : IsDiff base right rightChanges)
    (hover : intersectChangedPaths leftChanges rightChanges = []) (p : Path) :
    (disjointMergeTree base (disjointMergeTree base main left) right).get p
      = (disjointMergeTree base (disjointMergeTree base main right) left).get p := by
  have hapart : ∀ a b, base.get a ≠ left.get a → base.get b ≠ right.get b → a ≠ b ∧ ¬ Nested a b :=
    fun a b ha hb => intersectChangedPaths_eq_nil.mp hover a (hleft.mem_changedPathSet.mpr ha) b
      (hright.mem_changedPathSet.mpr hb)
  by_cases hl : base.get p = left.get p
  · by_cases hr : base.get p = right.get p
    · by_cases hbl : DeviceWroteBeside base left p
      · rw [disjointMergeTree_of_wroteBeside hl hbl]
        by_cases hbr : DeviceWroteBeside base right p
        · exact disjointMergeTree_of_wroteBeside hr hbr
        · rw [disjointMergeTree_of_eq hr hbr, disjointMergeTree_of_wroteBeside hl hbl]
      · rw [disjointMergeTree_of_eq hl hbl]
        by_cases hbr : DeviceWroteBeside base right p
        · rw [disjointMergeTree_of_wroteBeside hr hbr, disjointMergeTree_of_wroteBeside hr hbr]
        · rw [disjointMergeTree_of_eq hr hbr, disjointMergeTree_of_eq hr hbr, disjointMergeTree_of_eq hl hbl]
    · rw [disjointMergeTree_of_ne hr]
      exact (disjointMergeTree_first hr fun q hq =>
        ⟨(hapart q p hq hr).1.symm, fun hn => (hapart q p hq hr).2 hn.symm⟩).symm
  · rw [disjointMergeTree_of_ne hl]
    exact disjointMergeTree_first hl fun q hq => hapart p q hl hq

end Order

/-- The base has one note. -/
def modeBase : Tree where
  entries := [(⟨"a.md"⟩, ⟨.regular, "01"⟩)]
  nodup := by decide
  antichain := by decide

/-- Main adds a second file. -/
def modeMain : Tree where
  entries := [(⟨"a.md"⟩, ⟨.regular, "01"⟩), (⟨"p"⟩, ⟨.regular, "03"⟩)]
  nodup := by decide
  antichain := by decide

/-- The device adds the same bytes as an executable file and renames and rewrites the note. -/
def modeDevice : Tree where
  entries := [(⟨"b.md"⟩, ⟨.regular, "02"⟩), (⟨"p"⟩, ⟨.executable, "03"⟩)]
  nodup := by decide
  antichain := by decide

theorem disjointMergeTree_comm_emptied :
    let emptied : Tree := ⟨[], by decide, by decide⟩
    (disjointMergeTree modeBase (disjointMergeTree modeBase modeBase modeMain) emptied).get ⟨"p"⟩
      = (disjointMergeTree modeBase (disjointMergeTree modeBase modeBase emptied) modeMain).get ⟨"p"⟩ :=
  disjointMergeTree_comm (isDiff_plainDiff _ _) (isDiff_plainDiff _ _) (by decide) _

/-- A repository of three commits: main and the device both start from the base. -/
def forkedRepository (base main device : Tree) : Repository where
  tree commit := if commit = "main" then main else if commit = "device" then device else base
  directoryOid _ p := p.text
  blobSize _ := 1
  commitExists commit := commit ∈ ["base", "main", "device"]
  isAncestor left right := left = right || left = "base"
  mergeBase _ _ := some "base"
  changedPaths left right := plainDiff (if left = "main" then main else if left = "device" then device else base)
    (if right = "main" then main else if right = "device" then device else base)
  isDiff _ _ := isDiff_plainDiff _ _
  similar _ _ _ _ := false
  assertSyncableTreePaths _ := .ok ()
  rootIgnorePolicy _ := .ok fun _ => false

def sampleServer : Server where
  services := sampleServices
  maxUploadBytes := 100
  db := {}
  mainRef := some "main"

def renamingInput : MergeInput where
  vaultId := "vault"
  deviceId := "device"
  deviceCommit := "device"
  proposalBase := some "base"
  detachedProposal := false
  directoryProposal := none
  attestation := some ⟨false, none, [⟨"a.md", "b.md"⟩]⟩

def forkPoint : MergePoint := ⟨"base", "base", "main", none⟩

def modeRepository : Repository := forkedRepository modeBase modeMain modeDevice

theorem disjointMerge_three_way_mode :
    let t := treesAt modeRepository renamingInput forkPoint (disjointMergeTree modeBase modeMain modeDevice)
    (t.device.get ⟨"b.md"⟩ ≠ t.naturalBase.get ⟨"b.md"⟩ → t.merged.get ⟨"b.md"⟩ = t.device.get ⟨"b.md"⟩ ∧
      (t.main.get ⟨"b.md"⟩ = t.base.get ⟨"b.md"⟩ ∨ SameObject (t.main.get ⟨"b.md"⟩) (t.device.get ⟨"b.md"⟩))) ∧
    (t.device.get ⟨"b.md"⟩ = t.naturalBase.get ⟨"b.md"⟩ →
      t.merged.get ⟨"b.md"⟩ = t.main.get ⟨"b.md"⟩ ∨ RestoredBesideDevice t ⟨"b.md"⟩) :=
  @disjointMerge_three_way modeRepository sampleServer renamingInput forkPoint _ (by decide +kernel)
    rfl ⟨"b.md"⟩

/-- Main's regular file is replaced by the device's executable one though main added it. -/
theorem disjointMerge_not_threeWay :
    mergeRoute modeRepository sampleServer renamingInput = .ok (.disjointMerge forkPoint) ∧
    ∃ merged, createDisjointMergeTree modeRepository modeBase modeMain modeDevice = .ok merged ∧
      ¬ ThreeWay (treesAt modeRepository renamingInput forkPoint merged) := by
  refine ⟨by decide +kernel, _, rfl, fun h => ?_⟩
  have hp := ((h ⟨"p"⟩).1 (by decide)).2
  revert hp
  decide

end DisjointMerge
