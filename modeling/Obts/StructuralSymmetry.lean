import Obts.StructuralChanges

/-!
# Both orders of a structural comparison

The comparison of two summaries walks the base paths of one of them and then looks for renames onto paths of the
other, both ways. Which summary comes first decides which conflict is reported, not whether there is one; and
when there is none, the renames of the two sides do not meet.
-/
namespace StructuralSymmetry

open SlashPath InsertionOrder GitTrees StructuralChanges ForestEdits List GitDiffEntry

section Symmetry

variable {left right : StructuralSummary} {a b : StructuralAction} {p : Path}

lemma singleSamePath_comm (ls rs : List Path) : singleSamePath ls rs = singleSamePath rs ls := by
  match ls, rs with
  | [l], [r] => exact decide_eq_decide.mpr eq_comm
  | [], [] => rfl
  | [], [_] => rfl
  | [], _ :: _ :: _ => rfl
  | [_], [] => rfl
  | [_], _ :: _ :: _ => rfl
  | _ :: _ :: _, [] => rfl
  | _ :: _ :: _, [_] => rfl
  | _ :: _ :: _, _ :: _ :: _ => rfl

lemma ambiguous_eq_none_iff {ls rs : List Path} {conflict : StructuralConflict} :
    (if ls = [] ∧ rs = [] then none else if singleSamePath ls rs then none else some conflict) = none ↔
      (ls = [] ∧ rs = []) ∨ singleSamePath ls rs := by
  by_cases hempty : ls = [] ∧ rs = []
  · rw [if_pos hempty]
    exact iff_of_true rfl (.inl hempty)
  · cases singleSamePath ls rs <;> simp

/-- Two actions on one base path conflict in both orders or in neither. -/
lemma structuralBasePathConflict_comm :
    structuralBasePathConflict p a b left right = none ↔ structuralBasePathConflict p b a right left = none := by
  simp only [structuralBasePathConflict]
  cases a.kind <;> cases b.kind <;> simp only [reduceCtorEq]
  case delete.delete =>
    rw [ambiguous_eq_none_iff, ambiguous_eq_none_iff, singleSamePath_comm, and_comm]
  case rename.rename =>
    by_cases hsame : a.targetPath = b.targetPath
    · rw [if_pos hsame, if_pos hsame.symm]
    · rw [if_neg hsame, if_neg (Ne.symm hsame)]
      simp

/-- A summary's base paths are found under the action listed with them. -/
def Keyed (summary : StructuralSummary) : Prop :=
  (summary.byBasePath.map Prod.fst).Nodup

lemma keyed_summaryOf (actions : List StructuralAction) (candidates : List (Path × List Path)) :
    Keyed (summaryOf actions candidates) := by
  refine foldlRecOn (motive := fun m : List (Path × StructuralAction) => (m.map Prod.fst).Nodup) actions _
    nodup_nil fun m hm action _ => ?_
  cases action.basePath with
  | none => exact hm
  | some path => exact nodup_keys_set hm path action

/-- The conflicts that are looked for. -/
lemma structuralMergeConflict_eq_none_iff (hleft : Keyed left) : structuralMergeConflict left right = none ↔
      (∀ p a b, valueAt left.byBasePath p = some a → valueAt right.byBasePath p = some b →
        structuralBasePathConflict p a b left right = none) ∧
      renameTargetCollision left right = none ∧ renameTargetCollision right left = none := by
  have hnone : ∀ (o : Option StructuralConflict) (f : Unit → Option StructuralConflict),
      o.orElse f = none ↔ o = none ∧ f () = none := by
    intro o f
    cases o <;> simp
  rw [structuralMergeConflict, hnone, hnone, findSome?_eq_none_iff]
  refine and_congr_left fun _ => ?_
  constructor
  · intro h p a b ha hb
    have hpair := h (p, a) (mem_of_valueAt ha)
    simpa [hb] using hpair
  rintro h ⟨p, a⟩ hmem
  have ha := (valueAt_eq_some hleft).mpr hmem
  dsimp only
  cases hb : valueAt right.byBasePath p with
  | none => rfl
  | some b => exact h p a b ha hb

lemma structuralMergeConflict_comm (hleft : Keyed left) (hright : Keyed right) :
    structuralMergeConflict left right = none ↔ structuralMergeConflict right left = none := by
  rw [structuralMergeConflict_eq_none_iff hleft, structuralMergeConflict_eq_none_iff hright, and_comm (a := _ = none)]
  refine and_congr_left fun _ => ?_
  constructor
  · exact fun h p b a hb ha => structuralBasePathConflict_comm.mp (h p a b ha hb)
  · exact fun h p a b ha hb => structuralBasePathConflict_comm.mp (h p b a hb ha)

end Symmetry

variable {a b : StructuralAction} {p : Path} {candidates : List (Path × List Path)}

section Bases

variable {base target : Tree} {sorted : SortedChanges} {entry : GitDiffEntry}
  {changes : List GitDiffEntry}

/-- The base paths of the actions that the sorted changes lead to, before any pairing. -/
def bases (sorted : SortedChanges) : List Path :=
  sorted.explicitRenames.map PairedRename.basePath ++ sorted.editPaths ++ sorted.deletePaths

/-- One change adds at most one base path, an endpoint of its own. -/
lemma bases_sortChange : bases (sortChange base target sorted entry) = bases sorted ∨
    ∃ q ∈ entry.endpoints, q ∉ bases sorted →
      (bases (sortChange base target sorted entry)).Perm (q :: bases sorted) := by
  have hdel : ∀ q, q ∉ bases sorted →
      (bases { sorted with deletePaths := add sorted.deletePaths q }).Perm (q :: bases sorted) := by
    intro q hq
    have hnot : q ∉ sorted.deletePaths := fun hmem => hq (mem_append_right _ hmem)
    simp only [bases, add, if_neg hnot, ← append_assoc]
    exact perm_append_singleton q _
  have hedit : ∀ q, q ∉ bases sorted →
      (bases { sorted with editPaths := add sorted.editPaths q }).Perm (q :: bases sorted) := by
    intro q hq
    have hnot : q ∉ sorted.editPaths := fun hmem => hq (mem_append_left _ (mem_append_right _ hmem))
    simp only [bases, add, if_neg hnot, append_assoc, singleton_append]
    exact (perm_middle.append_left _).trans perm_middle
  have hpath : entry.path ∈ entry.endpoints := mem_endpoints.mpr (.inl rfl)
  have hbyB : ∀ other, other = ( if (blobOid base entry.path).isSome then
        if (blobOid target entry.path).isSome then { sorted with editPaths := add sorted.editPaths entry.path }
        else { sorted with deletePaths := add sorted.deletePaths entry.path }
      else if (blobOid target entry.path).isSome then { sorted with addPaths := add sorted.addPaths entry.path }
      else sorted) → bases other = bases sorted ∨
        ∃ q ∈ entry.endpoints, q ∉ bases sorted → (bases other).Perm (q :: bases sorted) := by
    rintro other rfl
    split_ifs
    · exact .inr ⟨entry.path, hpath, hedit _⟩
    · exact .inr ⟨entry.path, hpath, hdel _⟩
    · exact .inl rfl
    · exact .inl rfl
  rw [sortChange]
  cases hstat : entry.status with
  | added => exact .inl rfl
  | modified | typeChanged => exact hbyB _ rfl
  | deleted => exact .inr ⟨entry.path, hpath, hdel _⟩
  | renamed =>
    cases hold : entry.oldPath with
    | none => exact hbyB _ rfl
    | some oldPath =>
      by_cases hne : oldPath ≠ entry.path
      · simp only [if_pos hne]
        refine .inr ⟨oldPath, mem_endpoints.mpr (.inr hold), fun _ => ?_⟩
        simp only [bases, map_append, map_cons, map_nil, append_assoc, singleton_append]
        exact perm_middle
      · simp only [if_neg hne]
        exact hbyB _ rfl

/-- Changes that name no path twice give distinct base paths. -/
lemma nodup_bases (h : (changes.flatMap GitDiffEntry.endpoints).Nodup) :
    (bases (changes.foldl (sortChange base target) {})).Nodup := by
  have hfold : ∀ sorted : SortedChanges, (bases sorted).Nodup →
      (∀ p ∈ changes.flatMap endpoints, p ∉ bases sorted) →
      (bases (changes.foldl (sortChange base target) sorted)).Nodup := by
    induction changes with
    | nil => exact fun sorted hsort _ => hsort
    | cons entry changes ih =>
      intro sorted hsort hfresh
      obtain ⟨-, hlater, hapart⟩ := nodup_append.mp h
      have hnext : ∀ p ∈ changes.flatMap endpoints, p ∉ bases sorted :=
        fun p hp => hfresh p (mem_append_right _ hp)
      rcases @bases_sortChange base target sorted entry with hsame | ⟨q, hq, hperm⟩
      · exact ih hlater _ (hsame ▸ hsort) fun p hp => hsame ▸ hnext p hp
      have hnew := hfresh q (mem_append_left _ hq)
      apply ih hlater
      · exact (hperm hnew).nodup_iff.mpr (nodup_cons.mpr ⟨hnew, hsort⟩)
      intro p hp hmem
      rcases mem_cons.mp ((hperm hnew).mem_iff.mp hmem) with rfl | hmem
      · exact hapart p hq p hp rfl
      · exact hnext p hp hmem
  exact hfold {} nodup_nil fun p _ => not_mem_nil

/-- The paths in a group have its blob. -/
lemma mem_groupPathsByOid {paths : List Path} {tree : Tree} : (groupPathsByOid paths tree |>.map Prod.fst).Nodup ∧
      ∀ group ∈ groupPathsByOid paths tree, ∀ q ∈ group.2, q ∈ paths ∧ blobOid tree q = some group.1 := by
  induction paths using reverseRecOn with
  | nil => exact ⟨nodup_nil, fun group hgroup => absurd hgroup not_mem_nil⟩
  | append_singleton paths path ih =>
    obtain ⟨hkeys, hgro⟩ := ih
    rw [groupPathsByOid, foldl_append, foldl_cons, foldl_nil, ← groupPathsByOid]
    have hwider : ∀ group ∈ groupPathsByOid paths tree, ∀ q ∈ group.2,
        q ∈ paths ++ [path] ∧ blobOid tree q = some group.1 := by
      intro group hgroup q hq
      obtain ⟨hmem, hblob⟩ := hgro group hgroup q hq
      exact ⟨mem_append_left _ hmem, hblob⟩
    cases hoid : blobOid tree path with
    | none => exact ⟨hkeys, hwider⟩
    | some oid =>
      refine ⟨nodup_keys_set hkeys oid _, fun group hgroup q hq => ?_⟩
      rcases mem_set.mp hgroup with rfl | ⟨-, hgroup⟩
      · rcases mem_append.mp hq with hq | hq
        · cases hfound : valueAt (groupPathsByOid paths tree) oid with
          | none =>
            rw [hfound] at hq
            exact absurd hq not_mem_nil
          | some found =>
            rw [hfound] at hq
            exact hwider (oid, found) (mem_of_valueAt hfound) q hq
        · rw [mem_singleton.mp hq]
          exact ⟨mem_append_right _ (mem_singleton_self path), hoid⟩
      · exact hwider group hgroup q hq

/-- The lone pairs of a deletion and an addition of one blob. -/
def lonePair (addsByOid : List (String × List Path)) (group : String × List Path) : Option PairedRename :=
  match group.2, (valueAt addsByOid group.1).getD [] with
  | [basePath], [targetPath] => some ⟨basePath, targetPath, .exactBlob⟩
  | _, _ => none

lemma inferExactRenamePairs_fst (sorted : SortedChanges) : (inferExactRenamePairs base target sorted).1
      = (groupPathsByOid sorted.deletePaths base).filterMap (lonePair (groupPathsByOid sorted.addPaths target)) := by
  rw [inferExactRenamePairs]
  induction groupPathsByOid sorted.deletePaths base using reverseRecOn with
  | nil => rfl
  | append_singleton groups group ih =>
    obtain ⟨oid, deleted⟩ := group
    dsimp only at ih ⊢
    rw [foldl_append, foldl_cons, foldl_nil, filterMap_append, ← ih, filterMap_cons, filterMap_nil, lonePair]
    generalize (valueAt (groupPathsByOid sorted.addPaths target) oid).getD [] = added
    rcases deleted with _ | ⟨basePath, _ | ⟨other, deleted⟩⟩
    · simp
    · rcases added with _ | ⟨targetPath, _ | ⟨other, added⟩⟩
      · simp
      · rfl
      · simp
    · simp

lemma bases_exact (sorted : SortedChanges) :
    ((inferExactRenamePairs base target sorted).1.map PairedRename.basePath).Nodup ∧
      ∀ p ∈ (inferExactRenamePairs base target sorted).1.map PairedRename.basePath, p ∈ sorted.deletePaths := by
  obtain ⟨hkeys, hgro⟩ := @mem_groupPathsByOid sorted.deletePaths base
  have hpair : ∀ group ∈ groupPathsByOid sorted.deletePaths base, ∀ pair,
      lonePair (groupPathsByOid sorted.addPaths target) group = some pair →
      pair.basePath ∈ sorted.deletePaths ∧ blobOid base pair.basePath = some group.1 := by
    intro group hgroup pair hlone
    rw [lonePair] at hlone
    split at hlone
    · rename_i basePath targetPath hdel hadded
      cases hlone
      exact hgro group hgroup basePath (hdel ▸ mem_singleton_self basePath)
    · cases hlone
  rw [inferExactRenamePairs_fst]
  constructor
  · rw [List.Nodup, pairwise_map, pairwise_filterMap]
    apply (pairwise_map.mp hkeys).imp_of_mem
    intro group group' hgroup hgroup' hne pair hlone pair' hlone' heq
    have hblob := (hpair group hgroup pair hlone).2
    rw [heq, (hpair group' hgroup' pair' hlone').2] at hblob
    exact hne (Option.some.inj hblob).symm
  · intro p hp
    obtain ⟨pair, hmem, rfl⟩ := mem_map.mp hp
    obtain ⟨group, hgroup, hlone⟩ := mem_filterMap.mp hmem
    exact (hpair group hgroup pair hlone).1

lemma bases_similar (similar : Path → Path → Bool) (deletePaths addPaths : List Path)
    (candidates : List (Path × List Path)) :
    ((inferSimilarRenamePairs similar deletePaths addPaths candidates).1.map PairedRename.basePath).Sublist
      deletePaths := by
  have hsub : ∀ (f : Path → Option PairedRename) (paths : List Path),
      (∀ p pair, f p = some pair → pair.basePath = p) →
      ((paths.filterMap f).map PairedRename.basePath).Sublist paths := by
    intro f paths hf
    induction paths with
    | nil => exact List.Sublist.slnil
    | cons p paths ih =>
      rw [filterMap_cons]
      cases hpair : f p with
      | none => exact ih.cons p
      | some pair =>
        rw [map_cons, hf p pair hpair]
        exact ih.cons_cons p
  apply hsub
  intro p pair hpair
  split at hpair
  · split at hpair
    · cases hpair
      rfl
    · cases hpair
  · cases hpair

/-- No two actions of a summary are on one base path. -/
lemma nodup_basePaths (similar : Path → Path → Bool) (h : (changes.flatMap GitDiffEntry.endpoints).Nodup) :
    ((summarizeStructuralChanges similar base target changes).actions.filterMap StructuralAction.basePath).Nodup := by
  rw [summarizeStructuralChanges]
  dsimp only [summaryOf]
  set sorted := changes.foldl (sortChange base target) {} with hsor
  have hbases : (bases sorted).Nodup := nodup_bases h
  obtain ⟨hexact, hexaM⟩ := @bases_exact base target sorted
  set exactRenames := (inferExactRenamePairs base target sorted).1
  set left := sorted.deletePaths.filter fun p => p ∉ exactRenames.map (·.basePath) with hleft
  set similarRenames := (inferSimilarRenamePairs similar left
    (sorted.addPaths.filter fun p => p ∉ exactRenames.map (·.targetPath))
      (inferExactRenamePairs base target sorted).2).1
  have hsub : (similarRenames.map PairedRename.basePath).Sublist left := bases_similar _ _ _ _
  have hdel : sorted.deletePaths.Nodup := (nodup_append.mp hbases).2.1
  -- the deletions, split into the paired ones and the others
  have hsplit : (exactRenames.map PairedRename.basePath ++ (similarRenames.map PairedRename.basePath ++
      left.filter fun p => p ∉ similarRenames.map (·.basePath))).Nodup ∧
      ∀ p ∈ exactRenames.map PairedRename.basePath ++ (similarRenames.map PairedRename.basePath ++
        left.filter fun p => p ∉ similarRenames.map (·.basePath)), p ∈ sorted.deletePaths := by
    have hlefN : left.Nodup := hdel.filter _
    have hin : ∀ p ∈ similarRenames.map PairedRename.basePath ++
        left.filter (fun p => p ∉ similarRenames.map (·.basePath)), p ∈ left := by
      intro p hp
      rcases mem_append.mp hp with hp | hp
      · exact hsub.subset hp
      · exact (mem_filter.mp hp).1
    constructor
    · refine nodup_append.mpr ⟨hexact, nodup_append.mpr ⟨hlefN.sublist hsub, hlefN.filter _, ?_⟩, ?_⟩
      · rintro p hp q hq rfl
        exact of_decide_eq_true (mem_filter.mp hq).2 hp
      · rintro p hp q hq rfl
        exact of_decide_eq_true (mem_filter.mp (hin p hq)).2 hp
    · intro p hp
      rcases mem_append.mp hp with hp | hp
      · exact hexaM p hp
      · exact (mem_filter.mp (hin p hp)).1
  have hnodup : (sorted.explicitRenames.map PairedRename.basePath ++ sorted.editPaths ++
      (exactRenames.map PairedRename.basePath ++ (similarRenames.map PairedRename.basePath ++
        left.filter fun p => p ∉ similarRenames.map (·.basePath)))).Nodup := by
    obtain ⟨hkept, -, hapart⟩ := nodup_append.mp hbases
    exact nodup_append.mpr ⟨hkept, hsplit.1, fun p hp q hq => hapart p hp q (hsplit.2 q hq)⟩
  simp only [filterMap_append, filterMap_map, Function.comp_def, filterMap_some, map_append,
    filterMap_none, append_nil]
  have hmap : ∀ pairs : List PairedRename,
      pairs.filterMap (fun pair => some pair.basePath) = pairs.map PairedRename.basePath := by
    intro pairs
    simp
  have hsort : ∀ (paths : List Path) (q : Path), (sort paths).count q = paths.count q :=
    fun paths q => (sortBy_perm _ paths).count_eq q
  refine (List.Perm.nodup_iff ?_).mpr hnodup
  rw [perm_iff_count]
  intro q
  simp only [hmap, count_append, hsort]
  omega

/-- The action on a base path is the one that the summary finds there. -/
lemma valueAt_byBasePath {actions : List StructuralAction}
    (h : (actions.filterMap StructuralAction.basePath).Nodup) (ha : a ∈ actions)
    (hp : a.basePath = some p) : valueAt (summaryOf actions candidates).byBasePath p = some a := by
  induction actions using reverseRecOn with
  | nil => exact absurd ha not_mem_nil
  | append_singleton actions last ih =>
    rw [filterMap_append] at h
    obtain ⟨hinit, -, hapart⟩ := nodup_append.mp h
    rw [summaryOf, foldl_append, foldl_cons, foldl_nil]
    rcases mem_append.mp ha with ha | ha
    · have hfound := ih hinit ha
      cases hlast : last.basePath with
      | none => exact hfound
      | some q =>
        have hne : p ≠ q := by
          apply hapart p (mem_filterMap.mpr ⟨a, ha, hp⟩)
          exact mem_filterMap.mpr ⟨last, mem_singleton_self last, hlast⟩
        exact (valueAt_set_of_ne _ _ hne).trans hfound
    · rw [mem_singleton.mp ha] at hp ⊢
      simp only [hp]
      exact valueAt_set_self _ p last

end Bases

/-- The path that an action adds, edits, deletes or renames to. -/
def touched (action : StructuralAction) : Option Path :=
  match action.kind with
  | .delete => action.basePath
  | .add | .edit | .rename => action.targetPath

def SameRename (a b : StructuralAction) : Prop :=
  b.kind = .rename ∧ b.basePath = a.basePath ∧ b.targetPath = a.targetPath

/-- No rename of the one side lands on a path of the other that is not the same rename. -/
def RenamesApart (left right : StructuralSummary) : Prop :=
  ∀ a ∈ left.actions, a.kind = .rename → ∀ b ∈ right.actions, ¬ SameRename a b →
    ∀ t, a.targetPath = some t → ∀ x, touched b = some x → ¬ Overlap t x

structure Compatible (left right : StructuralSummary) : Prop where
  sameTarget : ∀ a ∈ left.actions, ∀ b ∈ right.actions, a.basePath = b.basePath →
    a.kind = .rename → b.kind = .rename → a.targetPath = b.targetPath
  notDeleted : ∀ a ∈ left.actions, ∀ b ∈ right.actions, a.basePath = b.basePath →
    (a.kind = .rename ∨ a.kind = .edit → b.kind ≠ .delete) ∧ (b.kind = .rename ∨ b.kind = .edit → a.kind ≠ .delete)
  leftApart : RenamesApart left right
  rightApart : RenamesApart right left

section Completeness

variable {left right : StructuralSummary}

lemma actionTouchesPath_of_overlap {t x : Path} (hx : touched b = some x)
    (hover : Overlap t x) : actionTouchesPath b t := by
  have hconf : changedPathsConflict x t = true := by
    rw [changedPathsConflict_iff]
    rcases hover with hle | hle
    · rcases hle.lt_or_eq with hlt | heq
      · exact .inr (.inr hlt)
      · exact .inl heq.symm
    rcases hle.lt_or_eq with hlt | heq
    · exact .inr (.inl hlt)
    · exact .inl heq
  rw [touched] at hx
  rw [actionTouchesPath]
  cases hkind : b.kind with
  | delete | add | edit | rename =>
    rw [hkind] at hx
    simp [hx, hconf]

lemma renamesApart_of_none (h : renameTargetCollision left right = none) : RenamesApart left right := by
  intro a ha hkind b hb hsame t ht x hx hover
  rw [renameTargetCollision, findSome?_eq_none_iff] at h
  have hnone := h a (mem_filter.mpr ⟨ha, decide_eq_true hkind⟩)
  rw [ht] at hnone
  have hfind : (right.actions.find? fun other => !(other.kind = .rename && other.basePath = a.basePath &&
      other.targetPath = some t) && actionTouchesPath other t) = none := by
    by_contra hsome
    obtain ⟨other, hother⟩ := Option.ne_none_iff_exists'.mp hsome
    rw [Option.bind_eq_bind, Option.bind_some, hother] at hnone
    cases hnone
  have hb' := find?_eq_none.mp hfind b hb
  rw [actionTouchesPath_of_overlap hx hover, Bool.and_true, Bool.not_eq_true', ← Bool.not_eq_true, not_not] at hb'
  rw [SameRename, ht] at hsame
  simp only [Bool.and_eq_true, decide_eq_true_eq, and_assoc] at hb'
  exact hsame hb'

/-- Without a conflict, actions on one base path go together. -/
lemma basePathConflict_of_none {actions actions' : List StructuralAction} {candidates' : List (Path × List Path)}
    (hleft : (actions.filterMap StructuralAction.basePath).Nodup)
    (hright : (actions'.filterMap StructuralAction.basePath).Nodup)
    (h : structuralMergeConflict (summaryOf actions candidates) (summaryOf actions' candidates') = none)
    (ha : a ∈ actions) (hb : b ∈ actions') (hap : a.basePath = some p) (hbp : b.basePath = some p) :
    structuralBasePathConflict p a b (summaryOf actions candidates) (summaryOf actions' candidates') = none := by
  apply ((structuralMergeConflict_eq_none_iff (keyed_summaryOf _ _)).mp h).1
  · exact valueAt_byBasePath hleft ha hap
  · exact valueAt_byBasePath hright hb hbp

/-- A deletion conflicts with a rename and with an edit of its path. -/
lemma deletion_conflicts (ha : a.kind = .rename ∨ a.kind = .edit)
    (hb : b.kind = .delete) : structuralBasePathConflict p a b left right ≠ none := by
  rw [structuralBasePathConflict, hb]
  rcases ha with ha | ha
  · rw [ha]
    exact Option.some_ne_none _
  · rw [ha]
    exact Option.some_ne_none _

lemma basePath_of_kind {similar : Path → Path → Bool} {base target : Tree} {changes : List GitDiffEntry}
    (ha : a ∈ (summarizeStructuralChanges similar base target changes).actions)
    (hkind : a.kind ≠ .add) : ∃ p, a.basePath = some p := by
  rw [summarizeStructuralChanges] at ha
  dsimp only [summaryOf] at ha
  simp only [mem_append, mem_map] at ha
  rcases ha with ((⟨pair, -, rfl⟩ | ⟨p, -, rfl⟩) | ⟨p, -, rfl⟩) | ⟨p, -, rfl⟩
  · exact ⟨_, rfl⟩
  · exact ⟨p, rfl⟩
  · exact ⟨p, rfl⟩
  · exact absurd rfl hkind

end Completeness

/-- Which summary comes first does not matter for there being a conflict, and no conflict means that the two sides
agree on every base path and that no rename meets a path of the other side. -/
theorem structuralMergeConflict_symmetric_complete (similar similar' : Path → Path → Bool)
    (base target base' target' : Tree)
    (changes changes' : List GitDiffEntry) :
    (structuralMergeConflict (summarizeStructuralChanges similar base target changes)
        (summarizeStructuralChanges similar' base' target' changes') = none ↔
      structuralMergeConflict (summarizeStructuralChanges similar' base' target' changes')
        (summarizeStructuralChanges similar base target changes) = none) ∧
    ((changes.flatMap GitDiffEntry.endpoints).Nodup → (changes'.flatMap GitDiffEntry.endpoints).Nodup →
      structuralMergeConflict (summarizeStructuralChanges similar base target changes)
        (summarizeStructuralChanges similar' base' target' changes') = none →
      Compatible (summarizeStructuralChanges similar base target changes)
        (summarizeStructuralChanges similar' base' target' changes')) := by
  constructor
  · exact structuralMergeConflict_comm (keyed_summaryOf _ _) (keyed_summaryOf _ _)
  intro hleft hright h
  have hpair : ∀ a ∈ (summarizeStructuralChanges similar base target changes).actions,
      ∀ b ∈ (summarizeStructuralChanges similar' base' target' changes').actions, a.basePath = b.basePath →
      a.kind ≠ .add → ∃ p, structuralBasePathConflict p a b (summarizeStructuralChanges similar base target changes)
        (summarizeStructuralChanges similar' base' target' changes') = none := by
    intro a ha b hb hsame hkind
    obtain ⟨p, hp⟩ := basePath_of_kind ha hkind
    exact ⟨p, basePathConflict_of_none (nodup_basePaths similar hleft) (nodup_basePaths similar' hright) h ha hb hp
      (hsame ▸ hp)⟩
  obtain ⟨-, hlefA, hrigA⟩ := (structuralMergeConflict_eq_none_iff (keyed_summaryOf _ _)).mp h
  refine ⟨fun a ha b hb hsame haren hbren => ?_, fun a ha b hb hsame => ⟨fun hkind hdel => ?_,
    fun hkind hdel => ?_⟩, renamesApart_of_none hlefA, renamesApart_of_none hrigA⟩
  · obtain ⟨p, hp⟩ := hpair a ha b hb hsame (by rw [haren]; decide)
    rw [structuralBasePathConflict, haren, hbren] at hp
    by_contra hne
    rw [if_neg hne] at hp
    cases hp
  · obtain ⟨p, hp⟩ := hpair a ha b hb hsame (by rcases hkind with hkind | hkind <;> rw [hkind] <;> decide)
    exact deletion_conflicts hkind hdel hp
  · obtain ⟨p, hp⟩ := hpair a ha b hb hsame (by rw [hdel]; decide)
    exact deletion_conflicts hkind hdel (structuralBasePathConflict_comm.mp hp)

def oneNote (path oid : String) : Tree where
  entries := [(⟨path⟩, ⟨.regular, oid⟩)]
  nodup := List.nodup_singleton _
  antichain := by simp

/-- One side renames the note, the other edits it. -/
theorem structuralMergeConflict_symmetric_complete_renamed :
    Compatible (summarizeStructuralChanges (fun _ _ => false) (oneNote "a" "01") (oneNote "b" "01")
        [⟨.renamed, some ⟨"a"⟩, ⟨"b"⟩⟩])
      (summarizeStructuralChanges (fun _ _ => false) (oneNote "a" "01") (oneNote "a" "02")
        [⟨.modified, none, ⟨"a"⟩⟩]) :=
  (structuralMergeConflict_symmetric_complete (fun _ _ => false) (fun _ _ => false) (oneNote "a" "01")
    (oneNote "b" "01")
    (oneNote "a" "01") (oneNote "a" "02") [⟨.renamed, some ⟨"a"⟩, ⟨"b"⟩⟩] [⟨.modified, none, ⟨"a"⟩⟩]).2
    (by decide) (by decide) (by decide +kernel)

end StructuralSymmetry
