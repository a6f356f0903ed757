import Mathlib.Data.Finite.Defs
import Mathlib.Data.List.Induction
import Mathlib.Data.Set.Finite.List
import Mathlib.Order.Preorder.Finite
import Obts.SlashPath

/-!
# Directory intents

The pure functions of the sync service on explicit-directory snapshots: applying intents to
a snapshot, the net intents between two snapshots, compaction and the topmost paths. Each
gets one theorem that says what it computes in terms of edits of a forest.
-/
namespace DirectoryIntents

open ForestEdits SlashPath InsertionOrder
open List (foldl_append foldl_cons foldl_nil map_cons map_map map_nil mem_cons mem_filter mem_map pairwise_map
    reverseRecOn)

structure DirectoryIntent where
  op : EditOp
  path : Path
  deriving DecidableEq

namespace DirectoryIntent

def edit (intent : DirectoryIntent) : Edit Path := ⟨intent.op, intent.path⟩

@[simp] lemma edit_op (intent : DirectoryIntent) : intent.edit.op = intent.op := rfl

@[simp] lemma edit_node (intent : DirectoryIntent) : intent.edit.node = intent.path := rfl

lemma edit_injective : Function.Injective edit := by
  intro a b h
  cases a
  cases b
  simpa [edit] using h

end DirectoryIntent

def edits (intents : List DirectoryIntent) : List (Edit Path) :=
  intents.map DirectoryIntent.edit

/-- The set of paths that a snapshot lists. -/
def dirs (snapshot : List Path) : Set Path := {p | p ∈ snapshot}

variable {p : Path} {previous current paths snapshot : List Path}
  {byPath : List (Path × DirectoryIntent)} {e : Path × DirectoryIntent}

@[simp] lemma mem_dirs : p ∈ dirs snapshot ↔ p ∈ snapshot :=
  Iff.rfl

/-- A snapshot lists the ancestors of everything it lists. -/
def PrefixClosed (snapshot : List Path) : Prop := IsLowerSet (dirs snapshot)

lemma prefixClosed_iff : PrefixClosed snapshot ↔ ∀ p ∈ snapshot, ∀ q ∈ directoryPrefixes p, q ∈ snapshot := by
  simp only [mem_directoryPrefixes]
  constructor
  · intro h p hp q hlt
    exact h hlt.le hp
  intro h p q hle hp
  rcases hle.lt_or_eq with hlt | rfl
  · exact h p hp q hlt
  · exact hp

instance (snapshot : List Path) : Decidable (PrefixClosed snapshot) :=
  decidable_of_iff _ prefixClosed_iff.symm

/-- One round of the loop over a proposal's intents, on the set of explicit directories. -/
def applyIntent (explicit : List Path) (intent : DirectoryIntent) : List Path :=
  match intent.op with
  | .delete => explicit.filter fun path => !pathsOverlapWithinRoot path intent.path
  | .create => add (addAll explicit (directoryPrefixes intent.path)) intent.path

def applyDirectoryIntentsToSnapshot (previous : List Path) (intents : List DirectoryIntent) : List Path :=
  sort (intents.foldl applyIntent (ofList previous))

lemma dirs_applyIntent (explicit : List Path) (intent : DirectoryIntent) :
    dirs (applyIntent explicit intent) = intent.edit.perform (dirs explicit) := by
  ext q
  cases hop : intent.op with
  | create =>
    simp [applyIntent, hop, Edit.perform, DirectoryIntent.edit_op, mem_dirs, mem_add,
      mem_addAll, mem_directoryPrefixes, Set.mem_union, Set.mem_Iic, DirectoryIntent.edit_node,
      or_assoc, le_iff_lt_or_eq]
  | delete =>
    have hwin : (!pathsOverlapWithinRoot q intent.path) = true ↔ ¬ intent.path ≤ q := by
      rw [Bool.not_eq_true', ← Bool.not_eq_true, pathsOverlapWithinRoot_iff]
    simp [applyIntent, hop, Edit.perform, DirectoryIntent.edit_op, hwin, DirectoryIntent.edit_node]

lemma dirs_foldl_applyIntent (explicit : List Path) (intents : List DirectoryIntent) :
    dirs (intents.foldl applyIntent explicit) = run (dirs explicit) (edits intents) := by
  induction intents generalizing explicit with
  | nil => rfl
  | cons intent intents ih =>
    rw [foldl_cons, ih, dirs_applyIntent]
    rfl

/-- Applying intents to a snapshot runs their edits on the set it lists. -/
lemma dirs_applyDirectoryIntentsToSnapshot (previous : List Path)
    (intents : List DirectoryIntent) : dirs (applyDirectoryIntentsToSnapshot previous intents)
      = run (dirs previous) (edits intents) := by
  have hset : dirs (ofList previous) = dirs previous := by
    ext q
    simp
  rw [← hset, ← dirs_foldl_applyIntent]
  ext q
  simp [applyDirectoryIntentsToSnapshot]

lemma PrefixClosed.applyDirectoryIntentsToSnapshot (h : PrefixClosed previous) (intents : List DirectoryIntent) :
    PrefixClosed (applyDirectoryIntentsToSnapshot previous intents) := by
  rw [PrefixClosed, dirs_applyDirectoryIntentsToSnapshot]
  exact isLowerSet_run h _

/-- One round of compaction on the map from paths to intents. -/
def compactStep (byPath : List (Path × DirectoryIntent)) (intent : DirectoryIntent) :
    List (Path × DirectoryIntent) :=
  let kept := match intent.op with
    | .delete => byPath.filter fun entry => !pathsOverlapWithinRoot entry.1 intent.path
    | .create => byPath
  set kept intent.path intent

def opName : EditOp → String
  | .create => "create"
  | .delete => "delete"

/-- The comparator of the final sort: by path, then by operation. -/
def compareIntents (c : Collation) : DirectoryIntent → DirectoryIntent → Ordering :=
  compareLex (fun left right => c.localeCompare left.path.text right.path.text)
    (fun left right => c.localeCompare (opName left.op) (opName right.op))

instance (c : Collation) : Std.TransCmp (compareIntents c) :=
  have := transCmp_comap c.localeCompare fun intent : DirectoryIntent => intent.path.text
  have := transCmp_comap c.localeCompare fun intent : DirectoryIntent => opName intent.op
  inferInstanceAs (Std.TransCmp (compareLex _ _))

def compactDirectoryIntents (c : Collation) (intents : List DirectoryIntent) : List DirectoryIntent :=
  sortBy (compareIntents c) ((intents.foldl compactStep []).map Prod.snd)

lemma mem_compactStep {intent : DirectoryIntent} : e ∈ compactStep byPath intent ↔ e = (intent.path, intent) ∨
        (e ∈ byPath ∧ e.1 ≠ intent.path ∧ ¬ (intent.op = .delete ∧ intent.path ≤ e.1)) := by
  cases hop : intent.op with
  | create => simp [compactStep, hop, mem_set, and_comm]
  | delete =>
    have hwin : (!pathsOverlapWithinRoot e.1 intent.path) = true ↔ ¬ intent.path ≤ e.1 := by
      rw [Bool.not_eq_true', ← Bool.not_eq_true, pathsOverlapWithinRoot_iff]
    simp only [compactStep, hop, mem_set, mem_filter, hwin, true_and]
    tauto

variable {intents : List DirectoryIntent} {c : Collation} {f : DirectoryIntent}

/-- The map of the compaction loop holds the surviving intents under their paths. -/
lemma mem_foldl_compactStep :
    e ∈ intents.foldl compactStep [] ↔ e.1 = e.2.path ∧ Survives (edits intents) e.2.edit := by
  induction intents using reverseRecOn with
  | nil => simp [edits, not_survives_nil]
  | append_singleton intents intent ih =>
    have hedits : edits (intents ++ [intent]) = edits intents ++ [intent.edit] := by
      simp [edits]
    rw [foldl_append, foldl_cons, foldl_nil, mem_compactStep, ih, hedits,
      survives_concat, DirectoryIntent.edit_injective.eq_iff]
    obtain ⟨key, f⟩ := e
    simp only
    constructor
    · rintro (heq | ⟨⟨hkey, hsurv⟩, hne, hdel⟩)
      · cases heq
        exact ⟨rfl, .inl rfl⟩
      refine ⟨hkey, .inr ⟨hsurv, ?_⟩⟩
      rintro (hsame | ⟨hop, hle⟩)
      · exact hne (hkey.trans hsame.symm)
      · exact hdel ⟨hop, hkey ▸ hle⟩
    · rintro ⟨hkey, rfl | ⟨hsurv, hover⟩⟩
      · exact .inl (by rw [hkey])
      refine .inr ⟨⟨hkey, hsurv⟩, ?_, ?_⟩
      · intro hsame
        exact hover (.inl (hsame.symm.trans hkey))
      · rintro ⟨hop, hle⟩
        exact hover (.inr ⟨hop, show intent.path ≤ f.path from hkey ▸ hle⟩)

lemma nodup_keys_compactStep (h : (byPath.map Prod.fst).Nodup) (intent : DirectoryIntent) :
    ((compactStep byPath intent).map Prod.fst).Nodup := by
  cases hop : intent.op with
  | create => simpa [compactStep, hop] using nodup_keys_set h intent.path intent
  | delete =>
    have hkept : ((byPath.filter fun entry =>
        !pathsOverlapWithinRoot entry.1 intent.path).map Prod.fst).Nodup :=
      h.sublist (List.filter_sublist.map Prod.fst)
    simpa [compactStep, hop] using nodup_keys_set hkept intent.path intent

lemma nodup_keys_foldl_compactStep (intents : List DirectoryIntent) :
    ((intents.foldl compactStep []).map Prod.fst).Nodup := by
  induction intents using reverseRecOn with
  | nil => simp
  | append_singleton intents intent ih =>
    rw [foldl_append]
    exact nodup_keys_compactStep ih intent

/-- Compaction keeps exactly the intents that no later intent overrides. -/
lemma mem_compactDirectoryIntents : f ∈ compactDirectoryIntents c intents ↔ Survives (edits intents) f.edit := by
  rw [compactDirectoryIntents, mem_sortBy, mem_map]
  constructor
  · rintro ⟨e, he, rfl⟩
    exact (mem_foldl_compactStep.mp he).2
  · intro h
    exact ⟨(f.path, f), mem_foldl_compactStep.mpr ⟨rfl, h⟩, rfl⟩

/-- The compacted list has one intent a path and puts ancestors before descendants. -/
lemma ancestorsFirst_compactDirectoryIntents (c : Collation) (intents : List DirectoryIntent) :
    AncestorsFirst (edits (compactDirectoryIntents c intents)) := by
  have hkeys : ((intents.foldl compactStep []).map Prod.snd).Pairwise
      fun e f => e.path ≠ f.path := by
    have hnodup := nodup_keys_foldl_compactStep intents
    rw [List.Nodup, pairwise_map] at hnodup
    rw [pairwise_map]
    refine hnodup.imp_of_mem fun he hf hne => ?_
    rwa [← (mem_foldl_compactStep.mp he).1, ← (mem_foldl_compactStep.mp hf).1]
  have hpaths : (compactDirectoryIntents c intents).Pairwise fun e f => e.path ≠ f.path :=
    (sortBy_perm _ _).symm.pairwise hkeys fun h => h.symm
  have hsort := pairwise_sortBy (compareIntents c) ((intents.foldl compactStep []).map Prod.snd)
  rw [AncestorsFirst, edits, pairwise_map]
  refine (hpaths.and hsort).imp ?_
  rintro e f ⟨hne, hle⟩ hfe
  have hlt : f.path < e.path := lt_of_le_of_ne hfe hne.symm
  have hcmp := c.lt_of_lt hlt
  have hswap : c.localeCompare e.path.text f.path.text = .gt := by
    rw [@Std.OrientedCmp.eq_swap _ c.localeCompare, hcmp]
    rfl
  simp [compareIntents, compareLex, hswap] at hle

/-- With ancestors first, every round of compaction only appends. -/
lemma foldl_compactStep_of_ancestorsFirst (h : AncestorsFirst (edits intents)) :
    intents.foldl compactStep [] = intents.map fun intent => (intent.path, intent) := by
  induction intents using reverseRecOn with
  | nil => rfl
  | append_singleton intents intent ih =>
    rw [AncestorsFirst, edits, List.map_append, List.pairwise_append] at h
    obtain ⟨hints, -, hlast⟩ := h
    have hnot : ∀ other ∈ intents, ¬ intent.path ≤ other.path := fun other hother =>
      hlast other.edit (List.mem_map_of_mem hother) intent.edit (by simp)
    have hfresh : intent.path ∉ (intents.map fun intent => (intent.path, intent)).map Prod.fst := by
      simp only [map_map, mem_map, Function.comp_apply, not_exists, not_and]
      intro other hother heq
      exact hnot other hother heq.ge
    have hkept : (intents.map fun intent => (intent.path, intent)).filter
        (fun entry => !pathsOverlapWithinRoot entry.1 intent.path)
          = intents.map fun intent => (intent.path, intent) := by
      rw [List.filter_eq_self]
      intro entry hentry
      obtain ⟨other, hother, rfl⟩ := mem_map.mp hentry
      rw [Bool.not_eq_true', ← Bool.not_eq_true, pathsOverlapWithinRoot_iff]
      exact hnot other hother
    rw [foldl_append, ih hints, foldl_cons, foldl_nil, List.map_append]
    cases hop : intent.op with
    | create =>
      simp only [compactStep, hop, InsertionOrder.set, if_neg hfresh, map_cons, map_nil]
    | delete =>
      simp only [compactStep, hop, hkept, InsertionOrder.set, if_neg hfresh, map_cons, map_nil]

/-- Compacting a compacted list gives the list back. -/
lemma compactDirectoryIntents_compact (c : Collation) (intents : List DirectoryIntent) :
    compactDirectoryIntents c (compactDirectoryIntents c intents) = compactDirectoryIntents c intents := by
  have hvals : ((compactDirectoryIntents c intents).map fun intent => (intent.path, intent)).map
      Prod.snd = compactDirectoryIntents c intents := by
    rw [map_map]
    exact List.map_id _
  rw [compactDirectoryIntents,
    foldl_compactStep_of_ancestorsFirst (ancestorsFirst_compactDirectoryIntents c intents), hvals]
  exact sortBy_of_pairwise (pairwise_sortBy (compareIntents c) _)

lemma mem_of_mem_compactDirectoryIntents (h : f ∈ compactDirectoryIntents c intents) : f ∈ intents := by
  obtain ⟨intent, hintent, heq⟩ := mem_map.mp (mem_compactDirectoryIntents.mp h).mem
  rwa [← DirectoryIntent.edit_injective heq]

lemma length_compactDirectoryIntents_le (c : Collation) (intents : List DirectoryIntent) :
    (compactDirectoryIntents c intents).length ≤ intents.length := by
  rw [compactDirectoryIntents, (sortBy_perm _ _).length_eq, List.length_map]
  induction intents using reverseRecOn with
  | nil => exact le_rfl
  | append_singleton intents intent ih =>
    have hset : ∀ (m : List (Path × DirectoryIntent)) (v : DirectoryIntent),
        (set m v.path v).length ≤ m.length + 1 := by
      intro m v
      rw [InsertionOrder.set]
      split <;> simp
    rw [foldl_append, foldl_cons, foldl_nil, List.length_append]
    cases hop : intent.op with
    | create =>
      simp only [compactStep, hop]
      exact (hset _ _).trans (Nat.succ_le_succ ih)
    | delete =>
      simp only [compactStep, hop]
      exact (hset _ _).trans (Nat.succ_le_succ ((List.length_filter_le _ _).trans ih))

/-- The paths that `current` lacks, less those below another such path. -/
def deleted (previous current : List Path) : List Path :=
  (previous.filter fun path => !current.contains path).filter fun path =>
    !previous.any fun candidate =>
      candidate != path && path.startsWithDir candidate && !current.contains candidate

def created (previous current : List Path) : List Path :=
  current.filter fun path => !previous.contains path

def directoryIntentsBetweenSnapshots (c : Collation) (previous current : List Path) : List DirectoryIntent :=
  compactDirectoryIntents c
    ((deleted previous current).map (⟨.delete, ·⟩) ++ (created previous current).map (⟨.create, ·⟩))

lemma mem_deleted : p ∈ deleted previous current ↔
      p ∈ previous ∧ p ∉ current ∧ ∀ candidate ∈ previous, candidate < p → candidate ∈ current := by
  simp only [deleted, mem_filter, Bool.not_eq_true', List.contains_eq_mem,
    decide_eq_false_iff_not, List.any_eq_false, Bool.and_eq_true, bne_iff_ne,
    Path.startsWithDir_iff_lt, and_assoc]
  refine and_congr_right fun _ => and_congr_right fun _ => forall₂_congr fun candidate _ => ?_
  constructor
  · intro h hlt
    by_contra hmem
    exact h ⟨hlt.ne, hlt, hmem⟩
  · rintro h ⟨_, hlt, hmem⟩
    exact hmem (h hlt)

lemma mem_created : p ∈ created previous current ↔ p ∈ current ∧ p ∉ previous := by
  simp [created]

/-- Every path that `current` lacks lies at or below a deleted one. -/
lemma exists_mem_deleted_le (hp : p ∈ previous) (hc : p ∉ current) : ∃ d ∈ deleted previous current, d ≤ p := by
  have hfin : Set.Finite {q : Path | q ∈ previous ∧ q ∉ current} :=
    (List.finite_toSet previous).subset fun q hq => hq.1
  obtain ⟨d, hdp, hd⟩ := hfin.exists_le_minimal ⟨hp, hc⟩
  refine ⟨d, mem_deleted.mpr ⟨hd.prop.1, hd.prop.2, fun candidate hmem hlt => ?_⟩, hdp⟩
  by_contra hcur
  exact hd.not_prop_of_lt hlt ⟨hmem, hcur⟩

/-- Compaction drops nothing here: the deletes are topmost, and no path is both. -/
lemma mem_directoryIntentsBetweenSnapshots : f ∈ directoryIntentsBetweenSnapshots c previous current ↔
      (f.op = .delete ∧ f.path ∈ deleted previous current) ∨
        (f.op = .create ∧ f.path ∈ created previous current) := by
  have htopm : ∀ a ∈ deleted previous current, ∀ b ∈ deleted previous current, ¬ a < b := by
    intro a ha b hb hlt
    exact (mem_deleted.mp ha).2.1 ((mem_deleted.mp hb).2.2 a (mem_deleted.mp ha).1 hlt)
  have hedits : edits ((deleted previous current).map (⟨.delete, ·⟩) ++
        (created previous current).map (⟨.create, ·⟩))
      = (deleted previous current).map (Edit.mk .delete) ++
        (created previous current).map (Edit.mk .create) := by
    simp [edits, Function.comp_def, DirectoryIntent.edit]
  rw [directoryIntentsBetweenSnapshots, mem_compactDirectoryIntents, hedits, survives_append,
    survives_map_mk nofun, survives_map_mk fun _ => htopm]
  constructor
  · rintro (hcr | ⟨hdel, _⟩)
    · exact .inr hcr
    · exact .inl hdel
  rintro (hdel | hcr)
  · refine .inr ⟨hdel, fun g hg hover => ?_⟩
    obtain ⟨p, hp, rfl⟩ := mem_map.mp hg
    rcases hover with h | ⟨h, _⟩
    · have hpf : p = f.path := h
      exact (mem_deleted.mp hdel.2).2.1 (hpf ▸ (mem_created.mp hp).1)
    · cases h
  · exact .inl hcr

/-- The filter over the sorted paths; `earlier` holds the paths before the current one. -/
def withoutDescendants (earlier : List Path) : List Path → List Path
  | [] => []
  | path :: rest =>
    if earlier.any path.startsWithDir then withoutDescendants (earlier ++ [path]) rest
    else path :: withoutDescendants (earlier ++ [path]) rest

def compareByLength (c : Collation) : Path → Path → Ordering :=
  compareLex (compareOn fun path => path.codeUnits.length) (fun left right => c.localeCompare left.text right.text)

instance (c : Collation) : Std.TransCmp (compareByLength c) :=
  have := transCmp_comap c.localeCompare Path.text
  inferInstanceAs (Std.TransCmp (compareLex _ _))

def topmostDirectoryPaths (c : Collation) (paths : List Path) : List Path :=
  withoutDescendants [] (sortBy (compareByLength c) (ofList paths))

lemma mem_withoutDescendants {earlier : List Path} (h : (earlier ++ paths).Pairwise fun a b => ¬ b < a) :
    p ∈ withoutDescendants earlier paths ↔ p ∈ paths ∧ ∀ a ∈ earlier ++ paths, ¬ a < p := by
  induction paths generalizing earlier with
  | nil => simp [withoutDescendants]
  | cons path rest ih =>
    have hassoc : earlier ++ path :: rest = (earlier ++ [path]) ++ rest := by simp
    have hrest := ih (hassoc ▸ h)
    have hlater : ∀ a ∈ rest, ¬ a < path :=
      (List.pairwise_cons.mp (List.pairwise_append.mp h).2.1).1
    have hany : earlier.any path.startsWithDir = true ↔ ∃ a ∈ earlier, a < path := by
      simp [Path.startsWithDir_iff_lt]
    rw [withoutDescendants]
    split
    · rename_i hdesc
      obtain ⟨a, ha, hlt⟩ := hany.mp hdesc
      rw [hrest, ← hassoc, mem_cons]
      constructor
      · rintro ⟨hp, hmin⟩
        exact ⟨.inr hp, hmin⟩
      rintro ⟨rfl | hp, hmin⟩
      · exact absurd hlt (hmin a (List.mem_append_left _ ha))
      · exact ⟨hp, hmin⟩
    · rename_i hdesc
      rw [mem_cons, hrest, ← hassoc, mem_cons]
      constructor
      · rintro (rfl | ⟨hp, hmin⟩)
        · refine ⟨.inl rfl, fun a ha hlt => ?_⟩
          rcases List.mem_append.mp ha with ha | ha
          · exact hdesc (hany.mpr ⟨a, ha, hlt⟩)
          rcases mem_cons.mp ha with rfl | ha
          · exact lt_irrefl _ hlt
          · exact hlater a ha hlt
        · exact ⟨.inr hp, hmin⟩
      · rintro ⟨rfl | hp, hmin⟩
        · exact .inl rfl
        · exact .inr ⟨hp, hmin⟩

/-- The affected roots are the paths with no other path above them. -/
lemma mem_topmostDirectoryPaths : p ∈ topmostDirectoryPaths c paths ↔ p ∈ paths ∧ ∀ a ∈ paths, ¬ a < p := by
  have hsort : (sortBy (compareByLength c) (ofList paths)).Pairwise fun a b => ¬ b < a := by
    refine (pairwise_sortBy (compareByLength c) _).imp fun {a b} hle hlt => ?_
    have hlen : compare a.codeUnits.length b.codeUnits.length = .gt :=
      Nat.compare_eq_gt.mpr (Path.codeUnits_length_lt hlt)
    simp [compareByLength, compareLex, compareOn, hlen] at hle
  rw [topmostDirectoryPaths, mem_withoutDescendants (by simpa using hsort)]
  simp

lemma exists_mem_topmostDirectoryPaths_le (hp : p ∈ paths) : ∃ root ∈ topmostDirectoryPaths c paths, root ≤ p := by
  obtain ⟨root, hle, hmin⟩ := (List.finite_toSet paths).exists_le_minimal hp
  exact ⟨root, mem_topmostDirectoryPaths.mpr ⟨hmin.prop, fun a ha hlt => hmin.not_prop_of_lt hlt ha⟩, hle⟩

end DirectoryIntents
