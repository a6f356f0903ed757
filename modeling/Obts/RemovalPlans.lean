import Mathlib.Data.Finset.Max
import Mathlib.Order.Bounds.Basic
import Obts.PlannedJournals

/-!
# Deferred paths and batches of removals

What an apply defers is closed under conflicts and no more than that, and what it removes is removed
from the leaves up.
-/
namespace ApplyJournals

open SlashPath InsertionOrder List
open GitTrees (changedPathsConflict changedPathsConflict_iff)

section Deferral
variable {journal journal' : ApplyJournal} {targetMatchedPaths localPaths localPaths' : List Path} {p : Path}

/-- A set has what was deferred and the seeds, and with any path the affected ones that conflict. -/
structure Defers (journal : ApplyJournal) (targetMatchedPaths localPaths : List Path) (S : Set Path) : Prop where
  deferred : ∀ p ∈ journal.deferredLocalPaths, p ∈ S
  seeds : ∀ p ∈ localPaths, p ∈ S
  closed : ∀ p ∈ S, ∀ q ∈ journal.affectedPaths, q ∉ targetMatchedPaths → q ≤ p ∨ p ≤ q → q ∈ S

lemma conflict_iff_le {q : Path} : changedPathsConflict q p ↔ q ≤ p ∨ p ≤ q := by
  rw [changedPathsConflict_iff, FileTrees.Nested, le_iff_eq_or_lt, le_iff_eq_or_lt, eq_comm (a := p)]
  tauto

lemma isLeast_expandDeferredApplyPaths (journal : ApplyJournal) (targetMatchedPaths localPaths : List Path) :
    IsLeast {S | Defers journal targetMatchedPaths localPaths S}
      {p | p ∈ expandDeferredApplyPaths journal targetMatchedPaths localPaths} := by
  have hstart : ∀ p, p ∈ journal.deferredLocalPaths ∨ p ∈ localPaths →
      p ∈ expandDeferredApplyPaths journal targetMatchedPaths localPaths := fun p hp =>
    mem_sort.mpr (subset_expandFrom (mem_ofList.mpr (mem_append.mpr hp)))
  refine ⟨⟨fun p hp => hstart p (.inl hp), fun p hp => hstart p (.inr hp), ?_⟩, fun S hS p hp => ?_⟩
  · exact fun p hp q hq hmatc hle =>
      expandDeferredApplyPaths_closed hp hq hmatc (conflict_iff_le.mpr hle)
  have hS' : ∀ q ∈ ofList (journal.deferredLocalPaths ++ localPaths), q ∈ S := fun q hq =>
    (mem_append.mp (mem_ofList.mp hq)).elim (hS.deferred q) (hS.seeds q)
  refine expandFrom_subset hS' hS' (fun q hq r hr hconf => ?_) p (mem_sort.mp hp)
  obtain ⟨hr, hmatc⟩ := mem_filter.mp hr
  exact hS.closed q hq r hr (by simpa using hmatc) (conflict_iff_le.mp hconf)

lemma expandDeferredApplyPaths_subset
    (h : ∀ S, Defers journal' targetMatchedPaths localPaths' S → Defers journal targetMatchedPaths localPaths S) :
    expandDeferredApplyPaths journal targetMatchedPaths localPaths
      ⊆ expandDeferredApplyPaths journal' targetMatchedPaths localPaths' := fun _ hp =>
  (isLeast_expandDeferredApplyPaths journal targetMatchedPaths localPaths).2
    (h _ (isLeast_expandDeferredApplyPaths journal' targetMatchedPaths localPaths').1) hp

/-- What is deferred depends on the sets of paths only. -/
lemma expandDeferredApplyPaths_congr (h : ∀ S, Defers journal targetMatchedPaths localPaths S ↔
      Defers journal' targetMatchedPaths localPaths' S) :
    expandDeferredApplyPaths journal targetMatchedPaths localPaths
      = expandDeferredApplyPaths journal' targetMatchedPaths localPaths' := by
  refine sort_eq_of_perm ((perm_ext_iff_of_nodup (nodup_expandFrom (nodup_ofList _))
    (nodup_expandFrom (nodup_ofList _))).mpr fun p => ?_)
  rw [← mem_sort, ← @mem_sort (expandFrom _ _ _ _)]
  exact ⟨fun hp => expandDeferredApplyPaths_subset (fun S => (h S).mpr) hp,
    fun hp => expandDeferredApplyPaths_subset (fun S => (h S).mp) hp⟩

end Deferral

section Batches
variable (localeCompare : String → String → Ordering) {paths remaining : List Path} {p q : Path}

def compareDeepestPathFirst (left right : Path) : Ordering :=
  let depth (path : Path) := (path.text.toList.splitOn '/').length
  (compare (depth right) (depth left)).then (localeCompare left.text right.text)

def removalBatch (remaining : List Path) : List Path :=
  sortBy (compareDeepestPathFirst localeCompare) (remaining.filter fun candidate =>
    !remaining.any fun other => other ≠ candidate && other.startsWithDir candidate)

lemma mem_removalBatch : p ∈ removalBatch localeCompare remaining ↔ p ∈ remaining ∧ ∀ q ∈ remaining, ¬ p < q := by
  simp only [removalBatch, mem_sortBy, mem_filter, Bool.not_eq_true', any_eq_false, Bool.and_eq_true,
    decide_eq_true_eq, Path.startsWithDir_iff_lt, not_and]
  exact and_congr_right' (forall₂_congr fun q _ => ⟨fun h hlt => h hlt.ne' hlt, fun h _ => h⟩)

/-- Nothing when the batch of leaves is empty: an error. -/
def batchesFrom (remaining : List Path) : Option (List (List Path)) :=
  if remaining = [] then some []
  else
    let batch := removalBatch localeCompare remaining
    if batch = [] then none
    else (batchesFrom (remaining.removeAll batch)).map (batch :: ·)
termination_by remaining.length
decreasing_by
  rename_i hbatch
  obtain ⟨p, hp⟩ := exists_mem_of_ne_nil _ hbatch
  refine length_filter_lt_length_iff_exists.mpr ⟨p, ((mem_removalBatch localeCompare).mp hp).1, ?_⟩
  simpa using hp

def dependencySafeRemovalBatches (paths : List Path) : Option (List (List Path)) :=
  batchesFrom localeCompare (ofList paths)

/-- A path that is longest is a leaf. -/
lemma removalBatch_ne_nil (h : remaining ≠ []) : removalBatch localeCompare remaining ≠ [] := by
  obtain ⟨p, hp, hlong⟩ := remaining.toFinset.exists_max_image (·.codeUnits.length)
    ((toFinset_nonempty_iff _).mpr h)
  have hmem : p ∈ removalBatch localeCompare remaining := (mem_removalBatch localeCompare).mpr
    ⟨mem_toFinset.mp hp, fun q hq hlt =>
      (hlong q (mem_toFinset.mpr hq)).not_gt (Path.codeUnits_length_lt hlt)⟩
  exact ne_nil_of_mem hmem

/-- The batches are the paths, and no path is before one that lies below it or beside it. -/
lemma batchesFrom_spec (hnodup : remaining.Nodup) : ∃ batches,
    batchesFrom localeCompare remaining = some batches ∧ batches.flatten.Perm remaining ∧
    ∀ (i j : Nat) (batch batch' : List Path), batches[i]? = some batch → batches[j]? = some batch' →
      ∀ p ∈ batch, ∀ q ∈ batch', p < q → j < i := by
  induction remaining using batchesFrom.induct localeCompare with
  | case1 => exact ⟨[], by simp [batchesFrom]⟩
  | case2 remaining hne batch hbatch => exact absurd hbatch (removalBatch_ne_nil localeCompare hne)
  | case3 remaining hne batch hbatch ih =>
    obtain ⟨batches, hbats, hperm, hlater⟩ := ih (hnodup.filter _)
    refine ⟨batch :: batches, by rw [batchesFrom, if_neg hne, if_neg hbatch, hbats]; rfl, ?_, ?_⟩
    · have hleav : batch.Perm (remaining.filter (batch.elem ·)) := by
        refine (perm_ext_iff_of_nodup ((sortBy_perm _ _).nodup_iff.mpr (hnodup.filter _))
          (hnodup.filter _)).mpr fun p => ?_
        rw [mem_filter, elem_iff]
        exact ⟨fun hp => ⟨((mem_removalBatch localeCompare).mp hp).1, hp⟩, And.right⟩
      exact (hleav.append hperm).trans (filter_append_perm _ _)
    · intro i j b b' hi hj p hp q hq hlt
      cases i with
      | zero =>
        obtain rfl : batch = b := Option.some.inj hi
        cases j with
        | zero =>
          obtain rfl : batch = b' := Option.some.inj hj
          have hq' := ((mem_removalBatch localeCompare).mp hq).1
          exact absurd hlt (((mem_removalBatch localeCompare).mp hp).2 q hq')
        | succ j =>
          have hq' := hperm.subset (mem_flatten.mpr ⟨b', mem_of_getElem? hj, hq⟩)
          exact absurd hlt (((mem_removalBatch localeCompare).mp hp).2 q (mem_filter.mp hq').1)
      | succ i =>
        cases j with
        | zero => exact i.succ_pos
        | succ j => exact Nat.succ_lt_succ (hlater i j b b' hi hj p hp q hq hlt)

end Batches

theorem deferral_and_removal (localeCompare : String → String → Ordering) (journal : ApplyJournal)
    (targetMatchedPaths localPaths paths : List Path) : IsLeast {S | Defers journal targetMatchedPaths localPaths S}
      {p | p ∈ expandDeferredApplyPaths journal targetMatchedPaths localPaths} ∧
    expandDeferredApplyPaths journal targetMatchedPaths
        (expandDeferredApplyPaths journal targetMatchedPaths localPaths)
      = expandDeferredApplyPaths journal targetMatchedPaths localPaths ∧
    (∀ journal' localPaths', journal.deferredLocalPaths ⊆ journal'.deferredLocalPaths →
      journal.affectedPaths ⊆ journal'.affectedPaths → localPaths ⊆ localPaths' →
      expandDeferredApplyPaths journal targetMatchedPaths localPaths
        ⊆ expandDeferredApplyPaths journal' targetMatchedPaths localPaths') ∧
    (∀ journal' localPaths', journal.deferredLocalPaths.Perm journal'.deferredLocalPaths →
      journal.affectedPaths.Perm journal'.affectedPaths → localPaths.Perm localPaths' →
      expandDeferredApplyPaths journal targetMatchedPaths localPaths
        = expandDeferredApplyPaths journal' targetMatchedPaths localPaths') ∧
    ∃ batches, dependencySafeRemovalBatches localeCompare paths = some batches ∧
      batches.flatten.Nodup ∧ (∀ p, p ∈ batches.flatten ↔ p ∈ paths) ∧
      ∀ (i j : Nat) (batch batch' : List Path), batches[i]? = some batch → batches[j]? = some batch' →
        ∀ p ∈ batch, ∀ q ∈ batch', p < q → j < i := by
  have hmono : ∀ {journal journal' : ApplyJournal} {localPaths localPaths' : List Path} {S : Set Path},
      journal.deferredLocalPaths ⊆ journal'.deferredLocalPaths →
      journal.affectedPaths ⊆ journal'.affectedPaths → localPaths ⊆ localPaths' →
      Defers journal' targetMatchedPaths localPaths' S → Defers journal targetMatchedPaths localPaths S :=
    fun hdfr haff hlocal hS => ⟨fun p hp => hS.deferred p (hdfr hp),
      fun p hp => hS.seeds p (hlocal hp), fun p hp q hq => hS.closed p hp q (haff hq)⟩
  have hleast := isLeast_expandDeferredApplyPaths journal targetMatchedPaths localPaths
  refine ⟨hleast, ?_, ?_, ?_, ?_⟩
  · refine expandDeferredApplyPaths_congr fun S => ⟨fun hS => ?_, fun hS => ?_⟩
    · exact ⟨hS.deferred, fun p hp => hS.seeds p (hleast.1.seeds p hp), hS.closed⟩
    · exact ⟨hS.deferred, fun p hp => hleast.2 hS hp, hS.closed⟩
  · exact fun journal' localPaths' hdfr haff hlocal =>
      expandDeferredApplyPaths_subset fun S => hmono hdfr haff hlocal
  · exact fun journal' localPaths' hdfr haff hlocal => expandDeferredApplyPaths_congr fun S =>
      ⟨hmono hdfr.symm.subset haff.symm.subset hlocal.symm.subset, hmono hdfr.subset haff.subset hlocal.subset⟩
  · obtain ⟨batches, hbats, hperm, hlater⟩ := batchesFrom_spec localeCompare (nodup_ofList paths)
    exact ⟨batches, hbats, hperm.nodup_iff.mpr (nodup_ofList paths),
      fun p => hperm.mem_iff.trans mem_ofList, hlater⟩

end ApplyJournals
