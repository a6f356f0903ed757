import Obts.Metadata
import Obts.CompactedIntents

/-!
# Reachable directory states

The explicit directories of a vault are changed by lists of intents only. Whatever the lists are, what is
stored is canonical: each directory once, in order, with all of its ancestors. For canonical snapshots the
difference of two of them is undone by applying it.
-/
namespace DirectoryStates

open ForestEdits SlashPath InsertionOrder DirectoryIntents Metadata

/-- Listed in the order of `Array.prototype.sort`. -/
def Sorted (snapshot : List Path) : Prop :=
  snapshot.Pairwise fun a b => (compareOn Path.codeUnits a b).isLE = true

instance (snapshot : List Path) : Decidable (Sorted snapshot) :=
  inferInstanceAs (Decidable (List.Pairwise _ _))

lemma sorted_sort (paths : List Path) : Sorted (sort paths) := pairwise_sortBy _ paths

variable {snapshot : List Path}

lemma sort_of_sorted (h : Sorted snapshot) : sort snapshot = snapshot :=
  sortBy_of_pairwise h

structure Canonical (snapshot : List Path) : Prop where
  nodup : snapshot.Nodup
  sorted : Sorted snapshot
  prefixClosed : PrefixClosed snapshot

lemma canonical_nil : Canonical [] where
  nodup := List.nodup_nil
  sorted := List.Pairwise.nil
  prefixClosed := prefixClosed_iff.mpr fun _ hp => absurd hp List.not_mem_nil

/-- Paths are listed as a canonical snapshot lists them once they are sorted without repetition. -/
lemma sort_ofList_of_canonical (h : Canonical snapshot) : sort (ofList snapshot) = snapshot := by
  rw [ofList_of_nodup h.nodup, sort_of_sorted h.sorted]

/-- Applying intents to a snapshot that lists all ancestors gives a canonical one. -/
lemma canonical_applyDirectoryIntentsToSnapshot {previous : List Path} (h : PrefixClosed previous)
    (intents : List DirectoryIntent) : Canonical (applyDirectoryIntentsToSnapshot previous intents) where
  nodup := (sortBy_perm _ _).nodup_iff.mpr (CompactedIntents.nodup_applied previous intents)
  sorted := sorted_sort _
  prefixClosed := h.applyDirectoryIntentsToSnapshot intents

structure Change where
  intents : List DirectoryIntent
  (eventSeq now : Nat)

def applyChange (vaultId : String) (db : MetadataDb) (change : Change) : MetadataDb :=
  applyDirectoryIntents db vaultId change.intents change.eventSeq change.now

variable {vaultId : String} {db : MetadataDb} {current : List Path}

lemma explicitDirs_applyDirectoryIntents {intents : List DirectoryIntent} {eventSeq now : Nat} (h : intents ≠ []) :
    (applyDirectoryIntents db vaultId intents eventSeq now).explicitDirs vaultId
      = applyDirectoryIntentsToSnapshot (db.explicitDirs vaultId) intents := by
  have hlen : ¬ intents.length = 0 := fun hzero => h (List.length_eq_zero_iff.mp hzero)
  rw [applyDirectoryIntents, if_neg hlen]
  simp [MetadataDb.explicitDirs, applyDirectoryIntentsToSnapshot]

lemma canonical_applyDirectoryIntents (h : Canonical (db.explicitDirs vaultId))
    (intents : List DirectoryIntent) (eventSeq now : Nat) :
    Canonical ((applyDirectoryIntents db vaultId intents eventSeq now).explicitDirs vaultId) := by
  by_cases hempty : intents = []
  · subst hempty
    exact h
  · rw [explicitDirs_applyDirectoryIntents hempty]
    exact canonical_applyDirectoryIntentsToSnapshot h.prefixClosed intents

lemma canonical_applyChanges (h : Canonical (db.explicitDirs vaultId))
    (changes : List Change) : Canonical ((changes.foldl (applyChange vaultId) db).explicitDirs vaultId) := by
  induction changes generalizing db with
  | nil => exact h
  | cons change changes ih =>
    apply ih
    exact canonical_applyDirectoryIntents h change.intents change.eventSeq change.now

/-- Running the difference of two snapshots on the first lists what the second lists. -/
lemma run_directoryIntentsBetweenSnapshots (c : Collation) (previous : List Path) (h : PrefixClosed current) :
    run (dirs previous) (edits (directoryIntentsBetweenSnapshots c previous current)) = dirs current := by
  have hmem : ∀ f, f ∈ edits (directoryIntentsBetweenSnapshots c previous current) ↔
      (f.op = .delete ∧ f.node ∈ deleted previous current) ∨
        (f.op = .create ∧ f.node ∈ created previous current) := by
    intro f
    rw [edits, List.mem_map]
    constructor
    · rintro ⟨intent, hintent, rfl⟩
      exact mem_directoryIntentsBetweenSnapshots.mp hintent
    · intro hf
      exact ⟨⟨f.op, f.node⟩, mem_directoryIntentsBetweenSnapshots.mpr hf, rfl⟩
  ext q
  have horder : AncestorsFirst (edits (directoryIntentsBetweenSnapshots c previous current)) :=
    ancestorsFirst_compactDirectoryIntents c _
  rw [mem_run_of_ancestorsFirst horder, mem_dirs]
  simp only [hmem]
  constructor
  · rintro (⟨f, ⟨hop, -⟩ | ⟨-, hnode⟩, hcr, hle⟩ | ⟨hq, hkept⟩)
    · rw [hop] at hcr
      cases hcr
    · exact h hle (mem_created.mp hnode).1
    · by_contra hnot
      obtain ⟨d, hd, hle⟩ := exists_mem_deleted_le hq hnot
      exact hkept ⟨.delete, d⟩ (.inl ⟨rfl, hd⟩) rfl hle
  · intro hq
    by_cases hprev : q ∈ previous
    · refine .inr ⟨hprev, ?_⟩
      rintro f (⟨-, hnode⟩ | ⟨hop, -⟩) hdel hle
      · exact (mem_deleted.mp hnode).2.1 (h hle hq)
      · rw [hop] at hdel
        cases hdel
    · exact .inl ⟨⟨.create, q⟩, .inr ⟨rfl, mem_created.mpr ⟨hq, hprev⟩⟩, rfl, le_rfl⟩

lemma apply_directoryIntentsBetweenSnapshots (c : Collation) (previous : List Path) (h : PrefixClosed current) :
    applyDirectoryIntentsToSnapshot previous (directoryIntentsBetweenSnapshots c previous current)
      = sort (ofList current) := by
  apply sort_eq_of_perm
  rw [List.perm_ext_iff_of_nodup (CompactedIntents.nodup_applied previous _) (nodup_ofList current)]
  intro p
  have hrun := run_directoryIntentsBetweenSnapshots c previous h
  rw [← dirs_applyDirectoryIntentsToSnapshot] at hrun
  have hp : p ∈ dirs (applyDirectoryIntentsToSnapshot previous
      (directoryIntentsBetweenSnapshots c previous current)) ↔
      p ∈ dirs current := by rw [hrun]
  simpa [applyDirectoryIntentsToSnapshot] using hp

/-- From the empty state only canonical ones are reached, and the difference to a snapshot that lists all
ancestors, applied, gives that snapshot. -/
theorem diff_patch_canonical (c : Collation) {db : MetadataDb} {vaultId : String}
    (hempty : db.explicitDirs vaultId = []) {current : List Path} (hcurrent : PrefixClosed current)
    (changes : List Change) (previous : List Path) :
    Canonical ((changes.foldl (applyChange vaultId) db).explicitDirs vaultId) ∧
      applyDirectoryIntentsToSnapshot previous (directoryIntentsBetweenSnapshots c previous current)
        = sort (ofList current) ∧ (Canonical current →
        applyDirectoryIntentsToSnapshot previous (directoryIntentsBetweenSnapshots c previous current) =
          current) := by
  have hpatch := apply_directoryIntentsBetweenSnapshots c previous hcurrent
  refine ⟨canonical_applyChanges (hempty ▸ canonical_nil) changes, hpatch, fun hcan => ?_⟩
  rw [hpatch, sort_ofList_of_canonical hcan]

theorem diff_patch_canonical_emptied :
    Canonical (([⟨[⟨.create, ⟨"a/b"⟩⟩, ⟨.delete, ⟨"a/b"⟩⟩], 1, 0⟩].foldl (applyChange "vault")
      {}).explicitDirs "vault") ∧
      applyDirectoryIntentsToSnapshot [⟨"a"⟩, ⟨"a/b"⟩] (directoryIntentsBetweenSnapshots codePointCollation
        [⟨"a"⟩, ⟨"a/b"⟩] [⟨"c"⟩]) = sort (ofList [⟨"c"⟩]) ∧
      (Canonical [⟨"c"⟩] → applyDirectoryIntentsToSnapshot [⟨"a"⟩, ⟨"a/b"⟩]
        (directoryIntentsBetweenSnapshots codePointCollation [⟨"a"⟩, ⟨"a/b"⟩] [⟨"c"⟩]) = [⟨"c"⟩]) :=
  diff_patch_canonical codePointCollation rfl (by decide) _ _

end DirectoryStates
