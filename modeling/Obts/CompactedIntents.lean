import Obts.DirectoryIntents

/-!
# What compaction keeps of an effect

Compaction keeps the intents that no later one overrides. A later intent may override one without doing all
that it did: a creation puts back its folder and the folders above it, but does not empty it, and a
deletion does not put back the folders above it. Where neither matters the compacted list has the effect of
the whole.
-/
namespace CompactedIntents

open ForestEdits SlashPath InsertionOrder DirectoryIntents List

section Survivors
variable {α : Type*} [ForestOrder α] {es kept : List (Edit α)} {q : α} {e f : Edit α}

/-- What the last deletion of a node leaves of the creations before it does not create the node. -/
lemma not_le_of_survives_create (hlast : LastTouch es q e) (hop : e.op = .delete) (hsurv : Survives es f)
    (hcr : f.op = .create) : ¬ q ≤ f.node := by
  intro hle
  obtain ⟨before, after, rfl, htouc, hafter⟩ := hlast
  have hnode : e.node ≤ q := by simpa [Edit.Touches, hop] using htouc
  have hover : Overrides e f := Or.inr ⟨hop, hnode.trans hle⟩
  rcases survives_append.mp hsurv with hlater | ⟨-, hnone⟩
  · rw [← singleton_append] at hlater
    rcases survives_append.mp hlater with hafter' | ⟨hhere, -⟩
    · apply hafter f hafter'.mem
      simpa [Edit.Touches, hcr] using hle
    · rw [mem_singleton.mp hhere.mem, hop] at hcr
      cases hcr
  · exact hnone e mem_cons_self hover

/-- What the survivors make of a node, next to what all edits make of it. -/
structure KeepsEffect (S : Set α) (es : List (Edit α)) : Prop where
  deleted : ∀ q ∈ S, ∀ e, LastTouch es q e → e.op = .delete → ∃ f, Survives es f ∧ f.op = .delete ∧ f.node ≤ q
  created : ∀ q e, LastTouch es q e → e.op = .create → (∃ f, Survives es f ∧ f.op = .create ∧ q ≤ f.node) ∨
      (q ∈ S ∧ ∀ f, Survives es f → f.op = .delete → ¬ f.node ≤ q)

lemma mem_run_survivors (horder : AncestorsFirst kept) (hkept : ∀ f, f ∈ kept ↔ Survives es f) (S : Set α)
    (q : α) : q ∈ run S kept ↔ (∃ f, Survives es f ∧ f.op = .create ∧ q ≤ f.node) ∨
        (q ∈ S ∧ ∀ f, Survives es f → f.op = .delete → ¬ f.node ≤ q) := by
  rw [mem_run_of_ancestorsFirst horder]
  simp [hkept]

/-- The survivors with ancestors first have the effect of all edits just when nothing is lost with those
that are overridden. -/
lemma run_survivors_iff (horder : AncestorsFirst kept) (hkept : ∀ f, f ∈ kept ↔ Survives es f) (S : Set α) :
    run S kept = run S es ↔ KeepsEffect S es := by
  have hmem := mem_run_survivors horder hkept S
  constructor
  · intro heq
    constructor
    · intro q hq e hlast hop
      by_contra hnone
      have hin : q ∈ run S kept :=
        (hmem q).mpr (Or.inr ⟨hq, fun f hf hdel hle => hnone ⟨f, hf, hdel, hle⟩⟩)
      rw [heq, mem_run_of_lastTouch hlast, hop] at hin
      cases hin
    · intro q e hlast hop
      apply (hmem q).mp
      rw [heq]
      exact (mem_run_of_lastTouch hlast).mpr hop
  · intro h
    ext q
    rcases exists_lastTouch_or_untouched es q with ⟨e, hlast⟩ | hnone
    · rw [mem_run_of_lastTouch hlast]
      cases hop : e.op with
      | create => exact iff_of_true ((hmem q).mpr (h.created q e hlast hop)) rfl
      | delete =>
        refine iff_of_false (fun hin => ?_) (by decide)
        rcases (hmem q).mp hin with ⟨f, hf, hcr, hle⟩ | ⟨hq, hkeeps⟩
        · exact not_le_of_survives_create hlast hop hf hcr hle
        · obtain ⟨f, hf, hdel, hle⟩ := h.deleted q hq e hlast hop
          exact hkeeps f hf hdel hle
    · rw [mem_run_of_untouched hnone]
      apply mem_run_of_untouched
      exact fun f hf => hnone f ((hkept f).mp hf).mem

end Survivors

lemma nodup_applyIntent {explicit : List Path} (h : explicit.Nodup) (intent : DirectoryIntent) :
    (applyIntent explicit intent).Nodup := by
  rw [applyIntent]
  cases intent.op with
  | delete => exact h.filter _
  | create => exact nodup_add (nodup_addAll h) _

lemma nodup_applied (previous : List Path) (intents : List DirectoryIntent) :
    (intents.foldl applyIntent (ofList previous)).Nodup := by
  induction intents using reverseRecOn with
  | nil => exact nodup_ofList previous
  | append_singleton intents intent ih =>
    rw [foldl_append]
    exact nodup_applyIntent ih intent

/-- Snapshots are equal when they list the same paths. -/
lemma apply_eq_iff {previous previous' : List Path} {intents others : List DirectoryIntent} :
    applyDirectoryIntentsToSnapshot previous intents = applyDirectoryIntentsToSnapshot previous' others ↔
      run (dirs previous) (edits intents) = run (dirs previous') (edits others) := by
  rw [← dirs_applyDirectoryIntentsToSnapshot, ← dirs_applyDirectoryIntentsToSnapshot]
  constructor
  · exact fun heq => congrArg dirs heq
  intro heq
  apply sort_eq_of_perm
  rw [perm_ext_iff_of_nodup (nodup_applied previous intents) (nodup_applied previous' others)]
  intro p
  have hp : p ∈ dirs (applyDirectoryIntentsToSnapshot previous intents) ↔
      p ∈ dirs (applyDirectoryIntentsToSnapshot previous' others) := by rw [heq]
  simpa [applyDirectoryIntentsToSnapshot] using hp

/-- Compaction keeps the effect of intents on a snapshot just when the overridden ones did nothing that is
lost with them. -/
theorem apply_compactDirectoryIntents_iff (c : Collation) (snapshot : List Path) (intents : List DirectoryIntent) :
    applyDirectoryIntentsToSnapshot snapshot (compactDirectoryIntents c intents)
        = applyDirectoryIntentsToSnapshot snapshot intents ↔ KeepsEffect (dirs snapshot) (edits intents) := by
  rw [apply_eq_iff]
  apply run_survivors_iff (ancestorsFirst_compactDirectoryIntents c intents)
  intro f
  rw [edits, mem_map]
  constructor
  · rintro ⟨intent, hintent, rfl⟩
    exact mem_compactDirectoryIntents.mp hintent
  intro hsurv
  obtain ⟨intent, -, rfl⟩ := mem_map.mp hsurv.mem
  exact ⟨intent, mem_compactDirectoryIntents.mpr hsurv, rfl⟩

/-- A folder that is deleted and created again is empty, but not after compaction. -/
theorem recreated_folder_keeps_contents :
    ¬ ∀ (c : Collation) (snapshot : List Path) (intents : List DirectoryIntent),
      applyDirectoryIntentsToSnapshot snapshot (compactDirectoryIntents c intents)
        = applyDirectoryIntentsToSnapshot snapshot intents := by
  intro hclaim
  have hsame := hclaim codePointCollation [⟨"a"⟩, ⟨"a/x"⟩] [⟨.delete, ⟨"a"⟩⟩, ⟨.create, ⟨"a"⟩⟩]
  exact absurd hsame (by decide)

/-- A list of intents of which some were applied already, in any order, has its effect when it is applied
again as a whole. -/
theorem apply_resumed {done intents : List DirectoryIntent} (h : done ⊆ intents) (snapshot : List Path) :
    applyDirectoryIntentsToSnapshot (applyDirectoryIntentsToSnapshot snapshot done) intents
      = applyDirectoryIntentsToSnapshot snapshot intents := by
  rw [apply_eq_iff, dirs_applyDirectoryIntentsToSnapshot]
  exact run_of_subset (map_subset _ h)

theorem apply_resumed_recreated :
    applyDirectoryIntentsToSnapshot (applyDirectoryIntentsToSnapshot [⟨"a/x"⟩] [⟨.create, ⟨"a"⟩⟩])
        [⟨.delete, ⟨"a"⟩⟩, ⟨.create, ⟨"a"⟩⟩]
      = applyDirectoryIntentsToSnapshot [⟨"a/x"⟩] [⟨.delete, ⟨"a"⟩⟩, ⟨.create, ⟨"a"⟩⟩] :=
  apply_resumed (by decide) _

end CompactedIntents
