import Obts.NoteUpdates

/-!
# Content patches

Each operation of a patch is made at the one place where its needle occurs. The search goes on where the
first occurrence ends, so it does not see the ones that overlap it.
-/
namespace NoteUpdates

open List ListSearch
open NoteContent (Text)

variable {needle body body' before after : Text} {operation : ContentPatchOperation}
  {patch : List ContentPatchOperation}

lemma prefix_of_indexOf {start : Nat} (h : indexOf needle body = some start) : needle <+: body.drop start := by
  induction body generalizing start with
  | nil =>
    obtain ⟨hneed, -⟩ := Option.ite_none_right_eq_some.mp h
    exact hneed ▸ nil_prefix
  | cons ch body ih =>
    rw [indexOf] at h
    split at h
    · rename_i hhere
      cases h
      exact List.isPrefixOf_iff_prefix.mp hhere
    · obtain ⟨start, hstart, rfl⟩ := Option.map_eq_some_iff.mp h
      exact ih hstart

/-- A needle stands between two texts, and begins nowhere else but within a reach from there on. -/
structure OccursWithin (reach : Nat) (needle body before after : Text) : Prop where
  nonempty : needle ≠ []
  here : body = before ++ needle ++ after
  near : ∀ i, needle <+: body.drop i → before.length ≤ i ∧ i < before.length + reach

lemma uniqueMatch_iff {fieldName : String} : uniqueMatch body needle fieldName = .ok (before, after) ↔
    OccursWithin needle.length needle body before after := by
  rw [uniqueMatch]
  by_cases hneed : needle = []
  · rw [if_pos hneed]
    exact ⟨nofun, fun h => absurd hneed h.nonempty⟩
  rw [if_neg hneed]
  have hfirst : ∀ i, needle <+: body.drop i → ∃ start ≤ i, indexOf needle body = some start :=
    fun i => indexOf_le hneed
  have hlater : ∀ start i, start + needle.length ≤ i → needle <+: body.drop i →
      (indexOf needle (body.drop (start + needle.length))).isSome = true := by
    intro start i hle hocc
    obtain ⟨k, rfl⟩ := Nat.exists_eq_add_of_le hle
    rw [← drop_drop] at hocc
    obtain ⟨j, -, hj⟩ := indexOf_le hneed hocc
    exact Option.isSome_iff_exists.mpr ⟨j, hj⟩
  cases hindex : indexOf needle body with
  | none =>
    refine ⟨nofun, fun h => ?_⟩
    obtain ⟨start, -, hstart⟩ := hfirst before.length (by simp [h.here])
    rw [hindex] at hstart
    cases hstart
  | some start =>
    have hhere := prefix_of_indexOf hindex
    have hlen := length_le_of_indexOf hindex
    have hmin : ∀ i, needle <+: body.drop i → start ≤ i := by
      intro i hocc
      obtain ⟨_, hle, hstart⟩ := hfirst i hocc
      cases hindex.symm.trans hstart
      exact hle
    dsimp only
    constructor
    · intro h
      split at h
      · cases h
      rename_i hnone
      cases h
      refine ⟨hneed, ?_, fun i hocc => ?_⟩
      · obtain ⟨rest, hrest⟩ := hhere
        rw [← drop_drop, ← hrest, drop_left, append_assoc, hrest, take_append_drop]
      rw [length_take_of_le (by omega)]
      refine ⟨hmin i hocc, ?_⟩
      by_contra hfar
      exact hnone (hlater start i (Nat.not_lt.mp hfar) hocc)
    · intro h
      have hstart : start = before.length :=
        Nat.le_antisymm (hmin _ (by simp [h.here])) (h.near start hhere).1
      have hafter : body.drop (start + needle.length) = after := by
        rw [h.here, hstart, ← length_append, drop_left]
      rw [if_neg, hafter, hstart, h.here, append_assoc, take_left]
      intro hsome
      obtain ⟨k, hk⟩ := Option.isSome_iff_exists.mp hsome
      have hocc := prefix_of_indexOf hk
      rw [drop_drop] at hocc
      have hnear := (h.near _ hocc).2
      omega

/-- What an operation makes of the texts around its needle. -/
def ContentPatchOperation.edit (before after : Text) : ContentPatchOperation → Text
  | .replace _ new => before ++ new ++ after
  | .delete _ => before ++ after
  | .insertBefore anchor text => before ++ text ++ anchor ++ after
  | .insertAfter anchor text => before ++ anchor ++ text ++ after
  | .append text => before ++ after ++ text
  | .prepend text => text ++ before ++ after

def ContentPatchOperation.sought : ContentPatchOperation → Option Text
  | .replace old _ | .delete old => some old
  | .insertBefore anchor _ | .insertAfter anchor _ => some anchor
  | .append _ | .prepend _ => none

/-- The operation is made at the place of its needle. -/
def Edits (reach : Text → Nat) (operation : ContentPatchOperation) (body body' : Text) : Prop :=
  match operation.sought with
  | none => body' = operation.edit body []
  | some needle => ∃ before after, OccursWithin (reach needle) needle body before after ∧
      body' = operation.edit before after

/-- The operations are made in turn, each on the text that the earlier ones gave. -/
def Patches (reach : Text → Nat) : Text → List ContentPatchOperation → Text → Prop
  | body, [], body' => body' = body
  | body, operation :: patch, body' =>
    ∃ next, Edits reach operation body next ∧ Patches reach next patch body'

lemma map_uniqueMatch {fieldName : String} {f : Text × Text → Text} :
    (uniqueMatch body needle fieldName).map f = .ok body' ↔
      ∃ before after, OccursWithin needle.length needle body before after ∧ body' = f (before, after) := by
  simp only [← @uniqueMatch_iff _ _ _ _ fieldName]
  cases uniqueMatch body needle fieldName with
  | error => exact ⟨nofun, nofun⟩
  | ok found =>
    constructor
    · intro h
      exact ⟨found.1, found.2, rfl, (Except.ok.inj h).symm⟩
    · rintro ⟨before, after, ⟨⟩, rfl⟩
      rfl

lemma applyContentPatchOperation_iff :
    applyContentPatchOperation body operation = .ok body' ↔ Edits List.length operation body body' := by
  cases operation with
  | replace | delete | insertBefore | insertAfter => exact map_uniqueMatch
  | append | prepend =>
    simp [applyContentPatchOperation, Edits, ContentPatchOperation.sought, ContentPatchOperation.edit, eq_comm]

lemma patchFrom_iff {index : Nat} :
    patchFrom index body patch = .ok body' ↔ Patches List.length body patch body' := by
  induction patch generalizing index body with
  | nil => exact ⟨fun h => (Except.ok.inj h).symm, fun h => congrArg _ h.symm⟩
  | cons operation patch ih =>
    rw [patchFrom, Patches]
    simp only [← applyContentPatchOperation_iff]
    cases applyContentPatchOperation body operation with
    | error => exact ⟨nofun, nofun⟩
    | ok next =>
      simp [ih]

lemma applyContentPatch_iff : applyContentPatch body patch = .ok body' ↔
    patch ≠ [] ∧ Patches List.length body patch body' := by
  rw [applyContentPatch, ← @patchFrom_iff _ _ _ 0]
  split
  · rename_i hpatch
    exact ⟨nofun, fun h => absurd hpatch h.1⟩
  · rename_i hpatch
    exact (and_iff_right hpatch).symm

/-- An occurrence that is the only one is the only one that is seen. -/
lemma patches_of_only (h : Patches (fun _ => 1) body patch body') : Patches List.length body patch body' := by
  induction patch generalizing body with
  | nil => exact h
  | cons operation patch ih =>
    obtain ⟨next, hedit, hrest⟩ := h
    refine ⟨next, ?_, ih hrest⟩
    rw [Edits] at hedit ⊢
    cases hsoug : operation.sought with
    | none =>
      rw [hsoug] at hedit
      exact hedit
    | some needle =>
      rw [hsoug] at hedit
      obtain ⟨before, after, hocc, hnext⟩ := hedit
      refine ⟨before, after, { hocc with near := fun i hi => ?_ }, hnext⟩
      have hnear := hocc.near i hi
      have hpos := length_pos_of_ne_nil hocc.nonempty
      omega

/-- A patch is made where its needles occur once, unless all are found and none occurs again after its
first occurrence, but one occurs again where it overlaps it. -/
theorem applyContentPatch_unambiguous_iff (body : Text) (patch : List ContentPatchOperation) :
    (∀ body', applyContentPatch body patch = .ok body' ↔ patch ≠ [] ∧ Patches (fun _ => 1) body patch body') ↔
      ¬ ∃ body', Patches List.length body patch body' ∧ ¬ Patches (fun _ => 1) body patch body' := by
  simp only [applyContentPatch_iff]
  constructor
  · rintro h ⟨body', hseen, hnot⟩
    cases patch with
    | nil => exact hnot hseen
    | cons operation patch => exact hnot ((h body').mp ⟨cons_ne_nil _ _, hseen⟩).2
  · intro h body'
    refine and_congr_right fun _ => ⟨fun hseen => ?_, patches_of_only⟩
    by_contra hnot
    exact h ⟨body', hseen, hnot⟩

theorem overlapping_needle_accepted : ¬ ∀ body patch body', applyContentPatch body patch = .ok body' ↔
    patch ≠ [] ∧ Patches (fun _ => 1) body patch body' := by
  intro h
  obtain ⟨-, _, ⟨before, _, hocc, -⟩, -⟩ := (h ['a', 'a', 'a'] [.delete ['a', 'a']] ['a']).mp rfl
  have hfirst : before.length ≤ 0 := (hocc.near 0 (by decide)).1
  have hsnd : 1 < before.length + 1 := (hocc.near 1 (by decide)).2
  omega

end NoteUpdates
