import Obts.ForestEdits
import Obts.InsertionOrder

/-!
# Trees of files

A tree of files is a finite map from nodes of a forest to values in which no file stands
above another. Putting a file replaces whatever stands above or below it, erasing one
removes that file only. A run of such edits is described by its writes and erasures, and the
edits that turn one tree into another can be replayed on a third.
-/
namespace FileTrees

open InsertionOrder List

section Trees

variable {α β : Type*} [PartialOrder α]

/-- Files by path: paths are distinct and no file stands above another. -/
structure FileTree (α β : Type*) [PartialOrder α] where
  entries : List (α × β)
  nodup : (entries.map Prod.fst).Nodup
  antichain : ∀ a ∈ entries.map Prod.fst, ∀ b ∈ entries.map Prod.fst, ¬ a < b

/-- One of the two stands strictly above the other. -/
def Nested (a b : α) : Prop := a < b ∨ b < a

lemma Nested.symm {a b : α} (h : Nested a b) : Nested b a := Or.symm h

instance [DecidableLT α] (a b : α) : Decidable (Nested a b) :=
  inferInstanceAs (Decidable (a < b ∨ b < a))

namespace FileTree

def empty : FileTree α β where
  entries := []
  nodup := List.nodup_nil
  antichain := by simp

def paths (t : FileTree α β) : List α := t.entries.map Prod.fst

variable [DecidableEq α] {t : FileTree α β} {p q : α}

def get (t : FileTree α β) (p : α) : Option β := valueAt t.entries p

lemma get_eq_none : t.get p = none ↔ p ∉ t.paths := valueAt_eq_none

lemma mem_paths : p ∈ t.paths ↔ t.get p ≠ none := by
  rw [Ne, get_eq_none, not_not]

lemma get_of_mem {v : β} (h : (p, v) ∈ t.entries) : t.get p = some v := by
  have hfind := find?_of_nodup t.nodup h
  rw [get, valueAt, hfind]
  rfl

lemma mem_of_get {v : β} (h : t.get p = some v) : (p, v) ∈ t.entries := by
  obtain ⟨e, he, rfl⟩ := Option.map_eq_some_iff.mp h
  have hkey : e.1 = p := of_decide_eq_true (find?_some he :)
  subst hkey
  exact mem_of_find?_eq_some he

lemma get_eq_none_of_nested (hp : t.get p ≠ none) (h : Nested p q) : t.get q = none := by
  by_contra hq
  have hp' := mem_paths.mpr hp
  have hq' := mem_paths.mpr hq
  rcases h with h | h
  · exact t.antichain p hp' q hq' h
  · exact t.antichain q hq' p hp' h

lemma not_lt_of_get (hp : t.get p ≠ none) (hq : t.get q ≠ none) :
    ¬ p < q := fun h => hq (get_eq_none_of_nested hp (Or.inl h))

/-- Keeping some of the files. -/
def filter (t : FileTree α β) (keep : α → Bool) : FileTree α β where
  entries := t.entries.filter fun e => keep e.1
  nodup := t.nodup.sublist (List.filter_sublist.map Prod.fst)
  antichain a ha b hb :=
    t.antichain a ((List.filter_sublist.map Prod.fst).mem ha) b ((List.filter_sublist.map Prod.fst).mem hb)

lemma get_filter (t : FileTree α β) (keep : α → Bool) (p : α) :
    (t.filter keep).get p = if keep p then t.get p else none := by
  rw [get, get, valueAt, valueAt]
  simp only [filter, find?_filter]
  split
  · rename_i hkeep
    congr 2
    funext e
    by_cases he : e.1 = p
    · simp [he, hkeep]
    · simp [he]
  · rename_i hkeep
    rw [Option.map_eq_none_iff, find?_eq_none]
    intro e _
    by_cases he : e.1 = p
    · simp [he, hkeep]
    · simp [he]

/-- The same files with other values. -/
def mapValues (t : FileTree α β) (f : α → β → β) : FileTree α β where
  entries := t.entries.map fun e => (e.1, f e.1 e.2)
  nodup := by simpa [Function.comp_def] using t.nodup
  antichain := by simpa using t.antichain

@[simp] lemma get_mapValues (t : FileTree α β) (f : α → β → β) (p : α) :
    (t.mapValues f).get p = (t.get p).map (f p) := by
  have hfind : (t.mapValues f).get p
      = (t.entries.find? fun e => e.1 = p).map fun e => f e.1 e.2 := by
    simp [get, valueAt, mapValues, find?_map, Function.comp_def]
  rw [hfind, get, valueAt, Option.map_map]
  refine Option.map_congr fun e he => ?_
  have hkey : e.1 = p := of_decide_eq_true (find?_some he :)
  rw [hkey]
  rfl

/-- Removing one file. -/
def erase (t : FileTree α β) (p : α) : FileTree α β := t.filter fun q => q ≠ p

lemma get_erase (t : FileTree α β) (p x : α) : (t.erase p).get x = if x = p then none else t.get x := by
  rw [erase, get_filter]
  by_cases h : x = p
  · simp [h]
  · simp [h]

/-- Removing a file or directory with everything below it. -/
def removeBelow [DecidableLE α] (t : FileTree α β) (p : α) : FileTree α β :=
  t.filter fun q => ¬ p ≤ q

lemma get_removeBelow [DecidableLE α] (t : FileTree α β) (p x : α) :
    (t.removeBelow p).get x = if p ≤ x then none else t.get x := by
  rw [removeBelow, get_filter]
  by_cases h : p ≤ x
  · simp [h]
  · simp [h]

variable [DecidableLT α]

/-- Putting a file in the place of whatever stands at, above or below its path. -/
def put (t : FileTree α β) (p : α) (v : β) : FileTree α β where
  entries := (t.entries.filter fun e => e.1 ≠ p ∧ ¬ Nested e.1 p) ++ [(p, v)]
  nodup := by
    rw [List.map_append]
    refine List.nodup_append.mpr ⟨t.nodup.sublist (List.filter_sublist.map Prod.fst), List.nodup_singleton _, ?_⟩
    intro a ha b hb
    obtain ⟨e, he, rfl⟩ := List.mem_map.mp ha
    rw [List.map_singleton, List.mem_singleton] at hb
    subst hb
    simpa using (of_decide_eq_true (List.mem_filter.mp he).2).1
  antichain := by
    have hold : ∀ a ∈ (t.entries.filter fun e => e.1 ≠ p ∧ ¬ Nested e.1 p).map Prod.fst,
        a ∈ t.entries.map Prod.fst ∧ ¬ Nested a p := by
      intro a ha
      obtain ⟨e, he, rfl⟩ := List.mem_map.mp ha
      have := List.mem_filter.mp he
      exact ⟨List.mem_map_of_mem this.1, (of_decide_eq_true this.2).2⟩
    intro a ha b hb hlt
    rw [List.map_append, List.map_singleton, List.mem_append, List.mem_singleton] at ha hb
    rcases ha with ha | rfl
    · rcases hb with hb | rfl
      · exact t.antichain a (hold a ha).1 b (hold b hb).1 hlt
      · exact (hold a ha).2 (Or.inl hlt)
    rcases hb with hb | rfl
    · exact (hold b hb).2 (Or.inr hlt)
    · exact lt_irrefl _ hlt

lemma get_put (t : FileTree α β) (p : α) (v : β) (x : α) :
    (t.put p v).get x = if x = p then some v else if Nested x p then none else t.get x := by
  by_cases hx : x = p
  · subst hx
    rw [if_pos rfl]
    exact get_of_mem (by simp [put])
  rw [if_neg hx]
  have hfind : (t.put p v).get x = (t.filter fun q => q ≠ p ∧ ¬ Nested q p).get x := by
    rw [get, get, valueAt, valueAt]
    simp [put, filter, Ne.symm hx]
  rw [hfind, get_filter]
  by_cases hn : Nested x p
  · simp [hn]
  · simp [hn, hx]

end FileTree

end Trees

section Edits

variable {α β : Type*} [PartialOrder α] {es : List (α × Option β)} {e : α × Option β}

/-- Some edit writes a file strictly above or below the path. -/
def Displaced (es : List (α × Option β)) (x : α) : Prop :=
  ∃ e ∈ es, e.2 ≠ none ∧ Nested e.1 x

/-- Edits with distinct paths whose writes do not stand above each other, in any order. -/
structure Independent (es : List (α × Option β)) : Prop where
  nodup : (es.map Prod.fst).Nodup
  writes : ∀ e ∈ es, ∀ f ∈ es, e.2 ≠ none → f.2 ≠ none → ¬ e.1 < f.1

lemma Independent.tail (h : Independent (e :: es)) : Independent es where
  nodup := (nodup_cons.mp h.nodup).2
  writes f hf g hg := h.writes f (mem_cons_of_mem _ hf) g (mem_cons_of_mem _ hg)

variable [DecidableEq α] [DecidableLT α]

/-- One edit: a file is written, or the file at a path is removed. -/
def applyEdit (t : FileTree α β) (e : α × Option β) : FileTree α β :=
  match e.2 with
  | some v => t.put e.1 v
  | none => t.erase e.1

def applyEdits (t : FileTree α β) (es : List (α × Option β)) : FileTree α β :=
  es.foldl applyEdit t

lemma get_applyEdit (t : FileTree α β) (e : α × Option β) (x : α) : (applyEdit t e).get x =
      if x = e.1 then e.2 else if e.2 ≠ none ∧ Nested e.1 x then none else t.get x := by
  obtain ⟨p, v⟩ := e
  cases v with
  | none => simp [applyEdit, FileTree.get_erase]
  | some v =>
    have hsymm : Nested x p ↔ Nested p x := ⟨Nested.symm, Nested.symm⟩
    simp [applyEdit, FileTree.get_put, hsymm]

/-- A path no edit names keeps its file unless a write displaces it. -/
lemma get_applyEdits_of_not_mem (t : FileTree α β) {x : α}
    (hx : x ∉ es.map Prod.fst) : (Displaced es x → (applyEdits t es).get x = none) ∧
    (¬ Displaced es x → (applyEdits t es).get x = t.get x) := by
  induction es generalizing t with
  | nil => simp [Displaced, applyEdits]
  | cons e es ih =>
    rw [map_cons, mem_cons, not_or] at hx
    obtain ⟨ihd, ihn⟩ := ih (applyEdit t e) hx.2
    have hget := get_applyEdit t e x
    rw [if_neg hx.1] at hget
    by_cases hrest : Displaced es x
    · refine ⟨fun _ => ihd hrest, fun hnot => ?_⟩
      obtain ⟨f, hf, h⟩ := hrest
      exact absurd ⟨f, mem_cons_of_mem _ hf, h⟩ hnot
    constructor
    · rintro ⟨f, hf, hwrite⟩
      rcases mem_cons.mp hf with rfl | hf
      · rw [if_pos hwrite] at hget
        exact (ihn hrest).trans hget
      · exact absurd ⟨f, hf, hwrite⟩ hrest
    · intro hnot
      have hwrite : ¬ (e.2 ≠ none ∧ Nested e.1 x) :=
        fun h => hnot ⟨e, mem_cons_self, h⟩
      rw [if_neg hwrite] at hget
      exact (ihn hrest).trans hget

/-- A path an independent run names ends with the value the run gives it. -/
lemma get_applyEdits_of_mem (t : FileTree α β) (h : Independent es)
    (he : e ∈ es) : (applyEdits t es).get e.1 = e.2 := by
  induction es generalizing t with
  | nil => simp at he
  | cons f es ih =>
    rcases mem_cons.mp he with rfl | he
    · have hfresh : e.1 ∉ es.map Prod.fst := (nodup_cons.mp h.nodup).1
      obtain ⟨hdsp, hkept⟩ := get_applyEdits_of_not_mem (applyEdit t e) hfresh
      have hget : (applyEdit t e).get e.1 = e.2 := by rw [get_applyEdit, if_pos rfl]
      by_cases hd : Displaced es e.1
      · -- a later write displaces the path, so the run itself removed the file
        obtain ⟨g, hg, hgw, hn⟩ := hd
        have hnone : e.2 = none := by
          by_contra hw
          have hg' := mem_cons_of_mem e hg
          rcases hn with hlt | hlt
          · exact h.writes g hg' e mem_cons_self hgw hw hlt
          · exact h.writes e mem_cons_self g hg' hw hgw hlt
        rw [hnone]
        exact hdsp ⟨g, hg, hgw, hn⟩
      · exact (hkept hd).trans hget
    · exact ih (applyEdit t f) h.tail he

end Edits

section Differences

variable {α β : Type*} [PartialOrder α] [DecidableEq α] [DecidableEq β] {es : List (α × Option β)}
  {p : α} {x y : FileTree α β}

/-- The edits that turn the first tree into the second, one for each path that differs. -/
def diff (x y : FileTree α β) : List (α × Option β) :=
  ((x.paths ++ y.paths.filter (· ∉ x.paths)).filter fun p => x.get p ≠ y.get p).map
    fun p => (p, y.get p)

lemma mem_diff {e : α × Option β} : e ∈ diff x y ↔ x.get e.1 ≠ y.get e.1 ∧ e.2 = y.get e.1 := by
  obtain ⟨p, v⟩ := e
  simp only [diff, mem_map, mem_filter, mem_append, Prod.mk.injEq]
  constructor
  · rintro ⟨q, ⟨_, hne⟩, rfl, rfl⟩
    exact ⟨by simpa using hne, rfl⟩
  rintro ⟨hne, rfl⟩
  refine ⟨p, ⟨?_, by simpa using hne⟩, rfl, rfl⟩
  by_cases hx : p ∈ x.paths
  · exact Or.inl hx
  right
  have hy : p ∈ y.paths := by
    rw [FileTree.mem_paths, ← FileTree.get_eq_none.mpr hx]
    exact hne.symm
  exact ⟨hy, by simpa using hx⟩

lemma nodup_diff (x y : FileTree α β) : ((diff x y).map Prod.fst).Nodup := by
  have hkeys : (diff x y).map Prod.fst
      = (x.paths ++ y.paths.filter (· ∉ x.paths)).filter fun p => x.get p ≠ y.get p := by
    rw [diff, map_map]
    exact map_id _
  rw [hkeys]
  refine List.Nodup.filter _ (nodup_append.mpr ⟨x.nodup, List.Nodup.filter _ y.nodup, ?_⟩)
  rintro a ha b hb rfl
  have hnot : a ∉ x.paths := of_decide_eq_true (mem_filter.mp hb).2
  exact hnot ha

/-- The edits of a difference, listed in any order, are independent. -/
lemma independent_of_perm_diff (h : es.Perm (diff x y)) : Independent es where
  nodup := (h.map Prod.fst).nodup_iff.mpr (nodup_diff x y)
  writes e he f hf hew hfw := by
    rw [(mem_diff.mp (h.mem_iff.mp he)).2] at hew
    rw [(mem_diff.mp (h.mem_iff.mp hf)).2] at hfw
    exact FileTree.not_lt_of_get hew hfw

/-- A file that only the second tree has stands strictly above or below the path. -/
def WrittenBeside (x y : FileTree α β) (p : α) : Prop :=
  ∃ w, x.get w ≠ y.get w ∧ y.get w ≠ none ∧ Nested w p

lemma displaced_iff_of_perm_diff (h : es.Perm (diff x y)) (p : α) : Displaced es p ↔ WrittenBeside x y p := by
  constructor
  · rintro ⟨e, he, hw, hn⟩
    obtain ⟨hne, hval⟩ := mem_diff.mp (h.mem_iff.mp he)
    exact ⟨e.1, hne, hval ▸ hw, hn⟩
  · rintro ⟨w, hne, hw, hn⟩
    exact ⟨(w, y.get w), h.mem_iff.mpr (mem_diff.mpr ⟨hne, rfl⟩), hw, hn⟩

private lemma not_mem_of_perm_diff {x y : FileTree α β}
    (h : es.Perm (diff x y)) (hp : x.get p = y.get p) : p ∉ es.map Prod.fst := by
  intro hmem
  obtain ⟨e, he, rfl⟩ := mem_map.mp hmem
  exact (mem_diff.mp (h.mem_iff.mp he)).1 hp

variable [DecidableLT α]

/-- Replaying a difference gives every differing path its new value. -/
lemma get_replay_of_ne (h : es.Perm (diff x y)) (t : FileTree α β) (hp : x.get p ≠ y.get p) :
    (applyEdits t es).get p = y.get p :=
  get_applyEdits_of_mem t (independent_of_perm_diff h) (h.mem_iff.mpr (mem_diff.mpr ⟨hp, rfl⟩) : (p, y.get p) ∈ es)

/-- Replaying a difference keeps a path that does not differ, unless a written file takes its
place in the hierarchy. -/
lemma get_replay_of_eq (h : es.Perm (diff x y)) (t : FileTree α β) (hp : x.get p = y.get p)
    (hd : ¬ WrittenBeside x y p) : (applyEdits t es).get p = t.get p :=
  (get_applyEdits_of_not_mem t (not_mem_of_perm_diff h hp)).2 (mt (displaced_iff_of_perm_diff h p).mp hd)

lemma get_replay_of_writtenBeside (h : es.Perm (diff x y)) (t : FileTree α β) (hp : x.get p = y.get p)
    (hd : WrittenBeside x y p) : (applyEdits t es).get p = none :=
  (get_applyEdits_of_not_mem t (not_mem_of_perm_diff h hp)).1 ((displaced_iff_of_perm_diff h p).mpr hd)

end Differences

end FileTrees
