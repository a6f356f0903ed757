import Mathlib.Data.List.Perm.Subperm
import Obts.InsertionOrder

/-!
# Tables

A table is a list of rows with a key. Rows are put in or changed by their key, changed in place, or
deleted.
-/
namespace KeyedRows

open List

variable {α κ : Type*}

/-- `UPDATE … WHERE` -/
def update (picks : α → Bool) (change : α → α) (rows : List α) : List α :=
  rows.map fun row => if picks row then change row else row

/-- `DELETE … WHERE` -/
def delete (picks : α → Bool) (rows : List α) : List α := rows.filter fun row => !picks row

/-- `INSERT … ON CONFLICT … DO UPDATE` -/
def upsert [DecidableEq κ] (key : α → κ) (row : α) (change : α → α) (rows : List α) : List α :=
  if key row ∈ rows.map key then update (fun old => decide (key old = key row)) change rows
  else rows ++ [row]

variable {key : α → κ} {picks keeps : α → Bool} {change : α → α} {rows : List α} {row x : α}

lemma mem_update : x ∈ update picks change rows ↔ ∃ old ∈ rows, (if picks old then change old else old) = x :=
  mem_map

@[simp] lemma mem_delete : x ∈ delete picks rows ↔ x ∈ rows ∧ picks x = false := by
  rw [delete, mem_filter, Bool.not_eq_true']

lemma update_eq_self (h : ∀ old ∈ rows, picks old = false) : update picks change rows = rows := by
  rw [update, map_congr_left (g := id) fun old hold => ?_, map_id]
  rw [h old hold]
  rfl

lemma keys_update (h : ∀ old ∈ rows, picks old → key (change old) = key old) :
    (update picks change rows).map key = rows.map key := by
  rw [update, map_map]
  refine map_congr_left fun old hold => ?_
  dsimp only [Function.comp_apply]
  split
  · rename_i hpicks
    exact h old hold hpicks
  · rfl

section
variable (h : (rows.map key).Nodup)
include h

lemma nodup_update (hchg : ∀ old, key (change old) = key old) : ((update picks change rows).map key).Nodup := by
  rw [keys_update fun old _ _ => hchg old]
  exact h

lemma nodup_delete : ((delete picks rows).map key).Nodup :=
  h.sublist (filter_sublist.map key)

/-- Rows with the same key are the same row. -/
lemma filter_key [DecidableEq κ] (hrow : row ∈ rows) : rows.filter (fun other => key other = key row) = [row] := by
  induction rows with
  | nil => cases hrow
  | cons other rows ih =>
    obtain ⟨hother, hrows⟩ := nodup_cons.mp h
    rcases mem_cons.mp hrow with rfl | hmem
    · rw [filter_cons_of_pos (by simp), filter_eq_nil_iff.mpr]
      intro x hx hkey
      exact hother (of_decide_eq_true hkey ▸ mem_map_of_mem hx)
    rw [filter_cons_of_neg, ih hrows hmem]
    intro hkey
    exact hother (of_decide_eq_true hkey ▸ mem_map_of_mem hmem)

end

/-- No two rows have one key. -/
lemma length_filter_le_one (value : κ) (h : (rows.map key).Nodup)
    (hkeeps : ∀ x ∈ rows, keeps x → key x = value) : (rows.filter keeps).length ≤ 1 := by
  have hnodup : ((rows.filter keeps).map key).Nodup := h.sublist (filter_sublist.map key)
  have hvalue : ∀ x ∈ rows.filter keeps, key x = value := fun x hx =>
    hkeeps x (mem_filter.mp hx).1 (mem_filter.mp hx).2
  match hpick : rows.filter keeps with
  | [] => simp
  | [_] => simp
  | a :: b :: rest =>
    rw [hpick] at hnodup hvalue
    have hsame : key a = key b := (hvalue a (by simp)).trans (hvalue b (by simp)).symm
    simp [hsame] at hnodup

section Upsert
variable [DecidableEq κ]

lemma nodup_upsert (h : (rows.map key).Nodup) (hchg : ∀ old, key old = key row → key (change old) = key row) :
    ((upsert key row change rows).map key).Nodup := by
  rw [upsert]
  split
  · rw [keys_update fun old _ hold => ?_]
    · exact h
    · rw [decide_eq_true_eq] at hold
      rw [hchg old hold, hold]
  · rename_i hkey
    exact InsertionOrder.nodup_map_concat h hkey

lemma mem_upsert : x ∈ upsert key row change rows ↔
    (x ∈ rows ∧ key x ≠ key row) ∨ (∃ old ∈ rows, key old = key row ∧ x = change old) ∨
      (x = row ∧ key row ∉ rows.map key) := by
  rw [upsert]
  split
  · rename_i hmem
    rw [mem_update]
    constructor
    · rintro ⟨old, hold, rfl⟩
      by_cases hkey : key old = key row
      · rw [if_pos (decide_eq_true hkey)]
        exact .inr (.inl ⟨old, hold, hkey, rfl⟩)
      · rw [if_neg (by simpa using hkey)]
        exact .inl ⟨hold, hkey⟩
    · rintro (⟨hx, hkey⟩ | ⟨old, hold, hkey, rfl⟩ | ⟨-, hnot⟩)
      · exact ⟨x, hx, if_neg (by simpa using hkey)⟩
      · exact ⟨old, hold, if_pos (decide_eq_true hkey)⟩
      · exact absurd hmem hnot
  · rename_i hnot
    rw [mem_append, mem_singleton]
    constructor
    · rintro (hx | rfl)
      · refine .inl ⟨hx, fun hkey => hnot ?_⟩
        rw [← hkey]
        exact mem_map_of_mem hx
      · exact .inr (.inr ⟨rfl, hnot⟩)
    · rintro (⟨hx, -⟩ | ⟨old, hold, hkey, -⟩ | ⟨rfl, -⟩)
      · exact .inl hx
      · exact absurd (hkey ▸ mem_map_of_mem hold) hnot
      · exact .inr rfl

end Upsert

lemma filter_update (h : ∀ old ∈ rows, picks old → keeps old = false ∧ keeps (change old) = false) :
    (update picks change rows).filter keeps = rows.filter keeps := by
  induction rows with
  | nil => rfl
  | cons old rows ih =>
    have hrest := ih fun other hother => h other (mem_cons_of_mem _ hother)
    rw [update, map_cons, ← update, filter_cons, filter_cons, hrest]
    by_cases hpicks : picks old = true
    · obtain ⟨hold, hnew⟩ := h old mem_cons_self hpicks
      simp [hpicks, hold, hnew]
    · rw [if_neg hpicks]

lemma filter_delete (h : ∀ old ∈ rows, picks old → keeps old = false) :
    (delete picks rows).filter keeps = rows.filter keeps := by
  rw [delete, filter_filter]
  refine filter_congr fun old hold => ?_
  cases hpicks : picks old with
  | true => simp [h old hold hpicks]
  | false => simp

lemma filter_upsert [DecidableEq κ] (hrow : keeps row = false)
    (hold : ∀ old ∈ rows, key old = key row → keeps old = false ∧ keeps (change old) = false) :
    (upsert key row change rows).filter keeps = rows.filter keeps := by
  rw [upsert]
  split
  · exact filter_update fun old hmem hkey => hold old hmem (of_decide_eq_true hkey)
  · simp [hrow]

end KeyedRows
