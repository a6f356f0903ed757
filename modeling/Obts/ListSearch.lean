import Mathlib.Data.List.Infix

/-!
# Searching lists

Where a pattern occurs first in a list. A pattern whose first element does not occur again in it cannot
begin before an occurrence of itself and end within it, so it is found where it was put, unless what
stands before contains it.
-/
namespace ListSearch

open List

variable {α : Type*} [DecidableEq α] {pattern front l rest : List α} {i : Nat}

/-- The first position at which the pattern occurs. -/
def indexOf (pattern : List α) : List α → Option Nat
  | [] => if pattern = [] then some 0 else none
  | a :: l => if pattern.isPrefixOf (a :: l) then some 0 else (indexOf pattern l).map (· + 1)

lemma indexOf_append_self (hpat : pattern ≠ []) (rest : List α) : indexOf pattern (pattern ++ rest) = some 0 := by
  cases pattern with
  | nil => exact absurd rfl hpat
  | cons a pattern =>
    rw [cons_append, indexOf, if_pos]
    rw [List.isPrefixOf_iff_prefix]
    exact prefix_append (a :: pattern) rest

/-- A position is found where the pattern is, and at no later one. -/
lemma indexOf_le {n : Nat} (hpat : pattern ≠ [])
    (hleads : pattern <+: l.drop n) : ∃ i ≤ n, indexOf pattern l = some i := by
  induction l generalizing n with
  | nil =>
    rw [drop_nil, prefix_nil] at hleads
    exact absurd hleads hpat
  | cons a l ih =>
    by_cases hhere : pattern.isPrefixOf (a :: l) = true
    · exact ⟨0, Nat.zero_le n, if_pos hhere⟩
    cases n with
    | zero => exact absurd (List.isPrefixOf_iff_prefix.mpr hleads) hhere
    | succ n =>
      obtain ⟨i, hi, hfound⟩ := ih hleads
      exact ⟨i + 1, by omega, by rw [indexOf, if_neg hhere, hfound]; rfl⟩

/-- What stands before the first occurrence is passed over. -/
lemma indexOf_append (hpat : pattern ≠ []) (hfront : ∀ before after, front = before ++ after → after ≠ [] →
      ¬ pattern <+: after ++ (pattern ++ rest)) :
    indexOf pattern (front ++ (pattern ++ rest)) = some front.length := by
  induction front with
  | nil => exact indexOf_append_self hpat rest
  | cons a front ih =>
    have hhere : ¬ pattern.isPrefixOf (a :: (front ++ (pattern ++ rest))) = true := by
      rw [List.isPrefixOf_iff_prefix]
      exact hfront [] (a :: front) rfl (cons_ne_nil a front)
    rw [cons_append, indexOf, if_neg hhere, ih]
    · rfl
    · intro before after heq hne
      exact hfront (a :: before) after (by rw [heq]; rfl) hne

lemma length_le_of_indexOf (hfound : indexOf pattern l = some i) : i + pattern.length ≤ l.length := by
  induction l generalizing i with
  | nil =>
    obtain ⟨hnil, ⟨⟩⟩ := Option.ite_none_right_eq_some.mp hfound
    rw [hnil]
    exact Nat.le_refl 0
  | cons a l ih =>
    rw [indexOf] at hfound
    split at hfound
    · rename_i hhere
      cases hfound
      rw [Nat.zero_add]
      exact (List.isPrefixOf_iff_prefix.mp hhere).length_le
    · obtain ⟨j, hj, rfl⟩ := Option.map_eq_some_iff.mp hfound
      have hle := ih hj
      rw [length_cons]
      omega

/-- What follows does not change where the pattern is found. -/
lemma indexOf_append_right (hfound : indexOf pattern l = some i)
    (rest : List α) : indexOf pattern (l ++ rest) = some i := by
  induction l generalizing i with
  | nil =>
    obtain ⟨hnil, ⟨⟩⟩ := Option.ite_none_right_eq_some.mp hfound
    rw [hnil]
    cases rest with
    | nil | cons => rfl
  | cons a l ih =>
    have hlen := length_le_of_indexOf hfound
    rw [indexOf] at hfound
    rw [cons_append, indexOf]
    split at hfound
    · rename_i hhere
      rw [List.isPrefixOf_iff_prefix] at hhere
      have hlong : pattern <+: a :: (l ++ rest) :=
        hhere.trans (prefix_append (a :: l) rest)
      rw [if_pos (List.isPrefixOf_iff_prefix.mpr hlong)]
      exact hfound
    · rename_i hhere
      have hnot : ¬ pattern.isPrefixOf (a :: (l ++ rest)) = true := by
        intro hleads
        rw [List.isPrefixOf_iff_prefix] at hleads hhere
        exact hhere (prefix_of_prefix_length_le hleads (prefix_append (a :: l) rest) (by omega))
      obtain ⟨j, hj, rfl⟩ := Option.map_eq_some_iff.mp hfound
      rw [if_neg hnot, ih hj]
      rfl

section Unbordered
variable {a : α} {pattern : List α}

omit [DecidableEq α] in
/-- An occurrence that begins before another one of an unbordered pattern ends before it. -/
lemma prefix_of_prefix_append (ha : a ∉ pattern) (hfront : front ≠ [])
    (hleads : a :: pattern <+: front ++ (a :: pattern ++ rest)) : a :: pattern <+: front := by
  rcases prefix_or_prefix_of_prefix hleads (prefix_append front _) with hshort | hlong
  · exact hshort
  obtain ⟨back, hback⟩ := hlong
  cases back with
  | nil =>
    rw [append_nil] at hback
    exact hback ▸ prefix_refl _
  | cons b back =>
    -- the pattern would go on with its own first element
    obtain ⟨more, hmore⟩ := hleads
    have hlong : front ++ (b :: back ++ more) = front ++ (a :: pattern ++ rest) := by
      rw [← append_assoc, hback]
      exact hmore
    have hsame := append_cancel_left hlong
    obtain ⟨rfl, -⟩ := cons.inj hsame
    cases front with
    | nil => exact absurd rfl hfront
    | cons c front =>
      obtain ⟨-, rfl⟩ := cons.inj hback
      exact absurd (mem_append_right front mem_cons_self) ha

lemma indexOf_unbordered (ha : a ∉ pattern) (hfront : ¬ a :: pattern <:+: front) (rest : List α) :
    indexOf (a :: pattern) (front ++ (a :: pattern ++ rest)) = some front.length := by
  refine indexOf_append (cons_ne_nil a pattern) ?_
  rintro before after rfl hne hleads
  have hafter := prefix_of_prefix_append ha hne hleads
  exact hfront (hafter.isInfix.trans (suffix_append before after).isInfix)

lemma indexOf_lt_of_infix (hpat : pattern ≠ []) (hfront : pattern <:+: front) (rest : List α) :
    ∃ i < front.length, indexOf pattern (front ++ rest) = some i := by
  obtain ⟨before, after, rfl⟩ := hfront
  have hleads : pattern <+: (before ++ pattern ++ after ++ rest).drop before.length := by
    rw [append_assoc, append_assoc, drop_left]
    exact prefix_append pattern _
  obtain ⟨i, hi, hfound⟩ := indexOf_le hpat hleads
  refine ⟨i, ?_, hfound⟩
  have hpos := length_pos_iff.mpr hpat
  simp only [length_append]
  omega

end Unbordered

end ListSearch
