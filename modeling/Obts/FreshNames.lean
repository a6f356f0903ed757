import Mathlib.Data.Finset.Card

/-!
# Searching for a name that is not taken

A loop that tries one name after another until one has a key that is not taken. Names with keys of their own
cannot all be taken, so that the loop ends after at most one step more than there are keys.
-/
namespace FreshNames

variable {α β : Type*} [DecidableEq β] (key : α → β) (name : ℕ → α) (taken : List β)

/-- The loop from the `n`-th name on, for at most so many steps. -/
def search : ℕ → ℕ → Option α
  | 0, _ => none
  | fuel + 1, n => if key (name n) ∈ taken then search fuel (n + 1) else some (name n)

variable {key name taken} {fuel n : ℕ} {x : α}

/-- What is found is a name that is not taken, and the names before it are. -/
lemma exists_of_search (h : search key name taken fuel n = some x) :
    ∃ m, n ≤ m ∧ x = name m ∧ key (name m) ∉ taken ∧ ∀ i, n ≤ i → i < m → key (name i) ∈ taken := by
  induction fuel generalizing n with
  | zero => cases h
  | succ fuel ih =>
    rw [search] at h
    split at h
    · rename_i htaken
      obtain ⟨m, hle, rfl, hfree, hbef⟩ := ih h
      refine ⟨m, by omega, rfl, hfree, fun i hi him => ?_⟩
      rcases Nat.eq_or_lt_of_le hi with rfl | hlt
      · exact htaken
      · exact hbef i hlt him
    · rename_i hfree
      cases h
      exact ⟨n, le_rfl, rfl, hfree, fun i hi hin => absurd hin (by omega)⟩

lemma taken_of_search_eq_none (h : search key name taken fuel n = none) :
    ∀ i, i < fuel → key (name (n + i)) ∈ taken := by
  induction fuel generalizing n with
  | zero => exact fun i hi => absurd hi (Nat.not_lt_zero i)
  | succ fuel ih =>
    rw [search] at h
    split at h
    · rename_i htaken
      intro i hi
      cases i with
      | zero => exact htaken
      | succ i =>
        have hlater := ih h i (by omega)
        rwa [Nat.add_right_comm] at hlater
    · cases h

/-- The loop ends when the names have different keys. -/
lemma exists_search (hkey : ∀ i j, n ≤ i → n ≤ j → key (name i) = key (name j) → i = j)
    (hfuel : taken.length < fuel) : ∃ x, search key name taken fuel n = some x := by
  cases hsear : search key name taken fuel n with
  | some x => exact ⟨x, rfl⟩
  | none =>
    have htaken := taken_of_search_eq_none hsear
    have hcard : (Finset.range fuel).card ≤ taken.toFinset.card := by
      apply Finset.card_le_card_of_injOn fun i => key (name (n + i))
      · intro i hi
        exact List.mem_toFinset.mpr (htaken i (Finset.mem_range.mp hi))
      intro i _ j _ hij
      have hindex := hkey (n + i) (n + j) (by omega) (by omega) hij
      omega
    rw [Finset.card_range] at hcard
    have hlen := taken.toFinset_card_le
    omega

end FreshNames
