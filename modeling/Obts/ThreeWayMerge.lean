import Mathlib.Logic.Basic

/-!
# Three-way merges

Values are compared by a text. Two sides of a base agree when at most one of them changed it or both came to
the same, and then there is one text that a merge can have.
-/
namespace ThreeWayMerge

variable {α β : Type*} (text : α → β) {base current device merged : α}

/-- At most one side changed the value, or both came to the same. -/
def Agrees (base current device : α) : Prop :=
  text current = text base ∨ text device = text base ∨ text current = text device

/-- What a merged value owes to its three sources. -/
structure Merges (base current device merged : α) : Prop where
  ofDevice : text current = text base → text merged = text device
  ofCurrent : text device = text base → text merged = text current
  common : text current = text device → text merged = text current

variable {text}

section Choose
variable [DecidableEq β] (text)

/-- The value of the side that changed. -/
def choose (base current device : α) : α := if text current = text base then device else current

lemma choose_eq_or (base current device : α) :
    choose text base current device = device ∨ choose text base current device = current := by
  rw [choose]
  split
  · exact Or.inl rfl
  · exact Or.inr rfl

variable {text}

lemma text_choose_of_device (h : text device = text base) :
    text (choose text base current device) = text current := by
  rw [choose]
  split
  · rename_i hcur
    rw [h, hcur]
  · rfl

lemma text_choose_of_common (h : text current = text device) :
    text (choose text base current device) = text current := by
  rw [choose]
  split
  · exact h.symm
  · rfl

lemma merges_choose : Merges text base current device (choose text base current device) where
  ofDevice := fun h => by rw [choose, if_pos h]
  ofCurrent := text_choose_of_device
  common := text_choose_of_common

/-- Where the sides agree, a merge is known by its text. -/
lemma merges_iff (h : Agrees text base current device) :
    Merges text base current device merged ↔ text merged = text (choose text base current device) := by
  constructor
  · intro hmerg
    rcases h with hcur | hdev | hcom
    · rw [hmerg.ofDevice hcur, choose, if_pos hcur]
    · rw [hmerg.ofCurrent hdev, text_choose_of_device hdev]
    · rw [hmerg.common hcom, text_choose_of_common hcom]
  · intro htext
    constructor
    · exact fun h => htext.trans (merges_choose.ofDevice h)
    · exact fun h => htext.trans (merges_choose.ofCurrent h)
    · exact fun h => htext.trans (merges_choose.common h)

end Choose

end ThreeWayMerge
