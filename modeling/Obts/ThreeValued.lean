import Mathlib.Data.List.Basic

/-!
# Three-valued conditions

A condition on a row with missing values is true, false or unknown, and a row is selected when it is
true. An unknown part never makes a conjunction or a disjunction true that its other parts do not make
true, so that selection is read off part by part.
-/
namespace ThreeValued

/-- True, false, or unknown. -/
abbrev Truth := Option Bool

def Selects (t : Truth) : Prop := t = some true

instance (t : Truth) : Decidable (Selects t) := inferInstanceAs (Decidable (t = some true))

protected def and : Truth → Truth → Truth
  | some false, _ => some false
  | _, some false => some false
  | some true, some true => some true
  | _, _ => none

protected def or : Truth → Truth → Truth
  | some true, _ => some true
  | _, some true => some true
  | some false, some false => some false
  | _, _ => none

protected def not (t : Truth) : Truth := t.map (!·)

def coalesce (t : Truth) (value : Bool) : Truth := some (t.getD value)

/-- A comparison with a missing value is unknown. -/
def compareWith {α : Type*} (holds : α → Bool) (value : Option α) : Truth := value.map holds

variable {t t' : Truth}

@[simp] lemma selects_some {value : Bool} : Selects (some value) ↔ value := by
  rw [Selects, Option.some.injEq]

@[simp] lemma selects_and : Selects (ThreeValued.and t t') ↔ Selects t ∧ Selects t' := by
  rcases t with _ | _ | _ <;> rcases t' with _ | _ | _ <;> simp [ThreeValued.and, Selects]

@[simp] lemma selects_or : Selects (ThreeValued.or t t') ↔ Selects t ∨ Selects t' := by
  rcases t with _ | _ | _ <;> rcases t' with _ | _ | _ <;> simp [ThreeValued.or, Selects]

/-- What is not true, be it false or unknown, is selected by the negation of the coalesced condition. -/
@[simp] lemma selects_not_coalesce : Selects (ThreeValued.not (coalesce t false)) ↔ ¬ Selects t := by
  rcases t with _ | _ | _ <;> simp [ThreeValued.not, coalesce, Selects]

@[simp] lemma selects_compareWith {α : Type*} {holds : α → Bool} {value : Option α} :
    Selects (compareWith holds value) ↔ ∃ a, value = some a ∧ holds a := by
  rw [compareWith, Selects, Option.map_eq_some_iff]

end ThreeValued
