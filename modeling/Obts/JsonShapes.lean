import Mathlib.Data.List.Basic

/-!
# The shape of JSON values

JSON values over what a reader takes for a number and for a string; the keys of a record are strings of the
same kind.
-/
namespace JsonTrees

inductive Tree (ν σ : Type) where
  | null
  | boolean (value : Bool)
  | number (value : ν)
  | string (value : σ)
  | array (items : List (Tree ν σ))
  | record (fields : List (σ × Tree ν σ))

variable {ν σ : Type} {P : Tree ν σ → Prop}

/-- What holds of scalars and is handed up by arrays and records holds of every value. -/
lemma Tree.ofParts (null : P .null) (boolean : ∀ value, P (.boolean value))
    (number : ∀ value, P (.number value)) (string : ∀ value, P (.string value))
    (array : ∀ items, (∀ v ∈ items, P v) → P (.array items))
    (record : ∀ fields, (∀ e ∈ fields, P e.2) → P (.record fields)) (v : Tree ν σ) : P v := by
  refine @Tree.rec ν σ P (fun items => ∀ v ∈ items, P v) (fun fields => ∀ e ∈ fields, P e.2) (fun e => P e.2)
    null boolean number string array record ?_ ?_ ?_ ?_ (fun _ _ h => h) v
  · exact fun _ h => nomatch h
  · intro item items hitem hitems v hv
    rcases List.mem_cons.mp hv with rfl | hv
    · exact hitem
    · exact hitems v hv
  · exact fun _ h => nomatch h
  · intro e fields he hfld e' he'
    rcases List.mem_cons.mp he' with rfl | he'
    · exact he
    · exact hfld e' he'

end JsonTrees
