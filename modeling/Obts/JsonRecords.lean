import Obts.InsertionOrder
import Obts.JsonShapes

/-!
# JSON records

JSON values and the fields of records. A record is written from entries whose value may be
undefined; as `JSON.stringify` has it, an undefined entry leaves no field.
-/
namespace JsonRecords

open InsertionOrder

/-- A number that is no integer is told apart, but its value plays no role. -/
abbrev Json := JsonTrees.Tree (Option Int) String

variable (entries : List (String × Option Json))

/-- The fields of a record with some entries undefined. -/
def definedFields : List (String × Json) :=
  entries.filterMap fun entry => entry.2.map (entry.1, ·)

def record : Json := .record (definedFields entries)

@[simp] lemma valueAt_definedFields_nil (field : String) : valueAt (definedFields []) field = none := rfl

@[simp] lemma valueAt_definedFields_cons (name : String) (value : Option Json)
    (entries : List (String × Option Json)) (field : String) :
    valueAt (definedFields ((name, value) :: entries)) field
      = if name = field then value.or (valueAt (definedFields entries) field)
        else valueAt (definedFields entries) field := by
  cases value with
  | none => simp [definedFields]
  | some value =>
    by_cases h : name = field
    · simp [definedFields, valueAt, h]
    · simp [definedFields, valueAt, h]

/-- The source's `hasOnlyFields`. -/
def hasOnlyFields (fields : List (String × Json)) (allowed : List String) : Bool :=
  fields.all fun field => allowed.contains field.1

lemma hasOnlyFields_definedFields {entries : List (String × Option Json)} {allowed : List String}
    (h : ∀ entry ∈ entries, entry.1 ∈ allowed) : hasOnlyFields (definedFields entries) allowed := by
  rw [hasOnlyFields, List.all_eq_true]
  intro field hfield
  obtain ⟨entry, hentry, hvalue⟩ := List.mem_filterMap.mp hfield
  obtain ⟨value, -, rfl⟩ := Option.map_eq_some_iff.mp hvalue
  simpa using h entry hentry

def Json.ofOption (f : α → Json) : Option α → Json
  | none => .null
  | some a => f a

def Json.asString : Json → Option String
  | .string value => some value
  | _ => none

/-- The largest integer that a double counts exactly. -/
def maxSafeInteger : Nat := 9007199254740991

/-- An integer from zero to a maximum. -/
def Json.asCounter (maximum : Nat) : Json → Option Nat
  | .number (some (.ofNat n)) => if n ≤ maximum then some n else none
  | _ => none

@[simp] lemma asCounter_int (maximum n : Nat) :
    Json.asCounter maximum (.number (some n)) = if n ≤ maximum then some n else none := rfl

end JsonRecords
