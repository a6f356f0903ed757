import Obts.JsonShapes
import Obts.RustText

/-!
# JSON values

Values as the bridge reads and writes them. The entries of an object are kept in the order of their
keys, and a number is an integer or has a text of another form.
-/
namespace JsonValues

open RustText

inductive Number where
  | integer (value : Int)
  /-- With a fraction or an exponent. -/
  | real (text : String)

abbrev Value := JsonTrees.Tree Number String

/-- The entries of an object. -/
abbrev Map := List (String × Value)

def Map.get (m : Map) (key : String) : Option Value := (m.find? fun entry => entry.1 = key).map Prod.snd

def Map.insert (key : String) (value : Value) : Map → Map
  | [] => [(key, value)]
  | entry :: m =>
    if entry.1 = key then (key, value) :: m
    else if byteOrder key entry.1 = .lt then (key, value) :: entry :: m
    else entry :: Map.insert key value m

def Map.remove (m : Map) (key : String) : Map := m.filter fun entry => entry.1 ≠ key

/-- The entries are put into the map; their keys are distinct, so that no order matters. -/
def Map.extend (m entries : Map) : Map := entries.foldr (fun entry m => m.insert entry.1 entry.2) m

variable {m : Map} {key other : String} {value : Value}

@[simp] lemma Map.get_cons_self : Map.get ((key, value) :: m) key = some value := by
  simp [Map.get]

lemma Map.get_cons_of_ne {entry : String × Value} (h : entry.1 ≠ other) :
    Map.get (entry :: m) other = m.get other := by
  rw [Map.get, List.find?_cons_of_neg (by simpa using h)]
  rfl

@[simp] lemma Map.get_insert_self : (m.insert key value).get key = some value := by
  induction m with
  | nil => exact get_cons_self
  | cons entry m ih =>
    rw [Map.insert]
    split
    · exact get_cons_self
    split
    · exact get_cons_self
    rename_i hkey _
    rw [get_cons_of_ne hkey]
    exact ih

lemma Map.get_insert_of_ne (h : other ≠ key) : (m.insert key value).get other = m.get other := by
  induction m with
  | nil => exact get_cons_of_ne h.symm
  | cons entry m ih =>
    rw [Map.insert]
    split
    · rename_i hkey
      rw [get_cons_of_ne h.symm, get_cons_of_ne (hkey ▸ h.symm)]
    split
    · exact get_cons_of_ne h.symm
    by_cases hentry : entry.1 = other
    · subst hentry
      rw [get_cons_self, get_cons_self]
    · rw [get_cons_of_ne hentry, get_cons_of_ne hentry]
      exact ih

@[simp] lemma Map.get_remove_self : (m.remove key).get key = none := by
  simp [Map.get, Map.remove]

lemma Map.get_remove_of_ne (h : other ≠ key) : (m.remove key).get other = m.get other := by
  rw [Map.get, Map.get, Map.remove, List.find?_filter]
  congr 2
  funext entry
  by_cases hentry : entry.1 = other
  · simp [hentry, h]
  · simp [hentry]

lemma Map.get_extend {entries : Map} : (m.extend entries).get key = (entries.get key).or (m.get key) := by
  induction entries with
  | nil => rfl
  | cons entry entries ih =>
    by_cases hkey : entry.1 = key
    · subst hkey
      rw [get_cons_self]
      exact get_insert_self
    · rw [get_cons_of_ne hkey, ← ih]
      exact get_insert_of_ne (Ne.symm hkey)

lemma Map.get_filter {p : String → Bool} :
    Map.get (m.filter fun entry => p entry.1) key = if p key then m.get key else none := by
  rw [Map.get, List.find?_filter]
  split
  · rename_i hkeeps
    congr 2
    funext entry
    by_cases hkey : entry.1 = key
    · simp [hkey, hkeeps]
    · simp [hkey]
  · rename_i hkeeps
    rw [Option.map_eq_none_iff, List.find?_eq_none]
    intro entry _ hentry
    simp only [decide_eq_true_eq] at hentry
    obtain ⟨hkept, rfl⟩ := hentry
    exact hkeeps hkept

/-- `Value::get` with a key. -/
def Value.get (value : Value) (key : String) : Option Value :=
  match value with
  | .record entries => Map.get entries key
  | _ => none

def Value.asObject : Value → Option Map
  | .record entries => some entries
  | _ => none

def Value.asStr : Value → Option String
  | .string value => some value
  | _ => none

end JsonValues
