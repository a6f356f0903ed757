import Mathlib.Data.List.Chain
import Mathlib.Data.Nat.Digits.Defs
import Obts.JsonValues

/-!
# JSON between two runtimes

One side writes values whose strings may hold half of a surrogate pair and whose numbers are doubles. The
other reads strings of characters, and values that are not nested too deeply.
-/
namespace WireJson

open JsonValues

inductive CodePoint where
  | scalar (c : Char)
  | high (offset : Fin 1024)
  | low (offset : Fin 1024)
  deriving DecidableEq

def CodePoint.char? : CodePoint → Option Char
  | .scalar c => some c
  | _ => none

/-- A low surrogate after a high one would be a character with it. -/
def CodePoint.Pairs : CodePoint → CodePoint → Prop
  | .high _, .low _ => True
  | _, _ => False

structure JsString where
  points : List CodePoint
  unpaired : points.IsChain fun a b => ¬ a.Pairs b
  deriving DecidableEq

def JsString.ofString (s : String) : JsString where
  points := s.toList.map .scalar
  unpaired := by
    rw [List.isChain_map]
    induction s.toList with
    | nil => exact .nil
    | cons c text ih =>
      cases text with
      | nil => exact .singleton _
      | cons d text => exact .cons_cons (fun hpairs => hpairs) ih

/-- The characters, if no surrogate is alone. -/
def JsString.text (s : JsString) : Option String :=
  if s.points.all fun point => point.char?.isSome then
    some (String.ofList (s.points.filterMap CodePoint.char?))
  else none

/-- What is written between the quotes: escapes are of two characters or of six. -/
def CodePoint.bytes : CodePoint → Nat
  | .scalar c =>
    if ['"', '\\', '\n', '\r', '\t', Char.ofNat 8, Char.ofNat 12].contains c then 2
    else if c.toNat < 32 then 6
    else c.utf8Size
  | _ => 6

def JsString.bytes (s : JsString) : Nat := 2 + (s.points.map CodePoint.bytes).sum

abbrev Json := JsonTrees.Tree Number JsString

def str (text : String) : Json := .string (.ofString text)

def obj (entries : List (String × Json)) : Json :=
  .record (entries.map fun entry => (.ofString entry.1, entry.2))

/-- The bytes of a number are the characters of its text. -/
def numberBytes : Number → Nat
  | .integer value => (toString value).length
  | .real text => text.length

/-- Each item of an array, or entry of an object, has a bracket, a comma or a brace after it. -/
def Json.bytes : Json → Nat
  | .null => 4
  | .boolean value => if value then 4 else 5
  | .number value => numberBytes value
  | .string value => value.bytes
  | .array items => 1 + max 1 (bytesItems items)
  | .record entries => 1 + max 1 (bytesEntries entries)
where
  bytesItems : List Json → Nat
    | [] => 0
    | item :: items => item.bytes + 1 + bytesItems items
  bytesEntries : List (JsString × Json) → Nat
    | [] => 0
    | (key, value) :: entries => key.bytes + 1 + value.bytes + 1 + bytesEntries entries

def Json.depth : Json → Nat
  | .array items => depthItems items + 1
  | .record entries => depthEntries entries + 1
  | _ => 0
where
  depthItems : List Json → Nat
    | [] => 0
    | item :: items => max item.depth (depthItems items)
  depthEntries : List (JsString × Json) → Nat
    | [] => 0
    | (_, value) :: entries => max value.depth (depthEntries entries)

/-- Later entries of an object replace earlier ones. -/
def Json.read : Json → Option Value
  | .null => some .null
  | .boolean value => some (.boolean value)
  | .number value => some (.number value)
  | .string value => value.text.map .string
  | .array items => (readItems items).map .array
  | .record entries => (readEntries entries []).map .record
where
  readItems : List Json → Option (List Value)
    | [] => some []
    | item :: items => do
      let value ← item.read
      let values ← readItems items
      some (value :: values)
  readEntries : List (JsString × Json) → Map → Option Map
    | [], m => some m
    | (key, value) :: entries, m => do
      let key ← key.text
      let value ← value.read
      readEntries entries (m.insert key value)

/-- The reader refuses what is nested deeper. -/
def maxDepth : Nat := 127

def Json.fromStr (json : Json) : Option Value := if json.depth ≤ maxDepth then json.read else none

/-- The nearest number of 53 binary digits; of two the even one. -/
def toDouble (n : Nat) : Nat :=
  let unit := 2 ^ (n.log2 - 52)
  if unit < 2 * (n % unit) ∨ (2 * (n % unit) = unit ∧ n / unit % 2 = 1) then (n / unit + 1) * unit
  else n / unit * unit

/-- The shortest decimal that is read as a number: with zeros from a place on, the nearer of two. -/
def shortest (x : Nat) : Nat → Nat
  | 0 => x
  | place + 1 =>
    let below := x / 10 ^ (place + 1) * 10 ^ (place + 1)
    let above := below + 10 ^ (place + 1)
    if toDouble below = x ∧ (toDouble above ≠ x ∨ x - below ≤ above - x) then below
    else if toDouble above = x then above
    else shortest x place

/-- A number below `10 ^ 21` that is read as a double and written again. -/
def rewritten (n : Nat) : Nat := shortest (toDouble n) 21

lemma text_ofString {s : String} : (JsString.ofString s).text = some s := by
  have hall : ((s.toList.map CodePoint.scalar).all fun point => point.char?.isSome) = true := by
    rw [List.all_map]
    exact List.all_eq_true.mpr fun c _ => rfl
  have hchars : (s.toList.map CodePoint.scalar).filterMap CodePoint.char? = s.toList := by
    rw [List.filterMap_map]
    exact List.filterMap_some
  rw [JsString.text, JsString.ofString]
  rw [if_pos hall, hchars, String.ofList_toList]

lemma numberBytes_le {n digits : Nat} (hdig : 0 < digits) (h : n < 10 ^ digits) :
    numberBytes (.integer n) ≤ digits :=
  Nat.repr_length n digits hdig h

end WireJson
