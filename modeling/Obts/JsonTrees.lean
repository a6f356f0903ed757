import Obts.JsonShapes
import Obts.StableJson

/-!
# JSON trees and their stable text

Values as `JSON.parse` gives them. A record is the list of its own properties, the first of a key being
the one it has. The stable text of a value writes the keys of every record in order, so that two values
have one text just when they come to the same normal form: the same scalars, the same items in order and
the same properties in any order.
-/
namespace JsonTrees

open InsertionOrder SlashPath StableJson Metadata List

/-- The characters of the numbers that `JSON.stringify` writes. -/
def isNumeral (c : Char) : Bool := c.isDigit || ['-', '+', '.', 'e'].contains c

/-- What `JSON.stringify` writes for a finite number. -/
structure Numeral where
  digits : List Char
  ne_nil : digits ≠ []
  numeral : ∀ c ∈ digits, isNumeral c
  deriving DecidableEq

/-- A number of the source by the text it is written as; what exceeds all finite numbers is read as infinite. -/
inductive Number where
  | finite (text : Numeral)
  | infinite (negative : Bool)
  deriving DecidableEq

abbrev Json := Tree Number String

/-- The own properties of an object. -/
abbrev Fields := List (String × Json)

/-- `Array.prototype.sort` on strings: by code units. -/
def sortKeys (keys : List String) : List String :=
  sortBy (compareOn fun key => key.toList.flatMap utf16) keys

variable {keys : List String} {key : String}

@[simp] lemma mem_sortKeys {k : String} : k ∈ sortKeys keys ↔ k ∈ keys :=
  mem_sortBy

lemma nodup_sortKeys (h : keys.Nodup) : (sortKeys keys).Nodup :=
  (sortBy_perm _ keys).nodup_iff.mpr h

lemma sortKeys_eq_of_perm {others : List String} (h : keys.Perm others) : sortKeys keys = sortKeys others := by
  apply sortBy_eq_of_perm _ h
  intro a b hab
  apply String.toList_injective
  exact flatMap_utf16_injective (Std.LawfulEqCmp.compare_eq_iff_eq.mp hab)

section InKeyOrder
variable {α β : Type*} {fields others : List (String × α)} {k : String}

/-- `Object.keys(record)` -/
def keysOf (fields : List (String × α)) : List String := ofList (fields.map Prod.fst)

@[simp] lemma mem_keysOf : k ∈ keysOf fields ↔ k ∈ fields.map Prod.fst := mem_ofList

lemma nodup_keysOf : (keysOf fields).Nodup := nodup_ofList _

/-- The properties that `read` gives to keys. -/
def pick (keys : List String) (read : String → Option α) : List (String × α) :=
  keys.filterMap fun key => (read key).map (Prod.mk key)

lemma valueAt_pick (keys : List String) (read : String → Option α) (k : String) :
    valueAt (pick keys read) k = if k ∈ keys then read k else none := by
  induction keys with
  | nil => rfl
  | cons key keys ih =>
    rw [pick, filterMap_cons]
    cases hread : read key with
    | none =>
      rw [Option.map_none, ← pick, ih]
      by_cases hkey : k = key
      · subst hkey
        simp [hread]
      · simp [hkey]
    | some v =>
      rw [Option.map_some, ← pick]
      by_cases hkey : key = k
      · subst hkey
        simp [valueAt, hread]
      have hskip : valueAt ((key, v) :: pick keys read) k = valueAt (pick keys read) k := by
        simp [valueAt, hkey]
      rw [hskip, ih]
      simp [Ne.symm hkey]

/-- The properties of a record in the order of their keys. -/
def inKeyOrder (fields : List (String × α)) : List (String × α) :=
  pick (sortKeys (keysOf fields)) (valueAt fields)

@[simp] lemma valueAt_inKeyOrder (fields : List (String × α)) (k : String) :
    valueAt (inKeyOrder fields) k = valueAt fields k := by
  rw [inKeyOrder, valueAt_pick]
  split
  · rfl
  rename_i hkey
  rw [mem_sortKeys, mem_keysOf] at hkey
  exact (valueAt_eq_none.mpr hkey).symm

/-- Two records have the same properties in order just when each key has the same value in both. -/
lemma inKeyOrder_eq_iff : inKeyOrder fields = inKeyOrder others ↔ ∀ k, valueAt fields k = valueAt others k := by
  constructor
  · intro heq k
    rw [← valueAt_inKeyOrder fields, heq, valueAt_inKeyOrder]
  intro hvals
  have hkeys : (keysOf fields).Perm (keysOf others) := by
    rw [perm_ext_iff_of_nodup nodup_keysOf nodup_keysOf]
    intro k
    rw [mem_keysOf, mem_keysOf, ← not_iff_not, ← valueAt_eq_none, ← valueAt_eq_none, hvals]
  rw [inKeyOrder, inKeyOrder, sortKeys_eq_of_perm hkeys, funext hvals]

lemma valueAt_map (f : α → β) (fields : List (String × α)) (k : String) :
    valueAt (fields.map fun e => (e.1, f e.2)) k = (valueAt fields k).map f := by
  rw [valueAt, valueAt, find?_map]
  simp [Function.comp_def]

end InKeyOrder

mutual
/-- A value as its text shows it: an infinite number is written as null, and the properties of a record in
the order of their keys. -/
def normal : Json → Tree Numeral String
  | .null => .null
  | .boolean value => .boolean value
  | .number (.finite text) => .number text
  | .number (.infinite _) => .null
  | .string value => .string value
  | .array items => .array (normalItems items)
  | .record fields => .record (inKeyOrder (normalFields fields))

def normalItems : List Json → List (Tree Numeral String)
  | [] => []
  | item :: items => normal item :: normalItems items

def normalFields : Fields → List (String × Tree Numeral String)
  | [] => []
  | (key, value) :: fields => (key, normal value) :: normalFields fields
end

lemma normalItems_eq_map (items : List Json) : normalItems items = items.map normal := by
  induction items with
  | nil => rfl
  | cons item items ih => rw [normalItems, ih, map_cons]

lemma normalFields_eq_map (fields : Fields) : normalFields fields = fields.map fun e => (e.1, normal e.2) := by
  induction fields with
  | nil => rfl
  | cons e fields ih => rw [normalFields, ih, map_cons]

mutual
/-- A value in its normal form, followed by the rest of the text. -/
def write : Tree Numeral String → List Char → List Char
  | .null, rest => "null".toList ++ rest
  | .boolean true, rest => "true".toList ++ rest
  | .boolean false, rest => "false".toList ++ rest
  | .number text, rest => text.digits ++ rest
  | .string value, rest => quoted value rest
  | .array [], rest => '[' :: ']' :: rest
  | .array (item :: items), rest => '[' :: write item (moreItems items rest)
  | .record [], rest => '{' :: '}' :: rest
  | .record ((key, value) :: fields), rest =>
    '{' :: quoted key (':' :: write value (moreFields fields rest))

/-- The rest of an array after an item. -/
def moreItems : List (Tree Numeral String) → List Char → List Char
  | [], rest => ']' :: rest
  | item :: items, rest => ',' :: write item (moreItems items rest)

/-- The rest of a record after a property. -/
def moreFields : List (String × Tree Numeral String) → List Char → List Char
  | [], rest => '}' :: rest
  | (key, value) :: fields, rest => ',' :: quoted key (':' :: write value (moreFields fields rest))
end

/-- `stableJson(value)` of a value that is not undefined. -/
def stableText (value : Json) : String := String.ofList (write (normal value) [])

/-- `stableJson(value)`; undefined has no text. -/
def stableJson (value : Option Json) : Option String := value.map stableText

/-- No number goes on into the text. -/
def Delimits (rest : List Char) : Prop := ∀ c ∈ rest.head?, isNumeral c = false

lemma delimits_nil : Delimits [] := by
  rintro c ⟨⟩

lemma delimits_moreItems (items : List (Tree Numeral String)) (rest : List Char) : Delimits (moreItems items rest) := by
  cases items <;> (rintro c ⟨⟩; rfl)

lemma delimits_moreFields (fields : List (String × Tree Numeral String)) (rest : List Char) :
    Delimits (moreFields fields rest) := by
  cases fields <;> (rintro c ⟨⟩; rfl)

inductive Kind where
  | null
  | boolean (value : Bool)
  | number
  | string
  | array
  | record

def Tree.kind : Tree Numeral String → Kind
  | .null => .null
  | .boolean value => .boolean value
  | .number _ => .number
  | .string _ => .string
  | .array _ => .array
  | .record _ => .record

/-- The first character of a text tells its kind. -/
def kindOf (c : Char) : Option Kind :=
  if isNumeral c then some .number
  else if c = 'n' then some .null
  else if c = 't' then some (.boolean true)
  else if c = 'f' then some (.boolean false)
  else if c = doubleQuote then some .string
  else if c = '[' then some .array
  else if c = '{' then some .record
  else none

lemma kind_write (s : Tree Numeral String) (rest : List Char) : (write s rest).head?.bind kindOf = some s.kind := by
  cases s with
  | null | string => rfl
  | boolean value | array value | record value => cases value <;> rfl
  | number text =>
    obtain ⟨digits, hne, hnum⟩ := text
    cases digits with
    | nil => exact absurd rfl hne
    | cons c digits =>
      have hc : isNumeral c = true := hnum c mem_cons_self
      simp [write, kindOf, hc, Tree.kind]

lemma kind_eq_of_write {s t : Tree Numeral String} {x y : List Char} (h : write s x = write t y) : s.kind = t.kind := by
  have hkind := kind_write s x
  rw [h, kind_write t y] at hkind
  exact (Option.some.inj hkind).symm

/-- No value begins as an array ends. -/
lemma write_ne_bracket (s : Tree Numeral String) (x y : List Char) : write s x ≠ ']' :: y := by
  intro h
  have hkind := kind_write s x
  rw [h] at hkind
  cases hkind

lemma numeral_inj {n m : Numeral} {x y : List Char} (h : n.digits ++ x = m.digits ++ y)
    (hx : Delimits x) (hy : Delimits y) : n = m ∧ x = y := by
  have htake : ∀ (k : Numeral) (z : List Char), Delimits z → (k.digits ++ z).takeWhile isNumeral = k.digits := by
    intro k z hz
    rw [takeWhile_append_of_pos (fun c hc => k.numeral c hc)]
    cases z with
    | nil => simp
    | cons c z => simp [hz c rfl]
  have hdig : n.digits = m.digits := by rw [← htake n x hx, h, htake m y hy]
  rw [hdig] at h
  refine ⟨?_, append_cancel_left h⟩
  cases n
  cases m
  simpa using hdig

mutual
lemma write_inj : ∀ (s t : Tree Numeral String) {x y : List Char}, write s x = write t y → Delimits x → Delimits y →
    s = t ∧ x = y
  | .null, t, x, y, h, hx, hy => by
    cases t with
    | null => exact ⟨rfl, append_cancel_left h⟩
    | _ => cases kind_eq_of_write h
  | .boolean b, t, x, y, h, hx, hy => by
    cases t with
    | boolean value =>
      cases kind_eq_of_write h
      cases b <;> exact ⟨rfl, append_cancel_left h⟩
    | _ => cases kind_eq_of_write h
  | .number n, t, x, y, h, hx, hy => by
    cases t with
    | number m =>
      obtain ⟨rfl, hrest⟩ := numeral_inj h hx hy
      exact ⟨rfl, hrest⟩
    | _ => cases kind_eq_of_write h
  | .string value, t, x, y, h, hx, hy => by
    cases t with
    | string other =>
      obtain ⟨rfl, hrest⟩ := quoted_inj h
      exact ⟨rfl, hrest⟩
    | _ => cases kind_eq_of_write h
  | .array [], t, x, y, h, hx, hy => by
    cases t with
    | array items =>
      cases items with
      | nil => exact ⟨rfl, (cons.inj (cons.inj h).2).2⟩
      | cons item items => exact absurd (cons.inj h).2.symm (write_ne_bracket _ _ _)
    | _ => cases kind_eq_of_write h
  | .array (item :: items), t, x, y, h, hx, hy => by
    cases t with
    | array others =>
      cases others with
      | nil => exact absurd (cons.inj h).2 (write_ne_bracket _ _ _)
      | cons other others =>
        obtain ⟨rfl, hmore⟩ := write_inj item other (cons.inj h).2 (delimits_moreItems _ _) (delimits_moreItems _ _)
        obtain ⟨rfl, hrest⟩ := moreItems_inj items others hmore
        exact ⟨rfl, hrest⟩
    | _ => cases kind_eq_of_write h
  | .record [], t, x, y, h, hx, hy => by
    cases t with
    | record fields =>
      cases fields with
      | nil => exact ⟨rfl, (cons.inj (cons.inj h).2).2⟩
      | cons e fields => exact absurd (cons.inj (cons.inj h).2).1 (by decide)
    | _ => cases kind_eq_of_write h
  | .record ((key, value) :: fields), t, x, y, h, hx, hy => by
    cases t with
    | record others =>
      cases others with
      | nil => exact absurd (cons.inj (cons.inj h).2).1 (by decide)
      | cons e others =>
        obtain ⟨rfl, hvalue⟩ := quoted_inj (cons.inj h).2
        obtain ⟨hsame, hmore⟩ := write_inj value e.2 (cons.inj hvalue).2 (delimits_moreFields _ _)
          (delimits_moreFields _ _)
        obtain ⟨rfl, hrest⟩ := moreFields_inj fields others hmore
        subst hsame
        exact ⟨rfl, hrest⟩
    | _ => cases kind_eq_of_write h

lemma moreItems_inj : ∀ (items others : List (Tree Numeral String)) {x y : List Char},
    moreItems items x = moreItems others y → items = others ∧ x = y
  | [], [], _, _, h => ⟨rfl, (List.cons.inj h).2⟩
  | [], _ :: _, _, _, h => absurd (List.cons.inj h).1 (by decide)
  | _ :: _, [], _, _, h => absurd (List.cons.inj h).1 (by decide)
  | item :: items, other :: others, _, _, h => by
    obtain ⟨rfl, hmore⟩ := write_inj item other (cons.inj h).2 (delimits_moreItems _ _) (delimits_moreItems _ _)
    obtain ⟨rfl, hrest⟩ := moreItems_inj items others hmore
    exact ⟨rfl, hrest⟩

lemma moreFields_inj : ∀ (fields others : List (String × Tree Numeral String)) {x y : List Char},
    moreFields fields x = moreFields others y → fields = others ∧ x = y
  | [], [], _, _, h => ⟨rfl, (List.cons.inj h).2⟩
  | [], _ :: _, _, _, h => absurd (List.cons.inj h).1 (by decide)
  | _ :: _, [], _, _, h => absurd (List.cons.inj h).1 (by decide)
  | (key, value) :: fields, (other, value') :: others, _, _, h => by
    obtain ⟨rfl, hvalue⟩ := quoted_inj (cons.inj h).2
    obtain ⟨rfl, hmore⟩ := write_inj value value' (cons.inj hvalue).2 (delimits_moreFields _ _)
      (delimits_moreFields _ _)
    obtain ⟨rfl, hrest⟩ := moreFields_inj fields others hmore
    exact ⟨rfl, hrest⟩
end

section Same
variable {v w : Json} {x y : Option Json} {fields others : Fields} {items : List Json}

/-- Two values have one text just when they have one normal form. -/
lemma stableText_eq_iff : stableText v = stableText w ↔ normal v = normal w := by
  constructor
  · intro h
    rw [stableText, stableText, String.ofList_inj] at h
    exact (write_inj _ _ h delimits_nil delimits_nil).1
  · intro h
    rw [stableText, stableText, h]

lemma stableJson_eq_iff : stableJson x = stableJson y ↔ x.map normal = y.map normal := by
  cases x <;> cases y <;> simp [stableJson, stableText_eq_iff]

@[simp] lemma stableJson_none : stableJson none = none := rfl

@[simp] lemma stableJson_eq_none : stableJson x = none ↔ x = none := Option.map_eq_none_iff

lemma normal_record (fields : Fields) (k : String) :
    valueAt (normalFields fields) k = (valueAt fields k).map normal := by
  rw [normalFields_eq_map, valueAt_map]

/-- Two records have one text just when each key has one text in both. -/
lemma stableText_record_iff : stableText (.record fields) = stableText (.record others) ↔
      ∀ k, stableJson (valueAt fields k) = stableJson (valueAt others k) := by
  rw [stableText_eq_iff, normal, normal, Tree.record.injEq, inKeyOrder_eq_iff]
  simp [normal_record, stableJson_eq_iff]

lemma eq_string_of_stable {value : String} (h : stableText v = stableText (.string value)) : v = .string value := by
  rw [stableText_eq_iff] at h
  cases v with
  | string other => simpa [normal] using h
  | number n => cases n <;> cases h
  | _ => cases h

lemma eq_number_of_stable {text : Numeral} (h : stableText v = stableText (.number (.finite text))) :
    v = .number (.finite text) := by
  rw [stableText_eq_iff] at h
  cases v with
  | number n =>
    cases n with
    | finite other => simpa [normal] using h
    | infinite negative => cases h
  | _ => cases h

lemma exists_record_of_stable (h : stableText v = stableText (.record others)) :
    ∃ fields, v = .record fields ∧ ∀ k, stableJson (valueAt fields k) = stableJson (valueAt others k) := by
  have hnorm := stableText_eq_iff.mp h
  cases v with
  | record fields => exact ⟨fields, rfl, stableText_record_iff.mp h⟩
  | number n => cases n <;> cases hnorm
  | _ => cases hnorm

lemma exists_array_of_stable (h : stableText v = stableText (.array items)) :
    ∃ read, v = .array read ∧ read.map stableText = items.map stableText := by
  have hnorm := stableText_eq_iff.mp h
  cases v with
  | array read =>
    refine ⟨read, rfl, ?_⟩
    rw [normal, normal, Tree.array.injEq, normalItems_eq_map, normalItems_eq_map] at hnorm
    have htexts := congrArg (map fun t => String.ofList (write t [])) hnorm
    rwa [map_map, map_map] at htexts
  | number n => cases n <;> cases hnorm
  | _ => cases hnorm

end Same

/-- The key under which an object is asked for its prototype, unless it has a property of that name. -/
def protoKey : String := "__proto__"

/-- `record[key]`: an object without its own property of that name has the prototype of all objects under
`__proto__`, which has no properties to list. The other names that an object inherits are those of
functions, which have no text. -/
def propertyOf (record : Fields) (key : String) : Option Json :=
  (valueAt record key).or (if key = protoKey then some (.record []) else none)

lemma propertyOf_of_ne (h : key ≠ protoKey) (record : Fields) : propertyOf record key = valueAt record key := by
  simp [propertyOf, h]

section Collect
variable {ε α : Type} {keep : String → Bool} {keys : List String} {f : String → Except ε (Option α)}
  {entries : List (String × α)} {k : String}

/-- A loop that sets the value of each key where it has one and the key can be kept, up to the first
error. -/
def collect (keep : String → Bool) : List String → (String → Except ε (Option α)) → Except ε (List (String × α))
  | [], _ => pure []
  | key :: keys, f => do
    let value ← f key
    let rest ← collect keep keys f
    pure (pick (if keep key then [key] else []) (fun _ => value) ++ rest)

/-- The loop that assigns `record[key]` on an object: under `__proto__` the assignment is to the prototype
and leaves no property, and an undefined value is left out where the object is written. -/
def assignEach : List String → (String → Except ε (Option Json)) → Except ε Fields :=
  collect fun key => key ≠ protoKey

lemma collect_cons_ok (h : collect keep (key :: keys) f = .ok entries) :
    ∃ value rest, f key = .ok value ∧ collect keep keys f = .ok rest ∧
      entries = pick (if keep key then [key] else []) (fun _ => value) ++ rest := by
  obtain ⟨value, hvalue, h⟩ := bind_eq_ok.mp h
  obtain ⟨rest, hrest, h⟩ := bind_eq_ok.mp h
  cases h
  exact ⟨value, rest, hvalue, hrest, rfl⟩

section
variable (h : collect keep keys f = .ok entries)
include h

lemma exists_of_collect (hk : k ∈ keys) : ∃ value, f k = .ok value := by
  induction keys generalizing entries with
  | nil => cases hk
  | cons key keys ih =>
    obtain ⟨value, rest, hvalue, hrest, -⟩ := collect_cons_ok h
    rcases mem_cons.mp hk with rfl | hk
    · exact ⟨value, hvalue⟩
    · exact ih hrest hk

lemma valueAt_collect : valueAt entries k = if k ∈ keys ∧ keep k then (f k).toOption.join else none := by
  induction keys generalizing entries with
  | nil =>
    cases h
    simp [valueAt]
  | cons key keys ih =>
    obtain ⟨value, rest, hvalue, hrest, rfl⟩ := collect_cons_ok h
    rw [valueAt_append, valueAt_pick, ih hrest]
    by_cases hkey : k = key
    · subst hkey
      cases hkeep : keep k
      · simp
      simp only [if_true, and_true, mem_cons, true_or, hvalue, Except.toOption, Option.join_some]
      cases value <;> simp
    · have hpick : k ∉ if keep key = true then [key] else [] := by
        split <;> simp [hkey]
      simp [hkey, hpick]

lemma valueAt_collect_of_mem {value : Option α} (hk : k ∈ keys)
    (hkeep : keep k) (hvalue : f k = .ok value) : valueAt entries k = value := by
  rw [valueAt_collect h, if_pos ⟨hk, hkeep⟩, hvalue]
  rfl

end

lemma exists_collect (keep : String → Bool) (h : ∀ k ∈ keys, ∃ value, f k = .ok value) :
    ∃ entries, collect keep keys f = .ok entries := by
  induction keys with
  | nil => exact ⟨[], rfl⟩
  | cons key keys ih =>
    obtain ⟨value, hvalue⟩ := h key mem_cons_self
    obtain ⟨rest, hrest⟩ := ih fun k hk => h k (mem_cons_of_mem _ hk)
    refine ⟨pick (if keep key then [key] else []) (fun _ => value) ++ rest, ?_⟩
    rw [collect, hvalue, hrest]
    rfl

/-- The keys of what is set, each once, in the order of the loop. -/
lemma keys_collect_sublist (h : collect keep keys f = .ok entries) : (entries.map Prod.fst).Sublist keys := by
  induction keys generalizing entries with
  | nil =>
    cases h
    exact List.Sublist.slnil
  | cons key keys ih =>
    obtain ⟨value, rest, -, hrest, rfl⟩ := collect_cons_ok h
    rw [map_append]
    have hhead : ((pick (if keep key then [key] else []) fun _ => value).map Prod.fst).Sublist [key] := by
      cases keep key <;> cases value <;> simp [pick]
    exact hhead.append (ih hrest)

end Collect

mutual
/-- `canonicalizeForJson(value)` and `canonicalizeForYaml(value)` -/
def canonicalize : Json → Json
  | .array items => .array (canonicalizeItems items)
  | .record fields => .record ((inKeyOrder (canonicalizeFields fields)).filter fun e => e.1 ≠ protoKey)
  | v => v

def canonicalizeItems : List Json → List Json
  | [] => []
  | item :: items => canonicalize item :: canonicalizeItems items

def canonicalizeFields : Fields → Fields
  | [] => []
  | (key, value) :: fields => (key, canonicalize value) :: canonicalizeFields fields
end

lemma canonicalizeItems_eq_map (items : List Json) : canonicalizeItems items = items.map canonicalize := by
  induction items with
  | nil => rfl
  | cons item items ih => rw [canonicalizeItems, ih, map_cons]

lemma canonicalizeFields_eq_map (fields : Fields) :
    canonicalizeFields fields = fields.map fun e => (e.1, canonicalize e.2) := by
  induction fields with
  | nil => rfl
  | cons e fields ih => rw [canonicalizeFields, ih, map_cons]

lemma valueAt_filter (fields : Fields) (k : String) :
    valueAt (fields.filter fun e => e.1 ≠ protoKey) k = if k = protoKey then none else valueAt fields k := by
  rw [valueAt, find?_filter]
  split
  · rename_i hkey
    subst hkey
    simp
  rename_i hkey
  congr 2
  funext e
  by_cases he : e.1 = k
  · simp [he, hkey]
  · simp [he]

/-- No record in the value has a property `__proto__`. -/
inductive ProtoFree : Json → Prop where
  | null : ProtoFree .null
  | boolean (value : Bool) : ProtoFree (.boolean value)
  | number (value : Number) : ProtoFree (.number value)
  | string (value : String) : ProtoFree (.string value)
  | array {items : List Json} (h : ∀ v ∈ items, ProtoFree v) : ProtoFree (.array items)
  | record {fields : Fields} (hkey : valueAt fields protoKey = none)
      (h : ∀ k v, valueAt fields k = some v → ProtoFree v) : ProtoFree (.record fields)

lemma ProtoFree.of_mem {fields : Fields} (hkey : protoKey ∉ fields.map Prod.fst)
    (h : ∀ e ∈ fields, ProtoFree e.2) : ProtoFree (.record fields) :=
  .record (valueAt_eq_none.mpr hkey) fun _ _ hv => h _ (mem_of_valueAt hv)

/-- A canonical value is the same value just when nothing in it was kept under `__proto__`. -/
lemma stableText_canonicalize_iff (v : Json) : stableText (canonicalize v) = stableText v ↔ ProtoFree v := by
  induction v using Tree.ofParts with
  | null => exact iff_of_true rfl .null
  | boolean value => exact iff_of_true rfl (.boolean value)
  | number value => exact iff_of_true rfl (.number value)
  | string value => exact iff_of_true rfl (.string value)
  | array items ih =>
    rw [canonicalize, canonicalizeItems_eq_map, stableText_eq_iff, normal, normal, Tree.array.injEq,
      normalItems_eq_map, normalItems_eq_map, map_map]
    constructor
    · intro h
      apply ProtoFree.array
      intro v hv
      apply (ih v hv).mp
      exact stableText_eq_iff.mpr (map_inj_left.mp h v hv)
    · intro h
      cases h with
      | array h =>
        apply map_congr_left
        intro v hv
        exact stableText_eq_iff.mp ((ih v hv).mpr (h v hv))
  | record fields ih =>
    rw [canonicalize, stableText_record_iff]
    simp only [valueAt_filter, valueAt_inKeyOrder, canonicalizeFields_eq_map, valueAt_map]
    constructor
    · intro h
      apply ProtoFree.record
      · simpa [eq_comm] using h protoKey
      intro k v hv
      have hk : k ≠ protoKey := by
        rintro rfl
        have hnone := h protoKey
        rw [if_pos rfl, hv] at hnone
        cases hnone
      have hvalue := h k
      rw [if_neg hk, hv] at hvalue
      exact (ih _ (mem_of_valueAt hv)).mp (Option.some.inj hvalue)
    · intro h k
      cases h with
      | record hkey hvals =>
        by_cases hk : k = protoKey
        · subst hk
          rw [if_pos rfl, hkey]
        rw [if_neg hk]
        cases hv : valueAt fields k with
        | none => rfl
        | some v => exact congrArg some ((ih _ (mem_of_valueAt hv)).mpr (hvals k v hv))

/-- Whether a value has a property `__proto__` shows in its text. -/
lemma ProtoFree.of_stable {v w : Json} (h : ProtoFree v) (hsame : stableText w = stableText v) : ProtoFree w := by
  induction h generalizing w with
  | null =>
    have hnorm := stableText_eq_iff.mp hsame
    cases w with
    | null => exact .null
    | number value => exact .number value
    | _ => cases hnorm
  | boolean value =>
    have hnorm := stableText_eq_iff.mp hsame
    cases w with
    | boolean other => exact .boolean other
    | number value => exact .number value
    | _ => cases hnorm
  | number value =>
    have hnorm := stableText_eq_iff.mp hsame
    cases w with
    | null => exact .null
    | number other => exact .number other
    | _ => cases value <;> cases hnorm
  | string value =>
    rw [eq_string_of_stable hsame]
    exact .string value
  | @array items h ih =>
    obtain ⟨read, rfl, htexts⟩ := exists_array_of_stable hsame
    apply ProtoFree.array
    intro w hw
    have htext : stableText w ∈ items.map stableText := by
      rw [← htexts]
      exact mem_map_of_mem hw
    obtain ⟨v, hv, hvw⟩ := mem_map.mp htext
    exact ih v hv hvw.symm
  | @record fields hkey h ih =>
    obtain ⟨others, rfl, hvals⟩ := exists_record_of_stable hsame
    apply ProtoFree.record
    · have hnone := hvals protoKey
      rw [hkey, stableJson_none, stableJson_eq_none] at hnone
      exact hnone
    intro k w hw
    have hvalue := hvals k
    rw [hw] at hvalue
    cases hv : valueAt fields k with
    | none =>
      rw [hv] at hvalue
      cases hvalue
    | some v =>
      rw [hv] at hvalue
      exact ih k v hv (Option.some.inj hvalue)

end JsonTrees
