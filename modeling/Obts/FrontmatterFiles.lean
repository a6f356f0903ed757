import Mathlib.Algebra.GroupWithZero.Nat
import Obts.IsoTimestamps
import Obts.JsonRecords
import Obts.SlashPath
import Obts.SpanSplices

/-!
# Frontmatter of Markdown notes

The configured fields of a note: where their values stand and which instants they are. Texts are lists of
UTF-16 code units, as the offsets of JavaScript count them. The YAML parser is a parameter; of its answer only
what the reader looks at is kept.
-/
namespace FrontmatterFiles

open InsertionOrder JsonRecords SpanSplices List Option

abbrev Text := List Nat

def units (text : String) : Text := text.toList.flatMap SlashPath.utf16

inductive ConflictStrategy where
  | latestTimestamp
  deriving DecidableEq

structure MetadataConflictRule where
  field : Text
  strategy : ConflictStrategy
  deriving DecidableEq

def isFieldUnit (c : Nat) : Bool :=
  (65 ≤ c && c ≤ 90) || (97 ≤ c && c ≤ 122) || (48 ≤ c && c ≤ 57) || c = 95 || c = 45

/-- The `FIELD_NAME` of a rule. -/
def isFieldName (field : Text) : Bool := field ≠ [] && field.all isFieldUnit

def isLatestTimestamp : Option Json → Bool
  | some (.string strategy) => strategy = "latest_timestamp"
  | _ => false

/-- One rule, with the fields of those before it. -/
def validateRule (fields : List Text) : Json → Except String MetadataConflictRule
  | .record entries =>
    match valueAt entries "field" with
    | some (.string name) =>
      let field := units name
      if !isFieldName field || field.length > 128 then .error "Metadata conflict fields must be top-level YAML keys."
      else if !isLatestTimestamp (valueAt entries "strategy") then
        .error "The supported metadata conflict strategy is latest_timestamp."
      else if fields.contains field then .error
        ("Metadata conflict field " ++ name ++ " is configured more than once.")
      else .ok ⟨field, .latestTimestamp⟩
    | _ => .error "Metadata conflict fields must be top-level YAML keys."
  | _ => .error "Metadata conflict rules must be objects."

def validateRules (fields : List Text) : List Json → Except String (List MetadataConflictRule)
  | [] => .ok []
  | item :: items => do
    let rule ← validateRule fields item
    let rules ← validateRules (fields ++ [rule.field]) items
    pure (rule :: rules)

def validateMetadataConflictRules : Json → Except String (List MetadataConflictRule)
  | .array items =>
    if items.length > 64 then .error "Configure at most 64 metadata conflict rules." else validateRules [] items
  | _ => .error "Configure at most 64 metadata conflict rules."

structure TimestampInstant where
  seconds : Int
  nanos : Nat

def isDigit (c : Nat) : Bool := 48 ≤ c && c ≤ 57

def numberOf (digits : Text) : Nat := digits.foldl (fun number c => 10 * number + (c - 48)) 0

/-- A number of so many digits, and the rest of the text. -/
def readNumber (count : Nat) (text : Text) : Option (Nat × Text) :=
  let digits := text.take count
  if digits.length = count && digits.all isDigit then some (numberOf digits, text.drop count) else none

def readUnit (c : Nat) : Text → Option Text
  | first :: rest => if first = c then some rest else none
  | [] => none

/-- The digits behind a dot, when there is one, and the rest of the text. -/
def readFraction : Text → Option (Text × Text)
  | 46 :: text =>
    let digits := text.takeWhile isDigit
    if 1 ≤ digits.length && digits.length ≤ 9 then some (digits, text.drop digits.length) else none
  | text => some ([], text)

/-- The offset of a zone, in seconds; `-00:00` is none. -/
def readZone : Text → Option Int
  | [90] => some 0
  | sign :: text => do
    let (hours, text) ← readNumber 2 text
    let text ← readUnit 58 text
    let (minutes, text) ← readNumber 2 text
    if text ≠ [] || !([43, 45].contains sign) || hours > 23 || minutes > 59 then none
    else if sign = 45 && hours = 0 && minutes = 0 then none
    else some ((if sign = 43 then 1 else -1) * (hours * 3600 + minutes * 60 : Nat))
  | [] => none

def daysInMonth (year month : Nat) : Nat :=
  if month = 2 then if IsoTimestamps.leap year then 29 else 28
  else if [4, 6, 9, 11].contains month then 30
  else 31

/-- The days from the first of the year 0 to the first of a year. -/
def daysBeforeYear (year : Nat) : Nat := 365 * year + (year + 3) / 4 + (year + 399) / 400 - (year + 99) / 100

def daysBeforeMonth (year month : Nat) : Nat := ((List.range' 1 (month - 1)).map (daysInMonth year)).sum

/-- The days from 1 January 1970. -/
def dayNumber (year month day : Nat) : Int :=
  (daysBeforeYear year + daysBeforeMonth year month + (day - 1) : Nat) - daysBeforeYear 1970

def parseTimestamp (value : Text) : Option TimestampInstant := do
  let (year, rest) ← readNumber 4 value
  let rest ← readUnit 45 rest
  let (month, rest) ← readNumber 2 rest
  let rest ← readUnit 45 rest
  let (day, rest) ← readNumber 2 rest
  let rest ← readUnit 84 rest
  let (hour, rest) ← readNumber 2 rest
  let rest ← readUnit 58 rest
  let (minute, rest) ← readNumber 2 rest
  let rest ← readUnit 58 rest
  let (second, rest) ← readNumber 2 rest
  let (fraction, rest) ← readFraction rest
  let offset ← readZone rest
  if month < 1 || month > 12 || day < 1 || hour > 23 || minute > 59 || second > 59 then none
  -- a day that the month does not have would roll over into another month
  else if day > daysInMonth year month then none
  else some ⟨dayNumber year month day * 86400 + (hour * 3600 + minute * 60 + second : Nat) - offset,
    numberOf (fraction ++ List.replicate (9 - fraction.length) 48)⟩

def compareTimestamp (left right : TimestampInstant) : Int :=
  if left.seconds ≠ right.seconds then if left.seconds > right.seconds then 1 else -1
  else if left.nanos = right.nanos then 0
  else if left.nanos > right.nanos then 1
  else -1

def isBlank (c : Nat) : Bool := c = 32 || c = 9

def isLineTerminator (c : Nat) : Bool := [10, 13, 0x2028, 0x2029].contains c

/-- The length of the line break a text starts with. -/
def newlineLength : Text → Option Nat
  | 13 :: 10 :: _ => some 2
  | 13 :: _ => some 1
  | 10 :: _ => some 1
  | _ => none

variable (source : Text)

/-- The length of the opening delimiter. -/
def openingLength : Option Nat :=
  if [45, 45, 45].isPrefixOf source then
    let blanks := (source.drop 3).takeWhile isBlank
    (newlineLength (source.drop (3 + blanks.length))).map (3 + blanks.length + ·)
  else none

/-- The length of a closing delimiter behind its line break, to the end of its line. -/
def markerLength (text : Text) : Option Nat :=
  if [45, 45, 45].isPrefixOf text || [46, 46, 46].isPrefixOf text then
    let blanks := (text.drop 3).takeWhile isBlank
    let rest := text.drop (3 + blanks.length)
    match newlineLength rest with
    | some length => some (3 + blanks.length + length)
    | none => if rest = [] || rest.head?.any isLineTerminator then some (3 + blanks.length) else none
  else none

/-- The length of a closing delimiter with the line break before it, unless it is at the start of a line. -/
def closingLength (index : Nat) : Option Nat :=
  let rest := source.drop index
  let atStart := if index = 0 || (source[index - 1]?).any isLineTerminator then markerLength rest else none
  atStart.orElse fun _ => do
    let lead ← newlineLength rest
    let length ← markerLength (rest.drop lead)
    some (lead + length)

/-- Where the first closing delimiter from an index on starts, and its length. -/
def findClosing (lastIndex : Nat) : Option (Nat × Nat) :=
  (List.range' lastIndex (source.length + 1 - lastIndex)).findSome? fun index =>
    (closingLength source index).map fun length => (index, length)

/-- A node of a document, an item of a mapping being a pair. Of tags and anchors only their presence is kept, of
the value of a scalar that it is a string. -/
inductive YamlNode where
  | null
  | alias
  | scalar (tagged anchored : Bool) (value : Option Text) (range : Option Span)
  | collection (isMap tagged anchored : Bool) (items : List YamlNode)
  | pair (key value : YamlNode)

structure YamlDocument where
  (errors warnings : Nat)
  contents : YamlNode

mutual

def hasUnsupportedYamlNode : YamlNode → Bool
  | .null => false
  | .alias => true
  | .scalar tagged anchored _ _ => anchored || tagged
  | .collection _ tagged anchored items => anchored || tagged || hasUnsupportedItem items
  | .pair key value => hasUnsupportedYamlNode key || hasUnsupportedYamlNode value

def hasUnsupportedItem : List YamlNode → Bool
  | [] => false
  -- A scalar has a `value`: it is taken for a pair, and its own tag and anchor are not looked at.
  | .scalar _ _ _ _ :: items => hasUnsupportedItem items
  | item :: items => hasUnsupportedYamlNode item || hasUnsupportedItem items

end

/-- The pairs of a document that is a mapping without errors. -/
def YamlDocument.items (document : YamlDocument) : Option (List YamlNode) :=
  match document.contents with
  | .collection true tagged anchored items =>
    if document.errors > 0 || document.warnings > 0 ||
        hasUnsupportedYamlNode (.collection true tagged anchored items) then none
    else some items
  | _ => none

structure FieldSpan extends Span where
  raw : Text
  instant : TimestampInstant

structure Frontmatter where
  body : Text
  fields : List (Text × FieldSpan)

/-- The step of the loop over the pairs. -/
def readPair (rules : List MetadataConflictRule) (yamlText : Text) (yamlStart : Nat)
    (pairs : List (Text × FieldSpan)) :
    YamlNode → Option (List (Text × FieldSpan))
  | .pair (.scalar _ _ (some key) _) value =>
    if (valueAt pairs key).isSome then none
    else if rules.any fun rule => rule.field = key then
      match value with
      | .scalar false false (some text) (some range) => do
        let instant ← parseTimestamp text
        some (set pairs key ⟨⟨yamlStart + range.start, yamlStart + range.stop⟩,
          slice yamlText range.start range.stop, instant⟩)
      | _ => none
    else some pairs
  | _ => some pairs

/-- The step of the loop over the rules. -/
def readField (pairs fields : List (Text × FieldSpan)) (rule : MetadataConflictRule) :
    Option (List (Text × FieldSpan)) :=
  (valueAt pairs rule.field).map (set fields rule.field)

variable (parseDocument : Text → YamlDocument)

def parseMarkdownFrontmatter (source : Text) (rules : List MetadataConflictRule) : Option Frontmatter := do
  let yamlStart ← openingLength source
  let closing ← findClosing source yamlStart
  let delimiterStart := closing.1 + (newlineLength (source.drop closing.1)).getD 0
  let yamlText := slice source yamlStart delimiterStart
  let items ← (parseDocument yamlText).items
  let pairs ← items.foldlM (readPair rules yamlText yamlStart) []
  let fields ← rules.foldlM (readField pairs) []
  some ⟨source.drop (closing.1 + closing.2), fields⟩

/-- The value of a key of a document is a string that stands in a span of the text. -/
def ValueStands (text key : Text) (span : Span) : Prop :=
  ∃ items tagged anchored keyRange value, (parseDocument text).items = some items ∧
    .pair (.scalar tagged anchored (some key) keyRange) (.scalar false false (some value) (some span)) ∈ items

/-- What the reader relies on of the YAML parser: a string stands in a span of its own, and a key is read from the
text before its value. -/
structure ReadsValues (parseDocument : Text → YamlDocument) : Prop where
  inside : ∀ text key span, ValueStands parseDocument text key span → span.start < span.stop ∧ span.stop ≤ text.length
  apart : ∀ text key other span otherSpan, ValueStands parseDocument text key span →
    ValueStands parseDocument text other otherSpan → key ≠ other →
      span.stop ≤ otherSpan.start ∨ otherSpan.stop ≤ span.start
  keysFirst : ∀ (text text' : Text) (keys keys' : List Text) (spans spans' : Text → Span),
    (∀ key ∈ keys, ValueStands parseDocument text key (spans key)) →
    (∀ key ∈ keys', ValueStands parseDocument text' key (spans' key)) →
    Ascending text.length 0 (keys.map spans) → Ascending text'.length 0 (keys'.map spans') →
    gapsBefore text 0 (keys.map spans) = gapsBefore text' 0 (keys'.map spans') → keys = keys'

section Reading
variable {source yamlText key : Text} {rules : List MetadataConflictRule}
  {yamlStart : Nat} {pairs fields : List (Text × FieldSpan)} {items : List YamlNode} {span : FieldSpan}

/-- A field as it was read from the pairs of a document. -/
def ReadFrom (items : List YamlNode) (yamlText : Text) (yamlStart : Nat) (key : Text) (span : FieldSpan) : Prop :=
  ∃ tagged anchored keyRange value, ∃ range : Span,
    .pair (.scalar tagged anchored (some key) keyRange) (.scalar false false (some value) (some range)) ∈ items ∧
      parseTimestamp value = some span.instant ∧ span.start = yamlStart + range.start ∧
      span.stop = yamlStart + range.stop ∧ span.raw = slice yamlText range.start range.stop

lemma readPair_spec {item : YamlNode} (h : readPair rules yamlText yamlStart pairs item = some fields)
    (hvalue : valueAt fields key = some span) :
    valueAt pairs key = some span ∨ ReadFrom [item] yamlText yamlStart key span := by
  rw [readPair.eq_def] at h
  split at h
  · rename_i tagged anchored name keyRange value
    split at h
    · cases h
    split at h
    · split at h
      · rename_i text range
        obtain ⟨instant, hinst, hset⟩ := bind_eq_some_iff.mp h
        cases hset
        rcases valueAt_set_cases hvalue with ⟨rfl, rfl⟩ | ⟨-, hold⟩
        · exact .inr ⟨tagged, anchored, keyRange, text, range, mem_singleton_self _, hinst, rfl, rfl, rfl⟩
        · exact .inl hold
      · cases h
    · cases h
      exact .inl hvalue
  · cases h
    exact .inl hvalue

lemma ReadFrom.mono {others : List YamlNode} (h : ReadFrom items yamlText yamlStart key span)
    (hsub : ∀ item ∈ items, item ∈ others) : ReadFrom others yamlText yamlStart key span := by
  obtain ⟨tagged, anchored, keyRange, value, range, hin, hrest⟩ := h
  exact ⟨tagged, anchored, keyRange, value, range, hsub _ hin, hrest⟩

lemma readPairs_spec (h : items.foldlM (readPair rules yamlText yamlStart) pairs = some fields)
    (hvalue : valueAt fields key = some span) :
    valueAt pairs key = some span ∨ ReadFrom items yamlText yamlStart key span := by
  induction items generalizing pairs with
  | nil =>
    cases h
    exact .inl hvalue
  | cons item items ih =>
    obtain ⟨next, hnext, hrest⟩ := bind_eq_some_iff.mp h
    rcases ih hrest with hread | hread
    · refine (readPair_spec hnext hread).imp_right fun hread => hread.mono fun other hother => ?_
      exact mem_singleton.mp hother ▸ mem_cons_self
    · exact .inr (hread.mono fun other hother => mem_cons_of_mem item hother)

/-- The fields are the pairs of the rules. -/
lemma readFields_spec (h : rules.foldlM (readField pairs) [] = some fields) :
    (∀ rule ∈ rules, ∃ span, valueAt fields rule.field = some span) ∧
      ∀ key span, valueAt fields key = some span → valueAt pairs key = some span := by
  have hrun : ∀ (rules : List MetadataConflictRule) (old : List (Text × FieldSpan)),
      rules.foldlM (readField pairs) old = some fields →
      (∀ key span, valueAt old key = some span → valueAt pairs key = some span) →
      (∀ key, (valueAt old key).isSome → (valueAt fields key).isSome) ∧
      (∀ rule ∈ rules, (valueAt fields rule.field).isSome) ∧
        ∀ key span, valueAt fields key = some span → valueAt pairs key = some span := by
    intro rules
    induction rules with
    | nil =>
      intro old hold hpairs
      cases hold
      exact ⟨fun _ hsome => hsome, forall_mem_nil _, hpairs⟩
    | cons rule rules ih =>
      intro old hold hpairs
      obtain ⟨next, hnext, hrest⟩ := bind_eq_some_iff.mp hold
      obtain ⟨span, hspan, rfl⟩ := map_eq_some_iff.mp hnext
      have hset : ∀ key found, valueAt (set old rule.field span) key = some found →
          valueAt pairs key = some found := by
        intro key found hfound
        rcases valueAt_set_cases hfound with ⟨rfl, rfl⟩ | ⟨-, hold⟩
        · exact hspan
        · exact hpairs key found hold
      obtain ⟨hkept, hread, hfrom⟩ := ih _ hrest hset
      refine ⟨?_, ?_, hfrom⟩
      · intro key hsome
        apply hkept
        by_cases hkey : key = rule.field
        · rw [hkey, valueAt_set_self]
          rfl
        · rw [valueAt_set_of_ne _ _ hkey]
          exact hsome
      · rw [forall_mem_cons]
        refine ⟨hkept _ ?_, hread⟩
        rw [valueAt_set_self]
        rfl
  obtain ⟨-, hread, hfrom⟩ := hrun rules [] h fun key span hnone => nomatch hnone
  exact ⟨fun rule hrule => isSome_iff_exists.mp (hread rule hrule), hfrom⟩

lemma newlineLength_le (text : Text) : (newlineLength text).getD 0 ≤ text.length := by
  rw [newlineLength.eq_def]
  split <;> simp

lemma findClosing_spec {lastIndex index length : Nat} (h : findClosing source lastIndex = some (index, length)) :
    lastIndex ≤ index ∧ index ≤ source.length := by
  obtain ⟨found, hfound, hvalue⟩ := exists_of_findSome?_eq_some h
  obtain ⟨length, -, hpair⟩ := map_eq_some_iff.mp hvalue
  obtain ⟨rfl, -⟩ := Prod.mk.inj hpair
  rw [mem_range'_1] at hfound
  omega

end Reading

end FrontmatterFiles
