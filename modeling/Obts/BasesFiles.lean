import Obts.CanvasMerge

/-!
# The merge of Obsidian Bases files

`semanticMergeBasesFile` with all it calls. A Bases file is a mapping whose formulas, properties and summaries
are mappings and whose views are a sequence; it is merged field by field, entry by entry and view by view.
-/
namespace BasesFiles

open InsertionOrder JsonTrees CanvasFiles CanvasMerge

/-- `parse` and `stringify` of the YAML package, with its values as plain data. A text that is no YAML has no
value. -/
structure YamlText where
  parse : String → Option Json
  stringify : Json → String

/-- The text of a file ends in a line break. -/
def endLine (output : String) : String :=
  if ['\n'].isSuffixOf output.toList then output else output ++ "\n"

variable (yaml : YamlText)

/-- What is written as a file is read again as the same value. -/
def YamlText.RoundTrips : Prop :=
  ∀ fields, ∃ w, yaml.parse (endLine (yaml.stringify (.record fields))) = some w ∧
    stableText w = stableText (.record fields)

/-- A view under its key of type and name, in the order of the file. -/
structure ViewCollection where
  present : Bool
  views : Entries

def ViewCollection.order (views : ViewCollection) : List String := views.views.map Prod.fst

structure BasesDocument where
  root : Fields
  views : ViewCollection

def baseMapFields : List String := ["formulas", "properties", "summaries"]

def baseTopLevelOrder : List String := ["filters", "formulas", "properties", "summaries", "views"]

def restrictedConcurrentViewKeys : List String := ["type", "name", "filters", "order"]

def knownViewKeys : List String :=
  ["type", "name", "filters", "order", "sort", "limit", "columns", "properties", "formulas", "summaries", "group",
    "groupBy", "image", "display"]

def readOptionalPlainMap (root : Fields) (field : String) : Except MergeError (Option Fields) :=
  match valueAt root field with
  | none => pure none
  | some (.record fields) => pure (some fields)
  | some _ => throw (.command s!"Obsidian Bases {field} must be a mapping.")

def assertPlainMaps (root : Fields) : List String → Except MergeError Unit
  | [] => pure ()
  | field :: fields => do
    let _ ← readOptionalPlainMap root field
    assertPlainMaps root fields

/-- The key of a view by its type and its name. -/
def viewKey (type name : String) : String := type ++ "\x00" ++ name

/-- The key of a view, after the keys of the views before it. -/
def readViewKey (keys : List String) (view : Fields) : Except MergeError String :=
  match valueAt view "type", valueAt view "name" with
  | some (.string type), some (.string name) =>
    if viewKey type name ∈ keys then
      throw (.command "Obsidian Bases views must not duplicate a type/name pair.")
    else pure (viewKey type name)
  | _, _ => throw (.command "Obsidian Bases views must have string type and name fields.")

def readViews : List Json → Except MergeError Entries :=
  readEntries "Obsidian Bases views must have string type and name fields." readViewKey []

def parseViews (root : Fields) : Except MergeError ViewCollection :=
  match valueAt root "views" with
  | none => pure ⟨false, []⟩
  | some (.array items) => do
    let views ← readViews items
    pure ⟨true, views⟩
  | some _ => throw (.command "Obsidian Bases views must be a sequence.")

/-- An empty file is an empty mapping. -/
def parseBasesDocument (file : String) : Except MergeError BasesDocument :=
  match yaml.parse file with
  | none => throw (.command "Obsidian Bases YAML could not be parsed.")
  | some .null => pure ⟨[], ⟨false, []⟩⟩
  | some (.record root) => do
    assertPlainMaps root baseMapFields
    let views ← parseViews root
    pure ⟨root, views⟩
  | some _ => throw (.command "Obsidian Bases YAML must be a mapping.")

def mergeNestedObject (label : String) (base current device : Fields) : Except MergeError Fields :=
  assignEach (sortedSet (allKeys base current device)) fun key => do
    let merged ← mergeAtomicField s!"{label}.{key}" (valueAt base key) (valueAt current key) (valueAt device key)
    pure (merged.map canonicalize)

def mergeMapEntry (label : String) (base current device : Option Json) : Except MergeError (Option Json) :=
  if stableJson current = stableJson base then pure device
  else if stableJson device = stableJson base then pure current
  else if stableJson current = stableJson device then pure current
  else
    match base, current, device with
    | none, _, _ => throw (.command s!"{label} concurrent additions require review.")
    | some (.record base), some (.record current), some (.record device) => do
      let merged ← mergeNestedObject label base current device
      pure (some (.record merged))
    | some _, some _, some _ => throw (.command s!"{label} concurrent edits require review.")
    | some _, _, _ => throw (.command s!"{label} delete-vs-edit requires review.")

def mergeNamedMapField (field : String) (base current device : Fields) : Except MergeError (Option Json) := do
  let baseMap ← readOptionalPlainMap base field
  let currentMap ← readOptionalPlainMap current field
  let deviceMap ← readOptionalPlainMap device field
  if baseMap.isNone && currentMap.isNone && deviceMap.isNone then pure none
  else
    let baseMap := baseMap.getD []
    let currentMap := currentMap.getD []
    let deviceMap := deviceMap.getD []
    let merged ← assignEach (sortedSet (allKeys baseMap currentMap deviceMap)) fun key => do
      let merged ← mergeMapEntry s!"Bases {field}.{key}" (valueAt baseMap key) (valueAt currentMap key)
        (valueAt deviceMap key)
      pure (merged.map canonicalize)
    pure (some (.record merged))

def changedFieldKeys (base side : Fields) : List String :=
  (ofList (keysOf base ++ keysOf side)).filter fun key =>
    stableJson (valueAt base key) ≠ stableJson (valueAt side key)

/-- The first separator of a view's key is shown as a slash. -/
def viewLabel (key : String) : String :=
  let type := key.toList.takeWhile fun c => c ≠ '\x00'
  let name := key.toList.dropWhile fun c => c ≠ '\x00'
  match name with
  | [] => key
  | _ :: name => String.ofList type ++ "/" ++ String.ofList name

def assertViewKeys (changed : List String) : Except MergeError Unit :=
  if changed.any fun key => !knownViewKeys.contains key then
    throw (.command "Obsidian Bases concurrent unknown view-key edits require review.")
  else
    match restrictedConcurrentViewKeys.find? fun key => key ∈ changed with
    | some key => throw (.command s!"Obsidian Bases same-view {key} edits require review.")
    | none => pure ()

def mergeViewObject (key : String) (base current device : Fields) : Except MergeError Fields := do
  let currentChanged := changedFieldKeys base current
  let deviceChanged := changedFieldKeys base device
  if !currentChanged.isEmpty && !deviceChanged.isEmpty then assertViewKeys (currentChanged ++ deviceChanged)
  mergeNestedObject s!"Obsidian Bases view {viewLabel key}" base current device

/-- A view that may be missing, by its text. -/
def viewText (view : Option Fields) : Option String := stableJson (view.map .record)

def mergeViewEntry (key : String) (base current device : Option Fields) : Except MergeError (Option Fields) :=
  if viewText current = viewText base then pure device
  else if viewText device = viewText base then pure current
  else if viewText current = viewText device then pure current
  else
    match base, current, device with
    | none, _, _ => throw (.command "Obsidian Bases concurrent view additions require review.")
    | some base, some current, some device => some <$> mergeViewObject key base current device
    | some _, _, _ => throw (.command "Obsidian Bases view delete-vs-edit requires review.")

def assertNoViewReorder (base side : ViewCollection) (label : String) : Except MergeError Unit :=
  if base.order.filter (fun key => key ∈ side.order) = side.order.filter fun key => key ∈ base.order then pure ()
  else throw (.command s!"Obsidian Bases {label} view reorder requires review.")

/-- The type and the name come first. -/
def canonicalizeView (view : Fields) : Fields :=
  canonicalFields view ["type", "name"] ++
    canonicalFields view (sortKeys ((keysOf view).filter fun key => key ≠ "type" && key ≠ "name"))

/-- The keys of the merged views: those of the base in their order, then the added ones. -/
def mergedViewKeys (base current device : ViewCollection) : List String :=
  base.order ++ sortedSet ((current.order ++ device.order).filter fun key => key ∉ base.order)

def mergeViews (base current device : ViewCollection) : Except MergeError (Option Entries) :=
  if !base.present && !current.present && !device.present then pure none
  else do
    assertNoViewReorder base current "current main"
    assertNoViewReorder base device "device commit"
    some <$> collect (fun _ => true) (mergedViewKeys base current device) fun key =>
      mergeViewEntry key (valueAt base.views key) (valueAt current.views key) (valueAt device.views key)

def otherFields (base current device : Fields) : List String :=
  sortKeys ((ofList (allKeys base current device)).filter fun field => !baseTopLevelOrder.contains field)

/-- What a merge computes for its document. -/
structure MergedFields where
  (filters formulas properties summaries : Option Json)
  views : Option Entries
  others : Fields

def viewsValue (views : Entries) : Json :=
  .array (views.map fun view => .record (canonicalizeView (canonicalizeView view.2)))

/-- The fields that have a place of their own before the views. -/
def MergedFields.placed (merged : MergedFields) : List (String × Option Json) :=
  [("filters", merged.filters), ("formulas", merged.formulas), ("properties", merged.properties),
    ("summaries", merged.summaries)]

/-- The fields that are present, in the order they are written in. -/
def MergedFields.document (merged : MergedFields) (others : List String) : Fields :=
  merged.placed.filterMap (fun e => e.2.map fun value => (e.1, canonicalize value)) ++
    (merged.views.map fun views => ("views", viewsValue views)).toList ++
    canonicalFields merged.others others

def semanticMergeBasesFile (baseText currentText deviceText : String) :
    Except MergeError String := do
  let base ← parseBasesDocument yaml baseText
  let current ← parseBasesDocument yaml currentText
  let device ← parseBasesDocument yaml deviceText
  let filters ← mergeAtomicField "Bases filters" (valueAt base.root "filters") (valueAt current.root "filters")
    (valueAt device.root "filters")
  let formulas ← mergeNamedMapField "formulas" base.root current.root device.root
  let properties ← mergeNamedMapField "properties" base.root current.root device.root
  let summaries ← mergeNamedMapField "summaries" base.root current.root device.root
  let views ← mergeViews base.views current.views device.views
  let fields := otherFields base.root current.root device.root
  let others ← collect (fun _ => true) fields fun field =>
    mergeAtomicField s!"Bases top-level field {field}" (valueAt base.root field) (valueAt current.root field)
      (valueAt device.root field)
  let merged : MergedFields := ⟨filters, formulas, properties, summaries, views, others⟩
  pure (endLine (yaml.stringify (.record (merged.document fields))))

end BasesFiles
