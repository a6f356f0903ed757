import Obts.CanvasFiles

/-!
# The merge of canvas files

`semanticMergeCanvasFile` with all it calls. Nodes and edges are merged id by id and field by field, the
order of the ids apart from that, and the merged text is checked once more against its three sources.
-/
namespace CanvasMerge

open InsertionOrder JsonTrees CanvasFiles

inductive CollectionKind where
  | node
  | edge
  deriving DecidableEq

def CollectionKind.label : CollectionKind → String
  | .node => "node"
  | .edge => "edge"

/-- `[...new Set(keys)].sort()` -/
def sortedSet (keys : List String) : List String := sortKeys (ofList keys)

/-- The keys with different texts; without a base every text is one of them. -/
def changedObjectKeys (base : Option Fields) (side : Fields) : List String :=
  (ofList (keysOf (base.getD []) ++ keysOf side)).filter fun key =>
    stableJson (base.bind fun record => propertyOf record key) ≠ stableJson (propertyOf side key)

def objectChanged (base side : Fields) : Bool := !(changedObjectKeys (some base) side).isEmpty

/-- `fieldState(record, field)` is the field's own value where it is present, and states are compared by
their texts. -/
def mergeAtomicField (label : String) (base current device : Option Json) : Except MergeError (Option Json) :=
  if stableJson current = stableJson base then pure device
  else if stableJson device = stableJson base then pure current
  else if stableJson current = stableJson device then pure current
  else throw (.command s!"{label} concurrent edits require review.")

/-- The keys of the three records. -/
def allKeys (base current device : Fields) : List String := keysOf base ++ keysOf current ++ keysOf device

def isCollectionField (key : String) : Bool := key = "nodes" || key = "edges"

def mergeCanvasRootFields (base current device : Fields) : Except MergeError Fields :=
  assignEach (sortKeys ((ofList (allKeys base current device)).filter fun key => !isCollectionField key))
    fun key => mergeAtomicField s!"Canvas top-level field {key}" (valueAt base key) (valueAt current key)
      (valueAt device key)

def mergeCanvasField (kind : CollectionKind) (id : String) (base current device : Fields) (key : String) :
    Except MergeError (Option Json) :=
  let currentChanged : Bool := stableJson (propertyOf base key) ≠ stableJson (propertyOf current key)
  let deviceChanged : Bool := stableJson (propertyOf base key) ≠ stableJson (propertyOf device key)
  if currentChanged && deviceChanged && stableJson (propertyOf current key) ≠ stableJson (propertyOf device key) then
    throw (.command s!"Canvas {kind.label} {id} same-field edits require review.")
  else if deviceChanged then pure (propertyOf device key)
  else if currentChanged then pure (propertyOf current key)
  else pure (valueAt base key)

variable (kind : CollectionKind)

/-- The merge of an entry field by field. Where it sets the prototype of the entry, the fields that
`assertValidCanvasNode` asks for are still the entry's own. -/
def mergeCanvasFields (id : String) (base current device : Fields) : Except MergeError Fields := do
  let merged ← assignEach (sortedSet (allKeys base current device)) (mergeCanvasField kind id base current device)
  if kind = .node then assertValidCanvasNode merged
  pure merged

def sameRecord (left right : Fields) : Bool := stableText (.record left) = stableText (.record right)

def mergeCanvasEntry (id : String) :
    Option Fields → Option Fields → Option Fields → Except MergeError (Option Fields)
  | none, some current, some device =>
    if sameRecord current device then pure (some current)
    else throw (.command s!"Canvas {kind.label} {id} concurrent additions require review.")
  | none, current, device => pure (current.or device)
  | some _, none, none => pure none
  | some base, none, some device =>
    if objectChanged base device then
      throw (.command s!"Canvas {kind.label} {id} delete-vs-edit requires review.")
    else pure none
  | some base, some current, none =>
    if objectChanged base current then
      throw (.command s!"Canvas {kind.label} {id} edit-vs-delete requires review.")
    else pure none
  | some base, some current, some device =>
    if sameRecord current base then pure (some device)
    else if sameRecord device base then pure (some current)
    else if sameRecord current device then pure (some current)
    else some <$> mergeCanvasFields kind id base current device

def mergeCanvasCollection (base current device : Entries) : Except MergeError Entries :=
  collect (fun _ => true) (sortedSet ((base ++ current ++ device).map Prod.fst)) fun id =>
    mergeCanvasEntry kind id (valueAt base id) (valueAt current id) (valueAt device id)

def orderOf (order ids : List String) : String := String.intercalate "\x00" (order.filter fun id => id ∈ ids)

/-- Both sides have the ids in another order than the base and than each other. -/
def concurrentOrders (baseOrder currentOrder deviceOrder ids : List String) : Bool :=
  orderOf currentOrder ids ≠ orderOf baseOrder ids && orderOf deviceOrder ids ≠ orderOf baseOrder ids &&
    orderOf currentOrder ids ≠ orderOf deviceOrder ids

/-- The ids in the order of the side that changed it. -/
def orderedExisting (baseOrder currentOrder deviceOrder ids : List String) : List String :=
  if orderOf currentOrder ids ≠ orderOf baseOrder ids then currentOrder.filter fun id => id ∈ ids
  else if orderOf deviceOrder ids ≠ orderOf baseOrder ids then deviceOrder.filter fun id => id ∈ ids
  else baseOrder.filter fun id => id ∈ ids

/-- `result.splice(result.indexOf(place) + 1, 0, id)` -/
def spliceAfter (place id : String) : List String → List String
  | [] => [id]
  | other :: result => if other = place then other :: id :: result else other :: spliceAfter place id result

/-- `result.splice(result.indexOf(place), 0, id)` -/
def spliceBefore (place id : String) : List String → List String
  | [] => [id]
  | other :: result => if other = place then id :: other :: result else other :: spliceBefore place id result

/-- A string that is there and not empty counts as true. -/
def truthy (id : Option String) : Option String := id.filter fun id => id ≠ ""

/-- An addition is placed after the nearest id before it on its side that is placed, else before the
nearest such id after it, else at the end. -/
def placeAddition (result earlier later : List String) (id : String) : List String :=
  match truthy (earlier.find? fun other => other ∈ result) with
  | some before => spliceAfter before id result
  | none =>
    match truthy (later.find? fun other => other ∈ result) with
    | some after => spliceBefore after id result
    | none => result ++ [id]

/-- The loop over a side's order, with the ids before the current one, nearest first. -/
def integrateFrom (baseIds mergedIds : List String) (result earlier : List String) : List String → List String
  | [] => result
  | id :: later =>
    if baseIds.contains id || !mergedIds.contains id || result.contains id then
      integrateFrom baseIds mergedIds result (id :: earlier) later
    else integrateFrom baseIds mergedIds (placeAddition result earlier later id) (id :: earlier) later

def integrateCanvasAdditions (result sideOrder baseIds mergedIds : List String) : List String :=
  integrateFrom baseIds mergedIds result [] sideOrder

def mergeCanvasOrder (kind : CollectionKind) (baseOrder currentOrder deviceOrder mergedIds : List String) :
    Except MergeError (List String) :=
  let survivingBaseIds := baseOrder.filter fun id => id ∈ mergedIds
  if concurrentOrders baseOrder currentOrder deviceOrder survivingBaseIds then
    throw (.command s!"Canvas {kind.label} concurrent order changes require review.")
  else
    let existing := orderedExisting baseOrder currentOrder deviceOrder survivingBaseIds
    let result := integrateCanvasAdditions existing currentOrder baseOrder mergedIds
    let result := integrateCanvasAdditions result deviceOrder baseOrder mergedIds
    pure ((ofList result).filter fun id => id ∈ mergedIds)

def requiredCanvasEntry (entries : Entries) (id : String) : Except MergeError Fields :=
  match valueAt entries id with
  | some entry => pure entry
  | none => throw (.command "Merged Canvas order references a missing entry.")

def preferredFields : CollectionKind → List String
  | .node => ["id", "type", "x", "y", "width", "height"]
  | .edge => ["id", "fromNode", "fromSide", "toNode", "toSide"]

/-- `result[key] = canonicalizeForJson(record[key])` for each key. -/
def canonicalFields (record : Fields) (keys : List String) : Fields :=
  pick (keys.filter fun key => key ≠ protoKey) fun key => (valueAt record key).map canonicalize

def canonicalizeCanvasEntry (entry : Fields) : Fields :=
  canonicalFields entry (preferredFields kind) ++
    canonicalFields entry (sortKeys ((keysOf entry).filter fun key => key ∉ preferredFields kind))

def orderedEntries (kind : CollectionKind) (entries : Entries) : List String → Except MergeError (List Json)
  | [] => pure []
  | id :: ids => do
    let entry ← requiredCanvasEntry entries id
    let rest ← orderedEntries kind entries ids
    pure (.record (canonicalizeCanvasEntry kind entry) :: rest)

def assertCanvasEntryMergeAllowed (kind : CollectionKind) (base current device : Option Fields) :
    Except MergeError Unit :=
  match base, current, device with
  | some base, none, some device =>
    if objectChanged base device then
      throw (.command s!"Canvas {kind.label} delete-vs-edit requires review.")
    else pure ()
  | some base, some current, none =>
    if objectChanged base current then
      throw (.command s!"Canvas {kind.label} edit-vs-delete requires review.")
    else pure ()
  | base, some current, some device =>
    if (changedObjectKeys base current).any fun key =>
        (changedObjectKeys base device).contains key && stableJson (propertyOf current key) ≠
          stableJson (propertyOf device key)
    then throw (.command s!"Canvas {kind.label} same-field edits require review.")
    else pure ()
  | _, _, _ => pure ()

def assertCanvasCollectionMergeAllowed (kind : CollectionKind) (base current device : Entries) :
    List String → Except MergeError Unit
  | [] => pure ()
  | id :: ids => do
    assertCanvasEntryMergeAllowed kind (valueAt base id) (valueAt current id) (valueAt device id)
    assertCanvasCollectionMergeAllowed kind base current device ids

def assertCanvasOrderMergeAllowed (kind : CollectionKind)
    (baseOrder currentOrder deviceOrder mergedOrder : List String) : Except MergeError Unit :=
  if concurrentOrders baseOrder currentOrder deviceOrder baseOrder then
    throw (.command s!"Canvas {kind.label} concurrent order changes require review.")
  else if orderOf mergedOrder baseOrder ≠ orderOf currentOrder baseOrder &&
      orderOf mergedOrder baseOrder ≠ orderOf deviceOrder baseOrder &&
      orderOf mergedOrder baseOrder ≠ orderOf baseOrder baseOrder then
    throw (.command s!"Canvas {kind.label} order merge could not be validated.")
  else pure ()

def assertCanvasMergeAllowed (base current device merged : JsonCanvas) : Except MergeError Unit := do
  assertCanvasCollectionMergeAllowed .node base.nodes current.nodes device.nodes
    (ofList ((base.nodes ++ current.nodes ++ device.nodes).map Prod.fst))
  assertCanvasCollectionMergeAllowed .edge base.edges current.edges device.edges
    (ofList ((base.edges ++ current.edges ++ device.edges).map Prod.fst))
  assertCanvasOrderMergeAllowed .node (nodeOrder base) (nodeOrder current) (nodeOrder device) (nodeOrder merged)
  assertCanvasOrderMergeAllowed .edge (edgeOrder base) (edgeOrder current) (edgeOrder device) (edgeOrder merged)

/-- `JSON.parse(file) as Record<string, unknown>` -/
def rootRecord (text : JsonText) (file : String) : Fields :=
  match text.parse file with
  | some (.record record) => record
  | _ => []

def mergedDocument (root : Fields) (nodes edges : List Json) : Json :=
  .record ([("nodes", .array nodes), ("edges", .array edges)] ++
    canonicalFields root (sortKeys ((keysOf root).filter fun key => !isCollectionField key)))

def semanticMergeCanvasFile (text : JsonText) (baseText currentText deviceText : String) :
    Except MergeError String := do
  let base ← assertValidJsonCanvas text baseText
  let current ← assertValidJsonCanvas text currentText
  let device ← assertValidJsonCanvas text deviceText
  let mergedNodes ← mergeCanvasCollection .node base.nodes current.nodes device.nodes
  let mergedEdges ← mergeCanvasCollection .edge base.edges current.edges device.edges
  let nodeIds ← mergeCanvasOrder .node (nodeOrder base) (nodeOrder current) (nodeOrder device)
    (mergedNodes.map Prod.fst)
  let edgeIds ← mergeCanvasOrder .edge (edgeOrder base) (edgeOrder current) (edgeOrder device)
    (mergedEdges.map Prod.fst)
  let root ← mergeCanvasRootFields (rootRecord text baseText) (rootRecord text currentText)
    (rootRecord text deviceText)
  let nodes ← orderedEntries .node mergedNodes nodeIds
  let edges ← orderedEntries .edge mergedEdges edgeIds
  let mergedText := text.stringify (mergedDocument root nodes edges) ++ "\n"
  let merged ← assertValidJsonCanvas text mergedText
  assertCanvasMergeAllowed base current device merged
  pure mergedText

end CanvasMerge
