import Obts.JsonTrees

/-!
# Canvas files

What `assertValidJsonCanvas` makes of a text: its nodes and edges in order, each under its id. It accepts
just the records whose nodes and edges are valid under distinct ids, with edges between nodes of the file.
-/
namespace CanvasFiles

open InsertionOrder JsonTrees Metadata List

/-- `JSON.parse` and `JSON.stringify` with an indentation. A text that is not JSON has no value. -/
structure JsonText where
  parse : String → Option Json
  stringify : Json → String

/-- What is written as a file, with a line break at its end, is read again as the same value. -/
def JsonText.RoundTrips (text : JsonText) : Prop :=
  ∀ v, ∃ w, text.parse (text.stringify v ++ "\n") = some w ∧ stableText w = stableText v

inductive MergeError where
  | syntaxError
  /-- `GitCommandError` with its message. -/
  | command (message : String)

/-- Records under their ids, in order. -/
abbrev Entries := List (String × Fields)

structure JsonCanvas where
  (nodes edges : Entries)

def nodeOrder (canvas : JsonCanvas) : List String := canvas.nodes.map Prod.fst

def edgeOrder (canvas : JsonCanvas) : List String := canvas.edges.map Prod.fst

def isString : Option Json → Bool
  | some (.string _) => true
  | _ => false

/-- `typeof value === 'number' && Number.isFinite(value)` -/
def isFiniteNumber : Option Json → Bool
  | some (.number (.finite _)) => true
  | _ => false

def requiredNumbers : List String := ["x", "y", "width", "height"]

def assertNumbers (node : Fields) : List String → Except MergeError Unit
  | [] => pure ()
  | field :: fields =>
    if isFiniteNumber (valueAt node field) then assertNumbers node fields
    else throw (.command s!"Canvas nodes must contain numeric {field} fields.")

def assertValidCanvasNode (node : Fields) : Except MergeError Unit :=
  if !isString (valueAt node "id") || !isString (valueAt node "type") then
    throw (.command "Canvas nodes must contain string id and type fields.")
  else assertNumbers node requiredNumbers

variable (nodeIds : List String)

def readNodeId (node : Fields) : Except MergeError String := do
  assertValidCanvasNode node
  match valueAt node "id" with
  | some (.string id) =>
    if id ∈ nodeIds then throw (.command "Merged canvas node IDs must be unique strings.") else pure id
  | _ => throw (.command "Merged canvas node IDs must be unique strings.")

def endpointFields : List String := ["fromNode", "fromSide", "toNode", "toSide"]

def refersTo : Option Json → Bool
  | some (.string id) => nodeIds.contains id
  | _ => false

def readEdgeId (nodeIds edgeIds : List String) (edge : Fields) : Except MergeError String :=
  match valueAt edge "id" with
  | some (.string id) =>
    if id ∈ edgeIds then throw (.command "Merged canvas edge IDs must be unique strings.")
    else if !endpointFields.all fun field => isString (valueAt edge field) then
      throw (.command "Merged canvas edges must contain required endpoint fields.")
    else if !refersTo nodeIds (valueAt edge "fromNode") || !refersTo nodeIds (valueAt edge "toNode") then
      throw (.command "Merged canvas edges must reference existing nodes.")
    else pure id
  | _ => throw (.command "Merged canvas edge IDs must be unique strings.")

/-- The loop over the nodes or the edges: each is an object, and `readId` checks it with the ids before it. -/
def readEntries (message : String) (readId : List String → Fields → Except MergeError String)
    (ids : List String) : List Json → Except MergeError Entries
  | [] => pure []
  | .record fields :: items => do
    let id ← readId ids fields
    let entries ← readEntries message readId (ids ++ [id]) items
    pure ((id, fields) :: entries)
  | _ :: _ => throw (.command message)

def readNodes : List Json → Except MergeError Entries :=
  readEntries "Merged canvas node must be an object." readNodeId []

def readEdges : List Json → Except MergeError Entries :=
  readEntries "Merged canvas edge must be an object." (readEdgeId nodeIds) []

def assertValidJsonCanvas (text : JsonText) (file : String) : Except MergeError JsonCanvas :=
  match text.parse file with
  | none => throw .syntaxError
  | some (.record record) =>
    match valueAt record "nodes", valueAt record "edges" with
    | some (.array nodes), some (.array edges) => do
      let nodes ← readNodes nodes
      let edges ← readEdges (nodes.map Prod.fst) edges
      pure ⟨nodes, edges⟩
    | _, _ => throw (.command "Merged canvas must contain nodes and edges arrays.")
  | some _ => throw (.command "Merged canvas must be a JSON object.")

section Values
variable {value : Option Json} {nodeIds : List String}

lemma isString_iff : isString value ↔ ∃ s, value = some (.string s) := by
  constructor
  · intro h
    match value with
    | some (.string s) => exact ⟨s, rfl⟩
  · rintro ⟨s, rfl⟩
    rfl

lemma isFiniteNumber_iff : isFiniteNumber value ↔ ∃ text, value = some (.number (.finite text)) := by
  constructor
  · intro h
    match value with
    | some (.number (.finite text)) => exact ⟨text, rfl⟩
  · rintro ⟨text, rfl⟩
    rfl

lemma refersTo_iff : refersTo nodeIds value ↔ ∃ s ∈ nodeIds, value = some (.string s) := by
  constructor
  · intro h
    match value with
    | some (.string s) => exact ⟨s, by simpa [refersTo] using h, rfl⟩
  · rintro ⟨s, hs, rfl⟩
    simpa [refersTo] using hs

end Values

/-- A node under its id. -/
structure ValidNode (e : String × Fields) : Prop where
  id : valueAt e.2 "id" = some (.string e.1)
  type : ∃ s, valueAt e.2 "type" = some (.string s)
  numbers : ∀ field ∈ requiredNumbers, ∃ text, valueAt e.2 field = some (.number (.finite text))

/-- An edge under its id, with its endpoints. -/
structure EdgeFields (e : String × Fields) : Prop where
  id : valueAt e.2 "id" = some (.string e.1)
  endpoints : ∀ field ∈ endpointFields, ∃ s, valueAt e.2 field = some (.string s)

/-- An edge between nodes. -/
structure ValidEdge (nodeIds : List String) (e : String × Fields) : Prop extends EdgeFields e where
  fromNode : ∃ s ∈ nodeIds, valueAt e.2 "fromNode" = some (.string s)
  toNode : ∃ s ∈ nodeIds, valueAt e.2 "toNode" = some (.string s)

lemma assertNumbers_iff (node : Fields) (fields : List String) :
    assertNumbers node fields = .ok () ↔ ∀ field ∈ fields, isFiniteNumber (valueAt node field) := by
  induction fields with
  | nil => exact iff_of_true rfl (by simp)
  | cons field fields ih =>
    rw [assertNumbers]
    split
    · rename_i hfield
      rw [ih, forall_mem_cons]
      exact (and_iff_right hfield).symm
    rename_i hfield
    refine iff_of_false nofun ?_
    intro h
    exact hfield (h field mem_cons_self)

lemma assertValidCanvasNode_iff (node : Fields) : assertValidCanvasNode node = .ok () ↔
      isString (valueAt node "id") ∧ isString (valueAt node "type") ∧
        ∀ field ∈ requiredNumbers, isFiniteNumber (valueAt node field) := by
  rw [assertValidCanvasNode]
  split
  · rename_i h
    refine iff_of_false nofun ?_
    rintro ⟨hid, htype, -⟩
    simp [hid, htype] at h
  · rename_i h
    rw [assertNumbers_iff]
    simp only [Bool.or_eq_true, Bool.not_eq_true', not_or, Bool.not_eq_false] at h
    exact ⟨fun hnums => ⟨h.1, h.2, hnums⟩, fun hvalid => hvalid.2.2⟩

variable {id : String} {items : List Json} {node : Fields}

lemma ValidNode.asserted (h : ValidNode (id, node)) : assertValidCanvasNode node = .ok () := by
  rw [assertValidCanvasNode_iff]
  exact ⟨isString_iff.mpr ⟨id, h.id⟩, isString_iff.mpr h.type,
    fun field hf => isFiniteNumber_iff.mpr (h.numbers field hf)⟩

lemma readNodeId_iff {ids : List String} : readNodeId ids node = .ok id ↔ ValidNode (id, node) ∧ id ∉ ids := by
  constructor
  · intro h
    obtain ⟨_, hnode, h⟩ := bind_eq_ok.mp h
    obtain ⟨hid, htype, hnums⟩ := (assertValidCanvasNode_iff node).mp hnode
    obtain ⟨s, hs⟩ := isString_iff.mp hid
    rw [hs] at h
    dsimp only at h
    split at h
    · cases h
    rename_i hmem
    cases h
    exact ⟨⟨hs, isString_iff.mp htype, fun field hf => isFiniteNumber_iff.mp (hnums field hf)⟩, hmem⟩
  · rintro ⟨hnode, hmem⟩
    refine bind_eq_ok.mpr ⟨(), hnode.asserted, ?_⟩
    rw [hnode.id]
    exact if_neg hmem

lemma readEdgeId_iff {nodeIds ids : List String} {edge : Fields} :
    readEdgeId nodeIds ids edge = .ok id ↔ ValidEdge nodeIds (id, edge) ∧ id ∉ ids := by
  constructor
  · intro h
    rw [readEdgeId] at h
    split at h
    · rename_i s hs
      split at h
      · cases h
      rename_i hmem
      split at h
      · cases h
      rename_i hstr
      split at h
      · cases h
      rename_i href
      cases h
      simp only [Bool.not_eq_true', Bool.not_eq_false, all_eq_true] at hstr
      simp only [Bool.or_eq_true, Bool.not_eq_true', not_or, Bool.not_eq_false] at href
      exact ⟨⟨⟨hs, fun field hf => isString_iff.mp (hstr field hf)⟩, refersTo_iff.mp href.1,
        refersTo_iff.mp href.2⟩, hmem⟩
    · cases h
  · rintro ⟨⟨⟨hid, hstr⟩, hfrom, hto⟩, hmem⟩
    have hall : (endpointFields.all fun field => isString (valueAt edge field)) = true := by
      rw [all_eq_true]
      exact fun field hf => isString_iff.mpr (hstr field hf)
    rw [readEdgeId, hid]
    simp only [if_neg hmem, hall, refersTo_iff.mpr hfrom, refersTo_iff.mpr hto]
    rfl

section Stable
variable {id : String} {fields : Fields} {value other : Option Json}

lemma eq_string_of_stableJson {s : String} (h : stableJson value = stableJson other)
    (hother : other = some (.string s)) : value = some (.string s) := by
  subst hother
  cases value with
  | none => cases h
  | some v => rw [eq_string_of_stable (Option.some.inj h)]

lemma eq_number_of_stableJson {text : Numeral} (h : stableJson value = stableJson other)
    (hother : other = some (.number (.finite text))) : value = some (.number (.finite text)) := by
  subst hother
  cases value with
  | none => cases h
  | some v => rw [eq_number_of_stable (Option.some.inj h)]

/-- A record of fields of valid nodes is a valid node. -/
lemma ValidNode.of_stable (h : ∀ key, key ≠ protoKey → ∃ node, ValidNode (id, node) ∧
    stableJson (valueAt fields key) = stableJson (valueAt node key)) : ValidNode (id, fields) where
  id := by
    obtain ⟨node, hnode, hsame⟩ := h "id" (by decide)
    exact eq_string_of_stableJson hsame hnode.id
  type := by
    obtain ⟨node, hnode, hsame⟩ := h "type" (by decide)
    exact hnode.type.imp fun _ htype => eq_string_of_stableJson hsame htype
  numbers := by
    intro field hfield
    have hkey : field ≠ protoKey := ne_of_mem_of_not_mem hfield (by decide)
    obtain ⟨node, hnode, hsame⟩ := h field hkey
    exact (hnode.numbers field hfield).imp fun _ hnum => eq_number_of_stableJson hsame hnum

/-- A record of fields of edges with the same id is such an edge. -/
lemma EdgeFields.of_stable (h : ∀ key, key ≠ protoKey → ∃ edge, EdgeFields (id, edge) ∧
    stableJson (valueAt fields key) = stableJson (valueAt edge key)) : EdgeFields (id, fields) where
  id := by
    obtain ⟨edge, hedge, hsame⟩ := h "id" (by decide)
    exact eq_string_of_stableJson hsame hedge.id
  endpoints := by
    intro field hfield
    have hkey : field ≠ protoKey := ne_of_mem_of_not_mem hfield (by decide)
    obtain ⟨edge, hedge, hsame⟩ := h field hkey
    exact (hedge.endpoints field hfield).imp fun _ hstr => eq_string_of_stableJson hsame hstr

end Stable

section ReadEntries
variable {message : String} {readId : List String → Fields → Except MergeError String}
  {Valid : String × Fields → Prop} {ids : List String} {items : List Json} {entries : Entries}

lemma readEntries_cons_ok {item : Json} (h : readEntries message readId ids (item :: items) = .ok entries) :
    ∃ id fields rest, item = .record fields ∧ readId ids fields = .ok id ∧
      readEntries message readId (ids ++ [id]) items = .ok rest ∧ entries = (id, fields) :: rest := by
  cases item with
  | record fields =>
    obtain ⟨id, hid, h⟩ := bind_eq_ok.mp h
    obtain ⟨rest, hrest, h⟩ := bind_eq_ok.mp h
    cases h
    exact ⟨id, fields, rest, rfl, hid, hrest, rfl⟩
  | _ => cases h

/-- Entries are read just when all are objects that are valid under ids of their own. -/
lemma readEntries_iff (hread : ∀ ids fields id, readId ids fields = .ok id ↔ Valid (id, fields) ∧ id ∉ ids) :
    readEntries message readId ids items = .ok entries ↔
      items = entries.map (fun e => .record e.2) ∧ (∀ e ∈ entries, Valid e) ∧
        (entries.map Prod.fst).Nodup ∧ ∀ id ∈ entries.map Prod.fst, id ∉ ids := by
  induction items generalizing ids entries with
  | nil =>
    constructor
    · intro h
      cases h
      simp
    rintro ⟨hitems, -⟩
    rw [map_eq_nil_iff.mp hitems.symm]
    rfl
  | cons item items ih =>
    constructor
    · intro h
      obtain ⟨id, fields, rest, rfl, hid, hrest, rfl⟩ := readEntries_cons_ok h
      obtain ⟨hvalid, hmem⟩ := (hread ids fields id).mp hid
      obtain ⟨rfl, hval, hnodup, hnew⟩ := ih.mp hrest
      simp only [mem_append, mem_singleton, not_or] at hnew
      refine ⟨rfl, forall_mem_cons.mpr ⟨hvalid, hval⟩, ?_, ?_⟩
      · exact nodup_cons.mpr ⟨fun hin => (hnew id hin).2 rfl, hnodup⟩
      · exact forall_mem_cons.mpr ⟨hmem, fun k hk => (hnew k hk).1⟩
    · rintro ⟨hitems, hval, hnodup, hnew⟩
      cases entries with
      | nil => cases hitems
      | cons e rest =>
        obtain ⟨id, fields⟩ := e
        rw [map_cons, cons.injEq] at hitems
        obtain ⟨rfl, hitems⟩ := hitems
        rw [forall_mem_cons] at hval
        rw [map_cons, nodup_cons] at hnodup
        rw [map_cons, forall_mem_cons] at hnew
        have hid : readId ids fields = .ok id := (hread ids fields id).mpr ⟨hval.1, hnew.1⟩
        have hrest : readEntries message readId (ids ++ [id]) items = .ok rest := by
          refine ih.mpr ⟨hitems, hval.2, hnodup.2, ?_⟩
          intro k hk
          rw [mem_append, mem_singleton, not_or]
          refine ⟨hnew.2 k hk, ?_⟩
          rintro rfl
          exact hnodup.1 hk
        exact bind_eq_ok.mpr ⟨id, hid, bind_eq_ok.mpr ⟨rest, hrest, rfl⟩⟩

end ReadEntries

/-- The nodes and edges of a canvas are valid under ids of their own. -/
structure ValidCanvas (canvas : JsonCanvas) : Prop where
  nodes : ∀ e ∈ canvas.nodes, ValidNode e
  nodeIds : (nodeOrder canvas).Nodup
  edges : ∀ e ∈ canvas.edges, ValidEdge (nodeOrder canvas) e
  edgeIds : (edgeOrder canvas).Nodup

/-- The canvas that a record shows. -/
structure ShownBy (record : Fields) (canvas : JsonCanvas) : Prop where
  nodes : valueAt record "nodes" = some (.array (canvas.nodes.map fun e => .record e.2))
  edges : valueAt record "edges" = some (.array (canvas.edges.map fun e => .record e.2))

lemma readNodes_iff {nodes : Entries} :
    readNodes items = .ok nodes ↔ items = nodes.map (fun e => .record e.2) ∧ (∀ e ∈ nodes, ValidNode e) ∧
      (nodes.map Prod.fst).Nodup := by
  rw [readNodes, readEntries_iff fun _ _ _ => readNodeId_iff]
  simp

lemma readEdges_iff {nodeIds : List String} {edges : Entries} :
    readEdges nodeIds items = .ok edges ↔ items = edges.map (fun e => .record e.2) ∧
      (∀ e ∈ edges, ValidEdge nodeIds e) ∧ (edges.map Prod.fst).Nodup := by
  rw [readEdges, readEntries_iff fun _ _ _ => readEdgeId_iff]
  simp

variable {file : String}

/-- A file is accepted just when it is a record that shows a valid canvas. -/
lemma assertValidJsonCanvas_iff {text : JsonText} {canvas : JsonCanvas} :
    assertValidJsonCanvas text file = .ok canvas ↔
      ∃ record, text.parse file = some (.record record) ∧ ShownBy record canvas ∧ ValidCanvas canvas := by
  constructor
  · intro h
    rw [assertValidJsonCanvas] at h
    split at h
    · cases h
    · rename_i record hparse
      split at h
      · rename_i nodeItems edgeItems hnodes hedges
        obtain ⟨nodes, hreaN, h⟩ := bind_eq_ok.mp h
        obtain ⟨edges, hreaE, h⟩ := bind_eq_ok.mp h
        cases h
        obtain ⟨rfl, hvalN, hnids⟩ := readNodes_iff.mp hreaN
        obtain ⟨rfl, hvalE, heids⟩ := readEdges_iff.mp hreaE
        exact ⟨record, hparse, ⟨hnodes, hedges⟩, hvalN, hnids, hvalE, heids⟩
      · cases h
    · cases h
  · rintro ⟨record, hparse, ⟨hnodes, hedges⟩, hvalN, hnids, hvalE, heids⟩
    have hreaN := readNodes_iff.mpr ⟨rfl, hvalN, hnids⟩
    have hreaE := readEdges_iff.mpr ⟨rfl, hvalE, heids⟩
    rw [assertValidJsonCanvas, hparse]
    simp only [hnodes, hedges]
    exact bind_eq_ok.mpr ⟨_, hreaN, bind_eq_ok.mpr ⟨_, hreaE, rfl⟩⟩

section Recorded
variable {files : List (String × Json)}

open Classical in
/-- JSON by which the given values are written as the given files. Other values are written by their stable
texts. -/
noncomputable def recordedText (files : List (String × Json)) : JsonText where
  parse file :=
    match files.find? fun e => e.1 ++ "\n" = file with
    | some e => some e.2
    | none => if h : ∃ v, stableText v ++ "\n" = file then some h.choose else none
  stringify v :=
    match files.find? fun e => stableText e.2 = stableText v with
    | some e => e.1
    | none => stableText v

/-- A file as `JSON.stringify` writes a record with an indentation. -/
def Indented (file : String) : Prop := file.toList.take 2 = ['{', '\n']

lemma Indented.ne_stableText (h : Indented file) (v : Json) : file ≠ stableText v := by
  rintro rfl
  rw [Indented, stableText, String.toList_ofList] at h
  have hkind := kind_write (normal v) []
  cases hnorm : normal v with
  | record fields =>
    rw [hnorm] at h
    cases fields with
    | nil => exact absurd h (by decide)
    | cons e fields => exact absurd (cons.inj (cons.inj h).2).1 (by decide)
  | _ =>
    rw [hnorm] at h hkind
    cases htext : write (normal v) [] with
    | nil =>
      rw [hnorm] at htext
      rw [htext] at h
      cases h
    | cons c rest =>
      rw [hnorm] at htext
      rw [htext] at h hkind
      obtain rfl : c = '{' := (cons.inj h).1
      cases hkind

/-- A file that begins as no JSON text does. -/
lemma ne_stableText_of_head {c : Char} (h : file.toList.head? = some c) (hc : kindOf c = none)
    (v : Json) : file ≠ stableText v := by
  rintro rfl
  have hkind := kind_write (normal v) []
  rw [stableText, String.toList_ofList] at h
  rw [h, Option.bind_some, hc] at hkind
  cases hkind

lemma parse_recordedText (hdist : (files.map Prod.fst).Nodup) {e : String × Json} (he : e ∈ files) :
    (recordedText files).parse (e.1 ++ "\n") = some e.2 := by
  have hfind : files.find? (fun f => f.1 ++ "\n" = e.1 ++ "\n") = some e := by
    simp only [String.append_left_inj]
    exact find?_of_nodup hdist he
  simp only [recordedText, hfind]

/-- Files unlike any stable text are read back as they were written. -/
lemma roundTrips_recordedText (hdist : (files.map Prod.fst).Nodup)
    (hunl : ∀ e ∈ files, ∀ v, e.1 ≠ stableText v) : (recordedText files).RoundTrips := by
  intro v
  cases hfind : files.find? fun e => stableText e.2 = stableText v with
  | some e =>
    have hsame : stableText e.2 = stableText v := by simpa using find?_some hfind
    have hwr : (recordedText files).stringify v = e.1 := by simp [recordedText, hfind]
    rw [hwr]
    exact ⟨e.2, parse_recordedText hdist (mem_of_find?_eq_some hfind), hsame⟩
  | none =>
    have hwr : (recordedText files).stringify v = stableText v := by simp [recordedText, hfind]
    have hnone : files.find? (fun e => e.1 ++ "\n" = stableText v ++ "\n") = none := by
      rw [find?_eq_none]
      intro e he hsame
      simp only [String.append_left_inj, decide_eq_true_eq] at hsame
      exact hunl e he v hsame
    have hexis : ∃ w, stableText w ++ "\n" = stableText v ++ "\n" := ⟨v, rfl⟩
    rw [hwr]
    refine ⟨hexis.choose, ?_, ?_⟩
    · simp only [recordedText, hnone, dif_pos hexis]
    · have hchos := hexis.choose_spec
      rwa [String.append_left_inj] at hchos

end Recorded

end CanvasFiles
