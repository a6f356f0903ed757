import Obts.CanvasEntries

/-!
# The merged document

A merged canvas is written as one JSON record and read back before it is returned. What is read back has the
merged ids in their order and under each id the merged entry, but for properties named `__proto__`.
-/
namespace CanvasDocuments

open InsertionOrder JsonTrees CanvasFiles CanvasMerge CanvasOrder CanvasEntries ThreeWayMerge Metadata Option

section Collections
variable {kind : CollectionKind} {base current device merged : Entries} {id : String}

lemma isSome_valueAt : (valueAt base id).isSome ↔ id ∈ base.map Prod.fst := by
  rw [← not_iff_not, not_isSome_iff_eq_none, valueAt_eq_none]

lemma kept_iff_survives : Kept (valueAt base id) (valueAt current id) (valueAt device id) ↔
    Survives (base.map Prod.fst) (current.map Prod.fst) (device.map Prod.fst) id := by
  rw [Survives, ← isSome_valueAt, ← isSome_valueAt, ← isSome_valueAt]
  cases valueAt base id <;> simp [Kept]

lemma mergeCanvasCollection_ok (h : mergeCanvasCollection kind base current device = .ok merged) (id : String) :
    EntryMerge (valueAt base id) (valueAt current id) (valueAt device id) (valueAt merged id) := by
  by_cases hid : id ∈ sortedSet ((base ++ current ++ device).map Prod.fst)
  · obtain ⟨value, hvalue⟩ := exists_of_collect h hid
    rw [valueAt_collect_of_mem h hid rfl hvalue]
    exact mergeCanvasEntry_ok hvalue
  have hmrg : valueAt merged id = none := by
    rw [valueAt_collect h, if_neg fun hin => hid hin.1]
  simp only [mem_sortedSet, List.map_append, List.mem_append, not_or] at hid
  rw [hmrg, valueAt_eq_none.mpr hid.1.1, valueAt_eq_none.mpr hid.1.2, valueAt_eq_none.mpr hid.2]
  have hnone : mergeCanvasEntry kind id none none none = .ok none := rfl
  exact mergeCanvasEntry_ok hnone

lemma mem_mergedIds (h : mergeCanvasCollection kind base current device = .ok merged) (id : String) :
    id ∈ merged.map Prod.fst ↔ Survives (base.map Prod.fst) (current.map Prod.fst) (device.map Prod.fst) id := by
  rw [← isSome_valueAt, (mergeCanvasCollection_ok h id).kept, kept_iff_survives]

end Collections

section Root
variable {label key : String} {x y z value : Option Json} {base current device root : Fields}

lemma mergeAtomicField_ok (h : mergeAtomicField label x y z = .ok value) :
    Agrees stableJson x y z ∧ stableJson value = stableJson (choose stableJson x y z) := by
  rw [mergeAtomicField] at h
  split at h
  · rename_i hcur
    cases h
    exact ⟨.inl hcur, by rw [choose, if_pos hcur]⟩
  split at h
  · rename_i hdev
    cases h
    exact ⟨.inr (.inl hdev), (text_choose_of_device hdev).symm⟩
  split at h
  · rename_i hcom
    cases h
    exact ⟨.inr (.inr hcom), (text_choose_of_common hcom).symm⟩
  · cases h

lemma exists_mergeAtomicField (h : Agrees stableJson x y z) :
    ∃ value, mergeAtomicField label x y z = .ok value := by
  rw [mergeAtomicField]
  split
  · exact ⟨_, rfl⟩
  rename_i hcur
  split
  · exact ⟨_, rfl⟩
  rename_i hdev
  rw [if_pos ((h.resolve_left hcur).resolve_left hdev)]
  exact ⟨_, rfl⟩

lemma mem_rootKeys : key ∈ sortKeys ((ofList (allKeys base current device)).filter fun key =>
    !isCollectionField key) ↔ key ∈ allKeys base current device ∧ isCollectionField key = false := by
  simp

lemma mergeCanvasRootFields_ok (h : mergeCanvasRootFields base current device = .ok root)
    (hkey : isCollectionField key = false) :
    Agrees stableJson (valueAt base key) (valueAt current key) (valueAt device key) ∧
      (key ≠ protoKey → stableJson (valueAt root key)
        = stableJson (choose stableJson (valueAt base key) (valueAt current key) (valueAt device key))) := by
  by_cases hmem : key ∈ allKeys base current device
  · have hin := mem_rootKeys.mpr ⟨hmem, hkey⟩
    obtain ⟨value, hok⟩ := exists_of_collect h hin
    obtain ⟨hagr, hvalue⟩ := mergeAtomicField_ok hok
    refine ⟨hagr, fun hproto => ?_⟩
    rw [valueAt_collect_of_mem h hin (by simpa using hproto) hok]
    exact hvalue
  · obtain ⟨hbase, hcur, hdev⟩ := valueAt_of_notMem_allKeys hmem
    have hroot : valueAt root key = none := by
      rw [valueAt_collect h, if_neg fun hin => hmem (mem_rootKeys.mp hin.1).1]
    rw [hbase, hcur, hdev, hroot]
    exact ⟨.inl rfl, fun _ => rfl⟩

lemma exists_mergeCanvasRootFields (h : ∀ key, isCollectionField key = false →
    Agrees stableJson (valueAt base key) (valueAt current key) (valueAt device key)) :
    ∃ root, mergeCanvasRootFields base current device = .ok root :=
  exists_collect _ fun key hkey => exists_mergeAtomicField (h key (mem_rootKeys.mp hkey).2)

end Root

variable {id : String} {entry fields : Fields}

section Written
variable {kind : CollectionKind} {entries shown : Entries} {ids : List String} {items : List Json}
  {key : String}

/-- What is left of a field that was written. -/
def written (key : String) (value : Option Json) : Option Json :=
  if key = protoKey then none else value.map canonicalize

lemma valueAt_canonicalFields (record : Fields) (keys : List String) (key : String) :
    valueAt (canonicalFields record keys) key = if key ∈ keys then written key (valueAt record key) else none := by
  rw [canonicalFields, valueAt_pick, written]
  by_cases hproto : key = protoKey
  · simp [hproto]
  · simp [hproto]

/-- A record that is written with some fields first keeps all of its fields. -/
lemma valueAt_canonicalFields_append {first rest : List String}
    (hrest : ∀ key, key ∈ rest ↔ key ∈ entry.map Prod.fst ∧ key ∉ first) (key : String) :
    valueAt (canonicalFields entry first ++ canonicalFields entry rest) key = written key (valueAt entry key) := by
  rw [valueAt_append, valueAt_canonicalFields, valueAt_canonicalFields]
  by_cases hfirst : key ∈ first
  · rw [if_pos hfirst, if_neg fun hin => ((hrest key).mp hin).2 hfirst, or_none]
  rw [if_neg hfirst, none_or]
  by_cases hkey : key ∈ entry.map Prod.fst
  · rw [if_pos ((hrest key).mpr ⟨hkey, hfirst⟩)]
  · rw [if_neg fun hin => hkey ((hrest key).mp hin).1, valueAt_eq_none.mpr hkey, written]
    simp

variable (kind) in
lemma valueAt_canonicalizeCanvasEntry (entry : Fields) (key : String) :
    valueAt (canonicalizeCanvasEntry kind entry) key = written key (valueAt entry key) := by
  apply valueAt_canonicalFields_append
  simp

lemma orderedEntries_cons_ok (h : orderedEntries kind entries (id :: ids) = .ok items) :
    ∃ entry rest, valueAt entries id = some entry ∧ orderedEntries kind entries ids = .ok rest ∧
      items = .record (canonicalizeCanvasEntry kind entry) :: rest := by
  obtain ⟨entry, hentry, h⟩ := bind_eq_ok.mp h
  obtain ⟨rest, hrest, h⟩ := bind_eq_ok.mp h
  cases h
  rw [requiredCanvasEntry] at hentry
  split at hentry
  · rename_i hvalue
    cases hentry
    exact ⟨_, rest, hvalue, hrest, rfl⟩
  · cases hentry

lemma exists_orderedEntries (h : ∀ id ∈ ids, (valueAt entries id).isSome) :
    ∃ items, orderedEntries kind entries ids = .ok items := by
  induction ids with
  | nil => exact ⟨[], rfl⟩
  | cons id ids ih =>
    rw [List.forall_mem_cons] at h
    obtain ⟨entry, hentry⟩ := isSome_iff_exists.mp h.1
    obtain ⟨rest, hrest⟩ := ih h.2
    refine ⟨_, bind_eq_ok.mpr ⟨entry, ?_, bind_eq_ok.mpr ⟨rest, hrest, rfl⟩⟩⟩
    rw [requiredCanvasEntry, hentry]
    rfl

/-- An entry that was read back, next to the one that was written under its id. -/
def ReadBack (entries : Entries) (e : String × Fields) (id : String) : Prop :=
  e.1 = id ∧ ∃ entry, valueAt entries id = some entry ∧
    ∀ key, stableJson (valueAt e.2 key) = stableJson (written key (valueAt entry key))

/-- The entries are read back in their order under their ids. -/
lemma readBack_of_texts (hitems : orderedEntries kind entries ids = .ok items)
    (htexts : (shown.map fun e => stableText (.record e.2)) = items.map stableText)
    (hshown : ∀ e ∈ shown, valueAt e.2 "id" = some (.string e.1))
    (hents : ∀ id entry, valueAt entries id = some entry → valueAt entry "id" = some (.string id)) :
    List.Forall₂ (ReadBack entries) shown ids := by
  induction ids generalizing items shown with
  | nil =>
    cases hitems
    rw [List.map_nil, List.map_eq_nil_iff] at htexts
    subst htexts
    exact List.Forall₂.nil
  | cons id ids ih =>
    obtain ⟨entry, rest, hentry, hrest, rfl⟩ := orderedEntries_cons_ok hitems
    cases shown with
    | nil => cases htexts
    | cons e shown =>
      rw [List.map_cons, List.map_cons, List.cons.injEq] at htexts
      rw [List.forall_mem_cons] at hshown
      have hsame : ∀ key, stableJson (valueAt e.2 key) = stableJson (written key (valueAt entry key)) := by
        intro key
        rw [← valueAt_canonicalizeCanvasEntry kind]
        exact stableText_record_iff.mp htexts.1 key
      have hid : e.1 = id := by
        have hvalue := hsame "id"
        rw [hshown.1, hents id entry hentry] at hvalue
        have hstr : Tree.string e.1 = Tree.string id :=
          some.inj (eq_string_of_stableJson hvalue rfl)
        exact Tree.string.inj hstr
      exact List.Forall₂.cons ⟨hid, entry, hentry, hsame⟩ (ih hrest htexts.2 hshown.2)

lemma ids_of_readBack (h : List.Forall₂ (ReadBack entries) shown ids) : shown.map Prod.fst = ids := by
  induction h with
  | nil => rfl
  | cons hread _ ih => rw [List.map_cons, hread.1, ih]

lemma fields_of_readBack (h : List.Forall₂ (ReadBack entries) shown ids)
    (hnodup : (shown.map Prod.fst).Nodup) (hid : id ∈ ids) (key : String) :
    stableJson (fieldOf (valueAt shown id) key) = stableJson (written key (fieldOf (valueAt entries id) key)) := by
  have hmem : ∃ e ∈ shown, ReadBack entries e id := by
    clear hnodup
    induction h with
    | nil => cases hid
    | cons hread _ ih =>
      rcases List.mem_cons.mp hid with rfl | hid
      · exact ⟨_, List.mem_cons_self, hread⟩
      · obtain ⟨e, he, hread⟩ := ih hid
        exact ⟨e, List.mem_cons_of_mem _ he, hread⟩
  obtain ⟨e, he, rfl, entry, hentry, hsame⟩ := hmem
  rw [(valueAt_eq_some hnodup).mpr he, hentry]
  exact hsame key

end Written

/-- The canvases of the three files. -/
structure Sources (text : JsonText) (baseText currentText deviceText : String)
    (base current device : JsonCanvas) : Prop where
  base : assertValidJsonCanvas text baseText = .ok base
  current : assertValidJsonCanvas text currentText = .ok current
  device : assertValidJsonCanvas text deviceText = .ok device

/-- What a merge computes before it writes the result. -/
structure Parts where
  (nodes edges : Entries)
  (nodeIds edgeIds : List String)
  root : Fields
  (nodeItems edgeItems : List Json)

def Parts.document (parts : Parts) : Json := mergedDocument parts.root parts.nodeItems parts.edgeItems

/-- The steps of a merge up to the document that is written. -/
structure Computes (text : JsonText) (baseText currentText deviceText : String) (base current device : JsonCanvas)
    (parts : Parts) : Prop where
  nodes : mergeCanvasCollection .node base.nodes current.nodes device.nodes = .ok parts.nodes
  edges : mergeCanvasCollection .edge base.edges current.edges device.edges = .ok parts.edges
  nodeIds : mergeCanvasOrder .node (nodeOrder base) (nodeOrder current) (nodeOrder device)
    (parts.nodes.map Prod.fst) = .ok parts.nodeIds
  edgeIds : mergeCanvasOrder .edge (edgeOrder base) (edgeOrder current) (edgeOrder device)
    (parts.edges.map Prod.fst) = .ok parts.edgeIds
  root : mergeCanvasRootFields (rootRecord text baseText) (rootRecord text currentText)
    (rootRecord text deviceText) = .ok parts.root
  nodeItems : orderedEntries .node parts.nodes parts.nodeIds = .ok parts.nodeItems
  edgeItems : orderedEntries .edge parts.edges parts.edgeIds = .ok parts.edgeItems

section Merge
variable {text : JsonText} {baseText currentText deviceText result : String}
  {base current device merged : JsonCanvas} {parts : Parts}

/-- A merge returns the text of its document when that is a valid canvas and the last checks allow it. -/
lemma semanticMergeCanvasFile_ok (hsrcs : Sources text baseText currentText deviceText base current device) :
    semanticMergeCanvasFile text baseText currentText deviceText = .ok result ↔
      ∃ parts merged, Computes text baseText currentText deviceText base current device parts ∧
        result = text.stringify parts.document ++ "\n" ∧ assertValidJsonCanvas text result = .ok merged ∧
        assertCanvasMergeAllowed base current device merged = .ok () := by
  constructor
  · intro h
    rw [semanticMergeCanvasFile, hsrcs.base, hsrcs.current, hsrcs.device] at h
    obtain ⟨_, ⟨⟩, h⟩ := bind_eq_ok.mp h
    obtain ⟨_, ⟨⟩, h⟩ := bind_eq_ok.mp h
    obtain ⟨_, ⟨⟩, h⟩ := bind_eq_ok.mp h
    obtain ⟨nodes, hnodes, h⟩ := bind_eq_ok.mp h
    obtain ⟨edges, hedges, h⟩ := bind_eq_ok.mp h
    obtain ⟨nodeIds, hnids, h⟩ := bind_eq_ok.mp h
    obtain ⟨edgeIds, heids, h⟩ := bind_eq_ok.mp h
    obtain ⟨root, hroot, h⟩ := bind_eq_ok.mp h
    obtain ⟨nodeItems, hnodI, h⟩ := bind_eq_ok.mp h
    obtain ⟨edgeItems, hedgI, h⟩ := bind_eq_ok.mp h
    obtain ⟨merged, hmrg, h⟩ := bind_eq_ok.mp h
    obtain ⟨_, halw, h⟩ := bind_eq_ok.mp h
    cases h
    exact ⟨⟨nodes, edges, nodeIds, edgeIds, root, nodeItems, edgeItems⟩, merged,
      ⟨hnodes, hedges, hnids, heids, hroot, hnodI, hedgI⟩, rfl, hmrg, halw⟩
  · rintro ⟨parts, merged, hparts, rfl, hmrg, halw⟩
    refine bind_eq_ok.mpr ⟨base, hsrcs.base, bind_eq_ok.mpr ⟨current, hsrcs.current, ?_⟩⟩
    refine bind_eq_ok.mpr ⟨device, hsrcs.device, bind_eq_ok.mpr ⟨_, hparts.nodes, ?_⟩⟩
    refine bind_eq_ok.mpr ⟨_, hparts.edges, bind_eq_ok.mpr ⟨_, hparts.nodeIds, ?_⟩⟩
    refine bind_eq_ok.mpr ⟨_, hparts.edgeIds, bind_eq_ok.mpr ⟨_, hparts.root, ?_⟩⟩
    refine bind_eq_ok.mpr ⟨_, hparts.nodeItems, bind_eq_ok.mpr ⟨_, hparts.edgeItems, ?_⟩⟩
    exact bind_eq_ok.mpr ⟨merged, hmrg, bind_eq_ok.mpr ⟨(), halw, rfl⟩⟩

lemma Sources.valid (h : Sources text baseText currentText deviceText base current device) :
    ValidCanvas base ∧ ValidCanvas current ∧ ValidCanvas device := by
  obtain ⟨_, _, _, hbase⟩ := assertValidJsonCanvas_iff.mp h.base
  obtain ⟨_, _, _, hcur⟩ := assertValidJsonCanvas_iff.mp h.current
  obtain ⟨_, _, _, hdev⟩ := assertValidJsonCanvas_iff.mp h.device
  exact ⟨hbase, hcur, hdev⟩

lemma validNode_of_valueAt (h : ValidCanvas base)
    (hvalue : valueAt base.nodes id = some fields) : ValidNode (id, fields) :=
  h.nodes (id, fields) (mem_of_valueAt hvalue)

lemma validEdge_of_valueAt (h : ValidCanvas base)
    (hvalue : valueAt base.edges id = some fields) : ValidEdge (nodeOrder base) (id, fields) :=
  h.edges (id, fields) (mem_of_valueAt hvalue)

/-- Merged nodes are valid nodes. -/
lemma validNode_of_merge (hcur : ValidCanvas current) (hdev : ValidCanvas device) {node : Option Fields}
    (h : EntryMerge node (valueAt current.nodes id) (valueAt device.nodes id) (some entry)) :
    ValidNode (id, entry) := by
  apply ValidNode.of_stable
  intro key hkey
  obtain ⟨side, hside | hside, hsame⟩ := h.side hkey
  · exact ⟨side, validNode_of_valueAt hcur hside, hsame⟩
  · exact ⟨side, validNode_of_valueAt hdev hside, hsame⟩

/-- Merged edges have an id and endpoints. -/
lemma edgeFields_of_merge (hcur : ValidCanvas current) (hdev : ValidCanvas device) {edge : Option Fields}
    (h : EntryMerge edge (valueAt current.edges id) (valueAt device.edges id) (some entry)) :
    EdgeFields (id, entry) := by
  apply EdgeFields.of_stable
  intro key hkey
  obtain ⟨side, hside | hside, hsame⟩ := h.side hkey
  · exact ⟨side, (validEdge_of_valueAt hcur hside).toEdgeFields, hsame⟩
  · exact ⟨side, (validEdge_of_valueAt hdev hside).toEdgeFields, hsame⟩

/-- What a returned text is read back as. -/
structure ReadsBack (text : JsonText) (result : String) (parts : Parts) (merged : JsonCanvas) : Prop where
  nodes : List.Forall₂ (ReadBack parts.nodes) merged.nodes parts.nodeIds
  edges : List.Forall₂ (ReadBack parts.edges) merged.edges parts.edgeIds
  root : ∀ key, isCollectionField key = false →
    stableJson (valueAt (rootRecord text result) key) = stableJson (written key (valueAt parts.root key))

lemma valueAt_document (parts : Parts) {key : String} (hkey : isCollectionField key = false) :
    valueAt ([("nodes", .array parts.nodeItems), ("edges", .array parts.edgeItems)] ++
      canonicalFields parts.root (sortKeys ((keysOf parts.root).filter fun key => !isCollectionField key))) key
      = written key (valueAt parts.root key) := by
  have hne : key ≠ "nodes" ∧ key ≠ "edges" := by
    simpa [isCollectionField] using hkey
  have hfront : valueAt [("nodes", Tree.array parts.nodeItems), ("edges", Tree.array parts.edgeItems)] key
      = none := by
    rw [valueAt_eq_none]
    simp [hne.1, hne.2]
  rw [valueAt_append, hfront, none_or, valueAt_canonicalFields]
  by_cases hmem : key ∈ parts.root.map Prod.fst
  · rw [if_pos (by simpa [hkey] using hmem)]
  · rw [if_neg (by simpa [hkey] using hmem), valueAt_eq_none.mpr hmem, written]
    simp

/-- What is read back of a valid result shows the merged entries in their order. -/
lemma readsBack (hround : text.RoundTrips)
    (hsrcs : Sources text baseText currentText deviceText base current device)
    (hparts : Computes text baseText currentText deviceText base current device parts)
    (hmrg : assertValidJsonCanvas text (text.stringify parts.document ++ "\n") = .ok merged) :
    ReadsBack text (text.stringify parts.document ++ "\n") parts merged := by
  obtain ⟨record, hparse, hshown, hvalid⟩ := assertValidJsonCanvas_iff.mp hmrg
  obtain ⟨-, hcur, hdev⟩ := hsrcs.valid
  obtain ⟨w, hw, hsame⟩ := hround parts.document
  have hrec : w = .record record := some.inj (hw.symm.trans hparse)
  subst hrec
  have hfld := stableText_record_iff.mp hsame
  have hitems : ∀ (key : String) (entries : Entries) (items : List Json),
      valueAt record key = some (.array (entries.map fun e => .record e.2)) →
      stableJson (valueAt record key) = stableJson (some (.array items)) →
      (entries.map fun e => stableText (.record e.2)) = items.map stableText := by
    intro key entries items hvalue htext
    rw [hvalue] at htext
    obtain ⟨read, hread, htexts⟩ := exists_array_of_stable (some.inj htext)
    rw [Tree.array.injEq] at hread
    rw [← htexts, ← hread, List.map_map]
    rfl
  constructor
  · refine readBack_of_texts hparts.nodeItems (hitems "nodes" _ _ hshown.nodes (hfld "nodes")) ?_ ?_
    · exact fun e he => (hvalid.nodes e he).id
    intro id entry hentry
    have hmerge := mergeCanvasCollection_ok hparts.nodes id
    rw [hentry] at hmerge
    exact (validNode_of_merge hcur hdev hmerge).id
  · refine readBack_of_texts hparts.edgeItems (hitems "edges" _ _ hshown.edges (hfld "edges")) ?_ ?_
    · exact fun e he => (hvalid.edges e he).id
    intro id entry hentry
    have hmerge := mergeCanvasCollection_ok hparts.edges id
    rw [hentry] at hmerge
    exact (edgeFields_of_merge hcur hdev hmerge).id
  · intro key hkey
    have hroot : rootRecord text (text.stringify parts.document ++ "\n") = record := by
      rw [rootRecord, hparse]
    rw [hroot, hfld key, valueAt_document parts hkey]

end Merge

end CanvasDocuments
