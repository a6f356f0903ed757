import Obts.CanvasDocuments

/-!
# When a canvas merge returns

A merge without conflicting edits gets as far as its last check, which compares the order of all base ids that
each side still has, so that it takes different deletions on the two sides for different orders. The merged
order keeps the order of each side but for what comes before an empty id.
-/
namespace CanvasCompletion

open List
open InsertionOrder JsonTrees CanvasFiles CanvasMerge CanvasOrder CanvasEntries CanvasDocuments ThreeWayMerge
  Metadata

section Orders
variable {kind : CollectionKind} {base current device mergedIds order : List String}

/-- The ids of the base that survive the merge come on one side as in the base, or on both sides in one
order. -/
def OrderMergeable (base current device : List String) : Prop :=
  let surviving := fun order : List String => order.filter fun id => id ∈ base ∧ Survives base current device id
  surviving current = surviving base ∨ surviving device = surviving base ∨ surviving current = surviving device

/-- The surviving ids of the base as the side that reordered them has them. -/
def survivingOrder (base current device : List String) : List String :=
  orderedExisting base current device (base.filter fun id => Survives base current device id)

/-- Counting the base ids that a side has deleted as moved, one side has the order of the base or both have
one order, and what survives has the order of one of the three. -/
structure OrderAccepted (base current device : List String) : Prop where
  sides : CanvasMerge.orderOf current base = CanvasMerge.orderOf base base ∨
    CanvasMerge.orderOf device base = CanvasMerge.orderOf base base ∨
    CanvasMerge.orderOf current base = CanvasMerge.orderOf device base
  merged : CanvasMerge.orderOf (survivingOrder base current device) base = CanvasMerge.orderOf current base ∨
    CanvasMerge.orderOf (survivingOrder base current device) base = CanvasMerge.orderOf device base ∨
    CanvasMerge.orderOf (survivingOrder base current device) base = CanvasMerge.orderOf base base

lemma concurrentOrders_eq_false_iff {ids : List String} : concurrentOrders base current device ids = false ↔
      CanvasMerge.orderOf current ids = CanvasMerge.orderOf base ids ∨
        CanvasMerge.orderOf device ids = CanvasMerge.orderOf base ids ∨
        CanvasMerge.orderOf current ids = CanvasMerge.orderOf device ids := by
  simp only [concurrentOrders, ne_eq, Bool.and_eq_false_iff, decide_eq_false_iff_not, not_not, or_assoc]

lemma survivors_eq (hmerged : ∀ x, x ∈ mergedIds ↔ Survives base current device x) :
    survivors base mergedIds = base.filter fun id => Survives base current device id := by
  simp [survivors, hmerged]

/-- The sides do not have the surviving ids of the base in orders whose texts differ from that of the base and from
each other. -/
def OrderUncontested (base current device : List String) : Prop :=
  concurrentOrders base current device (base.filter fun id => Survives base current device id) = false

lemma OrderMergeable.uncontested (h : OrderMergeable base current device) : OrderUncontested base current device := by
  rw [OrderUncontested, concurrentOrders_eq_false_iff]
  simp only [CanvasMerge.orderOf, mem_filter, decide_eq_true_eq]
  rcases h with h | h | h
  · exact .inl (congrArg _ h)
  · exact .inr (.inl (congrArg _ h))
  · exact .inr (.inr (congrArg _ h))

variable (kind) in
/-- Surviving ids in an uncontested order are merged. -/
lemma exists_mergeCanvasOrder (hmerged : ∀ x, x ∈ mergedIds ↔ Survives base current device x)
    (hbase : base.Nodup) (hcur : current.Nodup) (hdev : device.Nodup)
    (horder : OrderUncontested base current device) :
    mergeCanvasOrder kind base current device mergedIds = .ok (integrated base current device mergedIds) := by
  refine (mergeCanvasOrder_iff hmerged hbase hcur hdev).mpr ⟨?_, rfl⟩
  rw [survivors_eq hmerged]
  exact horder

variable (kind) in
/-- The last check accepts just what its condition says. -/
lemma assertCanvasOrderMergeAllowed_iff (hmerged : ∀ x, x ∈ mergedIds ↔ Survives base current device x) :
    assertCanvasOrderMergeAllowed kind base current device (integrated base current device mergedIds) = .ok () ↔
      OrderAccepted base current device := by
  have hsurv : CanvasMerge.orderOf (integrated base current device mergedIds) base
      = CanvasMerge.orderOf (survivingOrder base current device) base := by
    have hex := filter_integrated hmerged
    rw [survivors_eq hmerged] at hex
    rw [CanvasMerge.orderOf, hex, CanvasMerge.orderOf, survivingOrder, ← hex, filter_filter]
    simp
  rw [assertCanvasOrderMergeAllowed, hsurv]
  constructor
  · intro h
    split at h
    · cases h
    rename_i hsides
    split at h
    · cases h
    rename_i hplac
    rw [Bool.not_eq_true, concurrentOrders_eq_false_iff] at hsides
    simp only [ne_eq, Bool.and_eq_true, decide_eq_true_eq, not_and_or, not_not, or_assoc] at hplac
    exact ⟨hsides, hplac⟩
  · rintro ⟨hsides, hplac⟩
    rw [if_neg, if_neg]
    · rfl
    · simpa only [ne_eq, Bool.and_eq_true, decide_eq_true_eq, not_and_or, not_not, or_assoc] using hplac
    · rw [Bool.not_eq_true, concurrentOrders_eq_false_iff]
      exact hsides

end Orders

section ReadingBack
variable {kind : CollectionKind} {entries : Entries} {ids : List String} {items read : List Json}

/-- Whatever has the texts of the written entries are entries under the same ids. -/
lemma exists_readBack (hitems : orderedEntries kind entries ids = .ok items)
    (htexts : read.map stableText = items.map stableText) :
    ∃ shown : Entries, read = shown.map (fun e => .record e.2) ∧ List.Forall₂ (ReadBack entries) shown ids := by
  induction ids generalizing items read with
  | nil =>
    cases hitems
    rw [map_nil, map_eq_nil_iff] at htexts
    exact ⟨[], htexts, List.Forall₂.nil⟩
  | cons id ids ih =>
    obtain ⟨entry, rest, hentry, hrest, rfl⟩ := orderedEntries_cons_ok hitems
    cases read with
    | nil => cases htexts
    | cons v read =>
      rw [map_cons, map_cons, List.cons.injEq] at htexts
      obtain ⟨fields, rfl, hfld⟩ := exists_record_of_stable htexts.1
      obtain ⟨shown, rfl, hshown⟩ := ih hrest htexts.2
      refine ⟨(id, fields) :: shown, rfl, List.Forall₂.cons ⟨rfl, entry, hentry, fun key => ?_⟩ hshown⟩
      rw [← valueAt_canonicalizeCanvasEntry kind]
      exact hfld key

variable {e : String × Fields} {id key : String}

lemma string_of_readBack (h : ReadBack entries e id) (hkey : key ≠ protoKey) {s : String} {entry : Fields}
    (hentry : valueAt entries id = some entry) (hs : valueAt entry key = some (.string s)) :
    valueAt e.2 key = some (.string s) := by
  obtain ⟨-, other, hother, hsame⟩ := h
  obtain rfl : entry = other := Option.some.inj (hentry.symm.trans hother)
  have hvalue := hsame key
  rw [hs, written, if_neg hkey] at hvalue
  exact eq_string_of_stableJson hvalue rfl

lemma validNode_of_readBack (h : ReadBack entries e id)
    (hents : ∀ id entry, valueAt entries id = some entry → ValidNode (id, entry)) : ValidNode e := by
  have hread := h
  obtain ⟨rfl, entry, hentry, hsame⟩ := h
  have hnode := hents e.1 entry hentry
  constructor
  · exact string_of_readBack hread (by decide) hentry hnode.id
  · exact hnode.type.imp fun _ htype => string_of_readBack hread (by decide) hentry htype
  intro field hfield
  have hkey : field ≠ protoKey := ne_of_mem_of_not_mem hfield (by decide)
  obtain ⟨text, htext⟩ := hnode.numbers field hfield
  have hvalue := hsame field
  rw [htext, written, if_neg hkey] at hvalue
  exact ⟨text, eq_number_of_stableJson hvalue rfl⟩

/-- An entry with the id and the endpoints of an edge, between nodes. -/
lemma validEdge_of_readBack {nodeIds : List String} (h : ReadBack entries e id)
    (hents : ∀ id entry, valueAt entries id = some entry → EdgeFields (id, entry))
    (hfrom : ∀ entry s, valueAt entries id = some entry → valueAt entry "fromNode" = some (.string s) → s ∈ nodeIds)
    (hto : ∀ entry s, valueAt entries id = some entry → valueAt entry "toNode" = some (.string s) → s ∈ nodeIds) :
    ValidEdge nodeIds e := by
  have hread := h
  obtain ⟨rfl, entry, hentry, -⟩ := h
  have hedge := hents e.1 entry hentry
  have hendp : ∀ field ∈ endpointFields, ∃ s, valueAt entry field = some (.string s) ∧
      valueAt e.2 field = some (.string s) := by
    intro field hfield
    have hkey : field ≠ protoKey := ne_of_mem_of_not_mem hfield (by decide)
    obtain ⟨s, hs⟩ := hedge.endpoints field hfield
    exact ⟨s, hs, string_of_readBack hread hkey hentry hs⟩
  refine ⟨⟨?_, ?_⟩, ?_, ?_⟩
  · exact string_of_readBack hread (by decide) hentry hedge.id
  · exact fun field hfield => (hendp field hfield).imp fun _ hs => hs.2
  · obtain ⟨s, hs, hvalue⟩ := hendp "fromNode" (by decide)
    exact ⟨s, hfrom entry s hentry hs, hvalue⟩
  · obtain ⟨s, hs, hvalue⟩ := hendp "toNode" (by decide)
    exact ⟨s, hto entry s hentry hs, hvalue⟩

lemma mem_of_readBack {shown : Entries} (h : List.Forall₂ (ReadBack entries) shown ids) (he : e ∈ shown) :
    ReadBack entries e e.1 := by
  induction h with
  | nil => cases he
  | cons hread _ ih =>
    rcases mem_cons.mp he with rfl | he
    · rw [hread.1]
      exact hread
    · exact ih he

end ReadingBack

/-- Nodes or edges whose edits do not conflict. -/
structure EntriesMergeable (base current device : Entries) : Prop where
  agrees : ∀ id key, (valueAt base id).isSome → (valueAt current id).isSome → (valueAt device id).isSome →
    Agrees stableJson (fieldAt base id key) (fieldAt current id key) (fieldAt device id key)
  added : ∀ id key, valueAt base id = none → (valueAt current id).isSome → (valueAt device id).isSome →
    stableJson (fieldAt current id key) = stableJson (fieldAt device id key)
  deleted : ∀ id key, DeletedUnchanged (valueAt base id) (valueAt current id) (valueAt device id) key

section Collections
variable {kind : CollectionKind} {base current device : Entries}

lemma EntriesMergeable.agrees_all (h : EntriesMergeable base current device) (id key : String) :
    Agrees stableJson (fieldAt base id key) (fieldAt current id key) (fieldAt device id key) := by
  have hagr := h.agrees id key
  have hadded := h.added id key
  have hdel := h.deleted id key
  rw [fieldAt, fieldAt, fieldAt] at *
  cases hbase : valueAt base id with
  | none =>
    cases hcur : valueAt current id with
    | none => exact .inl rfl
    | some c =>
      cases hdev : valueAt device id with
      | none => exact .inr (.inl rfl)
      | some d =>
        rw [hcur, hdev] at hadded
        exact .inr (.inr (hadded hbase rfl rfl))
  | some b =>
    cases hcur : valueAt current id with
    | none =>
      cases hdev : valueAt device id with
      | none => exact .inr (.inr rfl)
      | some d =>
        rw [hbase, hcur, hdev] at hdel
        exact .inr (.inl (hdel.byCurrent rfl rfl rfl))
    | some c =>
      cases hdev : valueAt device id with
      | none =>
        rw [hbase, hcur, hdev] at hdel
        exact .inl (hdel.byDevice rfl rfl rfl)
      | some d =>
        rw [hbase, hcur, hdev] at hagr
        exact hagr rfl rfl rfl

variable (kind) in
lemma exists_mergeCanvasCollection (h : EntriesMergeable base current device)
    (hcur : kind = .node → ∀ id record, valueAt current id = some record → ValidNode (id, record))
    (hdev : kind = .node → ∀ id record, valueAt device id = some record → ValidNode (id, record)) :
    ∃ merged, mergeCanvasCollection kind base current device = .ok merged := by
  refine exists_collect _ fun id _ => ?_
  apply exists_mergeCanvasEntry (h.agrees_all id)
  · exact fun hbase hc hd key => h.added id key hbase hc hd
  · exact h.deleted id
  · exact fun hnode => hcur hnode id
  · exact fun hnode => hdev hnode id

/-- What could be merged passes the check of the result. -/
lemma entryMergeAllowed (h : EntriesMergeable base current device) (id : String) :
    assertCanvasEntryMergeAllowed kind (valueAt base id) (valueAt current id) (valueAt device id) = .ok () := by
  have hagr := h.agrees_all id
  have hadded := h.added id
  have hdel := h.deleted id
  simp only [fieldAt] at hagr hadded
  generalize valueAt base id = base at hagr hadded hdel ⊢
  generalize valueAt current id = current at hagr hadded hdel ⊢
  generalize valueAt device id = device at hagr hadded hdel ⊢
  rcases base with _ | base <;> rcases current with _ | current <;> rcases device with _ | device
  · rfl
  · rfl
  · rfl
  · rw [assertCanvasEntryMergeAllowed, if_neg]
    · rfl
    intro hany
    obtain ⟨key, -, hkey⟩ := any_eq_true.mp hany
    simp only [Bool.and_eq_true, decide_eq_true_eq, ne_eq] at hkey
    exact hkey.2 (stableJson_propertyOf_congr (hadded key rfl rfl rfl))
  · rfl
  · have hsame : objectChanged base device = false :=
      objectChanged_eq_false_of_same fun key => (hdel key).byCurrent rfl rfl rfl
    rw [assertCanvasEntryMergeAllowed, hsame]
    rfl
  · have hsame : objectChanged base current = false :=
      objectChanged_eq_false_of_same fun key => (hdel key).byDevice rfl rfl rfl
    rw [assertCanvasEntryMergeAllowed, hsame]
    rfl
  · rw [assertCanvasEntryMergeAllowed, if_neg]
    · rfl
    intro hany
    obtain ⟨key, hcur, hkey⟩ := any_eq_true.mp hany
    simp only [Bool.and_eq_true, decide_eq_true_eq, ne_eq, contains_iff_mem] at hkey
    have hcurC := (mem_changedObjectKeys.mp hcur).2
    have hdevC := (mem_changedObjectKeys.mp hkey.1).2
    rcases agrees_propertyOf (hagr key) with hsame | hsame | hsame
    · exact hcurC hsame.symm
    · exact hdevC hsame.symm
    · exact hkey.2 hsame

lemma collectionMergeAllowed (h : EntriesMergeable base current device) (ids : List String) :
    assertCanvasCollectionMergeAllowed kind base current device ids = .ok () := by
  induction ids with
  | nil => rfl
  | cons id ids ih => exact bind_eq_ok.mpr ⟨(), entryMergeAllowed h id, ih⟩

end Collections

/-- The merged edges are between merged nodes. -/
def EndpointsMerged (base current device : JsonCanvas) : Prop :=
  ∀ id, Survives (edgeOrder base) (edgeOrder current) (edgeOrder device) id → ∀ field ∈ ["fromNode", "toNode"], ∀ s,
      choose stableJson (fieldAt base.edges id field) (fieldAt current.edges id field)
        (fieldAt device.edges id field) = some (.string s) →
      Survives (nodeOrder base) (nodeOrder current) (nodeOrder device) s

/-- Three documents whose edits do not conflict, whatever their orders. -/
structure ContentsMergeable (text : JsonText) (baseText currentText deviceText : String)
    (base current device : JsonCanvas) : Prop where
  nodes : EntriesMergeable base.nodes current.nodes device.nodes
  edges : EntriesMergeable base.edges current.edges device.edges
  root : ∀ key, isCollectionField key = false →
    Agrees stableJson (valueAt (rootRecord text baseText) key) (valueAt (rootRecord text currentText) key)
      (valueAt (rootRecord text deviceText) key)
  endpoints : EndpointsMerged base current device

/-- Three documents whose edits do not conflict, and whose merged edges are between merged nodes. -/
structure Mergeable (text : JsonText) (baseText currentText deviceText : String)
    (base current device : JsonCanvas) : Prop
    extends ContentsMergeable text baseText currentText deviceText base current device where
  nodeOrders : OrderMergeable (nodeOrder base) (nodeOrder current) (nodeOrder device)
  edgeOrders : OrderMergeable (edgeOrder base) (edgeOrder current) (edgeOrder device)

/-- Neither the nodes nor the edges are in contested orders. -/
structure OrdersUncontested (base current device : JsonCanvas) : Prop where
  nodes : OrderUncontested (nodeOrder base) (nodeOrder current) (nodeOrder device)
  edges : OrderUncontested (edgeOrder base) (edgeOrder current) (edgeOrder device)

section Merge
variable {text : JsonText} {baseText currentText deviceText result : String}
  {base current device merged : JsonCanvas} {parts : Parts}

lemma Mergeable.orders (h : Mergeable text baseText currentText deviceText base current device) :
    OrdersUncontested base current device := ⟨h.nodeOrders.uncontested, h.edgeOrders.uncontested⟩

/-- The merged ids in the order they are written in. -/
lemma Computes.orders (hparts : Computes text baseText currentText deviceText base current device parts)
    (hbase : ValidCanvas base) (hcur : ValidCanvas current) (hdev : ValidCanvas device) :
    parts.nodeIds = integrated (nodeOrder base) (nodeOrder current) (nodeOrder device) (parts.nodes.map Prod.fst) ∧
      parts.edgeIds
        = integrated (edgeOrder base) (edgeOrder current) (edgeOrder device) (parts.edges.map Prod.fst) := by
  constructor
  · exact ((mergeCanvasOrder_iff (mem_mergedIds hparts.nodes) hbase.nodeIds hcur.nodeIds
      hdev.nodeIds).mp hparts.nodeIds).2
  · exact ((mergeCanvasOrder_iff (mem_mergedIds hparts.edges) hbase.edgeIds hcur.edgeIds
      hdev.edgeIds).mp hparts.edgeIds).2

/-- A merge without conflicts gets to its document. -/
lemma exists_computes (hsrcs : Sources text baseText currentText deviceText base current device)
    (h : ContentsMergeable text baseText currentText deviceText base current device)
    (hord : OrdersUncontested base current device) :
    ∃ parts, Computes text baseText currentText deviceText base current device parts := by
  obtain ⟨hbase, hcur, hdev⟩ := hsrcs.valid
  obtain ⟨nodes, hnodes⟩ := exists_mergeCanvasCollection .node h.nodes
    (fun _ _ _ hvalue => validNode_of_valueAt hcur hvalue)
    (fun _ _ _ hvalue => validNode_of_valueAt hdev hvalue)
  obtain ⟨edges, hedges⟩ := exists_mergeCanvasCollection .edge h.edges
    nofun nofun
  obtain ⟨root, hroot⟩ := exists_mergeCanvasRootFields h.root
  have hnids := exists_mergeCanvasOrder .node (mem_mergedIds hnodes) hbase.nodeIds hcur.nodeIds
    hdev.nodeIds hord.nodes
  have heids := exists_mergeCanvasOrder .edge (mem_mergedIds hedges) hbase.edgeIds hcur.edgeIds
    hdev.edgeIds hord.edges
  obtain ⟨nodeItems, hnodI⟩ : ∃ items, orderedEntries .node nodes _ = .ok items :=
    exists_orderedEntries fun id hid => isSome_valueAt.mpr ((mem_integrated (mem_mergedIds hnodes)).mp hid)
  obtain ⟨edgeItems, hedgI⟩ : ∃ items, orderedEntries .edge edges _ = .ok items :=
    exists_orderedEntries fun id hid => isSome_valueAt.mpr ((mem_integrated (mem_mergedIds hedges)).mp hid)
  exact ⟨⟨nodes, edges, _, _, root, nodeItems, edgeItems⟩, ⟨hnodes, hedges, hnids, heids, hroot, hnodI, hedgI⟩⟩

/-- The document of a merge whose edges are between its nodes is a valid canvas. -/
lemma exists_merged (hround : text.RoundTrips)
    (hsrcs : Sources text baseText currentText deviceText base current device)
    (h : EndpointsMerged base current device)
    (hparts : Computes text baseText currentText deviceText base current device parts) :
    ∃ merged, assertValidJsonCanvas text (text.stringify parts.document ++ "\n") = .ok merged := by
  obtain ⟨hbase, hcur, hdev⟩ := hsrcs.valid
  obtain ⟨hnids, heids⟩ := Computes.orders hparts hbase hcur hdev
  obtain ⟨w, hw, hsame⟩ := hround parts.document
  obtain ⟨record, rfl, hfld⟩ := exists_record_of_stable hsame
  have harray : ∀ (key : String) (items : List Json),
      stableJson (valueAt record key) = stableJson (some (.array items)) →
      ∃ read, valueAt record key = some (.array read) ∧ read.map stableText = items.map stableText := by
    intro key items htext
    cases hvalue : valueAt record key with
    | none =>
      rw [hvalue] at htext
      cases htext
    | some v =>
      rw [hvalue] at htext
      obtain ⟨read, rfl, htexts⟩ := exists_array_of_stable (Option.some.inj htext)
      exact ⟨read, rfl, htexts⟩
  obtain ⟨nodeItems, hnodV, hnodT⟩ := harray "nodes" parts.nodeItems (hfld "nodes")
  obtain ⟨edgeItems, hedgV, hedgT⟩ := harray "edges" parts.edgeItems (hfld "edges")
  obtain ⟨nodes, rfl, hnodes⟩ := exists_readBack hparts.nodeItems hnodT
  obtain ⟨edges, rfl, hedges⟩ := exists_readBack hparts.edgeItems hedgT
  have hnord : nodes.map Prod.fst = parts.nodeIds := ids_of_readBack hnodes
  have heord : edges.map Prod.fst = parts.edgeIds := ids_of_readBack hedges
  have hentry : ∀ id entry, valueAt parts.edges id = some entry →
      EntryMerge (valueAt base.edges id) (valueAt current.edges id) (valueAt device.edges id) (some entry) := by
    intro id entry hentry
    rw [← hentry]
    exact mergeCanvasCollection_ok hparts.edges id
  have hendp : ∀ field ∈ ["fromNode", "toNode"], ∀ id entry s, valueAt parts.edges id = some entry →
      valueAt entry field = some (.string s) → s ∈ nodes.map Prod.fst := by
    intro field hfield id entry s hvalue hs
    have hkey : field ≠ protoKey := ne_of_mem_of_not_mem hfield (by decide)
    have hsurv : Survives (edgeOrder base) (edgeOrder current) (edgeOrder device) id := by
      rw [edgeOrder, edgeOrder, edgeOrder, ← mem_mergedIds hparts.edges, ← isSome_valueAt, hvalue]
      rfl
    have hchos := (hentry id entry hvalue).fields field hkey rfl
    rw [hnord, hnids]
    apply (mem_integrated (mem_mergedIds hparts.nodes)).mpr
    apply (mem_mergedIds hparts.nodes s).mpr
    exact h id hsurv field hfield s (eq_string_of_stableJson hchos.symm hs)
  refine ⟨⟨nodes, edges⟩, assertValidJsonCanvas_iff.mpr ⟨record, hw, ⟨hnodV, hedgV⟩, ?_⟩⟩
  constructor
  · intro e he
    apply validNode_of_readBack (mem_of_readBack hnodes he)
    intro id entry hvalue
    have hmerge := mergeCanvasCollection_ok hparts.nodes id
    rw [hvalue] at hmerge
    exact validNode_of_merge hcur hdev hmerge
  · rw [nodeOrder, hnord, hnids]
    exact nodup_integrated hbase.nodeIds hcur.nodeIds hdev.nodeIds
  · intro e he
    apply validEdge_of_readBack (mem_of_readBack hedges he)
    · exact fun id entry hvalue => edgeFields_of_merge hcur hdev (hentry id entry hvalue)
    · exact hendp "fromNode" (by decide) e.1
    · exact hendp "toNode" (by decide) e.1
  · rw [edgeOrder, heord, heids]
    exact nodup_integrated hbase.edgeIds hcur.edgeIds hdev.edgeIds

lemma assertCanvasMergeAllowed_iff (hsrcs : Sources text baseText currentText deviceText base current device)
    (h : ContentsMergeable text baseText currentText deviceText base current device)
    (hparts : Computes text baseText currentText deviceText base current device parts)
    (hread : ReadsBack text result parts merged) : assertCanvasMergeAllowed base current device merged = .ok () ↔
      OrderAccepted (nodeOrder base) (nodeOrder current) (nodeOrder device) ∧
        OrderAccepted (edgeOrder base) (edgeOrder current) (edgeOrder device) := by
  obtain ⟨hbase, hcur, hdev⟩ := hsrcs.valid
  obtain ⟨hnids, heids⟩ := Computes.orders hparts hbase hcur hdev
  have hnord : nodeOrder merged = _ := (ids_of_readBack hread.nodes).trans hnids
  have heord : edgeOrder merged = _ := (ids_of_readBack hread.edges).trans heids
  have hnodes := assertCanvasOrderMergeAllowed_iff .node (mem_mergedIds hparts.nodes)
  have hedges := assertCanvasOrderMergeAllowed_iff .edge (mem_mergedIds hparts.edges)
  rw [assertCanvasMergeAllowed, hnord, heord]
  constructor
  · intro halw
    obtain ⟨_, -, halw⟩ := bind_eq_ok.mp halw
    obtain ⟨_, -, halw⟩ := bind_eq_ok.mp halw
    obtain ⟨_, hnod, hedg⟩ := bind_eq_ok.mp halw
    exact ⟨hnodes.mp hnod, hedges.mp hedg⟩
  · rintro ⟨hnodA, hedgA⟩
    refine bind_eq_ok.mpr ⟨(), collectionMergeAllowed h.nodes _, ?_⟩
    refine bind_eq_ok.mpr ⟨(), collectionMergeAllowed h.edges _, ?_⟩
    exact bind_eq_ok.mpr ⟨(), hnodes.mpr hnodA, hedges.mpr hedgA⟩

lemma accepted_of_returns (hround : text.RoundTrips)
    (hsrcs : Sources text baseText currentText deviceText base current device)
    (h : Mergeable text baseText currentText deviceText base current device)
    (hres : semanticMergeCanvasFile text baseText currentText deviceText = .ok result) :
    OrderAccepted (nodeOrder base) (nodeOrder current) (nodeOrder device) ∧
      OrderAccepted (edgeOrder base) (edgeOrder current) (edgeOrder device) := by
  obtain ⟨parts, merged, hparts, rfl, hmerged, halw⟩ := (semanticMergeCanvasFile_ok hsrcs).mp hres
  exact (assertCanvasMergeAllowed_iff hsrcs h.toContentsMergeable hparts
    (readsBack hround hsrcs hparts hmerged)).mp halw

lemma returns_of_accepted (hround : text.RoundTrips)
    (hsrcs : Sources text baseText currentText deviceText base current device)
    (h : ContentsMergeable text baseText currentText deviceText base current device)
    (hord : OrdersUncontested base current device)
    (hnodes : OrderAccepted (nodeOrder base) (nodeOrder current) (nodeOrder device))
    (hedges : OrderAccepted (edgeOrder base) (edgeOrder current) (edgeOrder device)) :
    ∃ result, semanticMergeCanvasFile text baseText currentText deviceText = .ok result := by
  obtain ⟨parts, hparts⟩ := exists_computes hsrcs h hord
  obtain ⟨merged, hmerged⟩ := exists_merged hround hsrcs h.endpoints hparts
  have halw := (assertCanvasMergeAllowed_iff hsrcs h hparts
    (readsBack hround hsrcs hparts hmerged)).mpr ⟨hnodes, hedges⟩
  exact ⟨_, (semanticMergeCanvasFile_ok hsrcs).mpr ⟨parts, merged, hparts, rfl, hmerged, halw⟩⟩

/-- A merge without conflicts returns just when its last check accepts the orders of the three documents. -/
theorem returns_iff (hround : text.RoundTrips)
    (hsources : Sources text baseText currentText deviceText base current device)
    (h : Mergeable text baseText currentText deviceText base current device) :
    (∃ result, semanticMergeCanvasFile text baseText currentText deviceText = .ok result) ↔
      OrderAccepted (nodeOrder base) (nodeOrder current) (nodeOrder device) ∧
        OrderAccepted (edgeOrder base) (edgeOrder current) (edgeOrder device) := by
  constructor
  · rintro ⟨result, hres⟩
    exact accepted_of_returns hround hsources h hres
  · rintro ⟨hnodes, hedges⟩
    exact returns_of_accepted hround hsources h.toContentsMergeable h.orders hnodes hedges

end Merge

/-- Neither side reorders the surviving ids of the base, and no id is added by both. -/
structure InBaseOrder (base current device : List String) : Prop where
  ofCurrent : current.filter (fun id => id ∈ base ∧ Survives base current device id)
    = base.filter fun id => Survives base current device id
  ofDevice : device.filter (fun id => id ∈ base ∧ Survives base current device id)
    = base.filter fun id => Survives base current device id
  apart : ∀ id ∉ base, id ∈ current → id ∉ device

/-- The merged order keeps the order of each side, and is the device's where the other side has the base's. -/
structure OrderKept (base current device merged : List String) : Prop where
  sides : KeepsSideOrders current device merged
  ofDevice : current = base → merged = device

/-- The first surviving id of the base is the empty one, and the side has an addition before it. -/
structure AddsBeforeEmpty (base current device side : List String) : Prop where
  first : base.find? (fun id => Survives base current device id) = some ""
  addition : ∃ id, side.find? (fun id => Survives base current device id) = some id ∧ id ∉ base

section Order
variable {base current device mergedIds side : List String}

section
variable (hmerged : ∀ x, x ∈ mergedIds ↔ Survives base current device x)
include hmerged

lemma keepsBaseOrder_iff : KeepsBaseOrder base side mergedIds ↔
      side.filter (fun id => id ∈ base ∧ Survives base current device id)
        = base.filter fun id => Survives base current device id := by
  rw [KeepsBaseOrder]
  simp only [mem_survivors, hmerged]
  rw [survivors_eq hmerged]

lemma leadsEmpty_iff (hside : KeepsBaseOrder base side mergedIds) :
    LeadsEmpty base mergedIds side ↔ AddsBeforeEmpty base current device side := by
  have hfirst := find?_survivors hside
  simp only [hmerged] at hfirst
  constructor
  · rintro ⟨hbase, hadd⟩
    simp only [hmerged] at hbase hadd
    exact ⟨hfirst.symm.trans hbase, hadd⟩
  rintro ⟨hbase, hadd⟩
  constructor
  · simp only [hmerged]
    exact hfirst.trans hbase
  · simpa only [hmerged] using hadd

/-- The orders of the sides are kept unless a side adds an id before an empty first one. -/
lemma orderKept_integrated_iff (hcur : current.Nodup) (hdev : device.Nodup) (h : InBaseOrder base current device) :
    OrderKept base current device (integrated base current device mergedIds) ↔
      ¬ AddsBeforeEmpty base current device current ∧ ¬ AddsBeforeEmpty base current device device := by
  have hcord := (keepsBaseOrder_iff hmerged).mpr h.ofCurrent
  have hdord := (keepsBaseOrder_iff hmerged).mpr h.ofDevice
  have hsides := keepsSideOrders_iff hcur hdev hcord hdord h.apart
  rw [leadsEmpty_iff hmerged hcord, leadsEmpty_iff hmerged hdord] at hsides
  constructor
  · exact fun hkept => hsides.mp hkept.sides
  intro hfree
  have hkept := hsides.mpr hfree
  refine ⟨hkept, fun hsame => ?_⟩
  subst hsame
  have hids : ∀ x, x ∈ integrated current current device mergedIds ↔ x ∈ device := by
    intro x
    rw [mem_integrated hmerged, hmerged, Survives]
    by_cases hx : x ∈ current <;> simp [hx]
  have hres : (integrated current current device mergedIds).filter (fun id => id ∈ device)
      = integrated current current device mergedIds := by
    rw [filter_eq_self]
    exact fun x hx => by simpa using (hids x).mp hx
  have hside : device.filter (fun id => id ∈ integrated current current device mergedIds) = device := by
    rw [filter_eq_self]
    exact fun x hx => by simpa using (hids x).mpr hx
  exact hres.symm.trans (hkept.device.trans hside)

end

end Order

section Merge
variable {text : JsonText} {baseText currentText deviceText result : String}
  {base current device merged : JsonCanvas}

/-- Each order of a returned canvas keeps the orders of its sides where no addition comes before an empty id. -/
lemma orderKept_merged_iff (hround : text.RoundTrips)
    (hsrcs : Sources text baseText currentText deviceText base current device)
    (h : semanticMergeCanvasFile text baseText currentText deviceText = .ok result)
    (hmerged : assertValidJsonCanvas text result = .ok merged) :
    (InBaseOrder (nodeOrder base) (nodeOrder current) (nodeOrder device) →
      (OrderKept (nodeOrder base) (nodeOrder current) (nodeOrder device) (nodeOrder merged) ↔
        ¬ AddsBeforeEmpty (nodeOrder base) (nodeOrder current) (nodeOrder device) (nodeOrder current) ∧
          ¬ AddsBeforeEmpty (nodeOrder base) (nodeOrder current) (nodeOrder device) (nodeOrder device))) ∧
      (InBaseOrder (edgeOrder base) (edgeOrder current) (edgeOrder device) →
        (OrderKept (edgeOrder base) (edgeOrder current) (edgeOrder device) (edgeOrder merged) ↔
          ¬ AddsBeforeEmpty (edgeOrder base) (edgeOrder current) (edgeOrder device) (edgeOrder current) ∧
            ¬ AddsBeforeEmpty (edgeOrder base) (edgeOrder current) (edgeOrder device) (edgeOrder device))) := by
  obtain ⟨parts, other, hparts, rfl, hother, -⟩ := (semanticMergeCanvasFile_ok hsrcs).mp h
  obtain rfl : merged = other := Except.ok.inj (hmerged.symm.trans hother)
  obtain ⟨hbase, hcur, hdev⟩ := hsrcs.valid
  obtain ⟨hnids, heids⟩ := Computes.orders hparts hbase hcur hdev
  have hread := readsBack hround hsrcs hparts hmerged
  have hnord : nodeOrder merged = _ := (ids_of_readBack hread.nodes).trans hnids
  have heord : edgeOrder merged = _ := (ids_of_readBack hread.edges).trans heids
  rw [hnord, heord]
  constructor
  · exact orderKept_integrated_iff (mem_mergedIds hparts.nodes) hcur.nodeIds hdev.nodeIds
  · exact orderKept_integrated_iff (mem_mergedIds hparts.edges) hcur.edgeIds hdev.edgeIds

/-- The merged orders of nodes and of edges keep the orders of both sides just when no side adds an id before an
empty first one. -/
theorem ordersKept_iff (hround : text.RoundTrips)
    (hsources : Sources text baseText currentText deviceText base current device)
    (h : semanticMergeCanvasFile text baseText currentText deviceText = .ok result)
    (hmerged : assertValidJsonCanvas text result = .ok merged)
    (hnodes : InBaseOrder (nodeOrder base) (nodeOrder current) (nodeOrder device))
    (hedges : InBaseOrder (edgeOrder base) (edgeOrder current) (edgeOrder device)) :
    (OrderKept (nodeOrder base) (nodeOrder current) (nodeOrder device) (nodeOrder merged) ∧
        OrderKept (edgeOrder base) (edgeOrder current) (edgeOrder device) (edgeOrder merged)) ↔
      ∀ side ∈ [current, device],
        ¬ AddsBeforeEmpty (nodeOrder base) (nodeOrder current) (nodeOrder device) (nodeOrder side) ∧
          ¬ AddsBeforeEmpty (edgeOrder base) (edgeOrder current) (edgeOrder device) (edgeOrder side) := by
  obtain ⟨hnodK, hedgK⟩ := orderKept_merged_iff hround hsources h hmerged
  rw [hnodK hnodes, hedgK hedges]
  simp only [forall_mem_cons, not_mem_nil, IsEmpty.forall_iff, implies_true, and_true]
  constructor
  · rintro ⟨⟨hnodC, hnodD⟩, hedgC, hedgD⟩
    exact ⟨⟨hnodC, hedgC⟩, hnodD, hedgD⟩
  · rintro ⟨⟨hnodC, hedgC⟩, hnodD, hedgD⟩
    exact ⟨⟨hnodC, hnodD⟩, hedgC, hedgD⟩

end Merge

section Samples

def zero : Json := .number (.finite ⟨['0'], by decide, List.forall_mem_singleton.mpr rfl⟩)

def sampleNode (id : String) : Fields :=
  [("id", .string id), ("type", .string "text"), ("x", zero), ("y", zero), ("width", zero), ("height", zero)]

variable (ids : List String)

def sampleCanvas : JsonCanvas := ⟨ids.map fun id => (id, sampleNode id), []⟩

def sampleRecord : Fields :=
  [("nodes", .array (ids.map fun id => .record (sampleNode id))), ("edges", .array [])]

def sampleNodeLines (id : String) : String :=
  "\n    \x7b\n      \"id\": \"" ++ id ++ "\",\n      \"type\": \"text\",\n      \"x\": 0,\n      \"y\": 0,\n" ++
    "      \"width\": 0,\n      \"height\": 0\n    \x7d"

/-- `JSON.stringify` of the record with an indentation of two, where it has nodes. -/
def sampleFile : String :=
  "\x7b\n  \"nodes\": [" ++ String.intercalate "," (ids.map sampleNodeLines) ++ "\n  ],\n  \"edges\": []\n\x7d"

noncomputable def sampleText (canvases : List (List String)) : JsonText :=
  recordedText (canvases.map fun ids => (sampleFile ids, .record (sampleRecord ids)))

variable {canvases : List (List String)} {base current device ids : List String}

lemma indented_sampleFile (ids : List String) : Indented (sampleFile ids) := by
  rw [Indented, sampleFile, String.append_assoc, String.toList_append]
  rfl

lemma roundTrips_sampleText (hdist : (canvases.map sampleFile).Nodup) : (sampleText canvases).RoundTrips := by
  apply roundTrips_recordedText
  · simpa [Function.comp_def] using hdist
  intro e he
  obtain ⟨ids, -, rfl⟩ := mem_map.mp he
  exact (indented_sampleFile ids).ne_stableText

lemma parse_sampleText (hdist : (canvases.map sampleFile).Nodup) (hids : ids ∈ canvases) :
    (sampleText canvases).parse (sampleFile ids ++ "\n") = some (.record (sampleRecord ids)) := by
  have hmem : (sampleFile ids, Tree.record (sampleRecord ids))
      ∈ canvases.map fun ids => (sampleFile ids, Tree.record (sampleRecord ids)) := mem_map_of_mem hids
  refine parse_recordedText ?_ hmem
  simpa [Function.comp_def] using hdist

variable {text : JsonText} {baseText currentText deviceText id : String}

/-- A file that is read as canvas of text nodes. -/
lemma assertValid_record {file : String} (hparse : text.parse file = some (.record (sampleRecord ids)))
    (hnodup : ids.Nodup) : assertValidJsonCanvas text file = .ok (sampleCanvas ids) := by
  refine assertValidJsonCanvas_iff.mpr ⟨_, hparse, ⟨?_, rfl⟩, ?_⟩
  · simp [sampleRecord, sampleCanvas, valueAt, Function.comp_def]
  constructor
  · intro e he
    obtain ⟨id, -, rfl⟩ := mem_map.mp he
    refine ⟨rfl, ⟨_, rfl⟩, fun field hfield => ?_⟩
    simp only [requiredNumbers, mem_cons, not_mem_nil, or_false] at hfield
    rcases hfield with rfl | rfl | rfl | rfl <;> exact ⟨_, rfl⟩
  · simpa [nodeOrder, sampleCanvas, Function.comp_def] using hnodup
  · exact forall_mem_nil _
  · exact nodup_nil

lemma assertValid_sample (hdist : (canvases.map sampleFile).Nodup) (hids : ids ∈ canvases) (hnodup : ids.Nodup) :
    assertValidJsonCanvas (sampleText canvases) (sampleFile ids ++ "\n") = .ok (sampleCanvas ids) :=
  assertValid_record (parse_sampleText hdist hids) hnodup

lemma sources_sample (hdist : (canvases.map sampleFile).Nodup) (hbase : base ∈ canvases) (hcur : current ∈ canvases)
    (hdev : device ∈ canvases) (hnodup : base.Nodup ∧ current.Nodup ∧ device.Nodup) :
    Sources (sampleText canvases) (sampleFile base ++ "\n") (sampleFile current ++ "\n") (sampleFile device ++ "\n")
      (sampleCanvas base) (sampleCanvas current) (sampleCanvas device) :=
  ⟨assertValid_sample hdist hbase hnodup.1, assertValid_sample hdist hcur hnodup.2.1,
    assertValid_sample hdist hdev hnodup.2.2⟩

@[simp] lemma nodeOrder_sampleCanvas (ids : List String) : nodeOrder (sampleCanvas ids) = ids := by
  simp [nodeOrder, sampleCanvas, Function.comp_def]

@[simp] lemma edgeOrder_sampleCanvas (ids : List String) : edgeOrder (sampleCanvas ids) = [] := rfl

lemma valueAt_sampleCanvas {record : Fields}
    (h : valueAt (sampleCanvas ids).nodes id = some record) : record = sampleNode id := by
  obtain ⟨other, -, heq⟩ := mem_map.mp (mem_of_valueAt h)
  cases heq
  rfl

/-- Nodes of the same id are the same. -/
lemma fieldAt_sampleCanvas {key : String} (hcur : (valueAt (sampleCanvas current).nodes id).isSome)
    (hdev : (valueAt (sampleCanvas device).nodes id).isSome) :
    fieldAt (sampleCanvas current).nodes id key = fieldAt (sampleCanvas device).nodes id key := by
  obtain ⟨c, hc⟩ := Option.isSome_iff_exists.mp hcur
  obtain ⟨d, hd⟩ := Option.isSome_iff_exists.mp hdev
  rw [fieldAt, fieldAt, hc, hd, valueAt_sampleCanvas hc, valueAt_sampleCanvas hd]

variable (deviceText device) in
lemma contents_of_parse (hbase : text.parse baseText = some (.record (sampleRecord base)))
    (hcur : text.parse currentText = some (.record (sampleRecord current))) :
    ContentsMergeable text baseText currentText deviceText (sampleCanvas base) (sampleCanvas current)
      (sampleCanvas device) := by
  constructor
  · constructor
    · exact fun id key hb hc _ => .inl (congrArg stableJson (fieldAt_sampleCanvas hc hb))
    · exact fun id key _ hc hd => congrArg stableJson (fieldAt_sampleCanvas hc hd)
    · intro id key
      exact ⟨fun hb _ hd => congrArg stableJson (fieldAt_sampleCanvas hd hb),
        fun hb _ hc => congrArg stableJson (fieldAt_sampleCanvas hc hb)⟩
  · constructor
    · exact fun id key hb => nomatch hb
    · exact fun id key _ hc => nomatch hc
    · exact fun id key => ⟨fun hb => (nomatch hb), fun hb => (nomatch hb)⟩
  · intro key hkey
    have hne : key ≠ "nodes" ∧ key ≠ "edges" := by simpa [isCollectionField] using hkey
    have hnone : ∀ ids, valueAt (sampleRecord ids) key = none := by
      intro ids
      rw [valueAt_eq_none]
      simp [sampleRecord, hne.1, hne.2]
    rw [rootRecord, rootRecord, hbase, hcur]
    rw [hnone, hnone]
    exact .inl rfl
  · intro id hsurv
    simp [Survives] at hsurv

lemma mergeable_sample (hdist : (canvases.map sampleFile).Nodup) (hbase : base ∈ canvases)
    (hcur : current ∈ canvases) (horder : OrderMergeable base current device) :
    Mergeable (sampleText canvases) (sampleFile base ++ "\n") (sampleFile current ++ "\n")
      (sampleFile device ++ "\n") (sampleCanvas base) (sampleCanvas current) (sampleCanvas device) := by
  have hcont := contents_of_parse device (sampleFile device ++ "\n") (parse_sampleText hdist hbase)
    (parse_sampleText hdist hcur)
  refine { hcont with nodeOrders := ?_, edgeOrders := .inl rfl }
  simpa using horder

/-- Three canvases of which the sides delete different nodes, and their files. -/
def deletions : List (List String) := [["a", "b", "c"], ["b", "c"], ["a", "b"]]

lemma deletions_distinct : (deletions.map sampleFile).Nodup := by decide +kernel

lemma deletions_roundTrips : (sampleText deletions).RoundTrips :=
  roundTrips_sampleText deletions_distinct

lemma deletions_sources : Sources (sampleText deletions) (sampleFile ["a", "b", "c"] ++ "\n")
    (sampleFile ["b", "c"] ++ "\n") (sampleFile ["a", "b"] ++ "\n") (sampleCanvas ["a", "b", "c"])
    (sampleCanvas ["b", "c"]) (sampleCanvas ["a", "b"]) :=
  sources_sample deletions_distinct (by decide) (by decide) (by decide) (by decide)

lemma deletions_mergeable : Mergeable (sampleText deletions) (sampleFile ["a", "b", "c"] ++ "\n")
    (sampleFile ["b", "c"] ++ "\n") (sampleFile ["a", "b"] ++ "\n") (sampleCanvas ["a", "b", "c"])
    (sampleCanvas ["b", "c"]) (sampleCanvas ["a", "b"]) :=
  mergeable_sample deletions_distinct (by decide) (by decide) (.inl (by decide))

lemma deletions_not_accepted : ¬ OrderAccepted ["a", "b", "c"] ["b", "c"] ["a", "b"] := by
  intro h
  exact absurd h.sides (by decide)

/-- Different nodes deleted on the two sides are no conflict, and yet the merge fails. -/
theorem disjointDeletions_fail :
    ¬ ∀ (text : JsonText) (baseText currentText deviceText : String) (base current device : JsonCanvas),
      text.RoundTrips → Sources text baseText currentText deviceText base current device →
      Mergeable text baseText currentText deviceText base current device →
      ∃ result, semanticMergeCanvasFile text baseText currentText deviceText = .ok result := by
  intro hclaim
  obtain ⟨result, hres⟩ := hclaim _ _ _ _ _ _ _ deletions_roundTrips deletions_sources deletions_mergeable
  have hacc := accepted_of_returns deletions_roundTrips deletions_sources deletions_mergeable hres
  exact deletions_not_accepted hacc.1

theorem disjointDeletions_not_returned :
    ¬ ∃ result, semanticMergeCanvasFile (sampleText deletions) (sampleFile ["a", "b", "c"] ++ "\n")
      (sampleFile ["b", "c"] ++ "\n") (sampleFile ["a", "b"] ++ "\n") = .ok result := by
  intro hret
  have hacc := (returns_iff deletions_roundTrips deletions_sources deletions_mergeable).mp hret
  exact deletions_not_accepted hacc.1

/-- A node that is added before a node of the empty id, and the order that the merge gives them. -/
def addition : List (List String) := [[""], ["x", ""], ["", "x"]]

lemma addition_distinct : (addition.map sampleFile).Nodup := by decide +kernel

lemma addition_roundTrips : (sampleText addition).RoundTrips := roundTrips_sampleText addition_distinct

lemma addition_sources : Sources (sampleText addition) (sampleFile [""] ++ "\n") (sampleFile [""] ++ "\n")
    (sampleFile ["x", ""] ++ "\n") (sampleCanvas [""]) (sampleCanvas [""]) (sampleCanvas ["x", ""]) :=
  sources_sample addition_distinct (by decide) (by decide) (by decide) (by decide)

lemma addition_mergeable : Mergeable (sampleText addition) (sampleFile [""] ++ "\n") (sampleFile [""] ++ "\n")
    (sampleFile ["x", ""] ++ "\n") (sampleCanvas [""]) (sampleCanvas [""]) (sampleCanvas ["x", ""]) :=
  mergeable_sample addition_distinct (by decide) (by decide) (.inl (by decide))

lemma addition_returns : ∃ result merged, semanticMergeCanvasFile (sampleText addition) (sampleFile [""] ++ "\n")
    (sampleFile [""] ++ "\n") (sampleFile ["x", ""] ++ "\n") = .ok result ∧
      assertValidJsonCanvas (sampleText addition) result = .ok merged := by
  obtain ⟨result, hres⟩ : ∃ result, semanticMergeCanvasFile (sampleText addition) (sampleFile [""] ++ "\n")
      (sampleFile [""] ++ "\n") (sampleFile ["x", ""] ++ "\n") = .ok result := by
    refine returns_of_accepted addition_roundTrips addition_sources addition_mergeable.toContentsMergeable
      addition_mergeable.orders ?_ ?_
    · exact ⟨.inl (by decide), .inl (by decide)⟩
    · exact ⟨.inl rfl, .inl rfl⟩
  obtain ⟨parts, merged, -, -, hmerged, -⟩ := (semanticMergeCanvasFile_ok addition_sources).mp hres
  exact ⟨result, merged, hres, hmerged⟩

lemma addition_inBaseOrder : InBaseOrder (nodeOrder (sampleCanvas [""])) (nodeOrder (sampleCanvas [""]))
    (nodeOrder (sampleCanvas ["x", ""])) := by
  constructor
  · decide
  · decide
  · exact fun id hnew hin => absurd hin hnew

lemma addition_noEdges : InBaseOrder (edgeOrder (sampleCanvas [""])) (edgeOrder (sampleCanvas [""]))
    (edgeOrder (sampleCanvas ["x", ""])) := by
  constructor
  · rfl
  · rfl
  · exact fun id _ hin => nomatch hin

lemma addition_beforeEmpty : AddsBeforeEmpty (nodeOrder (sampleCanvas [""])) (nodeOrder (sampleCanvas [""]))
    (nodeOrder (sampleCanvas ["x", ""])) (nodeOrder (sampleCanvas ["x", ""])) := by
  exact ⟨by decide, "x", by decide, by decide⟩

/-- The merge moves an addition behind the node that it came before. -/
theorem emptyId_misplaces_addition : ¬ ∀ (text : JsonText) (baseText currentText deviceText result : String)
        (base current device merged : JsonCanvas), text.RoundTrips →
      Sources text baseText currentText deviceText base current device →
      semanticMergeCanvasFile text baseText currentText deviceText = .ok result →
      assertValidJsonCanvas text result = .ok merged →
      InBaseOrder (nodeOrder base) (nodeOrder current) (nodeOrder device) →
      InBaseOrder (edgeOrder base) (edgeOrder current) (edgeOrder device) →
      OrderKept (nodeOrder base) (nodeOrder current) (nodeOrder device) (nodeOrder merged) ∧
        OrderKept (edgeOrder base) (edgeOrder current) (edgeOrder device) (edgeOrder merged) := by
  intro hclaim
  obtain ⟨result, merged, hres, hmerged⟩ := addition_returns
  have hkept := hclaim _ _ _ _ _ _ _ _ _ addition_roundTrips addition_sources hres hmerged addition_inBaseOrder
    addition_noEdges
  have hord := orderKept_merged_iff addition_roundTrips addition_sources hres hmerged
  exact ((hord.1 addition_inBaseOrder).mp hkept.1).2 addition_beforeEmpty

theorem addition_not_kept : ∃ result merged,
    semanticMergeCanvasFile (sampleText addition) (sampleFile [""] ++ "\n") (sampleFile [""] ++ "\n")
      (sampleFile ["x", ""] ++ "\n") = .ok result ∧
    assertValidJsonCanvas (sampleText addition) result = .ok merged ∧
    ¬ (OrderKept (nodeOrder (sampleCanvas [""])) (nodeOrder (sampleCanvas [""])) (nodeOrder (sampleCanvas ["x", ""]))
          (nodeOrder merged) ∧
        OrderKept (edgeOrder (sampleCanvas [""])) (edgeOrder (sampleCanvas [""])) (edgeOrder (sampleCanvas ["x", ""]))
          (edgeOrder merged)) := by
  obtain ⟨result, merged, hres, hmerged⟩ := addition_returns
  refine ⟨result, merged, hres, hmerged, fun hkept => ?_⟩
  have hfree := (ordersKept_iff addition_roundTrips addition_sources hres hmerged addition_inBaseOrder
    addition_noEdges).mp hkept
  exact (hfree (sampleCanvas ["x", ""]) (by simp)).1 addition_beforeEmpty

end Samples

end CanvasCompletion
