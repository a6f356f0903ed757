import Obts.CanvasCompletion

/-!
# Edits that a canvas merge keeps

A merge that returns has kept every edit of both sides, and has merged no conflict, apart from properties
named `__proto__`: assigning one sets a prototype, so that it is not written, and an object without one is
read as having an empty one, so that setting it to an empty object is not seen as a change.
-/
namespace CanvasEdits

open InsertionOrder JsonTrees CanvasFiles CanvasMerge CanvasOrder CanvasEntries CanvasDocuments CanvasCompletion
    List
  ThreeWayMerge

/-- What the merge of nodes or of edges owes to its sources. -/
structure CollectionKept (base current device merged : Entries) : Prop where
  distinct : (merged.map Prod.fst).Nodup
  ids : ∀ id, id ∈ merged.map Prod.fst ↔
    Survives (base.map Prod.fst) (current.map Prod.fst) (device.map Prod.fst) id
  fields : ∀ id ∈ merged.map Prod.fst, ∀ key,
    Merges stableJson (fieldAt base id key) (fieldAt current id key) (fieldAt device id key) (fieldAt merged id key)
  agrees : ∀ id key, Agrees stableJson (fieldAt base id key) (fieldAt current id key) (fieldAt device id key)
  deleted : ∀ id key, DeletedUnchanged (valueAt base id) (valueAt current id) (valueAt device id) key

/-- The result is a valid canvas in which no edit of the sides is lost. -/
def EditsKept (text : JsonText) (baseText currentText deviceText result : String)
    (base current device : JsonCanvas) : Prop :=
  ∃ merged, assertValidJsonCanvas text result = .ok merged ∧
    CollectionKept base.nodes current.nodes device.nodes merged.nodes ∧
    CollectionKept base.edges current.edges device.edges merged.edges ∧
    ∀ key, isCollectionField key = false →
      Merges stableJson (valueAt (rootRecord text baseText) key) (valueAt (rootRecord text currentText) key)
        (valueAt (rootRecord text deviceText) key) (valueAt (rootRecord text result) key)

/-- A field is not named `__proto__`, nor is any property within its value. -/
def Storable (key : String) (value : Option Json) : Prop := ∀ v, value = some v → key ≠ protoKey ∧ ProtoFree v

section Storable
variable {key : String} {value other : Option Json}

lemma stableJson_written_iff : stableJson (written key value) = stableJson value ↔ Storable key value := by
  rw [written]
  cases value with
  | none => simp [Storable]
  | some v =>
    by_cases hproto : key = protoKey
    · simp [hproto, Storable, stableJson]
    simp only [Storable, Option.some.injEq, forall_eq', ne_eq, hproto, not_false_eq_true, true_and]
    rw [← stableText_canonicalize_iff]
    exact Option.some_inj

lemma Storable.of_stable (h : Storable key value) (hsame : stableJson other = stableJson value) :
    Storable key other := by
  rintro w rfl
  cases value with
  | none => cases hsame
  | some v => exact ⟨(h v rfl).1, (h v rfl).2.of_stable (Option.some.inj hsame)⟩

lemma storable_congr (hsame : stableJson other = stableJson value) : Storable key other ↔ Storable key value :=
  ⟨fun h => h.of_stable hsame.symm, fun h => h.of_stable hsame⟩

/-- The prototype of a record is not written with it. -/
lemma written_protoKey (value : Option Json) : written protoKey value = none := if_pos rfl

lemma storable_protoKey_iff : Storable protoKey value ↔ stableJson value = none := by
  cases value <;> simp [Storable]

/-- A merged field that is written and read back is right just when the value it is to have can be written. -/
lemma merges_iff_storable {base current device merged : Option Json} (hagr : Agrees stableJson base current device)
    (hvalue : key ≠ protoKey → stableJson value = stableJson (choose stableJson base current device))
    (hread : stableJson merged = stableJson (written key value)) :
    Merges stableJson base current device merged ↔ Storable key (choose stableJson base current device) := by
  rw [merges_iff hagr, hread]
  by_cases hproto : key = protoKey
  · subst hproto
    rw [written_protoKey, stableJson_none, storable_protoKey_iff, eq_comm]
  · rw [← storable_congr (hvalue hproto), ← stableJson_written_iff, hvalue hproto]

end Storable

/-- Entries without properties that are lost or changes that are not seen, for their name `__proto__`. -/
structure ProtoKept (base current device : Entries) : Prop where
  fields : ∀ id, Survives (base.map Prod.fst) (current.map Prod.fst) (device.map Prod.fst) id → ∀ key,
    Storable key (choose stableJson (fieldAt base id key) (fieldAt current id key) (fieldAt device id key))
  agrees : ∀ id,
    Agrees stableJson (fieldAt base id protoKey) (fieldAt current id protoKey) (fieldAt device id protoKey)
  deleted : ∀ id, DeletedUnchanged (valueAt base id) (valueAt current id) (valueAt device id) protoKey

variable {kind : CollectionKind} {ids : List String}

lemma collectionKept_iff {base current device entries merged : Entries}
    (hents : mergeCanvasCollection kind base current device = .ok entries)
    (hread : List.Forall₂ (ReadBack entries) merged ids) (hdist : (merged.map Prod.fst).Nodup)
    (hids : ∀ id, id ∈ ids ↔ Survives (base.map Prod.fst) (current.map Prod.fst) (device.map Prod.fst) id) :
    CollectionKept base current device merged ↔ ProtoKept base current device := by
  have hmerge := mergeCanvasCollection_ok hents
  have horder := ids_of_readBack hread
  have hfield : ∀ id ∈ ids, ∀ key, key ≠ protoKey → stableJson (fieldAt entries id key)
      = stableJson (choose stableJson (fieldAt base id key) (fieldAt current id key) (fieldAt device id key)) := by
    intro id hid key hkey
    apply (hmerge id).fields key hkey
    rw [isSome_valueAt, mem_mergedIds hents]
    exact (hids id).mp hid
  constructor
  · intro h
    constructor
    · intro id hid key
      have hin := (hids id).mpr hid
      have hmrg := h.fields id (horder ▸ hin) key
      exact (merges_iff_storable (h.agrees id key) (hfield id hin key)
        (fields_of_readBack hread hdist hin key)).mp hmrg
    · exact fun id => h.agrees id protoKey
    · exact fun id => h.deleted id protoKey
  · intro h
    have hagr : ∀ id key,
        Agrees stableJson (fieldAt base id key) (fieldAt current id key) (fieldAt device id key) := by
      intro id key
      by_cases hkey : key = protoKey
      · subst hkey
        exact h.agrees id
      · exact (hmerge id).agrees key hkey
    constructor
    · exact hdist
    · rw [horder]
      exact hids
    · intro id hid key
      rw [horder] at hid
      exact (merges_iff_storable (hagr id key) (hfield id hid key)
        (fields_of_readBack hread hdist hid key)).mpr (h.fields id ((hids id).mp hid) key)
    · exact hagr
    · intro id key
      by_cases hkey : key = protoKey
      · subst hkey
        exact h.deleted id
      · exact (hmerge id).deleted key hkey

/-- The documents have no properties that the merge loses or does not see for their name `__proto__`. -/
structure NoProtoLoss (text : JsonText) (baseText currentText deviceText : String)
    (base current device : JsonCanvas) : Prop where
  nodes : ProtoKept base.nodes current.nodes device.nodes
  edges : ProtoKept base.edges current.edges device.edges
  root : ∀ key, isCollectionField key = false →
    Storable key (choose stableJson (valueAt (rootRecord text baseText) key)
      (valueAt (rootRecord text currentText) key) (valueAt (rootRecord text deviceText) key))

section Merge
variable {text : JsonText} {baseText currentText deviceText result : String}
  {base current device : JsonCanvas}

lemma mem_mergedOrder {entries base current device : Entries}
    (hents : mergeCanvasCollection kind base current device = .ok entries)
    (hbase : (base.map Prod.fst).Nodup) (hcur : (current.map Prod.fst).Nodup) (hdev : (device.map Prod.fst).Nodup)
    (hids : mergeCanvasOrder kind (base.map Prod.fst) (current.map Prod.fst) (device.map Prod.fst)
      (entries.map Prod.fst) = .ok ids) (id : String) :
    id ∈ ids ↔ Survives (base.map Prod.fst) (current.map Prod.fst) (device.map Prod.fst) id := by
  have hmrg := mem_mergedIds hents
  rw [((mergeCanvasOrder_iff hmrg hbase hcur hdev).mp hids).2, mem_integrated hmrg, hmrg]

/-- The text of the merged document keeps all edits just when none is kept under a property `__proto__`. -/
lemma document_editsKept_iff {parts : Parts} {merged : JsonCanvas} (hround : text.RoundTrips)
    (hsrcs : Sources text baseText currentText deviceText base current device)
    (hparts : Computes text baseText currentText deviceText base current device parts)
    (hmrg : assertValidJsonCanvas text (text.stringify parts.document ++ "\n") = .ok merged) :
    EditsKept text baseText currentText deviceText (text.stringify parts.document ++ "\n") base current device ↔
      NoProtoLoss text baseText currentText deviceText base current device := by
  obtain ⟨hbase, hcur, hdev⟩ := hsrcs.valid
  obtain ⟨record, -, -, hvalid⟩ := assertValidJsonCanvas_iff.mp hmrg
  have hread := readsBack hround hsrcs hparts hmrg
  have hnodes : CollectionKept base.nodes current.nodes device.nodes merged.nodes ↔
      ProtoKept base.nodes current.nodes device.nodes :=
    collectionKept_iff hparts.nodes hread.nodes hvalid.nodeIds
      (mem_mergedOrder hparts.nodes hbase.nodeIds hcur.nodeIds hdev.nodeIds hparts.nodeIds)
  have hedges : CollectionKept base.edges current.edges device.edges merged.edges ↔
      ProtoKept base.edges current.edges device.edges :=
    collectionKept_iff hparts.edges hread.edges hvalid.edgeIds
      (mem_mergedOrder hparts.edges hbase.edgeIds hcur.edgeIds hdev.edgeIds hparts.edgeIds)
  have hroot : ∀ key, isCollectionField key = false →
      (Merges stableJson (valueAt (rootRecord text baseText) key) (valueAt (rootRecord text currentText) key)
          (valueAt (rootRecord text deviceText) key)
          (valueAt (rootRecord text (text.stringify parts.document ++ "\n")) key) ↔
        Storable key (choose stableJson (valueAt (rootRecord text baseText) key)
          (valueAt (rootRecord text currentText) key) (valueAt (rootRecord text deviceText) key))) := by
    intro key hkey
    obtain ⟨hagr, hvalue⟩ := mergeCanvasRootFields_ok hparts.root hkey
    exact merges_iff_storable hagr hvalue (hread.root key hkey)
  constructor
  · rintro ⟨other, hother, hkepN, hkepE, hkepR⟩
    obtain rfl : merged = other := Except.ok.inj (hmrg.symm.trans hother)
    exact ⟨hnodes.mp hkepN, hedges.mp hkepE, fun key hkey => (hroot key hkey).mp (hkepR key hkey)⟩
  intro hkept
  exact ⟨merged, hmrg, hnodes.mpr hkept.nodes, hedges.mpr hkept.edges,
    fun key hkey => (hroot key hkey).mpr (hkept.root key hkey)⟩

/-- A merge that returns keeps all edits just when none is kept under a property `__proto__`. -/
theorem editsKept_iff (hround : text.RoundTrips)
    (hsources : Sources text baseText currentText deviceText base current device)
    (h : semanticMergeCanvasFile text baseText currentText deviceText = .ok result) :
    EditsKept text baseText currentText deviceText result base current device ↔
      NoProtoLoss text baseText currentText deviceText base current device := by
  obtain ⟨parts, merged, hparts, rfl, hmrg, -⟩ := (semanticMergeCanvasFile_ok hsources).mp h
  exact document_editsKept_iff hround hsources hparts hmrg

end Merge

section Lost

/-- An empty canvas as `JSON.stringify` writes it with an indentation. -/
def emptyFile : String := "\x7b\n  \"nodes\": [],\n  \"edges\": []\n\x7d"

def emptyRecord : Fields := [("nodes", .array []), ("edges", .array [])]

/-- The same with one more field. -/
def protoFile : String := "\x7b\n  \"nodes\": [],\n  \"edges\": [],\n  \"__proto__\": 0\n\x7d"

def protoRecord : Fields := emptyRecord ++ [(protoKey, zero)]

def protoFiles : List (String × Json) := [(emptyFile, .record emptyRecord), (protoFile, .record protoRecord)]

noncomputable def protoText : JsonText := recordedText protoFiles

lemma proto_distinct : (protoFiles.map Prod.fst).Nodup := by decide +kernel

lemma proto_roundTrips : protoText.RoundTrips := by
  apply roundTrips_recordedText proto_distinct
  intro e he
  have hind : Indented e.1 := by
    simp only [protoFiles, mem_cons, not_mem_nil, or_false] at he
    rcases he with rfl | rfl <;> rfl
  exact hind.ne_stableText

lemma parse_emptyFile : protoText.parse (emptyFile ++ "\n") = some (.record emptyRecord) :=
  parse_recordedText (e := (emptyFile, .record emptyRecord)) proto_distinct mem_cons_self

lemma parse_protoFile : protoText.parse (protoFile ++ "\n") = some (.record protoRecord) :=
  parse_recordedText (e := (protoFile, .record protoRecord)) proto_distinct (mem_cons_of_mem _ mem_cons_self)

lemma validCanvas_empty : ValidCanvas ⟨[], []⟩ :=
  ⟨fun _ h => (nomatch h), nodup_nil, fun _ h => (nomatch h), nodup_nil⟩

/-- The device has set the field of an empty canvas. -/
lemma proto_sources : Sources protoText (emptyFile ++ "\n") (emptyFile ++ "\n") (protoFile ++ "\n")
    ⟨[], []⟩ ⟨[], []⟩ ⟨[], []⟩ := by
  have hempty : assertValidJsonCanvas protoText (emptyFile ++ "\n") = .ok ⟨[], []⟩ :=
    assertValidJsonCanvas_iff.mpr ⟨_, parse_emptyFile, ⟨rfl, rfl⟩, validCanvas_empty⟩
  refine ⟨hempty, hempty, ?_⟩
  exact assertValidJsonCanvas_iff.mpr ⟨_, parse_protoFile, ⟨rfl, rfl⟩, validCanvas_empty⟩

lemma proto_returns : ∃ result, semanticMergeCanvasFile protoText (emptyFile ++ "\n") (emptyFile ++ "\n")
    (protoFile ++ "\n") = .ok result := by
  have hnone : EntriesMergeable [] [] [] := by
    constructor
    · exact fun _ _ h => nomatch h
    · exact fun _ _ _ h => nomatch h
    · exact fun _ _ => ⟨fun h => (nomatch h), fun h => (nomatch h)⟩
  refine returns_of_accepted proto_roundTrips proto_sources ⟨hnone, hnone, ?_, ?_⟩ ⟨rfl, rfl⟩ ?_ ?_
  · exact fun _ _ => .inl rfl
  · intro id hsurv
    simp [Survives, edgeOrder] at hsurv
  · exact ⟨.inl rfl, .inl rfl⟩
  · exact ⟨.inl rfl, .inl rfl⟩

lemma proto_lost : ¬ NoProtoLoss protoText (emptyFile ++ "\n") (emptyFile ++ "\n") (protoFile ++ "\n")
    ⟨[], []⟩ ⟨[], []⟩ ⟨[], []⟩ := by
  intro h
  have hroot := h.root protoKey rfl
  exact (hroot zero rfl).1 rfl

/-- A field that only the device set is missing from the result. -/
theorem protoField_lost :
    ¬ ∀ (text : JsonText) (baseText currentText deviceText result : String) (base current device : JsonCanvas),
      text.RoundTrips → Sources text baseText currentText deviceText base current device →
      semanticMergeCanvasFile text baseText currentText deviceText = .ok result →
      EditsKept text baseText currentText deviceText result base current device := by
  intro hclaim
  obtain ⟨result, hres⟩ := proto_returns
  have hkept := hclaim _ _ _ _ _ _ _ _ proto_roundTrips proto_sources hres
  obtain ⟨parts, merged, hparts, rfl, hmrg, -⟩ := (semanticMergeCanvasFile_ok proto_sources).mp hres
  exact proto_lost ((document_editsKept_iff proto_roundTrips proto_sources hparts hmrg).mp hkept)

theorem protoField_not_kept : ∃ result,
    semanticMergeCanvasFile protoText (emptyFile ++ "\n") (emptyFile ++ "\n") (protoFile ++ "\n") = .ok result ∧
      ¬ EditsKept protoText (emptyFile ++ "\n") (emptyFile ++ "\n") (protoFile ++ "\n") result
        ⟨[], []⟩ ⟨[], []⟩ ⟨[], []⟩ := by
  obtain ⟨result, hres⟩ := proto_returns
  refine ⟨result, hres, fun hkept => ?_⟩
  exact proto_lost ((editsKept_iff proto_roundTrips proto_sources hres).mp hkept)

end Lost

end CanvasEdits
