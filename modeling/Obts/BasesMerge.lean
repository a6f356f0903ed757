import Obts.BasesEntries

/-!
# Merges of Bases files

A merge that returns has merged every field, entry and view of the documents, and neither side has reordered
the views it kept. It refuses a field, an entry or a view that the two sides changed differently, apart from
mappings whose keys they changed apart.
-/
namespace BasesMerge

open List Option
open InsertionOrder JsonTrees CanvasFiles CanvasMerge CanvasEntries CanvasDocuments BasesFiles BasesEntries
  ThreeWayMerge Metadata

/-- The views of a file, each under its own key. -/
structure ValidViews (root : Fields) (views : ViewCollection) : Prop where
  shown : valueAt root "views"
    = if views.present then some (.array (views.views.map fun e => .record e.2)) else none
  absent : views.present = false → views.views = []
  keyed : ∀ e ∈ views.views, Keyed e.1 e.2
  distinct : views.order.Nodup

structure ValidDocument (document : BasesDocument) : Prop where
  maps : ∀ field ∈ baseMapFields, ∃ map : Option Fields, valueAt document.root field = map.map .record
  views : ValidViews document.root document.views

section Reading
variable {yaml : YamlText} {file key : String} {root view : Fields} {keys : List String}
  {views : ViewCollection} {document : BasesDocument}

lemma readViewKey_iff : readViewKey keys view = .ok key ↔ Keyed key view ∧ key ∉ keys := by
  constructor
  · intro h
    rw [readViewKey] at h
    split at h
    · rename_i type name htype hname
      split at h
      · cases h
      rename_i hnew
      cases h
      exact ⟨⟨type, name, htype, hname, rfl⟩, hnew⟩
    · cases h
  · rintro ⟨⟨type, name, htype, hname, rfl⟩, hnew⟩
    rw [readViewKey, htype, hname]
    exact if_neg hnew

lemma readViews_iff {items : List Json} {entries : Entries} :
    readViews items = .ok entries ↔ items = entries.map (fun e => .record e.2) ∧
      (∀ e ∈ entries, Keyed e.1 e.2) ∧ (entries.map Prod.fst).Nodup := by
  let Valid : String × Fields → Prop := fun e => Keyed e.1 e.2
  have hread : ∀ keys view key, readViewKey keys view = .ok key ↔ Valid (key, view) ∧ key ∉ keys :=
    fun _ _ _ => readViewKey_iff
  rw [readViews, readEntries_iff hread]
  simp [Valid]

lemma parseViews_iff : parseViews root = .ok views ↔ ValidViews root views := by
  constructor
  · intro h
    rw [parseViews] at h
    split at h
    · rename_i hvalue
      cases h
      exact ⟨hvalue, fun _ => rfl, fun _ he => (nomatch he), nodup_nil⟩
    · rename_i items hvalue
      obtain ⟨entries, hents, h⟩ := bind_eq_ok.mp h
      cases h
      obtain ⟨rfl, hkeyed, hdist⟩ := readViews_iff.mp hents
      exact ⟨hvalue, fun h => (nomatch h), hkeyed, hdist⟩
    · cases h
  · rintro ⟨hshown, habs, hkeyed, hdist⟩
    obtain ⟨present, entries⟩ := views
    cases present with
    | false =>
      rw [parseViews, hshown]
      obtain rfl : entries = [] := habs rfl
      rfl
    | true =>
      rw [parseViews, hshown]
      exact bind_eq_ok.mpr ⟨entries, readViews_iff.mpr ⟨rfl, hkeyed, hdist⟩, rfl⟩

lemma exists_readOptionalPlainMap {field : String} :
    (∃ map, readOptionalPlainMap root field = .ok map) ↔
      ∃ map : Option Fields, valueAt root field = map.map .record := by
  constructor
  · exact fun ⟨map, h⟩ => ⟨map, readOptionalPlainMap_ok h⟩
  rintro ⟨map, h⟩
  rw [readOptionalPlainMap, h]
  cases map with
  | none => exact ⟨none, rfl⟩
  | some fields => exact ⟨some fields, rfl⟩

lemma assertPlainMaps_iff {fields : List String} : assertPlainMaps root fields = .ok () ↔
    ∀ field ∈ fields, ∃ map : Option Fields, valueAt root field = map.map .record := by
  induction fields with
  | nil => exact iff_of_true rfl (by simp)
  | cons field fields ih =>
    rw [forall_mem_cons, ← ih, ← exists_readOptionalPlainMap]
    constructor
    · intro h
      obtain ⟨map, hmap, h⟩ := bind_eq_ok.mp h
      exact ⟨⟨map, hmap⟩, h⟩
    · rintro ⟨⟨map, hmap⟩, h⟩
      exact bind_eq_ok.mpr ⟨map, hmap, h⟩

/-- A file is accepted just when it is a mapping with valid maps and views; an empty file is an empty mapping. -/
lemma parseBasesDocument_iff : parseBasesDocument yaml file = .ok document ↔
    (yaml.parse file = some (.record document.root) ∨ yaml.parse file = some .null ∧ document.root = []) ∧
      ValidDocument document := by
  constructor
  · intro h
    rw [parseBasesDocument] at h
    split at h
    · cases h
    · rename_i hparse
      cases h
      refine ⟨.inr ⟨hparse, rfl⟩, fun field _ => ⟨none, rfl⟩, ?_⟩
      exact ⟨rfl, fun _ => rfl, fun _ he => (nomatch he), nodup_nil⟩
    · rename_i root hparse
      obtain ⟨_, hmaps, h⟩ := bind_eq_ok.mp h
      obtain ⟨views, hviews, h⟩ := bind_eq_ok.mp h
      cases h
      exact ⟨.inl hparse, assertPlainMaps_iff.mp hmaps, parseViews_iff.mp hviews⟩
    · cases h
  · obtain ⟨root, views⟩ := document
    rintro ⟨hparse | ⟨hparse, hroot⟩, hmaps, hviews⟩
    · rw [parseBasesDocument, hparse]
      exact bind_eq_ok.mpr ⟨(), assertPlainMaps_iff.mpr hmaps, bind_eq_ok.mpr ⟨views, parseViews_iff.mpr hviews, rfl⟩⟩
    obtain rfl : root = [] := hroot
    have hpres : views.present = false := by
      cases hcase : views.present with
      | false => rfl
      | true =>
        have hshown := hviews.shown
        rw [hcase] at hshown
        cases hshown
    obtain ⟨present, entries⟩ := views
    obtain rfl : present = false := hpres
    obtain rfl : entries = [] := hviews.absent rfl
    rw [parseBasesDocument, hparse]
    rfl

end Reading

section Views
variable {base current device views side : ViewCollection} {root : Fields} {key label : String}
  {merged : Option Entries}

lemma plainView_valueAt (h : ValidViews root views) (hfree : ProtoFree (.record root)) (key : String) :
    PlainView key (valueAt views.views key) := by
  intro fields hfld
  have hmem := mem_of_valueAt hfld
  refine ⟨h.keyed _ hmem, ?_⟩
  have hshown := h.shown
  cases hpres : views.present with
  | false =>
    rw [h.absent hpres] at hmem
    cases hmem
  | true =>
    rw [hpres, if_pos rfl] at hshown
    cases free_valueAt hfree "views" _ hshown with
    | array hitems => exact hitems _ (mem_map.mpr ⟨_, hmem, rfl⟩)

lemma assertNoViewReorder_ok (h : assertNoViewReorder base side label = .ok ()) :
    base.order.filter (fun key => key ∈ side.order) = side.order.filter fun key => key ∈ base.order := by
  rw [assertNoViewReorder] at h
  split at h
  · assumption
  · cases h

lemma nodup_mergedViewKeys (h : base.order.Nodup) : (mergedViewKeys base current device).Nodup := by
  rw [mergedViewKeys, nodup_append]
  refine ⟨h, nodup_sortKeys (nodup_ofList _), ?_⟩
  rintro key hkey other hother rfl
  rw [mem_sortedSet, mem_filter] at hother
  exact of_decide_eq_true hother.2 hkey

lemma viewMerged_none : ViewMerged none none none none := viewMerged_of_agrees (.inl rfl) rfl

/-- The views of the sides stay in the order of the base, and each is merged. -/
structure ViewsMerged (base current device : ViewCollection) (merged : Entries) : Prop where
  views : ∀ key, ViewMerged (valueAt base.views key) (valueAt current.views key) (valueAt device.views key)
    (valueAt merged key)
  currentOrder : base.order.filter (fun key => key ∈ current.order) = current.order.filter fun key => key ∈ base.order
  deviceOrder : base.order.filter (fun key => key ∈ device.order) = device.order.filter fun key => key ∈ base.order

lemma mergeViews_ok {baseRoot currentRoot deviceRoot : Fields} (h : mergeViews base current device = .ok merged)
    (hbase : ValidViews baseRoot base) (hcur : ValidViews currentRoot current)
    (hdev : ValidViews deviceRoot device) (hbasF : ProtoFree (.record baseRoot))
    (hcurF : ProtoFree (.record currentRoot)) (hdevF : ProtoFree (.record deviceRoot)) :
    ViewsMerged base current device (merged.getD []) ∧ (∀ key, PlainView key (valueAt (merged.getD []) key)) ∧
      ((merged.getD []).map Prod.fst).Nodup := by
  rw [mergeViews] at h
  split at h
  · rename_i hnone
    cases h
    simp only [Bool.and_eq_true, Bool.not_eq_true'] at hnone
    obtain ⟨⟨hb, hc⟩, hd⟩ := hnone
    have hbvi := hbase.absent hb
    have hcvi := hcur.absent hc
    have hdvi := hdev.absent hd
    refine ⟨⟨fun key => ?_, ?_, ?_⟩, fun key fields hfld => (nomatch hfld), nodup_nil⟩
    · rw [hbvi, hcvi, hdvi]
      exact viewMerged_none
    · simp [ViewCollection.order, hbvi, hcvi]
    · simp [ViewCollection.order, hbvi, hdvi]
  · obtain ⟨_, hcord, h⟩ := bind_eq_ok.mp h
    obtain ⟨_, hdord, h⟩ := bind_eq_ok.mp h
    obtain ⟨entries, hents, rfl⟩ := some_map_ok h
    have hview : ∀ key, ViewMerged (valueAt base.views key) (valueAt current.views key) (valueAt device.views key)
        (valueAt entries key) ∧ PlainView key (valueAt entries key) := by
      intro key
      by_cases hmem : key ∈ mergedViewKeys base current device
      · obtain ⟨value, hok⟩ := exists_of_collect hents hmem
        rw [valueAt_collect_of_mem hents hmem rfl hok]
        exact mergeViewEntry_ok hok (plainView_valueAt hbase hbasF key)
          (plainView_valueAt hcur hcurF key) (plainView_valueAt hdev hdevF key)
      have hnone : valueAt entries key = none := by
        rw [valueAt_collect hents, if_neg fun hin => hmem hin.1]
      rw [mergedViewKeys, mem_append, not_or, mem_sortedSet, mem_filter, mem_append] at hmem
      obtain ⟨hb, hadded⟩ := hmem
      have hsides : key ∉ current.order ∧ key ∉ device.order := by
        rw [← not_or]
        exact fun hin => hadded ⟨hin, decide_eq_true hb⟩
      rw [valueAt_eq_none.mpr hb, valueAt_eq_none.mpr hsides.1, valueAt_eq_none.mpr hsides.2, hnone]
      exact ⟨viewMerged_none, fun fields hfld => (nomatch hfld)⟩
    refine ⟨⟨fun key => (hview key).1, assertNoViewReorder_ok hcord, assertNoViewReorder_ok hdord⟩,
      fun key => (hview key).2, ?_⟩
    exact (keys_collect_sublist hents).nodup (nodup_mergedViewKeys hbase.distinct)

end Views

section Written
variable {view fields : Fields} {key field : String} {views shown : Entries}
  {others : List String} {merged : MergedFields} {value : Option Json}

lemma stableJson_written (h : ProtoFree (.record fields)) (key : String) :
    stableJson (written key (valueAt fields key)) = stableJson (valueAt fields key) := by
  by_cases hproto : key = protoKey
  · subst hproto
    rw [valueAt_protoKey h]
    rfl
  · rw [written, if_neg hproto]
    exact (free_valueAt h key).canonical

lemma stableText_canonicalizeView (h : ProtoFree (.record view)) :
    stableText (.record (canonicalizeView view)) = stableText (.record view) := by
  apply stableText_record_iff.mpr
  intro key
  have hvalue : valueAt (canonicalizeView view) key = written key (valueAt view key) := by
    apply valueAt_canonicalFields_append
    simp
  rw [hvalue, stableJson_written h]

/-- The array of the merged views is read back as views with the same keys and fields, in the same order. -/
lemma exists_views_of_stable (hviews : ∀ e ∈ views, Keyed e.1 e.2 ∧ ProtoFree (.record e.2))
    (hvalue : stableJson value = stableJson (some (viewsValue views))) :
    ∃ shown : Entries, value = some (.array (shown.map fun e => .record e.2)) ∧
      (∀ e ∈ shown, Keyed e.1 e.2) ∧ List.Forall₂
        (fun e view => e.1 = view.1 ∧ stableText (.record e.2) = stableText (.record view.2)) shown views := by
  cases value with
  | none => cases hvalue
  | some v =>
    obtain ⟨items, rfl, htexts⟩ := exists_array_of_stable (some.inj hvalue)
    rw [List.map_map] at htexts
    clear hvalue
    induction views generalizing items with
    | nil =>
      rw [map_nil, map_eq_nil_iff] at htexts
      subst htexts
      exact ⟨[], rfl, fun _ h => (nomatch h), List.Forall₂.nil⟩
    | cons view views ih =>
      cases items with
      | nil => cases htexts
      | cons item items =>
        rw [map_cons, map_cons, List.cons.injEq] at htexts
        rw [forall_mem_cons] at hviews
        obtain ⟨⟨hkeyed, hfree⟩, hviews⟩ := hviews
        obtain ⟨shown, hshown, hshoK, hsame⟩ := ih hviews items htexts.2
        have hwr : stableText item = stableText (.record view.2) := by
          have honce := stableText_canonicalizeView hfree
          have htwice := stableText_canonicalizeView (hfree.of_stable honce)
          exact htexts.1.trans (htwice.trans honce)
        obtain ⟨fields, rfl, hkeys⟩ := exists_record_of_stable hwr
        rw [some.injEq, Tree.array.injEq] at hshown
        refine ⟨(view.1, fields) :: shown, ?_, ?_, List.Forall₂.cons ⟨rfl, hwr⟩ hsame⟩
        · rw [hshown]
          rfl
        · exact forall_mem_cons.mpr ⟨hkeyed.of_stable (hkeys "type") (hkeys "name"), hshoK⟩

lemma order_of_forall₂ (h : List.Forall₂ (fun e view => e.1 = view.1 ∧
      stableText (.record e.2) = stableText (.record view.2)) shown views) :
    shown.map Prod.fst = views.map Prod.fst := by
  induction h with
  | nil => rfl
  | cons hsame _ ih => rw [map_cons, map_cons, hsame.1, ih]

/-- Under each key the text of the view is the same. -/
lemma viewText_of_forall₂ (h : List.Forall₂ (fun e view => e.1 = view.1 ∧
      stableText (.record e.2) = stableText (.record view.2)) shown views) (key : String) :
    viewText (valueAt shown key) = viewText (valueAt views key) := by
  induction h with
  | nil => rfl
  | @cons e view shown views hsame _ ih =>
    obtain ⟨key', fields⟩ := e
    obtain ⟨rfl, htext⟩ := hsame
    by_cases hkey : view.1 = key
    · simp only [valueAt, List.find?_cons, hkey, decide_true, map_some]
      exact congrArg some htext
    · simpa [valueAt, hkey] using ih

/-- The fields with a place of their own are written where they are present. -/
lemma valueAt_present {fields : List (String × Option Json)} (h : (fields.map Prod.fst).Nodup) (key : String) :
    valueAt (fields.filterMap fun e => e.2.map fun value => (e.1, canonicalize value)) key
      = (valueAt fields key).join.map canonicalize := by
  induction fields with
  | nil => rfl
  | cons e fields ih =>
    obtain ⟨field, value⟩ := e
    rw [map_cons, nodup_cons] at h
    rw [filterMap_cons]
    by_cases hkey : field = key
    · subst hkey
      cases value with
      | none =>
        simp only [map_none]
        rw [ih h.2, valueAt_eq_none.mpr h.1]
        simp [valueAt]
      | some value => simp [valueAt]
    · cases value <;> simpa [valueAt, hkey] using ih h.2

section
variable (merged : MergedFields)

lemma valueAt_document_views (key : String) :
    valueAt ((merged.views.map fun views => ("views", viewsValue views)).toList) key
      = if key = "views" then merged.views.map viewsValue else none := by
  cases merged.views with
  | none => simp [valueAt]
  | some views =>
    by_cases hkey : key = "views"
    · simp [valueAt, hkey]
    · simp [valueAt, hkey, Ne.symm hkey]

lemma valueAt_document (others : List String) (key : String) :
    valueAt (merged.document others) key = (((valueAt merged.placed key).join.map canonicalize).or
      (if key = "views" then merged.views.map viewsValue else none)).or
        (if key ∈ others then written key (valueAt merged.others key) else none) := by
  have hplac : (merged.placed.map Prod.fst).Nodup :=
    show ["filters", "formulas", "properties", "summaries"].Nodup by decide
  rw [MergedFields.document, valueAt_append, valueAt_append, valueAt_present hplac, valueAt_document_views,
    valueAt_canonicalFields]

/-- What is written of a field other than those with a place of their own. -/
lemma valueAt_document_other (others : List String) (hkey : key ∉ baseTopLevelOrder) :
    valueAt (merged.document others) key = if key ∈ others then written key (valueAt merged.others key)
      else none := by
  simp only [baseTopLevelOrder, mem_cons, not_mem_nil, or_false, not_or] at hkey
  obtain ⟨hfilt, hform, hprop, hsumm, hviews⟩ := hkey
  have hplac : valueAt merged.placed key = none := by
    rw [valueAt_eq_none]
    simp [MergedFields.placed, hfilt, hform, hprop, hsumm]
  rw [valueAt_document, hplac, if_neg hviews]
  rfl

/-- What is written of a field with a place of its own. -/
lemma valueAt_document_placed (hoth : ∀ key ∈ others, key ∉ baseTopLevelOrder) (hkey : key ∈ baseTopLevelOrder) :
    valueAt (merged.document others) key = ((valueAt merged.placed key).join.map canonicalize).or
      (if key = "views" then merged.views.map viewsValue else none) := by
  rw [valueAt_document, if_neg fun hin => hoth key hin hkey, or_none]

end

end Written

/-- The documents of the three files. -/
structure Sources (yaml : YamlText) (baseText currentText deviceText : String)
    (base current device : BasesDocument) : Prop where
  base : parseBasesDocument yaml baseText = .ok base
  current : parseBasesDocument yaml currentText = .ok current
  device : parseBasesDocument yaml deviceText = .ok device

/-- No mapping in the documents has a property named `__proto__`. -/
structure PlainSources (base current device : BasesDocument) : Prop where
  base : ProtoFree (.record base.root)
  current : ProtoFree (.record current.root)
  device : ProtoFree (.record device.root)

/-- What a merge owes to its sources: fields, entries and views are merged, and none was changed differently on
the two sides, apart from mappings that were changed in different keys. -/
structure DocumentMerged (base current device merged : BasesDocument) : Prop where
  fields : ∀ key, key ∉ baseMapFields → key ≠ "views" →
    Agrees stableJson (valueAt base.root key) (valueAt current.root key) (valueAt device.root key) ∧
      Merges stableJson (valueAt base.root key) (valueAt current.root key) (valueAt device.root key)
        (valueAt merged.root key)
  entries : ∀ field ∈ baseMapFields, ∀ key,
    EntryMerged (entryOf base.root field key) (entryOf current.root field key) (entryOf device.root field key)
      (entryOf merged.root field key)
  views : ViewsMerged base.views current.views device.views merged.views.views

/-- The steps of a merge up to the document that is written. -/
structure Computes (base current device : BasesDocument) (merged : MergedFields) : Prop where
  filters : mergeAtomicField "Bases filters" (valueAt base.root "filters") (valueAt current.root "filters")
    (valueAt device.root "filters") = .ok merged.filters
  maps : ∀ field ∈ baseMapFields,
    mergeNamedMapField field base.root current.root device.root = .ok (valueAt merged.placed field).join
  views : mergeViews base.views current.views device.views = .ok merged.views
  others : collect (fun _ => true) (otherFields base.root current.root device.root) (fun field =>
    mergeAtomicField s!"Bases top-level field {field}" (valueAt base.root field) (valueAt current.root field)
      (valueAt device.root field)) = .ok merged.others

section Merge
variable {yaml : YamlText} {baseText currentText deviceText result key field : String}
  {base current device document : BasesDocument} {merged : MergedFields} {root : Fields}

lemma semanticMergeBasesFile_ok (hsrcs : Sources yaml baseText currentText deviceText base current device)
    (h : semanticMergeBasesFile yaml baseText currentText deviceText = .ok result) :
    ∃ merged, Computes base current device merged ∧ result = endLine (yaml.stringify
      (.record (merged.document (otherFields base.root current.root device.root)))) := by
  rw [semanticMergeBasesFile, hsrcs.base, hsrcs.current, hsrcs.device] at h
  obtain ⟨_, ⟨⟩, h⟩ := bind_eq_ok.mp h
  obtain ⟨_, ⟨⟩, h⟩ := bind_eq_ok.mp h
  obtain ⟨_, ⟨⟩, h⟩ := bind_eq_ok.mp h
  obtain ⟨filters, hfilt, h⟩ := bind_eq_ok.mp h
  obtain ⟨formulas, hform, h⟩ := bind_eq_ok.mp h
  obtain ⟨properties, hprop, h⟩ := bind_eq_ok.mp h
  obtain ⟨summaries, hsumm, h⟩ := bind_eq_ok.mp h
  obtain ⟨views, hviews, h⟩ := bind_eq_ok.mp h
  obtain ⟨others, hoth, h⟩ := bind_eq_ok.mp h
  cases h
  refine ⟨⟨filters, formulas, properties, summaries, views, others⟩, ⟨hfilt, ?_, hviews, hoth⟩, rfl⟩
  simp only [baseMapFields, forall_mem_cons]
  exact ⟨hform, hprop, hsumm, fun _ h => (nomatch h)⟩

lemma mem_otherFields : key ∈ otherFields base.root current.root device.root ↔
    key ∈ allKeys base.root current.root device.root ∧ key ∉ baseTopLevelOrder := by
  simp [otherFields]

lemma Sources.valid (h : Sources yaml baseText currentText deviceText base current device) :
    ValidDocument base ∧ ValidDocument current ∧ ValidDocument device :=
  ⟨(parseBasesDocument_iff.mp h.base).2, (parseBasesDocument_iff.mp h.current).2,
    (parseBasesDocument_iff.mp h.device).2⟩

/-- An atomic field that is written and read back. -/
lemma merges_written {x y z value read : Option Json} (hagr : Agrees stableJson x y z)
    (hvalue : stableJson value = stableJson (choose stableJson x y z)) (hy : Free y) (hz : Free z)
    (hread : stableJson read = stableJson (value.map canonicalize)) : Merges stableJson x y z read := by
  have hfree : Free value := (hy.choose hz).of_stable hvalue
  exact (merges_iff hagr).mpr ((hread.trans hfree.canonical).trans hvalue)

lemma fields_merged (hplain : PlainSources base current device) (hmrg : Computes base current device merged)
    (hread : ∀ key, stableJson (valueAt root key)
      = stableJson (valueAt (merged.document (otherFields base.root current.root device.root)) key))
    (hmap : key ∉ baseMapFields) (hviews : key ≠ "views") :
    Agrees stableJson (valueAt base.root key) (valueAt current.root key) (valueAt device.root key) ∧
      Merges stableJson (valueAt base.root key) (valueAt current.root key) (valueAt device.root key)
        (valueAt root key) := by
  have hvalue := hread key
  have hcur := free_valueAt hplain.current key
  have hdev := free_valueAt hplain.device key
  by_cases hkey : key = "filters"
  · subst hkey
    rw [valueAt_document_placed merged (fun _ hin => (mem_otherFields.mp hin).2) (by decide)] at hvalue
    obtain ⟨hagr, hfilt⟩ := mergeAtomicField_ok hmrg.filters
    refine ⟨hagr, merges_written hagr hfilt hcur hdev ?_⟩
    simpa [MergedFields.placed, valueAt] using hvalue
  have hother : key ∉ baseTopLevelOrder := by
    simp only [baseMapFields, mem_cons, not_mem_nil, or_false, not_or] at hmap
    simp [baseTopLevelOrder, hkey, hmap, hviews]
  rw [valueAt_document_other merged _ hother] at hvalue
  split at hvalue
  · rename_i hin
    obtain ⟨value, hok⟩ := exists_of_collect hmrg.others hin
    obtain ⟨hagr, hsame⟩ := mergeAtomicField_ok hok
    rw [valueAt_collect_of_mem hmrg.others hin rfl hok] at hvalue
    have hproto : key ≠ protoKey := by
      rintro rfl
      have hmem := (mem_otherFields.mp hin).1
      rw [mem_allKeys] at hmem
      have hnot := valueAt_eq_none.mp (valueAt_protoKey hplain.base)
      have hnot' := valueAt_eq_none.mp (valueAt_protoKey hplain.current)
      have hnot'' := valueAt_eq_none.mp (valueAt_protoKey hplain.device)
      rcases hmem with hmem | hmem | hmem
      · exact hnot hmem
      · exact hnot' hmem
      · exact hnot'' hmem
    rw [written, if_neg hproto] at hvalue
    exact ⟨hagr, merges_written hagr hsame hcur hdev hvalue⟩
  · rename_i hin
    have hmem : key ∉ allKeys base.root current.root device.root :=
      fun hmem => hin (mem_otherFields.mpr ⟨hmem, hother⟩)
    obtain ⟨hx, hy, hz⟩ := valueAt_of_notMem_allKeys hmem
    rw [stableJson_none, stableJson_eq_none] at hvalue
    rw [hx, hy, hz, hvalue]
    exact ⟨.inl rfl, merges_choose⟩

/-- A map that is written and read back is a map with the same entries. -/
lemma map_readBack {map : Option Fields} (hfree : ProtoFree (.record (map.getD [])))
    (hread : stableJson (valueAt root field) = stableJson ((map.map Tree.record).map canonicalize)) :
    ∃ read : Option Fields, valueAt root field = read.map .record ∧
      ∀ key, stableJson (entryOf root field key) = stableJson (valueAt (map.getD []) key) := by
  cases map with
  | none =>
    rw [map_none, map_none, stableJson_none, stableJson_eq_none] at hread
    refine ⟨none, hread, fun key => ?_⟩
    rw [entryOf, hread]
    rfl
  | some fields =>
    have hcan : Free (some (Tree.record fields)) := by
      rintro v ⟨⟩
      exact hfree
    obtain ⟨read, hvalue, hkeys⟩ := exists_record_of_stableJson (hread.trans hcan.canonical)
    refine ⟨some read, hvalue, fun key => ?_⟩
    rw [entryOf, hvalue]
    exact hkeys key

lemma maps_merged (hplain : PlainSources base current device) (hmrg : Computes base current device merged)
    (hread : ∀ key, stableJson (valueAt root key)
      = stableJson (valueAt (merged.document (otherFields base.root current.root device.root)) key))
    (hfield : field ∈ baseMapFields) : (∃ map : Option Fields, valueAt root field = map.map .record) ∧
      ∀ key, EntryMerged (entryOf base.root field key) (entryOf current.root field key)
        (entryOf device.root field key) (entryOf root field key) := by
  obtain ⟨map, hmap, hfree, hents⟩ := mergeNamedMapField_ok (hmrg.maps field hfield) hplain.base hplain.current
    hplain.device
  have hplace : field ∈ baseTopLevelOrder ∧ field ≠ "views" := by
    simp only [baseMapFields, mem_cons, not_mem_nil, or_false] at hfield
    rcases hfield with rfl | rfl | rfl <;> decide
  have hvalue := hread field
  rw [valueAt_document_placed merged (fun _ hin => (mem_otherFields.mp hin).2) hplace.1, if_neg hplace.2,
    or_none, hmap] at hvalue
  obtain ⟨read, hroot, hsame⟩ := map_readBack hfree hvalue
  exact ⟨⟨read, hroot⟩, fun key => (hents key).of_stable (hsame key)⟩

lemma views_merged (hplain : PlainSources base current device)
    (hsrcs : Sources yaml baseText currentText deviceText base current device)
    (hmrg : Computes base current device merged) (hread : ∀ key, stableJson (valueAt root key)
      = stableJson (valueAt (merged.document (otherFields base.root current.root device.root)) key)) :
    ∃ views, ValidViews root views ∧ ViewsMerged base.views current.views device.views views.views := by
  obtain ⟨hbase, hcur, hdev⟩ := hsrcs.valid
  obtain ⟨hviews, hplaV, hdist⟩ := mergeViews_ok hmrg.views hbase.views hcur.views hdev.views
    hplain.base hplain.current hplain.device
  have hvalue := hread "views"
  have hplac : valueAt merged.placed "views" = none := by
    rw [valueAt_eq_none]
    simp [MergedFields.placed]
  rw [valueAt_document_placed merged (fun _ hin => (mem_otherFields.mp hin).2) (by decide), hplac] at hvalue
  cases hpres : merged.views with
  | none =>
    rw [hpres] at hvalue hviews
    refine ⟨⟨false, []⟩, ⟨?_, fun _ => rfl, fun _ he => (nomatch he), nodup_nil⟩, hviews⟩
    exact stableJson_eq_none.mp hvalue
  | some views =>
    rw [hpres] at hvalue hviews hplaV hdist
    have hview : ∀ e ∈ views, Keyed e.1 e.2 ∧ ProtoFree (.record e.2) :=
      fun e he => hplaV e.1 e.2 ((valueAt_eq_some hdist).mpr he)
    obtain ⟨shown, hshown, hkeyed, hsame⟩ := exists_views_of_stable hview hvalue
    refine ⟨⟨true, shown⟩, ⟨hshown, fun h => (nomatch h), hkeyed, ?_⟩, ?_⟩
    · rw [ViewCollection.order, order_of_forall₂ hsame]
      exact hdist
    · exact { hviews with views := fun key => (hviews.views key).of_text (viewText_of_forall₂ hsame key) }

/-- A merge of documents without properties `__proto__` that returns a text has merged them into the document
of that text. -/
theorem exists_documentMerged (hround : yaml.RoundTrips)
    (hsources : Sources yaml baseText currentText deviceText base current device)
    (hplain : PlainSources base current device)
    (h : semanticMergeBasesFile yaml baseText currentText deviceText = .ok result) :
    ∃ document, parseBasesDocument yaml result = .ok document ∧ DocumentMerged base current device document := by
  obtain ⟨merged, hmrg, rfl⟩ := semanticMergeBasesFile_ok hsources h
  obtain ⟨w, hparse, hsame⟩ := hround (merged.document (otherFields base.root current.root device.root))
  obtain ⟨root, rfl, hread⟩ := exists_record_of_stable hsame
  obtain ⟨views, hvalid, hviews⟩ := views_merged hplain hsources hmrg hread
  refine ⟨⟨root, views⟩, parseBasesDocument_iff.mpr ⟨.inl hparse, ?_, hvalid⟩, ?_, ?_, hviews⟩
  · exact fun field hfield => (maps_merged hplain hmrg hread hfield).1
  · exact fun key hmap hkey => fields_merged hplain hmrg hread hmap hkey
  · exact fun field hfield => (maps_merged hplain hmrg hread hfield).2

lemma exists_mergeMapEntry_same (label : String) (x y : Option Json) :
    ∃ value, mergeMapEntry label x y y = .ok value := by
  rw [mergeMapEntry.eq_def]
  by_cases hsame : stableJson y = stableJson x
  · exact ⟨y, if_pos hsame⟩
  · rw [if_neg hsame, if_neg hsame, if_pos rfl]
    exact ⟨y, rfl⟩

lemma exists_mergeViewEntry_same (key : String) (x y : Option Fields) :
    ∃ view, mergeViewEntry key x y y = .ok view := by
  rw [mergeViewEntry.eq_def]
  by_cases hsame : viewText y = viewText x
  · exact ⟨y, if_pos hsame⟩
  · rw [if_neg hsame, if_neg hsame, if_pos rfl]
    exact ⟨y, rfl⟩

lemma exists_mergeNamedMapField_same {baseRoot sideRoot : Fields} {map other : Option Fields}
    (hbase : valueAt baseRoot field = map.map .record) (hside : valueAt sideRoot field = other.map .record) :
    ∃ value, mergeNamedMapField field baseRoot sideRoot sideRoot = .ok value := by
  obtain ⟨baseMap, hbasM⟩ := exists_readOptionalPlainMap.mpr ⟨map, hbase⟩
  obtain ⟨sideMap, hsidM⟩ := exists_readOptionalPlainMap.mpr ⟨other, hside⟩
  obtain ⟨record, hrec⟩ : ∃ record, assignEach (sortedSet (allKeys (baseMap.getD []) (sideMap.getD [])
      (sideMap.getD []))) (fun key => do
        let merged ← mergeMapEntry s!"Bases {field}.{key}" (valueAt (baseMap.getD []) key)
          (valueAt (sideMap.getD []) key) (valueAt (sideMap.getD []) key)
        pure (merged.map canonicalize)) = .ok record := by
    apply exists_collect
    intro key _
    obtain ⟨value, hvalue⟩ := exists_mergeMapEntry_same s!"Bases {field}.{key}" (valueAt (baseMap.getD []) key)
      (valueAt (sideMap.getD []) key)
    exact ⟨_, bind_eq_ok.mpr ⟨value, hvalue, rfl⟩⟩
  by_cases hnone : (baseMap.isNone && sideMap.isNone && sideMap.isNone) = true
  · refine ⟨none, bind_eq_ok.mpr ⟨baseMap, hbasM, bind_eq_ok.mpr ⟨sideMap, hsidM, ?_⟩⟩⟩
    refine bind_eq_ok.mpr ⟨sideMap, hsidM, ?_⟩
    rw [if_pos hnone]
    rfl
  · refine ⟨some (.record record), bind_eq_ok.mpr ⟨baseMap, hbasM, bind_eq_ok.mpr ⟨sideMap, hsidM, ?_⟩⟩⟩
    refine bind_eq_ok.mpr ⟨sideMap, hsidM, ?_⟩
    rw [if_neg hnone]
    exact bind_eq_ok.mpr ⟨record, hrec, rfl⟩

lemma exists_mergeViews_same {base side : ViewCollection} (horder :
      base.order.filter (fun key => key ∈ side.order) = side.order.filter fun key => key ∈ base.order) :
    ∃ views, mergeViews base side side = .ok views := by
  rw [mergeViews]
  split
  · exact ⟨none, rfl⟩
  obtain ⟨views, hviews⟩ : ∃ views, collect (fun _ => true) (mergedViewKeys base side side) (fun key =>
      mergeViewEntry key (valueAt base.views key) (valueAt side.views key) (valueAt side.views key)) = .ok views :=
    exists_collect _ fun key _ => exists_mergeViewEntry_same key _ _
  refine ⟨some views, bind_eq_ok.mpr ⟨(), if_pos horder, bind_eq_ok.mpr ⟨(), if_pos horder, ?_⟩⟩⟩
  rw [hviews]
  rfl

/-- Sides that are the same are merged, whatever they changed, when they keep the views in order. -/
lemma exists_merge_same {side : BasesDocument} {sideText : String}
    (hsrcs : Sources yaml baseText sideText sideText base side side) (horder : base.views.order.filter
      (fun key => key ∈ side.views.order) = side.views.order.filter fun key => key ∈ base.views.order) :
    ∃ result, semanticMergeBasesFile yaml baseText sideText sideText = .ok result := by
  obtain ⟨hbase, hside, -⟩ := hsrcs.valid
  obtain ⟨filters, hfilt⟩ : ∃ filters, mergeAtomicField "Bases filters" (valueAt base.root "filters")
      (valueAt side.root "filters") (valueAt side.root "filters") = .ok filters :=
    exists_mergeAtomicField (.inr (.inr rfl))
  have hmap : ∀ field ∈ baseMapFields, ∃ value,
      mergeNamedMapField field base.root side.root side.root = .ok value := by
    intro field hfield
    obtain ⟨map, hvalue⟩ := hbase.maps field hfield
    obtain ⟨other, hother⟩ := hside.maps field hfield
    exact exists_mergeNamedMapField_same hvalue hother
  obtain ⟨formulas, hform⟩ := hmap "formulas" (by decide)
  obtain ⟨properties, hprop⟩ := hmap "properties" (by decide)
  obtain ⟨summaries, hsumm⟩ := hmap "summaries" (by decide)
  obtain ⟨views, hviews⟩ := exists_mergeViews_same horder
  obtain ⟨others, hoth⟩ : ∃ others, collect (fun _ => true) (otherFields base.root side.root side.root)
      (fun field => mergeAtomicField s!"Bases top-level field {field}" (valueAt base.root field)
        (valueAt side.root field) (valueAt side.root field)) = .ok others :=
    exists_collect _ fun field _ => exists_mergeAtomicField (.inr (.inr rfl))
  let merged : MergedFields := ⟨filters, formulas, properties, summaries, views, others⟩
  refine ⟨endLine (yaml.stringify (.record (merged.document (otherFields base.root side.root side.root)))), ?_⟩
  refine bind_eq_ok.mpr ⟨base, hsrcs.base, bind_eq_ok.mpr ⟨side, hsrcs.current, ?_⟩⟩
  refine bind_eq_ok.mpr ⟨side, hsrcs.device, bind_eq_ok.mpr ⟨filters, hfilt, ?_⟩⟩
  refine bind_eq_ok.mpr ⟨formulas, hform, bind_eq_ok.mpr ⟨properties, hprop, ?_⟩⟩
  refine bind_eq_ok.mpr ⟨summaries, hsumm, bind_eq_ok.mpr ⟨views, hviews, ?_⟩⟩
  exact bind_eq_ok.mpr ⟨others, hoth, rfl⟩

end Merge

section SameEdit

def tableView : Fields := [("type", .string "table"), ("name", .string "T")]

def filteredView : Fields := tableView ++ [("filters", .string "done")]

def viewsRoot (view : Fields) : Fields := [("views", .array [.record view])]

def viewDocument (view : Fields) : BasesDocument := ⟨viewsRoot view, ⟨true, [(viewKey "table" "T", view)]⟩⟩

def tableFile : String := "views:\n  - type: table\n    name: T"

def filteredFile : String := tableFile ++ "\n    filters: done"

def viewFiles : List (String × Json) :=
  [(tableFile, .record (viewsRoot tableView)), (filteredFile, .record (viewsRoot filteredView))]

noncomputable def viewYaml : YamlText where
  parse := (recordedText viewFiles).parse
  stringify v := (recordedText viewFiles).stringify v ++ "\n"

lemma endLine_append (output : String) : endLine (output ++ "\n") = output ++ "\n" := by
  rw [endLine, if_pos]
  simp

lemma viewFiles_distinct : (viewFiles.map Prod.fst).Nodup := by decide +kernel

lemma viewYaml_roundTrips : viewYaml.RoundTrips := by
  intro fields
  have hround : (recordedText viewFiles).RoundTrips := by
    apply roundTrips_recordedText viewFiles_distinct
    intro e he
    have hhead : e.1.toList.head? = some 'v' := by
      simp only [viewFiles, mem_cons, not_mem_nil, or_false] at he
      rcases he with rfl | rfl <;> rfl
    exact ne_stableText_of_head hhead rfl
  obtain ⟨w, hparse, hsame⟩ := hround (.record fields)
  refine ⟨w, ?_, hsame⟩
  rw [viewYaml, endLine_append]
  exact hparse

lemma keyed_view {view : Fields} (htype : valueAt view "type" = some (.string "table"))
    (hname : valueAt view "name" = some (.string "T")) {file : String}
    (hfile : (file, Tree.record (viewsRoot view)) ∈ viewFiles) :
    parseBasesDocument viewYaml (file ++ "\n") = .ok (viewDocument view) := by
  apply parseBasesDocument_iff.mpr
  refine ⟨.inl (parse_recordedText viewFiles_distinct hfile), ?_, ?_⟩
  · intro field hfield
    refine ⟨none, valueAt_eq_none.mpr ?_⟩
    simp only [baseMapFields, mem_cons, not_mem_nil, or_false] at hfield
    rcases hfield with rfl | rfl | rfl <;> simp [viewDocument, viewsRoot]
  · refine ⟨rfl, (by intro h; cases h), ?_, nodup_singleton _⟩
    exact forall_mem_singleton.mpr ⟨"table", "T", htype, hname, rfl⟩

lemma sameEdit_sources : Sources viewYaml (tableFile ++ "\n") (filteredFile ++ "\n") (filteredFile ++ "\n")
    (viewDocument tableView) (viewDocument filteredView) (viewDocument filteredView) := by
  have hfilt : parseBasesDocument viewYaml (filteredFile ++ "\n") = .ok (viewDocument filteredView) :=
    keyed_view rfl rfl (mem_cons_of_mem _ mem_cons_self)
  exact ⟨keyed_view rfl rfl mem_cons_self, hfilt, hfilt⟩

lemma sameEdit_plain :
    PlainSources (viewDocument tableView) (viewDocument filteredView) (viewDocument filteredView) := by
  have hroot : ∀ view, ProtoFree (.record view) → ProtoFree (.record (viewsRoot view)) := by
    intro view hview
    apply ProtoFree.of_mem (by simp [viewsRoot, protoKey])
    intro e he
    obtain rfl : e = ("views", .array [.record view]) := mem_singleton.mp he
    exact .array (forall_mem_singleton.mpr hview)
  have hstr : ∀ fields : List (String × String), protoKey ∉ fields.map Prod.fst →
      ProtoFree (.record (fields.map fun e => (e.1, .string e.2))) := by
    intro fields hfld
    apply ProtoFree.of_mem (by simpa using hfld)
    intro e he
    obtain ⟨field, -, rfl⟩ := mem_map.mp he
    exact .string field.2
  have htable : ProtoFree (.record tableView) := hstr [("type", "table"), ("name", "T")] (by simp [protoKey])
  have hfilt : ProtoFree (.record filteredView) :=
    hstr [("type", "table"), ("name", "T"), ("filters", "done")] (by simp [protoKey])
  exact ⟨hroot _ htable, hroot _ hfilt, hroot _ hfilt⟩

lemma sameEdit_returns : ∃ result, semanticMergeBasesFile viewYaml (tableFile ++ "\n") (filteredFile ++ "\n")
    (filteredFile ++ "\n") = .ok result :=
  exists_merge_same sameEdit_sources rfl

theorem sameEdit_merged : ∃ result document, semanticMergeBasesFile viewYaml (tableFile ++ "\n")
      (filteredFile ++ "\n") (filteredFile ++ "\n") = .ok result ∧
    parseBasesDocument viewYaml result = .ok document ∧
    DocumentMerged (viewDocument tableView) (viewDocument filteredView) (viewDocument filteredView) document := by
  obtain ⟨result, hres⟩ := sameEdit_returns
  obtain ⟨document, hdoc, hmrg⟩ :=
    exists_documentMerged viewYaml_roundTrips sameEdit_sources sameEdit_plain hres
  exact ⟨result, document, hres, hdoc, hmrg⟩

/-- Both sides gave the view the same filters, and the merge takes them over. -/
theorem sameFilters_accepted :
    ¬ ∀ (yaml : YamlText) (baseText currentText deviceText result key : String) (base current device : BasesDocument)
      (b c d : Fields), yaml.RoundTrips → Sources yaml baseText currentText deviceText base current device →
      semanticMergeBasesFile yaml baseText currentText deviceText = .ok result →
      valueAt base.views.views key = some b → valueAt current.views.views key = some c →
      valueAt device.views.views key = some d → viewText (some c) ≠ viewText (some b) →
      viewText (some d) ≠ viewText (some b) → ∀ field, Changed b c field ∨ Changed b d field →
        field ∈ knownViewKeys ∧ field ∉ restrictedConcurrentViewKeys := by
  intro hclaim
  obtain ⟨result, hres⟩ := sameEdit_returns
  have hchg : Changed tableView filteredView "filters" := nofun
  have hview : viewText (some filteredView) ≠ viewText (some tableView) := by
    intro hsame
    exact hchg (stableText_record_iff.mp (some.inj hsame) "filters").symm
  have halw := hclaim viewYaml _ _ _ result (viewKey "table" "T") _ _ _ tableView filteredView filteredView
    viewYaml_roundTrips sameEdit_sources hres rfl rfl rfl hview hview "filters" (.inl hchg)
  exact halw.2 (by decide)

end SameEdit

end BasesMerge
