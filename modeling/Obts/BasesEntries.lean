import Obts.BasesFiles
import Obts.CanvasDocuments

/-!
# Merged entries of Bases files

For documents without properties named `__proto__` every level of the merge follows one rule: an atom has the
value of the side that changed it, and an entry or a view that both sides changed is taken apart into its keys
where it is a mapping on all three sides.
-/
namespace BasesEntries

open InsertionOrder JsonTrees CanvasFiles CanvasMerge CanvasEntries CanvasDocuments BasesFiles ThreeWayMerge
    Metadata

/-- A value that may be missing, without properties `__proto__`. -/
def Free (value : Option Json) : Prop := ∀ v, value = some v → ProtoFree v

section Free
variable {value other base current device : Option Json} {fields record : Fields} {key : String}

lemma free_none : Free none := fun _ h => nomatch h

lemma Free.of_stable (h : Free value) (hsame : stableJson other = stableJson value) : Free other := by
  rintro w rfl
  cases value with
  | none => cases hsame
  | some v => exact (h v rfl).of_stable (Option.some.inj hsame)

lemma Free.canonical (h : Free value) : stableJson (value.map canonicalize) = stableJson value := by
  cases value with
  | none => rfl
  | some v => exact congrArg some ((stableText_canonicalize_iff v).mpr (h v rfl))

lemma Free.choose (hcur : Free current) (hdev : Free device) : Free (choose stableJson base current device) := by
  rcases choose_eq_or stableJson base current device with h | h <;> rw [h]
  · exact hdev
  · exact hcur

lemma free_valueAt (h : ProtoFree (.record fields)) (key : String) : Free (valueAt fields key) := by
  cases h with
  | record _ hvals => exact hvals key

lemma valueAt_protoKey (h : ProtoFree (.record fields)) : valueAt fields protoKey = none := by
  cases h with
  | record hkey _ => exact hkey

/-- A record that was made key by key has no property `__proto__`. -/
lemma valueAt_assignEach_protoKey {keys : List String} {f : String → Except MergeError (Option Json)}
    (h : assignEach keys f = .ok record) : valueAt record protoKey = none := by
  rw [valueAt_collect h, if_neg]
  simp

lemma protoFree_record (hkey : valueAt fields protoKey = none) (hvals : ∀ key, Free (valueAt fields key)) :
    ProtoFree (.record fields) :=
  .record hkey fun key v hv => hvals key v hv

end Free

/-- A record whose keys are merged one by one, without a conflict. -/
def KeysMerged (base current device merged : Fields) : Prop :=
  ∀ key, Agrees stableJson (valueAt base key) (valueAt current key) (valueAt device key) ∧
    Merges stableJson (valueAt base key) (valueAt current key) (valueAt device key) (valueAt merged key)

section Nested
variable {label : String} {base current device record other : Fields}

lemma KeysMerged.of_stable (h : KeysMerged base current device record)
    (hsame : ∀ key, stableJson (valueAt other key) = stableJson (valueAt record key)) :
    KeysMerged base current device other := by
  intro key
  obtain ⟨hagr, hmerg⟩ := h key
  refine ⟨hagr, (merges_iff hagr).mpr ?_⟩
  exact (hsame key).trans ((merges_iff hagr).mp hmerg)

lemma mergeNestedObject_ok (h : mergeNestedObject label base current device = .ok record)
    (hbase : ProtoFree (.record base)) (hcur : ProtoFree (.record current)) (hdev : ProtoFree (.record device)) :
    KeysMerged base current device record ∧ ProtoFree (.record record) := by
  have hkey : ∀ key value, (do
      let merged ← mergeAtomicField s!"{label}.{key}" (valueAt base key) (valueAt current key) (valueAt device key)
      pure (merged.map canonicalize) : Except MergeError (Option Json)) = .ok value →
      Agrees stableJson (valueAt base key) (valueAt current key) (valueAt device key) ∧ stableJson value
          = stableJson (choose stableJson (valueAt base key) (valueAt current key) (valueAt device key)) := by
    intro key value hvalue
    obtain ⟨merged, hmrg, hvalue⟩ := bind_eq_ok.mp hvalue
    cases hvalue
    obtain ⟨hagr, hsame⟩ := mergeAtomicField_ok hmrg
    have hfree : Free merged :=
      (Free.choose (free_valueAt hcur key) (free_valueAt hdev key)).of_stable hsame
    exact ⟨hagr, hfree.canonical.trans hsame⟩
  have hvals : ∀ key, key ≠ protoKey → stableJson (valueAt record key)
      = stableJson (choose stableJson (valueAt base key) (valueAt current key) (valueAt device key)) := by
    intro key hproto
    exact assignEach_ok (fun _ => mem_sortedSet) h (fun k value hok _ => (hkey k value hok).2) hproto
  have hnone : valueAt record protoKey = none := valueAt_assignEach_protoKey h
  constructor
  · intro key
    by_cases hproto : key = protoKey
    · subst hproto
      rw [valueAt_protoKey hbase, valueAt_protoKey hcur, valueAt_protoKey hdev, hnone]
      exact ⟨.inl rfl, merges_choose⟩
    have hagr : Agrees stableJson (valueAt base key) (valueAt current key) (valueAt device key) := by
      by_cases hmem : key ∈ allKeys base current device
      · obtain ⟨value, hok⟩ := exists_of_collect h (mem_sortedSet.mpr hmem)
        exact (hkey key value hok).1
      obtain ⟨hb, hc, -⟩ := valueAt_of_notMem_allKeys hmem
      rw [hb, hc]
      exact .inl rfl
    exact ⟨hagr, (merges_iff hagr).mpr (hvals key hproto)⟩
  · apply protoFree_record hnone
    intro key
    by_cases hproto : key = protoKey
    · subst hproto
      rw [hnone]
      exact free_none
    · exact (Free.choose (free_valueAt hcur key) (free_valueAt hdev key)).of_stable (hvals key hproto)

end Nested

/-- What the merge of an entry owes to its sources: it is merged as a whole, and taken apart where it is a
mapping on all three sides. -/
structure EntryMerged (base current device merged : Option Json) : Prop where
  merges : Merges stableJson base current device merged
  nested : ∀ b c d, base = some (.record b) → current = some (.record c) → device = some (.record d) →
    ∃ record, merged = some (.record record) ∧ KeysMerged b c d record
  atom : (¬ ∃ b c d, base = some (.record b) ∧ current = some (.record c) ∧ device = some (.record d)) →
    Agrees stableJson base current device

section Entries
variable {label : String} {base current device merged other : Option Json}

lemma exists_record_of_stableJson {fields : Fields} (h : stableJson other = stableJson (some (.record fields))) :
    ∃ record, other = some (.record record) ∧
      ∀ key, stableJson (valueAt record key) = stableJson (valueAt fields key) := by
  cases other with
  | none => cases h
  | some v =>
    obtain ⟨record, rfl, hsame⟩ := exists_record_of_stable (Option.some.inj h)
    exact ⟨record, rfl, hsame⟩

lemma EntryMerged.of_stable (h : EntryMerged base current device merged)
    (hsame : stableJson other = stableJson merged) : EntryMerged base current device other where
  merges := by
    constructor
    · exact fun hcur => hsame.trans (h.merges.ofDevice hcur)
    · exact fun hdev => hsame.trans (h.merges.ofCurrent hdev)
    · exact fun hcom => hsame.trans (h.merges.common hcom)
  nested := by
    intro b c d hbase hcur hdev
    obtain ⟨record, rfl, hkeys⟩ := h.nested b c d hbase hcur hdev
    obtain ⟨read, rfl, hread⟩ := exists_record_of_stableJson hsame
    exact ⟨read, rfl, hkeys.of_stable hread⟩
  atom := h.atom

/-- An entry that at most one side changed, or both in the same way. -/
lemma entryMerged_of_agrees (hagr : Agrees stableJson base current device)
    (hmrg : stableJson merged = stableJson (choose stableJson base current device)) :
    EntryMerged base current device merged where
  merges := (merges_iff hagr).mpr hmrg
  nested := by
    rintro b c d rfl rfl rfl
    have hrec : ∃ record, merged = some (.record record) := by
      rcases choose_eq_or stableJson (some (Tree.record b)) (some (Tree.record c)) (some (Tree.record d))
        with hside | hside <;> rw [hside] at hmrg
      · exact (exists_record_of_stableJson hmrg).imp fun _ hr => hr.1
      · exact (exists_record_of_stableJson hmrg).imp fun _ hr => hr.1
    obtain ⟨record, rfl⟩ := hrec
    have htext : ∀ {x y : Fields}, stableJson (some (.record x)) = stableJson (some (.record y)) →
        ∀ key, stableJson (valueAt x key) = stableJson (valueAt y key) :=
      fun h => stableText_record_iff.mp (Option.some.inj h)
    refine ⟨record, rfl, fun key => ?_⟩
    rcases hagr with hcur | hdev | hcom
    · have hkey : Agrees stableJson (valueAt b key) (valueAt c key) (valueAt d key) := .inl (htext hcur key)
      rw [choose, if_pos hcur] at hmrg
      refine ⟨hkey, (merges_iff hkey).mpr ?_⟩
      rw [choose, if_pos (htext hcur key)]
      exact htext hmrg key
    · have hkey : Agrees stableJson (valueAt b key) (valueAt c key) (valueAt d key) :=
        .inr (.inl (htext hdev key))
      rw [text_choose_of_device hdev] at hmrg
      exact ⟨hkey, (merges_iff hkey).mpr ((htext hmrg key).trans (text_choose_of_device (htext hdev key)).symm)⟩
    · have hkey : Agrees stableJson (valueAt b key) (valueAt c key) (valueAt d key) :=
        .inr (.inr (htext hcom key))
      rw [text_choose_of_common hcom] at hmrg
      exact ⟨hkey, (merges_iff hkey).mpr ((htext hmrg key).trans (text_choose_of_common (htext hcom key)).symm)⟩
  atom := fun _ => hagr

lemma mergeMapEntry_ok (h : mergeMapEntry label base current device = .ok merged)
    (hbase : Free base) (hcur : Free current) (hdev : Free device) :
    EntryMerged base current device merged ∧ Free merged := by
  rw [mergeMapEntry.eq_def] at h
  split at h
  · rename_i hsame
    cases h
    exact ⟨entryMerged_of_agrees (.inl hsame) (by rw [choose, if_pos hsame]), hdev⟩
  rename_i hcurC
  split at h
  · rename_i hsame
    cases h
    exact ⟨entryMerged_of_agrees (.inr (.inl hsame)) (text_choose_of_device hsame).symm, hcur⟩
  rename_i hdevC
  split at h
  · rename_i hsame
    cases h
    exact ⟨entryMerged_of_agrees (.inr (.inr hsame)) (text_choose_of_common hsame).symm, hcur⟩
  rename_i hcom
  split at h
  · cases h
  · rename_i b c d
    obtain ⟨record, hrec, h⟩ := bind_eq_ok.mp h
    cases h
    obtain ⟨hkeys, hfree⟩ := mergeNestedObject_ok hrec (hbase _ rfl) (hcur _ rfl) (hdev _ rfl)
    refine ⟨⟨?_, ?_, ?_⟩, ?_⟩
    · exact ⟨fun hsame => absurd hsame hcurC, fun hsame => absurd hsame hdevC, fun hsame => absurd hsame hcom⟩
    · rintro b c d ⟨⟩ ⟨⟩ ⟨⟩
      exact ⟨record, rfl, hkeys⟩
    · exact fun hnot => absurd ⟨b, c, d, rfl, rfl, rfl⟩ hnot
    · rintro v ⟨⟩
      exact hfree
  · cases h
  · cases h

end Entries

/-- An entry of a named map of a document. -/
def entryOf (root : Fields) (field key : String) : Option Json :=
  match valueAt root field with
  | some (.record fields) => valueAt fields key
  | _ => none

section Maps
variable {field key : String} {root base current device : Fields} {map : Option Fields} {merged : Option Json}

lemma readOptionalPlainMap_ok (h : readOptionalPlainMap root field = .ok map) :
    valueAt root field = map.map .record := by
  rw [readOptionalPlainMap] at h
  split at h
  · rename_i hvalue
    cases h
    exact hvalue
  · rename_i hvalue
    cases h
    exact hvalue
  · cases h

lemma entryOf_eq (h : valueAt root field = map.map .record) (key : String) :
    entryOf root field key = valueAt (map.getD []) key := by
  rw [entryOf, h]
  cases map <;> rfl

lemma protoFree_map (hroot : ProtoFree (.record root)) (h : valueAt root field = map.map .record) :
    ProtoFree (.record (map.getD [])) := by
  cases map with
  | none => exact protoFree_record rfl fun _ => free_none
  | some fields => exact free_valueAt hroot field _ h

lemma entryMerged_none : EntryMerged none none none none :=
  entryMerged_of_agrees (.inl rfl) rfl

/-- Entries are merged one by one; where no side has the map there are none. -/
lemma mergeNamedMapField_ok (h : mergeNamedMapField field base current device = .ok merged)
    (hbase : ProtoFree (.record base)) (hcur : ProtoFree (.record current)) (hdev : ProtoFree (.record device)) :
    ∃ map : Option Fields, merged = map.map .record ∧ ProtoFree (.record (map.getD [])) ∧
      ∀ key, EntryMerged (entryOf base field key) (entryOf current field key) (entryOf device field key)
        (valueAt (map.getD []) key) := by
  obtain ⟨baseMap, hbasM, h⟩ := bind_eq_ok.mp h
  obtain ⟨currentMap, hcurM, h⟩ := bind_eq_ok.mp h
  obtain ⟨deviceMap, hdevM, h⟩ := bind_eq_ok.mp h
  have hb := readOptionalPlainMap_ok hbasM
  have hc := readOptionalPlainMap_ok hcurM
  have hd := readOptionalPlainMap_ok hdevM
  have hbasF := protoFree_map hbase hb
  have hcurF := protoFree_map hcur hc
  have hdevF := protoFree_map hdev hd
  simp only [entryOf_eq hb, entryOf_eq hc, entryOf_eq hd]
  split at h
  · rename_i hnone
    cases h
    simp only [Bool.and_eq_true, Option.isNone_iff_eq_none] at hnone
    obtain ⟨⟨rfl, rfl⟩, rfl⟩ := hnone
    exact ⟨none, rfl, hbasF, fun key => entryMerged_none⟩
  · obtain ⟨record, hrec, h⟩ := bind_eq_ok.mp h
    cases h
    have hkey : ∀ key, EntryMerged (valueAt (baseMap.getD []) key) (valueAt (currentMap.getD []) key)
        (valueAt (deviceMap.getD []) key) (valueAt record key) ∧ Free (valueAt record key) := by
      intro key
      by_cases hproto : key = protoKey
      · subst hproto
        rw [valueAt_protoKey hbasF, valueAt_protoKey hcurF, valueAt_protoKey hdevF,
          valueAt_assignEach_protoKey hrec]
        exact ⟨entryMerged_none, free_none⟩
      by_cases hmem : key ∈ sortedSet (allKeys (baseMap.getD []) (currentMap.getD []) (deviceMap.getD []))
      · obtain ⟨value, hok⟩ := exists_of_collect hrec hmem
        rw [valueAt_collect_of_mem hrec hmem (by simpa using hproto) hok]
        obtain ⟨entry, hentry, hvalue⟩ := bind_eq_ok.mp hok
        cases hvalue
        obtain ⟨hmrg, hfree⟩ := mergeMapEntry_ok hentry (free_valueAt hbasF key)
          (free_valueAt hcurF key) (free_valueAt hdevF key)
        exact ⟨hmrg.of_stable hfree.canonical, hfree.of_stable hfree.canonical⟩
      · have hnone : valueAt record key = none := by
          rw [valueAt_collect hrec, if_neg fun hin => hmem hin.1]
        rw [mem_sortedSet] at hmem
        obtain ⟨hx, hy, hz⟩ := valueAt_of_notMem_allKeys hmem
        rw [hx, hy, hz, hnone]
        exact ⟨entryMerged_none, free_none⟩
    refine ⟨some record, rfl, ?_, fun key => (hkey key).1⟩
    exact protoFree_record (valueAt_assignEach_protoKey hrec) fun key => (hkey key).2

end Maps

/-- A key that a side changed. -/
def Changed (base side : Fields) (key : String) : Prop :=
  stableJson (valueAt base key) ≠ stableJson (valueAt side key)

/-- What the merge of a view owes to its sources. Both sides may have changed a view differently only in keys
that are known and not restricted. -/
structure ViewMerged (base current device merged : Option Fields) : Prop where
  entry : EntryMerged (base.map .record) (current.map .record) (device.map .record) (merged.map .record)
  restricted : ∀ b c d, base = some b → current = some c → device = some d →
    ¬ Agrees viewText base current device → ∀ key, Changed b c key ∨ Changed b d key →
      key ∈ knownViewKeys ∧ key ∉ restrictedConcurrentViewKeys

/-- A view under its key. -/
def Keyed (key : String) (view : Fields) : Prop :=
  ∃ type name, valueAt view "type" = some (.string type) ∧ valueAt view "name" = some (.string name) ∧
    key = viewKey type name

section Views
variable {key : String} {b c d record : Fields} {base current device merged : Option Fields}

lemma mem_changedFieldKeys : key ∈ changedFieldKeys b c ↔ Changed b c key := by
  rw [changedFieldKeys, List.mem_filter, mem_ofList, List.mem_append, mem_keysOf, mem_keysOf, decide_eq_true_eq]
  constructor
  · exact fun h => h.2
  intro hchg
  refine ⟨?_, hchg⟩
  by_contra hkey
  rw [not_or, ← valueAt_eq_none, ← valueAt_eq_none] at hkey
  exact hchg (by rw [hkey.1, hkey.2])

lemma changedFieldKeys_ne_nil (h : viewText (some c) ≠ viewText (some b)) : changedFieldKeys b c ≠ [] := by
  intro hnil
  apply h
  refine congrArg some (stableText_record_iff.mpr fun key => ?_)
  by_contra hne
  have hmem : key ∈ changedFieldKeys b c := mem_changedFieldKeys.mpr fun hsame => hne hsame.symm
  rw [hnil] at hmem
  cases hmem

lemma assertViewKeys_ok {changed : List String} (h : assertViewKeys changed = .ok ()) :
    ∀ key ∈ changed, key ∈ knownViewKeys ∧ key ∉ restrictedConcurrentViewKeys := by
  rw [assertViewKeys] at h
  split at h
  · cases h
  rename_i hknown
  split at h
  · cases h
  rename_i hrest
  intro key hkey
  constructor
  · by_contra hnot
    exact hknown (List.any_eq_true.mpr ⟨key, hkey, by simpa using hnot⟩)
  · intro hin
    exact List.find?_eq_none.mp hrest key hin (by simpa using hkey)

lemma mergeViewObject_ok (h : mergeViewObject key b c d = .ok record)
    (hcur : viewText (some c) ≠ viewText (some b)) (hdev : viewText (some d) ≠ viewText (some b))
    (hb : ProtoFree (.record b)) (hc : ProtoFree (.record c)) (hd : ProtoFree (.record d)) :
    KeysMerged b c d record ∧ ProtoFree (.record record) ∧
      ∀ key, Changed b c key ∨ Changed b d key → key ∈ knownViewKeys ∧ key ∉ restrictedConcurrentViewKeys := by
  rw [mergeViewObject] at h
  have hchk : (!(changedFieldKeys b c).isEmpty && !(changedFieldKeys b d).isEmpty) = true := by
    have hc := changedFieldKeys_ne_nil hcur
    have hd := changedFieldKeys_ne_nil hdev
    simp [hc, hd]
  rw [if_pos hchk] at h
  obtain ⟨_, hkeys, h⟩ := bind_eq_ok.mp h
  obtain ⟨hmrg, hfree⟩ := mergeNestedObject_ok h hb hc hd
  refine ⟨hmrg, hfree, fun key hchg => assertViewKeys_ok hkeys key ?_⟩
  rw [List.mem_append, mem_changedFieldKeys, mem_changedFieldKeys]
  exact hchg

lemma some_map_ok {ε α : Type} {x : Except ε α} {value : Option α} (h : some <$> x = .ok value) :
    ∃ v, x = .ok v ∧ value = some v := by
  cases x with
  | error e => cases h
  | ok v =>
    cases h
    exact ⟨v, rfl, rfl⟩

lemma text_choose_map :
    stableJson (choose stableJson (base.map Tree.record) (current.map .record) (device.map .record))
    = viewText (choose viewText base current device) := by
  rw [choose, choose]
  split
  · rename_i hsame
    rw [if_pos (show viewText current = viewText base from hsame)]
    rfl
  rename_i hsame
  rw [if_neg (show ¬ viewText current = viewText base from hsame)]
  rfl

lemma viewMerged_of_agrees (hagr : Agrees viewText base current device)
    (hmrg : viewText merged = viewText (choose viewText base current device)) :
    ViewMerged base current device merged where
  entry := entryMerged_of_agrees hagr (hmrg.trans text_choose_map.symm)
  restricted := fun _ _ _ _ _ _ hnot => absurd hagr hnot

lemma ViewMerged.of_text {other : Option Fields} (h : ViewMerged base current device merged)
    (hsame : viewText other = viewText merged) : ViewMerged base current device other :=
  ⟨h.entry.of_stable hsame, h.restricted⟩

/-- A view has its key from fields that have one text in all of these. -/
lemma Keyed.of_stable {view other : Fields} (h : Keyed key view)
    (htype : stableJson (valueAt other "type") = stableJson (valueAt view "type"))
    (hname : stableJson (valueAt other "name") = stableJson (valueAt view "name")) : Keyed key other := by
  obtain ⟨type, name, htypV, hnamV, rfl⟩ := h
  exact ⟨type, name, eq_string_of_stableJson htype htypV, eq_string_of_stableJson hname hnamV, rfl⟩

/-- A view without properties `__proto__`, under its key. -/
def PlainView (key : String) (view : Option Fields) : Prop :=
  ∀ fields, view = some fields → Keyed key fields ∧ ProtoFree (.record fields)

lemma mergeViewEntry_ok (h : mergeViewEntry key base current device = .ok merged) (hbase : PlainView key base)
    (hcur : PlainView key current) (hdev : PlainView key device) :
    ViewMerged base current device merged ∧ PlainView key merged := by
  rw [mergeViewEntry.eq_def] at h
  split at h
  · rename_i hsame
    cases h
    exact ⟨viewMerged_of_agrees (.inl hsame) (by rw [choose, if_pos hsame]), hdev⟩
  rename_i hcurC
  split at h
  · rename_i hsame
    cases h
    exact ⟨viewMerged_of_agrees (.inr (.inl hsame)) (text_choose_of_device hsame).symm, hcur⟩
  rename_i hdevC
  split at h
  · rename_i hsame
    cases h
    exact ⟨viewMerged_of_agrees (.inr (.inr hsame)) (text_choose_of_common hsame).symm, hcur⟩
  rename_i hcom
  split at h
  · cases h
  · rename_i b c d
    obtain ⟨record, hrec, rfl⟩ := some_map_ok h
    obtain ⟨hkeyed, hfree⟩ := hbase b rfl
    obtain ⟨hkeys, hfreR, halw⟩ := mergeViewObject_ok hrec hcurC hdevC hfree (hcur c rfl).2 (hdev d rfl).2
    refine ⟨⟨⟨?_, ?_, ?_⟩, ?_⟩, ?_⟩
    · exact ⟨fun hsame => absurd hsame hcurC, fun hsame => absurd hsame hdevC, fun hsame => absurd hsame hcom⟩
    · rintro b c d ⟨⟩ ⟨⟩ ⟨⟩
      exact ⟨record, rfl, hkeys⟩
    · exact fun hnot => absurd ⟨b, c, d, rfl, rfl, rfl⟩ hnot
    · rintro b c d ⟨⟩ ⟨⟩ ⟨⟩ -
      exact halw
    -- the type and the name are among the restricted keys
    rintro fields ⟨⟩
    have hunch : ∀ key ∈ restrictedConcurrentViewKeys,
        stableJson (valueAt record key) = stableJson (valueAt b key) := by
      intro key hrest
      have hc : stableJson (valueAt c key) = stableJson (valueAt b key) := by
        by_contra hne
        exact (halw key (.inl fun hsame => hne hsame.symm)).2 hrest
      have hd : stableJson (valueAt d key) = stableJson (valueAt b key) := by
        by_contra hne
        exact (halw key (.inr fun hsame => hne hsame.symm)).2 hrest
      exact ((hkeys key).2.ofDevice hc).trans hd
    exact ⟨hkeyed.of_stable (hunch "type" (by decide)) (hunch "name" (by decide)), hfreR⟩
  · cases h

end Views

end BasesEntries
