import Obts.CanvasOrder
import Obts.ThreeWayMerge

/-!
# Merged entries

Where an entry is merged at all, each of its fields has the value of the side that changed it. Fields named
`__proto__` are apart: an object that has none is read as having an empty one, and a merged entry gets none.
-/
namespace CanvasEntries

open InsertionOrder JsonTrees CanvasFiles CanvasMerge ThreeWayMerge Metadata

/-- A field of an entry that may be missing. -/
def fieldOf (entry : Option Fields) (key : String) : Option Json := entry.bind fun record => valueAt record key

/-- A field of the entry under an id. -/
def fieldAt (entries : Entries) (id key : String) : Option Json := fieldOf (valueAt entries id) key

@[simp] lemma fieldOf_none (key : String) : fieldOf none key = none := rfl

section Reading
variable {base current device side record : Fields} {key : String}

lemma stableJson_propertyOf_congr (h : stableJson (valueAt base key) = stableJson (valueAt side key)) :
    stableJson (propertyOf base key) = stableJson (propertyOf side key) := by
  rw [propertyOf, propertyOf]
  cases hbase : valueAt base key with
  | none =>
    rw [hbase, stableJson_none, eq_comm, stableJson_eq_none] at h
    rw [h]
  | some v =>
    cases hside : valueAt side key with
    | none => simp [hbase, hside] at h
    | some w =>
      rw [hbase, hside] at h
      exact h

lemma agrees_propertyOf (h : Agrees stableJson (valueAt base key) (valueAt current key) (valueAt device key)) :
    Agrees stableJson (propertyOf base key) (propertyOf current key) (propertyOf device key) := by
  rcases h with h | h | h
  · exact .inl (stableJson_propertyOf_congr h)
  · exact .inr (.inl (stableJson_propertyOf_congr h))
  · exact .inr (.inr (stableJson_propertyOf_congr h))

lemma sameRecord_iff :
    sameRecord base side ↔ ∀ key, stableJson (valueAt base key) = stableJson (valueAt side key) := by
  rw [sameRecord, decide_eq_true_eq, stableText_record_iff]

lemma mem_changedObjectKeys {base : Option Fields} : key ∈ changedObjectKeys base side ↔
      (key ∈ (base.getD []).map Prod.fst ∨ key ∈ side.map Prod.fst) ∧
        stableJson (base.bind fun record => propertyOf record key) ≠ stableJson (propertyOf side key) := by
  simp [changedObjectKeys]

lemma objectChanged_eq_false_iff :
    objectChanged base side = false ↔ ∀ key, stableJson (propertyOf base key) = stableJson (propertyOf side key) := by
  rw [objectChanged, Bool.not_eq_false', List.isEmpty_iff, List.eq_nil_iff_forall_not_mem]
  constructor
  · intro h key
    by_contra hne
    by_cases hkey : key ∈ base.map Prod.fst ∨ key ∈ side.map Prod.fst
    · exact h key (mem_changedObjectKeys.mpr ⟨hkey, hne⟩)
    · rw [not_or, ← valueAt_eq_none, ← valueAt_eq_none] at hkey
      exact hne (by rw [propertyOf, propertyOf, hkey.1, hkey.2])
  · intro h key hkey
    exact (mem_changedObjectKeys.mp hkey).2 (h key)

end Reading

section Merging
variable {kind : CollectionKind} {id key : String} {base current device record : Fields}
  {value : Option Json} {keys : List String}

lemma mergeCanvasField_ok (h : mergeCanvasField kind id base current device key = .ok value) :
    Agrees stableJson (propertyOf base key) (propertyOf current key) (propertyOf device key) ∧
      (key ≠ protoKey → stableJson value
        = stableJson (choose stableJson (valueAt base key) (valueAt current key) (valueAt device key))) := by
  rw [mergeCanvasField] at h
  split at h
  · cases h
  rename_i hconf
  simp only [Bool.and_eq_true, decide_eq_true_eq, ne_eq, not_and_or, not_not] at hconf
  have hagr : Agrees stableJson (propertyOf base key) (propertyOf current key) (propertyOf device key) := by
    rcases hconf with (hcur | hdev) | hcom
    · exact .inl hcur.symm
    · exact .inr (.inl hdev.symm)
    · exact .inr (.inr hcom)
  refine ⟨hagr, fun hkey => ?_⟩
  rw [propertyOf_of_ne hkey, propertyOf_of_ne hkey, propertyOf_of_ne hkey] at h hagr
  split at h
  · -- the device changed the field
    rename_i hdev
    cases h
    rcases hagr with hsame | hsame | hsame
    · rw [choose, if_pos hsame]
    · simp [hsame] at hdev
    · rw [text_choose_of_common hsame, hsame]
  · rename_i hdev
    simp only [decide_eq_true_eq, ne_eq, not_not] at hdev
    have hsame : stableJson (valueAt device key) = stableJson (valueAt base key) := hdev.symm
    rw [text_choose_of_device hsame]
    split at h
    · cases h
      rfl
    rename_i hcur
    cases h
    simpa using hcur

lemma exists_mergeCanvasField
    (h : Agrees stableJson (propertyOf base key) (propertyOf current key) (propertyOf device key)) :
    ∃ value, mergeCanvasField kind id base current device key = .ok value := by
  rw [mergeCanvasField]
  split
  · rename_i hconf
    simp only [Bool.and_eq_true, decide_eq_true_eq, ne_eq] at hconf
    rcases h with h | h | h
    · exact absurd h.symm hconf.1.1
    · exact absurd h.symm hconf.1.2
    · exact absurd h hconf.2
  split
  · exact ⟨_, rfl⟩
  split
  · exact ⟨_, rfl⟩
  · exact ⟨_, rfl⟩

lemma mem_allKeys : key ∈ allKeys base current device ↔
    key ∈ base.map Prod.fst ∨ key ∈ current.map Prod.fst ∨ key ∈ device.map Prod.fst := by
  simp [allKeys]

lemma valueAt_of_notMem_allKeys (h : key ∉ allKeys base current device) :
    valueAt base key = none ∧ valueAt current key = none ∧ valueAt device key = none := by
  rw [mem_allKeys, not_or, not_or] at h
  exact ⟨valueAt_eq_none.mpr h.1, valueAt_eq_none.mpr h.2.1, valueAt_eq_none.mpr h.2.2⟩

/-- A field is merged as it would be, had the loop gone over all keys there are. -/
lemma assignEach_ok {f : String → Except MergeError (Option Json)}
    (hkeys : ∀ k, k ∈ keys ↔ k ∈ allKeys base current device) (h : assignEach keys f = .ok record)
    (hvalue : ∀ k value, f k = .ok value → k ≠ protoKey → stableJson value
      = stableJson (choose stableJson (valueAt base k) (valueAt current k) (valueAt device k)))
    (hkey : key ≠ protoKey) : stableJson (valueAt record key)
      = stableJson (choose stableJson (valueAt base key) (valueAt current key) (valueAt device key)) := by
  by_cases hmem : key ∈ keys
  · obtain ⟨value, hok⟩ := exists_of_collect h hmem
    rw [valueAt_collect_of_mem h hmem (by simpa using hkey) hok]
    exact hvalue key value hok hkey
  obtain ⟨hbase, hcur, hdev⟩ := valueAt_of_notMem_allKeys fun hall => hmem ((hkeys key).mpr hall)
  rw [valueAt_collect h, if_neg fun hin => hmem hin.1, hbase, hcur, hdev]
  rfl

lemma mem_sortedSet : key ∈ sortedSet keys ↔ key ∈ keys := by
  simp [sortedSet]

/-- Where the fields of an entry were merged, the sides agreed on each. -/
lemma mergeCanvasFields_ok (h : mergeCanvasFields kind id base current device = .ok record) :
    (∀ key, Agrees stableJson (propertyOf base key) (propertyOf current key) (propertyOf device key)) ∧
      ∀ key, key ≠ protoKey → stableJson (valueAt record key)
        = stableJson (choose stableJson (valueAt base key) (valueAt current key) (valueAt device key)) := by
  obtain ⟨merged, hmrg, h⟩ := bind_eq_ok.mp h
  have heq : merged = record := by
    split at h
    · obtain ⟨_, -, h⟩ := bind_eq_ok.mp h
      exact Except.ok.inj h
    · exact Except.ok.inj h
  subst heq
  constructor
  · intro key
    by_cases hmem : key ∈ allKeys base current device
    · obtain ⟨value, hok⟩ := exists_of_collect hmrg (mem_sortedSet.mpr hmem)
      exact (mergeCanvasField_ok hok).1
    obtain ⟨hbase, hcur, -⟩ := valueAt_of_notMem_allKeys hmem
    left
    rw [propertyOf, propertyOf, hbase, hcur]
  · intro key hkey
    exact assignEach_ok (fun _ => mem_sortedSet) hmrg (fun k value hok => (mergeCanvasField_ok hok).2) hkey

end Merging

section Entry
variable {kind : CollectionKind} {id key : String} {base current device merged : Option Fields}

/-- Which entries are merged: those that both sides keep, and those that a side adds. -/
def Kept : Option Fields → Option Fields → Option Fields → Prop
  | some _, current, device => current.isSome ∧ device.isSome
  | none, current, device => current.isSome ∨ device.isSome

/-- An entry that one side deletes is as it was on the other. -/
structure DeletedUnchanged (base current device : Option Fields) (key : String) : Prop where
  byCurrent : base.isSome → current = none → device.isSome →
    stableJson (fieldOf device key) = stableJson (fieldOf base key)
  byDevice : base.isSome → device = none → current.isSome →
    stableJson (fieldOf current key) = stableJson (fieldOf base key)

/-- What merging an entry comes to, for the fields that an object is not asked for its prototype by. -/
structure EntryMerge (base current device merged : Option Fields) : Prop where
  kept : merged.isSome ↔ Kept base current device
  fields : ∀ key, key ≠ protoKey → merged.isSome → stableJson (fieldOf merged key)
    = stableJson (choose stableJson (fieldOf base key) (fieldOf current key) (fieldOf device key))
  agrees : ∀ key, key ≠ protoKey → Agrees stableJson (fieldOf base key) (fieldOf current key) (fieldOf device key)
  deleted : ∀ key, key ≠ protoKey → DeletedUnchanged base current device key

lemma unchanged_of_not_objectChanged {base side : Fields} (h : objectChanged base side = false)
    (hkey : key ≠ protoKey) : stableJson (valueAt side key) = stableJson (valueAt base key) := by
  have hsame := objectChanged_eq_false_iff.mp h key
  rw [propertyOf_of_ne hkey, propertyOf_of_ne hkey] at hsame
  exact hsame.symm

lemma entryMerge_of_all {base current device record : Fields} (hagr : ∀ key, key ≠ protoKey →
      Agrees stableJson (valueAt base key) (valueAt current key) (valueAt device key))
    (hfld : ∀ key, key ≠ protoKey → stableJson (valueAt record key)
      = stableJson (choose stableJson (valueAt base key) (valueAt current key) (valueAt device key))) :
    EntryMerge (some base) (some current) (some device) (some record) where
  kept := by simp [Kept]
  fields := fun key hkey _ => hfld key hkey
  agrees := hagr
  deleted := fun _ _ => ⟨fun _ h => (nomatch h), fun _ h => (nomatch h)⟩

/-- An entry that one side added, or both in the same way. -/
lemma entryMerge_of_added
    (hsame : current.isSome → device.isSome →
      ∀ key, stableJson (fieldOf current key) = stableJson (fieldOf device key)) :
    EntryMerge none current device (current.or device) where
  kept := by
    cases current <;> simp [Kept]
  fields := by
    intro key _ _
    rcases current with _ | current
    · rfl
    rw [Option.some_or, fieldOf_none]
    rcases device with _ | device
    · exact (text_choose_of_device rfl).symm
    · rw [text_choose_of_common (hsame rfl rfl key)]
  agrees := by
    intro key _
    rcases current with _ | current
    · exact .inl rfl
    rcases device with _ | device
    · exact .inr (.inl rfl)
    · exact .inr (.inr (hsame rfl rfl key))
  deleted := fun _ _ => ⟨fun h => (nomatch h), fun h => (nomatch h)⟩

lemma mergeCanvasEntry_ok : ∀ {base current device merged : Option Fields},
    mergeCanvasEntry kind id base current device = .ok merged → EntryMerge base current device merged
  | none, none, none, _, h => by
    cases h
    constructor
    · simp [Kept]
    · exact fun _ _ h => nomatch h
    · exact fun _ _ => Or.inl rfl
    · exact fun _ _ => ⟨fun h => (nomatch h), fun h => (nomatch h)⟩
  | none, none, some device, _, h => by
    cases h
    exact entryMerge_of_added nofun
  | none, some current, none, _, h => by
    cases h
    exact entryMerge_of_added fun _ h => nomatch h
  | none, some current, some device, _, h => by
    rw [mergeCanvasEntry] at h
    split at h
    · rename_i hsame
      cases h
      have hmerge : EntryMerge none (some current) (some device) ((some current).or (some device)) :=
        entryMerge_of_added fun _ _ => sameRecord_iff.mp hsame
      exact hmerge
    · cases h
  | some base, none, none, _, h => by
    cases h
    constructor
    · simp [Kept]
    · exact fun _ _ h => nomatch h
    · exact fun _ _ => .inr (.inr rfl)
    · exact fun _ _ => ⟨fun _ _ h => (nomatch h), fun _ _ h => (nomatch h)⟩
  | some base, none, some device, _, h => by
    rw [mergeCanvasEntry] at h
    split at h
    · cases h
    rename_i hchg
    rw [Bool.not_eq_true] at hchg
    cases h
    constructor
    · simp [Kept]
    · exact fun _ _ h => nomatch h
    · exact fun key hkey => .inr (.inl (unchanged_of_not_objectChanged hchg hkey))
    · exact fun key hkey => ⟨fun _ _ _ => unchanged_of_not_objectChanged hchg hkey, fun _ h => (nomatch h)⟩
  | some base, some current, none, _, h => by
    rw [mergeCanvasEntry] at h
    split at h
    · cases h
    rename_i hchg
    rw [Bool.not_eq_true] at hchg
    cases h
    constructor
    · simp [Kept]
    · exact fun _ _ h => nomatch h
    · exact fun key hkey => .inl (unchanged_of_not_objectChanged hchg hkey)
    · exact fun key hkey => ⟨fun _ h => (nomatch h), fun _ _ _ => unchanged_of_not_objectChanged hchg hkey⟩
  | some base, some current, some device, _, h => by
    rw [mergeCanvasEntry] at h
    split at h
    · rename_i hsame
      cases h
      have hsame := sameRecord_iff.mp hsame
      apply entryMerge_of_all
      · exact fun key _ => .inl (hsame key)
      · exact fun key _ => by rw [choose, if_pos (hsame key)]
    split at h
    · rename_i hsame
      cases h
      have hsame := sameRecord_iff.mp hsame
      apply entryMerge_of_all
      · exact fun key _ => .inr (.inl (hsame key))
      · exact fun key _ => (text_choose_of_device (hsame key)).symm
    split at h
    · rename_i hsame
      cases h
      have hsame := sameRecord_iff.mp hsame
      apply entryMerge_of_all
      · exact fun key _ => .inr (.inr (hsame key))
      · exact fun key _ => (text_choose_of_common (hsame key)).symm
    · cases hrec : mergeCanvasFields kind id base current device with
      | error e =>
        rw [hrec] at h
        cases h
      | ok record =>
        rw [hrec] at h
        cases h
        obtain ⟨hagr, hfld⟩ := mergeCanvasFields_ok hrec
        apply entryMerge_of_all _ hfld
        intro key hkey
        have hread := hagr key
        rwa [propertyOf_of_ne hkey, propertyOf_of_ne hkey, propertyOf_of_ne hkey] at hread

/-- A merged field is a field of one of the sides. -/
lemma EntryMerge.side {entry : Fields} (h : EntryMerge base current device (some entry))
    (hkey : key ≠ protoKey) : ∃ side, (current = some side ∨ device = some side) ∧
      stableJson (valueAt entry key) = stableJson (valueAt side key) := by
  have hvalue := h.fields key hkey rfl
  have hkept := h.kept.mp rfl
  rcases current with _ | current <;> rcases device with _ | device
  · cases base <;> simp [Kept] at hkept
  · refine ⟨device, .inr rfl, ?_⟩
    cases base with
    | none => exact hvalue
    | some base => simp [Kept] at hkept
  · refine ⟨current, .inl rfl, ?_⟩
    cases base with
    | none => exact hvalue.trans (text_choose_of_device rfl)
    | some base => simp [Kept] at hkept
  · rcases choose_eq_or stableJson (fieldOf base key) (valueAt current key) (valueAt device key) with hside | hside
    · exact ⟨device, .inr rfl, hvalue.trans (congrArg stableJson hside)⟩
    · exact ⟨current, .inl rfl, hvalue.trans (congrArg stableJson hside)⟩

lemma objectChanged_eq_false_of_same {base side : Fields}
    (h : ∀ key, stableJson (valueAt side key) = stableJson (valueAt base key)) : objectChanged base side = false :=
  objectChanged_eq_false_iff.mpr fun key => stableJson_propertyOf_congr (h key).symm

variable (kind id) in
/-- A merge of valid nodes is a valid node. -/
lemma exists_mergeCanvasFields {base current device : Fields}
    (hagr : ∀ key, Agrees stableJson (propertyOf base key) (propertyOf current key) (propertyOf device key))
    (hcur : kind = .node → ValidNode (id, current)) (hdev : kind = .node → ValidNode (id, device)) :
    ∃ record, mergeCanvasFields kind id base current device = .ok record := by
  obtain ⟨record, hrec⟩ : ∃ record, assignEach (sortedSet (allKeys base current device))
      (mergeCanvasField kind id base current device) = .ok record :=
    exists_collect _ fun key _ => exists_mergeCanvasField (hagr key)
  refine ⟨record, bind_eq_ok.mpr ⟨record, hrec, ?_⟩⟩
  split
  · rename_i hnode
    have hvalid : ValidNode (id, record) := by
      apply ValidNode.of_stable
      intro key hkey
      have hvalue := assignEach_ok (fun _ => mem_sortedSet) hrec
        (fun k value hok => (mergeCanvasField_ok hok).2) hkey
      rcases choose_eq_or stableJson (valueAt base key) (valueAt current key) (valueAt device key) with hside | hside
      · exact ⟨device, hdev hnode, hvalue.trans (congrArg stableJson hside)⟩
      · exact ⟨current, hcur hnode, hvalue.trans (congrArg stableJson hside)⟩
    exact bind_eq_ok.mpr ⟨(), hvalid.asserted, rfl⟩
  · rfl

lemma exists_mergeCanvasEntry (hagr : ∀ key,
      Agrees stableJson (fieldOf base key) (fieldOf current key) (fieldOf device key))
    (hadded : base = none → current.isSome → device.isSome →
      ∀ key, stableJson (fieldOf current key) = stableJson (fieldOf device key))
    (hdel : ∀ key, DeletedUnchanged base current device key)
    (hcur : kind = .node → ∀ record, current = some record → ValidNode (id, record))
    (hdev : kind = .node → ∀ record, device = some record → ValidNode (id, record)) :
    ∃ merged, mergeCanvasEntry kind id base current device = .ok merged := by
  rcases base with _ | base <;> rcases current with _ | current <;> rcases device with _ | device
  · exact ⟨_, rfl⟩
  · exact ⟨_, rfl⟩
  · exact ⟨_, rfl⟩
  · rw [mergeCanvasEntry, if_pos (sameRecord_iff.mpr (hadded rfl rfl rfl))]
    exact ⟨_, rfl⟩
  · exact ⟨_, rfl⟩
  · have hsame : objectChanged base device = false :=
      objectChanged_eq_false_of_same fun key => (hdel key).byCurrent rfl rfl rfl
    rw [mergeCanvasEntry, hsame]
    exact ⟨_, rfl⟩
  · have hsame : objectChanged base current = false :=
      objectChanged_eq_false_of_same fun key => (hdel key).byDevice rfl rfl rfl
    rw [mergeCanvasEntry, hsame]
    exact ⟨_, rfl⟩
  · obtain ⟨record, hrec⟩ := exists_mergeCanvasFields kind id (fun key => agrees_propertyOf (hagr key))
      (fun hnode => hcur hnode current rfl) (fun hnode => hdev hnode device rfl)
    rw [mergeCanvasEntry, hrec]
    split
    · exact ⟨_, rfl⟩
    split
    · exact ⟨_, rfl⟩
    split
    · exact ⟨_, rfl⟩
    · exact ⟨_, rfl⟩

end Entry

end CanvasEntries
