import Obts.FirstByKey
import Obts.Metadata

/-!
# Admission of device pushes

A push is compared with the earlier pushes of its device: the first one with the same
attempt identifier, and the first admission of the same target. Rows that have moved to the
operation ledger take part through two ordered queries that return at most one attempt and
two admissions. The main theorem says that moving rows to the ledger changes no decision.

The attempt digest and the canonical JSON of rename pairs are the admission's environment.
-/
namespace PushAdmission

open SlashPath Metadata InsertionOrder FirstByKey List Option Bool

structure DevicePushManifest where
  targetCommit : String
  (attemptId baseCommit : Option String)
  renamePairs : Option (List RenamePair)

structure Services where
  collation : Collation
  /-- The digest of the manifest with the transport it came by. -/
  attemptHash : DevicePushManifest → String
  stableJson : Option (List RenamePair) → String

def maxSafeInteger : Nat := 2 ^ 53 - 1

/-- The sequence number that admission sorts by; rows of old databases may lack one. -/
def sequenceOf (row : SyncOperationRow) : Nat := row.operationSequence.getD maxSafeInteger

/-- A query ordered by sequence and limited to one row. -/
def selectFirst (ledger : List SyncOperationRow) (wanted : SyncOperationRow → Bool) : Option SyncOperationRow :=
  (sortBy (compareOn sequenceOf) ledger).find? wanted

def isAttempt (deviceId attemptId : String) (row : SyncOperationRow) : Bool :=
  row.deviceId = some deviceId && row.operationType = .devicePush && row.preparedManifest.attemptId = some attemptId

def isAdmission (deviceId target : String) (row : SyncOperationRow) : Bool :=
  row.deviceId = some deviceId && row.operationType = .devicePush && row.targetCommit = some target

def findAttempt (ledger : List SyncOperationRow) (deviceId attemptId : String) : Option SyncOperationRow :=
  selectFirst ledger (isAttempt deviceId attemptId)

def findTargetCandidates (ledger : List SyncOperationRow) (deviceId target : String) :
    List SyncOperationRow :=
  let bound := selectFirst ledger fun row => isAdmission deviceId target row && row.proposalBase.isSome
  let findLegacy (status : OperationStatus) := selectFirst ledger fun row =>
    isAdmission deviceId target row && row.proposalBase.isNone && row.status = status
  let legacy := (sortBy (compareOn sequenceOf)
    ((findLegacy .prepared).toList ++ (findLegacy .committed).toList)).head?
  bound.toList ++ legacy.toList

/-- By sequence, then by identifier. -/
def compareRows (c : Collation) : SyncOperationRow → SyncOperationRow → Ordering :=
  compareLex (compareOn sequenceOf) (fun left right => c.localeCompare left.operationId right.operationId)

instance (c : Collation) : Std.TransCmp (compareRows c) :=
  have := transCmp_comap c.localeCompare SyncOperationRow.operationId
  inferInstanceAs (Std.TransCmp (compareLex _ _))

variable (c : Collation)

/-- Hot and archived rows under their identifiers, in order. -/
def inOrder (rows : List SyncOperationRow) : List SyncOperationRow :=
  sortBy (compareRows c) (valuesBy SyncOperationRow.operationId rows)

/-- What the started push takes over from its admission. -/
structure StartedPush where
  proposalBase : Option (Option String)
  preparedManifest : PreparedManifest

def attemptMismatch : Failure :=
  .auth ⟨409, "attempt_mismatch", "Upload attempt does not match its original request."⟩

def proposalBaseMismatch : Failure :=
  .auth ⟨409, "proposal_base_mismatch", "Proposal base does not match its original admission."⟩

def renamePairsMismatch : Failure :=
  .auth ⟨409, "rename_pairs_mismatch", "Rename pairs do not match their original admission."⟩

def priorAttempt (hot ledger : List SyncOperationRow)
    (vaultId deviceId attemptId : String) : Option SyncOperationRow :=
  (inOrder c (hot.filter (fun row => row.vaultId = vaultId && isAttempt deviceId attemptId row) ++
    (findAttempt ledger deviceId attemptId).toList)).head?

def priorAdmissions (hot ledger : List SyncOperationRow)
    (vaultId deviceId target : String) : List SyncOperationRow :=
  inOrder c (hot.filter (fun row => row.vaultId = vaultId && isAdmission deviceId target row) ++
    findTargetCandidates ledger deviceId target)

/-- The first admission with a recorded base, else the first that was prepared. -/
def admittedOf (admissions : List SyncOperationRow) : Option SyncOperationRow :=
  (admissions.find? fun row => row.proposalBase.isSome).or
    (admissions.find? fun row => row.status = .prepared || row.status = .committed)

def admitPush (services : Services) (hot ledger : List SyncOperationRow) (vaultId deviceId : String)
    (manifest : DevicePushManifest) : Except Failure StartedPush := do
  let attemptHash := (manifest.attemptId.filter (· ≠ "")).map fun _ => services.attemptHash manifest
  match manifest.attemptId, attemptHash with
  | some attemptId, some attemptHash =>
    match priorAttempt services.collation hot ledger vaultId deviceId attemptId with
    | some prior =>
      if prior.preparedManifest.attemptHash ≠ some attemptHash then throw attemptMismatch
    | none => pure ()
  | _, _ => pure ()
  let attempt : PreparedManifest := { attemptId := attemptHash.bind fun _ => manifest.attemptId, attemptHash }
  match admittedOf (priorAdmissions services.collation hot ledger vaultId deviceId
      manifest.targetCommit) with
  | none => return { proposalBase := none, preparedManifest := attempt }
  | some admitted =>
    match admitted.proposalBase with
    | some proposalBase =>
      if admitted.preparedManifest.requestedBaseCommit.or proposalBase ≠ manifest.baseCommit then
        throw proposalBaseMismatch
    | none => pure ()
    if services.stableJson admitted.preparedManifest.renamePairs ≠ services.stableJson manifest.renamePairs then
      throw renamePairsMismatch
    let proposalBase := admitted.proposalBase.join
    return {
      proposalBase := some proposalBase
      preparedManifest := { attempt with
        proposalBase
        requestedBaseCommit := manifest.baseCommit
        renamePairs := admitted.preparedManifest.renamePairs } }

/-- The operations of a database before any of them is archived. Identifiers are distinct, and
so are the sequence numbers of a vault. -/
structure OperationTable where
  rows : List SyncOperationRow
  nodup_ids : (rows.map SyncOperationRow.operationId).Nodup
  distinct : ∀ a ∈ rows, ∀ b ∈ rows, a.vaultId = b.vaultId → sequenceOf a = sequenceOf b → a = b

variable (table : OperationTable) (vaultId : String) (archived : SyncOperationRow → Bool)
  {row : SyncOperationRow} {wanted : SyncOperationRow → Bool}

/-- The rows left in the metadata when the `archived` ones of the vault have moved. -/
def OperationTable.hot : List SyncOperationRow :=
  table.rows.filter fun row => !(row.vaultId = vaultId && archived row)

def OperationTable.ledger : List SyncOperationRow :=
  table.rows.filter fun row => row.vaultId = vaultId && archived row

section Queries

variable {table vaultId archived} {α : Type*}

lemma le_of_compareRows {c : Collation} (a b : SyncOperationRow)
    (h : (compareRows c a b).isLE) : sequenceOf a ≤ sequenceOf b := by
  have hle : (compare (sequenceOf a) (sequenceOf b)).isLE = true :=
    (Ordering.isLE_then_iff_and.mp h).1
  rwa [Nat.isLE_compare] at hle

lemma le_of_compareOn (a b : SyncOperationRow) (h : (compareOn sequenceOf a b).isLE) :
    sequenceOf a ≤ sequenceOf b := by
  rwa [compareOn, Nat.isLE_compare] at h

lemma head?_eq_find? (l : List α) : l.head? = l.find? fun _ => true := by
  cases l <;> rfl

lemma mem_ledger : row ∈ table.ledger vaultId archived
      ↔ row ∈ table.rows ∧ row.vaultId = vaultId ∧ archived row := by
  simp [OperationTable.ledger]

lemma mem_hot_or_mem_ledger (hrow : row ∈ table.rows) :
    row ∈ table.hot vaultId archived ∨ row ∈ table.ledger vaultId archived := by
  by_cases h : row.vaultId = vaultId ∧ archived row = true
  · exact .inr (mem_ledger.mpr ⟨hrow, h⟩)
  refine .inl (mem_filter.mpr ⟨hrow, ?_⟩)
  rw [not_eq_true', ← not_eq_true]
  simpa using h

lemma ledger_distinct : ∀ a ∈ table.ledger vaultId archived,
    ∀ b ∈ table.ledger vaultId archived, sequenceOf a = sequenceOf b → a = b := by
  intro a ha b hb
  obtain ⟨ha, hva, -⟩ := mem_ledger.mp ha
  obtain ⟨hb, hvb, -⟩ := mem_ledger.mp hb
  exact table.distinct a ha b hb (hva.trans hvb.symm)

/-- The query returns the row of the ledger that is first among those it asks for. -/
lemma selectFirst_eq_some (h : IsFirst sequenceOf wanted (table.ledger vaultId archived) row) :
    selectFirst (table.ledger vaultId archived) wanted = some row :=
  find?_sortBy_of_isFirst le_of_compareOn ledger_distinct h

lemma of_selectFirst (h : selectFirst (table.ledger vaultId archived) wanted = some row) :
    row ∈ table.ledger vaultId archived ∧ wanted row := by
  have hfirst : IsFirst sequenceOf wanted (table.ledger vaultId archived) row :=
    isFirst_of_find? le_of_compareOn h
  exact ⟨hfirst.mem, hfirst.test⟩

lemma mem_findTargetCandidates {deviceId target : String}
    (h : row ∈ findTargetCandidates (table.ledger vaultId archived) deviceId target) :
    row ∈ table.ledger vaultId archived ∧ isAdmission deviceId target row := by
  rcases mem_append.mp h with h | h
  · obtain ⟨hmem, htest⟩ := of_selectFirst (mem_toList.mp h)
    exact ⟨hmem, (and_eq_true_iff.mp htest).1⟩
  have hleg := mem_sortBy.mp (mem_of_mem_head? (mem_toList.mp h))
  rcases mem_append.mp hleg with h | h <;>
  · obtain ⟨hmem, htest⟩ := of_selectFirst (mem_toList.mp h)
    exact ⟨hmem, (and_eq_true_iff.mp (and_eq_true_iff.mp htest).1).1⟩

lemma nodup_findTargetCandidates (deviceId target : String) :
    (findTargetCandidates (table.ledger vaultId archived) deviceId target).Nodup := by
  refine nodup_append.mpr ⟨?_, ?_, ?_⟩
  · exact toList_nodup _
  · exact toList_nodup _
  rintro a ha b hb rfl
  have hbound := (and_eq_true_iff.mp (of_selectFirst (mem_toList.mp ha)).2).2
  have hleg := mem_sortBy.mp (mem_of_mem_head? (mem_toList.mp hb))
  rcases mem_append.mp hleg with h | h <;>
  · have htest := (of_selectFirst (mem_toList.mp h)).2
    simp at htest
    simp [htest] at hbound

end Queries

section Admission

variable {table vaultId archived} {c : Collation} {test p : SyncOperationRow → Bool}
  {found : List SyncOperationRow}

/-- The rows that a scan of the metadata finds before any row is archived. -/
lemma inOrder_hot_append (hnodup : found.Nodup) (hfound : ∀ row ∈ found, row ∈ table.ledger vaultId archived) :
    inOrder c ((table.hot vaultId archived).filter test ++ found)
      = sortBy (compareRows c) ((table.hot vaultId archived).filter test ++ found) := by
  have hrows : ∀ row ∈ (table.hot vaultId archived).filter test ++ found, row ∈ table.rows := by
    intro row hrow
    rcases mem_append.mp hrow with h | h
    · exact (mem_filter.mp (mem_filter.mp h).1).1
    · exact (mem_ledger.mp (hfound row h)).1
  have hall : ((table.hot vaultId archived).filter test ++ found).Nodup := by
    refine nodup_append.mpr ⟨(table.nodup_ids.of_map _).filter _ |>.filter _, hnodup, ?_⟩
    rintro a ha b hb rfl
    have hhot := (mem_filter.mp (mem_filter.mp ha).1).2
    obtain ⟨-, hvault, harch⟩ := mem_ledger.mp (hfound a hb)
    simp [hvault, harch] at hhot
  rw [inOrder, valuesBy_of_nodup]
  exact hall.map_on fun a ha b hb =>
    inj_on_of_nodup_map table.nodup_ids (hrows a ha) (hrows b hb)

lemma inOrder_rows :
    inOrder c (table.rows.filter test ++ []) = sortBy (compareRows c) (table.rows.filter test) := by
  rw [append_nil, inOrder, valuesBy_of_nodup]
  exact table.nodup_ids.sublist (filter_sublist.map _)

/-- A search finds the same row whether or not rows are archived, when the ledger's queries
return the row that is first in the whole table. -/
lemma find?_inOrder_hot (hnodup : found.Nodup)
    (hfound : ∀ row ∈ found, row ∈ table.ledger vaultId archived ∧ wanted row) (hfirst : ∀ row, IsFirst sequenceOf p
      (table.rows.filter fun row => row.vaultId = vaultId && wanted row) row →
      row ∈ table.ledger vaultId archived → row ∈ found) : (inOrder c ((table.hot vaultId archived).filter
        (fun row => row.vaultId = vaultId && wanted row) ++ found)).find? p
      = (inOrder c (table.rows.filter (fun row => row.vaultId = vaultId && wanted row) ++ [])).find? p := by
  rw [inOrder_hot_append hnodup fun row h => (hfound row h).1, inOrder_rows]
  refine find?_sortBy_eq le_of_compareRows ?_ ?_ ?_
  · intro a ha b hb
    simp only [mem_filter, and_eq_true, decide_eq_true_eq] at ha hb
    exact table.distinct a ha.1 b hb.1 (ha.2.1.trans hb.2.1.symm)
  · intro row hrow
    rcases mem_append.mp hrow with h | h
    · exact mem_filter.mpr ⟨(mem_filter.mp (mem_filter.mp h).1).1, (mem_filter.mp h).2⟩
    obtain ⟨hledg, hwant⟩ := hfound row h
    obtain ⟨hmem, hvault, -⟩ := mem_ledger.mp hledg
    exact mem_filter.mpr ⟨hmem, by simp [hvault, hwant]⟩
  · intro row hrow
    obtain ⟨hmem, htest⟩ := mem_filter.mp hrow.mem
    rcases mem_hot_or_mem_ledger hmem with h | h
    · exact mem_append_left _ (mem_filter.mpr ⟨h, htest⟩)
    · exact mem_append_right _ (hfirst row hrow h)

/-- A row that is first in the table is first in the ledger, for every narrower test. -/
lemma isFirst_ledger {q : SyncOperationRow → Bool} (h : IsFirst sequenceOf p
      (table.rows.filter fun row => row.vaultId = vaultId && wanted row) row)
    (hrow : row ∈ table.ledger vaultId archived) (hq : q row) (hnarr : ∀ other, q other → wanted other ∧ p other) :
    IsFirst sequenceOf q (table.ledger vaultId archived) row := by
  refine ⟨hrow, hq, fun other hother hqoth => ?_⟩
  obtain ⟨hmem, hvault, -⟩ := mem_ledger.mp hother
  obtain ⟨hwant, hp⟩ := hnarr other hqoth
  exact h.le other (mem_filter.mpr ⟨hmem, by simp [hvault, hwant]⟩) hp

lemma priorAttempt_hot (deviceId attemptId : String) :
    priorAttempt c (table.hot vaultId archived) (table.ledger vaultId archived) vaultId deviceId
        attemptId = priorAttempt c table.rows [] vaultId deviceId attemptId := by
  rw [priorAttempt, priorAttempt, head?_eq_find?, head?_eq_find?]
  refine find?_inOrder_hot (toList_nodup _) ?_ ?_
  · intro row hrow
    exact of_selectFirst (mem_toList.mp hrow)
  intro row hrow hledg
  have hatt := (and_eq_true_iff.mp (mem_filter.mp hrow.mem).2).2
  exact mem_toList.mpr (selectFirst_eq_some (isFirst_ledger hrow hledg hatt fun other h => ⟨h, rfl⟩))

section Candidates

variable {deviceId target : String} {row : SyncOperationRow}

/-- The first admission with a recorded base is among the ledger's candidates. -/
lemma bound_mem_findTargetCandidates (hrow : IsFirst sequenceOf (fun row => row.proposalBase.isSome)
      (table.rows.filter fun row => row.vaultId = vaultId && isAdmission deviceId target row) row)
    (hledg : row ∈ table.ledger vaultId archived) :
    row ∈ findTargetCandidates (table.ledger vaultId archived) deviceId target := by
  have hadm := (and_eq_true_iff.mp (mem_filter.mp hrow.mem).2).2
  refine mem_append_left _ (mem_toList.mpr (selectFirst_eq_some (isFirst_ledger hrow hledg ?_ ?_)))
  · exact and_eq_true_iff.mpr ⟨hadm, hrow.test⟩
  · intro other h
    exact and_eq_true_iff.mp h

/-- Where no admission has a recorded base, the first prepared one is among them. -/
lemma legacy_mem_findTargetCandidates (hleg : ∀ row ∈ table.rows.filter fun row => row.vaultId = vaultId &&
      isAdmission deviceId target row, row.proposalBase.isNone)
    (hrow : IsFirst sequenceOf (fun row => row.status = .prepared || row.status = .committed)
      (table.rows.filter fun row => row.vaultId = vaultId && isAdmission deviceId target row) row)
    (hledg : row ∈ table.ledger vaultId archived) :
    row ∈ findTargetCandidates (table.ledger vaultId archived) deviceId target := by
  have hadm := (and_eq_true_iff.mp (mem_filter.mp hrow.mem).2).2
  have hbase := hleg row hrow.mem
  set findLegacy : OperationStatus → Option SyncOperationRow := fun status =>
    selectFirst (table.ledger vaultId archived) fun row =>
      isAdmission deviceId target row && row.proposalBase.isNone && row.status = status
    with hfinL
  have hstat : row.status = .prepared ∨ row.status = .committed := by simpa using hrow.test
  -- The row is what the query for its own status returns.
  have hfound : findLegacy row.status = some row := by
    refine selectFirst_eq_some (isFirst_ledger hrow hledg (by simp [hadm, hbase]) ?_)
    intro other h
    simp only [and_eq_true, decide_eq_true_eq] at h
    exact ⟨h.1.1, by simpa [h.2] using hstat⟩
  have hmem : row ∈ (findLegacy .prepared).toList ++ (findLegacy .committed).toList := by
    rw [mem_append, mem_toList, mem_toList]
    rcases hstat with h | h
    · exact .inl (h ▸ hfound)
    · exact .inr (h ▸ hfound)
  have hoth : ∀ other ∈ (findLegacy .prepared).toList ++ (findLegacy .committed).toList,
      other ∈ table.ledger vaultId archived ∧ sequenceOf row ≤ sequenceOf other := by
    intro other hother
    obtain ⟨status, hstat, hother⟩ : ∃ status, (status = .prepared ∨ status = .committed) ∧
        findLegacy status = some other := by
      rw [mem_append, mem_toList, mem_toList] at hother
      exact hother.elim (fun h => ⟨_, .inl rfl, h⟩) (fun h => ⟨_, .inr rfl, h⟩)
    obtain ⟨hledg, htest⟩ := of_selectFirst hother
    obtain ⟨hrows, hvault, -⟩ := mem_ledger.mp hledg
    simp only [and_eq_true, decide_eq_true_eq] at htest
    refine ⟨hledg, hrow.le other (mem_filter.mpr ⟨hrows, ?_⟩) ?_⟩
    · simp [hvault, htest.1.1]
    · simpa [htest.2] using hstat
  refine mem_append_right _ (mem_toList.mpr ?_)
  rw [head?_eq_find?]
  refine find?_sortBy_of_isFirst le_of_compareOn ?_ ⟨hmem, rfl, fun other h _ => (hoth other h).2⟩
  exact fun a ha b hb => ledger_distinct a (hoth a ha).1 b (hoth b hb).1

end Candidates

lemma admittedOf_hot (deviceId target : String) :
    admittedOf (priorAdmissions c (table.hot vaultId archived) (table.ledger vaultId archived)
        vaultId deviceId target) = admittedOf (priorAdmissions c table.rows [] vaultId deviceId target) := by
  have hbound : (priorAdmissions c (table.hot vaultId archived) (table.ledger vaultId archived)
        vaultId deviceId target).find? (fun row => row.proposalBase.isSome)
      = (priorAdmissions c table.rows [] vaultId deviceId target).find?
        (fun row => row.proposalBase.isSome) :=
    find?_inOrder_hot (nodup_findTargetCandidates deviceId target)
      (fun row => mem_findTargetCandidates) fun row => bound_mem_findTargetCandidates
  cases h : (priorAdmissions c table.rows [] vaultId deviceId target).find?
      (fun row => row.proposalBase.isSome) with
  | some row => simp [admittedOf, hbound, h]
  | none =>
    have hleg : ∀ row ∈ table.rows.filter fun row => row.vaultId = vaultId &&
        isAdmission deviceId target row, row.proposalBase.isNone = true := by
      intro row hrow
      have hmem : row ∈ priorAdmissions c table.rows [] vaultId deviceId target := by
        change row ∈ inOrder c (_ ++ [])
        rw [inOrder_rows]
        exact mem_sortBy.mpr hrow
      simpa using List.find?_eq_none.mp h row hmem
    rw [admittedOf, admittedOf, hbound, h, none_or, none_or]
    exact find?_inOrder_hot (nodup_findTargetCandidates deviceId target)
      (fun row => mem_findTargetCandidates) fun row => legacy_mem_findTargetCandidates hleg

end Admission

/-- Moving any rows of a vault to its ledger changes no admission decision. -/
theorem admitPush_hot_ledger (services : Services) (table : OperationTable) (vaultId deviceId : String)
    (archived : SyncOperationRow → Bool) (manifest : DevicePushManifest) :
    admitPush services (table.hot vaultId archived) (table.ledger vaultId archived) vaultId deviceId
        manifest = admitPush services table.rows [] vaultId deviceId manifest := by
  simp [admitPush, priorAttempt_hot, admittedOf_hot]

end PushAdmission
