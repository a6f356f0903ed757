import Obts.OperationHandoff

/-!
# Runs of the operation store

What the changes of a mutation may do to operations and histories, the tasks of the store from
their start to their end, and the theorem about every run.
-/
namespace OperationHistory

open Metadata InsertionOrder OperationLedger DurableTasks List Task Function Nat Option VaultRow World

/-- The same operation: its identifier, its vault, and its number once it has one. -/
structure SameOperation (row row' : SyncOperationRow) : Prop where
  id : row'.operationId = row.operationId
  vault : row'.vaultId = row.vaultId
  number : row.operationSequence = none ∨ row'.operationSequence = row.operationSequence

lemma SameOperation.refl (row : SyncOperationRow) : SameOperation row row :=
  ⟨rfl, rfl, .inr rfl⟩

lemma SameOperation.trans {a b c : SyncOperationRow} (h : SameOperation a b)
    (h' : SameOperation b c) : SameOperation a c := by
  refine ⟨h'.id.trans h.id, h'.vault.trans h.vault, ?_⟩
  rcases h.number with hnone | heq
  · exact .inl hnone
  rcases h'.number with hnone | heq'
  · exact .inl (heq ▸ hnone)
  · exact .inr (heq'.trans heq)

lemma SameOperation.number_le {a b : SyncOperationRow} (h : SameOperation a b) :
    sequenceNumber a ≤ sequenceNumber b := by
  rcases h.number with hnone | heq
  · simp [sequenceNumber, hnone]
  · simp [sequenceNumber, heq]

/-- A vault's history state appears as a new one, and then only its next number grows. -/
inductive StateStep : Option OperationHistoryState → Option OperationHistoryState → Prop
  | absent : StateStep none none
  | new {state : OperationHistoryState} (init : state.initPending = true)
      (generation : state.generation = 0) (pending : state.pendingBatch = none) :
      StateStep none (some state)
  | next {state : OperationHistoryState} {n : Nat} (h : state.nextSequence ≤ n) :
      StateStep (some state) (some { state with nextSequence := n })

lemma StateStep.refl (state : Option OperationHistoryState) : StateStep state state := by
  cases state with
  | none => exact .absent
  | some state => exact .next le_rfl

lemma StateStep.trans {a b c : Option OperationHistoryState} (h : StateStep a b)
    (h' : StateStep b c) : StateStep a c := by
  cases h with
  | absent => exact h'
  | new init generation pending =>
    cases h' with
    | next => exact .new init generation pending
  | next hle =>
    cases h' with
    | next hle' => exact .next (hle.trans hle')

/-- What a mutation may do: operations of vaults that stay are kept, new operations have unused
identifiers and numbers not given before, and new vaults have unused identifiers. -/
structure Evolves (used : List String) (db db' : MetadataDb) : Prop where
  rows : ∀ row' ∈ db'.syncOperations, (∃ row ∈ db.syncOperations, SameOperation row row') ∨
    row'.operationId ∉ used ∧
      ∀ state, stateOf db row'.vaultId = some state → state.nextSequence ≤ sequenceNumber row'
  kept : ∀ row ∈ db.syncOperations, row.vaultId ∈ db'.vaults.map VaultRow.vaultId →
    ∃ row' ∈ db'.syncOperations, SameOperation row row'
  vaults : ∀ vault' ∈ db'.vaults, (∃ vault ∈ db.vaults, vault.vaultId = vault'.vaultId ∧
    (vault.status = .deleting → vault'.status = .deleting)) ∨ vault'.vaultId ∉ used
  states : ∀ vaultId ∈ db'.vaults.map VaultRow.vaultId, StateStep (stateOf db vaultId) (stateOf db' vaultId)

lemma Evolves.refl (used : List String) (db : MetadataDb) : Evolves used db db where
  rows := fun row hrow => .inl ⟨row, hrow, .refl row⟩
  kept := fun row hrow _ => ⟨row, hrow, .refl row⟩
  vaults := fun vault hvault => .inl ⟨vault, hvault, rfl, id⟩
  states := fun _ _ => .refl _

variable {vaultId unique id : String} {vault : VaultRow} {rows : List SyncOperationRow}
  {disk : Disk} {rest : List VaultRow} {C : Disk → Prop} {db : MetadataDb}

lemma Known.stateOf_eq_none (h : Known db)
    (hvault : vaultId ∉ db.vaults.map VaultRow.vaultId) : stateOf db vaultId = none := by
  rw [stateOf, valueAt_eq_none]
  intro hmem
  obtain ⟨entry, hentry, rfl⟩ := mem_map.mp hmem
  exact hvault (h.states entry hentry)

section Evolution

variable {used : List String} {db db' db'' : MetadataDb}

lemma Evolves.trans (h : Evolves used db db') (h' : Evolves used db' db'') (hknown : Known db)
    (hknown' : Known db') (hknown'' : Known db'') (hused : ∀ vault ∈ db.vaults, vault.vaultId ∈ used) :
    Evolves used db db'' := by
  have hstays : ∀ vaultId ∈ db''.vaults.map VaultRow.vaultId, vaultId ∈ used →
      vaultId ∈ db'.vaults.map VaultRow.vaultId := by
    intro vaultId hmem hin
    obtain ⟨vault, hvault, rfl⟩ := mem_map.mp hmem
    rcases h'.vaults vault hvault with ⟨old, hold, heq, -⟩ | hnew
    · exact heq ▸ mem_map_of_mem hold
    · exact absurd hin hnew
  have hids : ∀ vaultId ∈ db.vaults.map VaultRow.vaultId, vaultId ∈ used := by
    intro vaultId hmem
    obtain ⟨vault, hvault, rfl⟩ := mem_map.mp hmem
    exact hused vault hvault
  have hsts : ∀ vaultId ∈ db''.vaults.map VaultRow.vaultId,
      StateStep (stateOf db vaultId) (stateOf db' vaultId) := by
    intro vaultId hmem
    by_cases hin : vaultId ∈ db'.vaults.map VaultRow.vaultId
    · exact h.states vaultId hin
    rw [hknown'.stateOf_eq_none hin, hknown.stateOf_eq_none fun hold =>
      hin (hstays vaultId hmem (hids vaultId hold))]
    exact .absent
  refine ⟨?_, ?_, ?_, ?_⟩
  · intro row'' hrow''
    rcases h'.rows row'' hrow'' with ⟨row', hrow', hsame'⟩ | ⟨hnew, hnum⟩
    · rcases h.rows row' hrow' with ⟨row, hrow, hsame⟩ | ⟨hnew, hnum⟩
      · exact .inl ⟨row, hrow, hsame.trans hsame'⟩
      · refine .inr ⟨hsame'.id ▸ hnew, fun state hstate => ?_⟩
        exact (hnum state (hsame'.vault ▸ hstate)).trans hsame'.number_le
    refine .inr ⟨hnew, fun state hstate => ?_⟩
    have hstep := hsts _ (hknown''.rows row'' hrow'')
    rw [hstate] at hstep
    generalize hstate' : stateOf db' row''.vaultId = after at hstep
    cases hstep with
    | next hle => exact hle.trans (hnum _ hstate')
  · intro row hrow hmem
    obtain ⟨row', hrow', hsame⟩ :=
      h.kept row hrow (hstays _ hmem (hids _ (hknown.rows row hrow)))
    obtain ⟨row'', hrow'', hsame'⟩ := h'.kept row' hrow' (hsame.vault.symm ▸ hmem)
    exact ⟨row'', hrow'', hsame.trans hsame'⟩
  · intro vault'' hvault''
    rcases h'.vaults vault'' hvault'' with ⟨vault', hvault', heq', hstat'⟩ | hnew
    · rcases h.vaults vault' hvault' with ⟨vault, hvault, heq, hstat⟩ | hnew
      · exact .inl ⟨vault, hvault, heq.trans heq', hstat' ∘ hstat⟩
      · exact .inr (heq' ▸ hnew)
    · exact .inr hnew
  · intro vaultId hmem
    exact (hsts vaultId hmem).trans (h'.states vaultId hmem)

end Evolution

/-- Every vault has a state, and its rows are numbered below the next number. -/
structure Complete (used : List String) (db : MetadataDb) : Prop where
  known : Known db
  vaults : ∀ vault ∈ db.vaults, vault.vaultId ∈ used
  rows : ∀ row ∈ db.syncOperations, row.operationId ∈ used
  states : ∀ vault ∈ db.vaults, ∃ state, stateOf db vault.vaultId = some state ∧
    state.ledgerId ≠ "" ∧ Numbered (hotRows db vault.vaultId) state.nextSequence

section Publication

variable {codec : Codec} {used used' : List String} {disk : Disk} {db : MetadataDb}
  {row : SyncOperationRow} {state : OperationHistoryState}

lemma findRow_eq_some (h : Known db) (hrow : row ∈ db.syncOperations) : findRow db row.operationId = some row :=
  find?_of_nodup h.nodup_ids hrow

lemma of_findRow (h : findRow db id = some row) : row ∈ db.syncOperations ∧ row.operationId = id := by
  have htest := find?_some h
  exact ⟨mem_of_find?_eq_some h, of_decide_eq_true htest⟩

/-- The recorded content of an operation is in the new metadata, or it stays what it was. -/
lemma record_persist (h : (disk.persist db).record id = some row) :
    findRow db id = some row ∨ findRow db id = none ∧ disk.record id = some row := by
  change (findRow db id).or (disk.record id) = some row at h
  cases hfind : findRow db id with
  | none => exact .inr ⟨rfl, by rwa [hfind, none_or] at h⟩
  | some row' => exact .inl (by rwa [hfind, some_or] at h)

/-- A row of the new metadata whose identifier was recorded is that operation. -/
lemma Evolves.same_of_recorded (hev : Evolves used disk.metadata db) (h : HistoryOk used disk)
    {row' : SyncOperationRow} (hrow' : row' ∈ db.syncOperations) (hrec : disk.record row'.operationId = some row) :
    row ∈ disk.metadata.syncOperations ∧ SameOperation row row' := by
  rcases hev.rows row' hrow' with ⟨old, hold, hsame⟩ | ⟨hnew, -⟩
  · have hrec' := h.hot old hold
    rw [← hsame.id, hrec] at hrec'
    cases hrec'
    exact ⟨hold, hsame⟩
  · exact absurd (h.used_rows _ _ hrec).1 hnew

lemma HistoryOk.persist (h : HistoryOk used disk) (hev : Evolves used disk.metadata db)
    (hcpl : Complete used' db) (hsub : used ⊆ used') : HistoryOk used' (disk.persist db) where
  known := hcpl.known
  hot := by
    intro row hrow
    change (findRow db _).or _ = _
    rw [findRow_eq_some hcpl.known hrow, some_or]
  ids := by
    intro id row hrow
    rcases record_persist hrow with hfind | ⟨-, hrec⟩
    · exact (of_findRow hfind).2
    · exact h.ids id row hrec
  original := by
    intro id row hrow
    change (disk.original id).or ((findRow db id).bind _) = _
    rcases record_persist hrow with hfind | ⟨hfind, hrec⟩
    · obtain ⟨hmem, rfl⟩ := of_findRow hfind
      rw [hfind, bind_some]
      cases hrec : disk.record row.operationId with
      | none => rw [h.original_none _ hrec, none_or]
      | some old =>
        obtain ⟨-, hsame⟩ := hev.same_of_recorded h hmem hrec
        rw [h.original _ _ hrec]
        rcases hsame.number with hnone | heq
        · rw [hnone, none_or]
        · rw [heq, Option.or_self]
    · rw [hfind, bind_none, or_none]
      exact h.original id row hrec
  original_none := by
    intro id hnone
    obtain ⟨hfind, hrec⟩ := or_eq_none_iff.mp hnone
    change (disk.original id).or ((findRow db id).bind _) = none
    rw [hfind, h.original_none id hrec]
    rfl
  used_vaults := hcpl.vaults
  used_rows := by
    intro id row hrow
    rcases record_persist hrow with hfind | ⟨-, hrec⟩
    · obtain ⟨hmem, rfl⟩ := of_findRow hfind
      obtain ⟨vault, hvault, heq⟩ := mem_map.mp (hcpl.known.rows row hmem)
      exact ⟨hcpl.rows row hmem, heq ▸ hcpl.vaults vault hvault⟩
    · exact (h.used_rows id row hrec).imp (fun hin => hsub hin) (fun hin => hsub hin)
  used_ledgers := fun vaultId hnot => h.used_ledgers vaultId fun hin => hnot (hsub hin)
  used_batches := fun vaultId ledger hledg proof hproof =>
    hsub (h.used_batches vaultId ledger hledg proof hproof)
  used_pending := by
    intro vaultId state hstate batch hbatch
    have hstate' : stateOf db vaultId = some state := hstate
    have hin : vaultId ∈ db.vaults.map VaultRow.vaultId := by
      by_contra hnot
      simp [hcpl.known.stateOf_eq_none hnot] at hstate'
    have hstep := hev.states vaultId hin
    rw [hstate'] at hstep
    generalize hbef : stateOf disk.metadata vaultId = before at hstep
    cases hstep with
    | new _ _ pending => simp [pending] at hbatch
    | next => exact hsub (h.used_pending vaultId _ hbef batch hbatch)

/-- Nothing of a vault is pending, or the store was never started. -/
structure Quiet (codec : Codec) (disk : Disk) : Prop where
  phases : Initialized codec disk ∨ Unstarted disk
  settled : Initialized codec disk → ∀ vault ∈ disk.metadata.vaults, Settled disk.metadata vault

/-- A recorded operation of a vault that stays is in the new metadata, unless the old metadata
did not have it either. -/
lemma present_of_kept (h : HistoryOk used disk) (hev : Evolves used disk.metadata db)
    (hknown : Known db) (hvault : vaultId ∈ db.vaults.map VaultRow.vaultId)
    (hrow : (disk.persist db).record id = some row) (hrowV : row.vaultId = vaultId) :
    row ∈ hotRows db vaultId ∨ disk.record id = some row ∧ row ∉ disk.metadata.syncOperations := by
  rcases record_persist hrow with hfind | ⟨hfind, hrec⟩
  · exact .inl (mem_hotRows.mpr ⟨(of_findRow hfind).1, hrowV⟩)
  refine .inr ⟨hrec, fun hmem => ?_⟩
  obtain ⟨row', hrow', hsame⟩ := hev.kept row hmem (hrowV ▸ hvault)
  have hfound := findRow_eq_some hknown hrow'
  rw [hsame.id, h.ids id row hrec, hfind] at hfound
  simp at hfound

/-- A vault whose ledger is not created yet after the mutation. -/
lemma phase_uncreated (hstep : StateStep none (some state)) (hledg : disk.ledgers vault.vaultId = none) :
    Phase codec vault.vaultId (hotRows db vault.vaultId) state (disk.ledgers vault.vaultId) [] := by
  rw [hledg]
  cases hstep with
  | new init generation pending => exact .uncreated init generation pending

/-- Archived rows and the rows of the new metadata share nothing. -/
lemma distinct_persist (h : HistoryOk used disk) (hev : Evolves used disk.metadata db)
    (hknown : Known db) {ledger : Ledger} {archived : List SyncOperationRow} {next : Nat}
    (hstate : stateOf disk.metadata vaultId = some state)
    (hpositive : ∀ row ∈ hotRows disk.metadata vaultId, 0 < sequenceNumber row)
    (opened : Opened codec vaultId state ledger archived)
    (distinct : Distinct (hotRows disk.metadata vaultId ++ archived))
    (hrec : ∀ row ∈ archived, disk.record row.operationId = some row)
    (hnumb : Numbered (hotRows db vaultId) next) : Distinct (hotRows db vaultId ++ archived) ∧
    ∀ row ∈ archived, findRow db row.operationId = none := by
  have hvault : ∀ row ∈ archived, row.vaultId = vaultId := fun row hrow =>
    opened.vault ▸ (opened.held.archivable row hrow).vault
  have hids : ∀ row' ∈ db.syncOperations, ∀ row ∈ archived, row'.operationId ≠ row.operationId := by
    intro row' hrow' row hrow heq
    obtain ⟨hhot, -⟩ := hev.same_of_recorded h hrow' (heq ▸ hrec row hrow)
    exact distinct.id_ne (mem_hotRows.mpr ⟨hhot, hvault row hrow⟩) hrow rfl
  refine ⟨⟨?_, ?_⟩, ?_⟩
  · rw [map_append]
    refine nodup_append.mpr ⟨hknown.nodup_ids.sublist (filter_sublist.map _), opened.held.distinct.ids, ?_⟩
    intro a ha b hb
    obtain ⟨row', hrow', rfl⟩ := mem_map.mp ha
    obtain ⟨row, hrow, rfl⟩ := mem_map.mp hb
    exact hids row' (mem_hotRows.mp hrow').1 row hrow
  · rw [map_append]
    refine nodup_append.mpr ⟨?_, opened.held.distinct.numbers, ?_⟩
    · exact pairwise_map.mpr (hnumb.increasing.imp fun hlt => ne_of_lt hlt)
    intro a ha b hb
    obtain ⟨row', hrow', rfl⟩ := mem_map.mp ha
    obtain ⟨row, hrow, rfl⟩ := mem_map.mp hb
    obtain ⟨hmem', hvault'⟩ := mem_hotRows.mp hrow'
    rcases hev.rows row' hmem' with ⟨old, hold, hsame⟩ | ⟨-, hnum⟩
    · have hhot : old ∈ hotRows disk.metadata vaultId :=
        mem_hotRows.mpr ⟨hold, hsame.vault.symm.trans hvault'⟩
      have hnum : sequenceNumber row' = sequenceNumber old := by
        rcases hsame.number with hnone | heq
        · have hpos := hpositive old hhot
          simp [sequenceNumber, hnone] at hpos
        · rw [sequenceNumber, heq, sequenceNumber]
      rw [hnum]
      exact distinct.number_ne hhot hrow
    · have hle := hnum state (hvault'.symm ▸ hstate)
      have hlt := opened.below row hrow
      omega
  · intro row hrow
    cases hfind : findRow db row.operationId with
    | none => rfl
    | some row' =>
      obtain ⟨hmem, hid⟩ := of_findRow hfind
      exact absurd hid (hids row' hmem row hrow)

lemma VaultOk.persist (h : HistoryOk used disk) (hquiet : Quiet codec disk)
    (hev : Evolves used disk.metadata db) (hcpl : Complete used' db)
    (hvault : vault ∈ db.vaults) : ∃ state, VaultOk codec (disk.persist db) vault state ∧
      (vault.status ≠ .deleting → state.pendingBatch = none) := by
  obtain ⟨state, hstate, hledI, hnum⟩ := hcpl.states vault hvault
  have hin : vault.vaultId ∈ db.vaults.map vaultId := mem_map_of_mem hvault
  have hstep := hev.states vault.vaultId hin
  rw [hstate] at hstep
  suffices hphase : vault.status ≠ .deleting → ∃ archived,
      Phase codec vault.vaultId (hotRows db vault.vaultId) state (disk.ledgers vault.vaultId) archived ∧
      Recorded (disk.persist db) vault.vaultId archived ∧ state.pendingBatch = none by
    refine ⟨state, ⟨hstate, hledI, hnum, fun hlive => ?_⟩, fun hlive => ?_⟩
    · obtain ⟨archived, hphase, hrec, -⟩ := hphase hlive
      exact ⟨archived, hphase, hrec⟩
    · obtain ⟨-, -, -, hpend⟩ := hphase hlive
      exact hpend
  intro hlive
  have hpres : ∀ id row, (disk.persist db).record id = some row → row.vaultId = vault.vaultId →
      row ∈ hotRows db vault.vaultId ∨
        disk.record id = some row ∧ row ∉ disk.metadata.syncOperations :=
    fun id row => present_of_kept h hev hcpl.known hin
  -- Without archived rows it is enough that every recorded operation of the vault is kept.
  have huncr : stateOf disk.metadata vault.vaultId = none → disk.ledgers vault.vaultId = none →
      (∀ id row, disk.record id = some row → row.vaultId = vault.vaultId →
        row ∈ disk.metadata.syncOperations) → ∃ archived,
      Phase codec vault.vaultId (hotRows db vault.vaultId) state (disk.ledgers vault.vaultId) archived ∧
      Recorded (disk.persist db) vault.vaultId archived ∧ state.pendingBatch = none := by
    intro hnone hledg hkept
    rw [hnone] at hstep
    refine ⟨[], phase_uncreated hstep hledg, ⟨by simp, ?_⟩, ?_⟩
    · intro id row hrow hrowV
      refine (hpres id row hrow hrowV).imp_right fun hold => ?_
      exact absurd (hkept id row hold.1 hrowV) hold.2
    · cases hstep with
      | new _ _ pending => exact pending
  rcases hev.vaults vault hvault with ⟨old, hold, hid, hstat⟩ | hnew
  · rcases hquiet.phases with hini | huns
    · obtain ⟨state₀, hok⟩ := hini.vaults old hold
      have hlive₀ : old.status ≠ .deleting := fun hdel => hlive (hstat hdel)
      obtain ⟨state₁, hstate₁, hinit, hpend⟩ := hquiet.settled hini old hold hlive₀
      cases hok.stated.symm.trans hstate₁
      obtain ⟨archived, hphase, hrec⟩ := hok.phase hlive₀
      rw [hid] at hphase hrec
      have hstate₀ : stateOf disk.metadata vault.vaultId = some state₀ := hid ▸ hok.stated
      have hnum₀ := hok.numbered
      rw [hid] at hnum₀
      rw [hstate₀] at hstep
      generalize hledg : disk.ledgers vault.vaultId = ledger at hphase
      cases hphase with
      | uncreated init => simp [hinit] at init
      | prepared _ _ _ pending | published _ _ _ pending => simp [hpend] at pending
      | settled opened generation init pending distinct =>
        obtain ⟨hdist, harch⟩ := distinct_persist h hev hcpl.known hstate₀
          hnum₀.positive opened distinct hrec.ledger hnum
        cases hstep with
        | next hle =>
          refine ⟨archived, .settled
            { opened with below := fun row hrow => lt_of_lt_of_le (opened.below row hrow) hle }
            generation init pending hdist, ⟨?_, ?_⟩, pending⟩
          · intro row hrow
            change (findRow db _).or _ = _
            rw [harch row hrow, none_or]
            exact hrec.ledger row hrow
          intro id row hrow hrowV
          rcases hpres id row hrow hrowV with hhot | ⟨hrecord, hnot⟩
          · exact .inl hhot
          · exact (hrec.present id row hrecord hrowV).imp_left fun hhot =>
              absurd (mem_hotRows.mp hhot).1 hnot
    · refine huncr ?_ (huns.ledgers _) fun id row hrecord _ =>
        huns.present id row hrecord
      rw [stateOf, huns.states]
      rfl
  · refine huncr (h.known.stateOf_eq_none fun hmem => ?_) (h.used_ledgers _ hnew) ?_
    · obtain ⟨old, hold, heq⟩ := mem_map.mp hmem
      exact hnew (heq ▸ h.used_vaults old hold)
    · intro id row hrecord hrowV
      exact absurd (hrowV ▸ (h.used_rows id row hrecord).2) hnew

/-- Publishing metadata that evolved from a quiet store keeps the store in order. -/
lemma Started.persist (h : HistoryOk used disk) (hquiet : Quiet codec disk)
    (hev : Evolves used disk.metadata db) (hcpl : Complete used' db) (hsub : used ⊆ used') :
    Started codec used' (disk.persist db) ∧ ∀ vault ∈ db.vaults, ¬ HasPending db vault := by
  have hpend : ∀ vault ∈ db.vaults, ¬ HasPending db vault := by
    intro vault hvault hhas
    obtain ⟨state, hok, hnone⟩ := VaultOk.persist h hquiet hev hcpl hvault
    exact hok.not_hasPending (hnone hhas.1) hhas
  refine ⟨⟨h.persist hev hcpl hsub, ?_, fun vault hvault _ _ hhas => ?_⟩, hpend⟩
  · intro vault hvault
    obtain ⟨state, hok, -⟩ := VaultOk.persist h hquiet hev hcpl hvault
    exact ⟨state, hok⟩
  · exact absurd hhas (hpend vault hvault)

end Publication

section Numbering

variable {vaultId : String} {rows : List SyncOperationRow}

@[simp] lemma map_operationId_numberRows (n : Nat) :
    (numberRows vaultId n rows).map SyncOperationRow.operationId = rows.map SyncOperationRow.operationId := by
  induction rows generalizing n with
  | nil => rfl
  | cons row rows ih =>
    rw [numberRows]
    split
    · simp [ih]
    · simp [ih]

lemma filter_numberRows_of_ne {other : String} (hne : other ≠ vaultId) (n : Nat) :
    (numberRows vaultId n rows).filter (·.vaultId = other) = rows.filter (·.vaultId = other) := by
  induction rows generalizing n with
  | nil => rfl
  | cons row rows ih =>
    rw [numberRows]
    split
    · rename_i hvault
      simp [hvault, Ne.symm hne, ih]
    · simp [filter_cons, ih]

/-- Numbering keeps every operation, if the vault's rows had no numbers. -/
lemma forall₂_numberRows (h : ∀ row ∈ rows, row.vaultId = vaultId → row.operationSequence = none) (n : Nat) :
    List.Forall₂ SameOperation rows (numberRows vaultId n rows) := by
  induction rows generalizing n with
  | nil => exact .nil
  | cons row rows ih =>
    obtain ⟨hrow, hrows⟩ := forall_mem_cons.mp h
    rw [numberRows]
    split
    · rename_i hvault
      exact .cons ⟨rfl, rfl, .inl (hrow hvault)⟩ (ih hrows _)
    · exact .cons (.refl row) (ih hrows _)

lemma numbered_numberRows (n : Nat) : ((numberRows vaultId n rows).filter (·.vaultId = vaultId)).Pairwise
        (fun a b => sequenceNumber a < sequenceNumber b) ∧
    ∀ row ∈ (numberRows vaultId n rows).filter (·.vaultId = vaultId),
      n ≤ sequenceNumber row ∧ sequenceNumber row < n + (rows.filter (·.vaultId = vaultId)).length := by
  induction rows generalizing n with
  | nil => simp [numberRows]
  | cons row rows ih =>
    rw [numberRows]
    split
    · rename_i hvault
      obtain ⟨hinc, hbnd⟩ := ih (n + 1)
      rw [filter_cons_of_pos (by simpa using hvault),
        filter_cons_of_pos (by simpa using hvault), length_cons]
      refine ⟨pairwise_cons.mpr ⟨?_, hinc⟩, forall_mem_cons.mpr ⟨?_, ?_⟩⟩
      · intro other hother
        have hle := (hbnd other hother).1
        change n < sequenceNumber other
        omega
      · change n ≤ n ∧ n < _
        omega
      · intro other hother
        have hbound := hbnd other hother
        omega
    · rename_i hvault
      rw [filter_cons_of_neg (by simpa using hvault),
        filter_cons_of_neg (by simpa using hvault)]
      exact ih n

lemma mem_of_forall₂ {α : Type*} {R : α → α → Prop} {l l' : List α} (h : List.Forall₂ R l l') :
    (∀ b ∈ l', ∃ a ∈ l, R a b) ∧ ∀ a ∈ l, ∃ b ∈ l', R a b := by
  induction h with
  | nil => simp
  | @cons a b l l' hab _ ih =>
    refine ⟨forall_mem_cons.mpr ⟨⟨a, mem_cons_self, hab⟩, ?_⟩, forall_mem_cons.mpr ⟨⟨b, mem_cons_self, hab⟩, ?_⟩⟩
    · intro b' hb'
      obtain ⟨a', ha', hsame⟩ := ih.1 b' hb'
      exact ⟨a', mem_cons_of_mem _ ha', hsame⟩
    intro a' ha'
    obtain ⟨b', hb', hsame⟩ := ih.2 a' ha'
    exact ⟨b', mem_cons_of_mem _ hb', hsame⟩

lemma newId_ne_empty (kind unique : String) : newId kind unique ≠ "" := by
  intro h
  have hlen := congrArg String.length h
  simp [newId] at hlen

/-- The loop that gives vaults their states, with the vaults that it has not reached. -/
structure NumberingLoop (used : List String) (start : MetadataDb) (rest : List VaultRow)
    (db : MetadataDb) : Prop where
  vaults : db.vaults = start.vaults
  known : Known db
  evolves : Evolves used start db
  rows : ∀ row ∈ db.syncOperations, row.operationId ∈ used
  done : ∀ vault ∈ start.vaults, vault ∉ rest → ∃ state, stateOf db vault.vaultId = some state ∧
    state.ledgerId ≠ "" ∧ Numbered (hotRows db vault.vaultId) state.nextSequence
  todo : ∀ vault ∈ rest, stateOf db vault.vaultId = none ∧
    ∀ row ∈ hotRows db vault.vaultId, row.operationSequence = none
  rest_mem : ∀ vault ∈ rest, vault ∈ start.vaults
  nodup : (rest.map VaultRow.vaultId).Nodup

variable {used : List String} {start db : MetadataDb} {vault : VaultRow} {rest : List VaultRow}

lemma NumberingLoop.next (newLedgerId : String → String) (hstart : Known start)
    (hused : ∀ vault ∈ start.vaults, vault.vaultId ∈ used) (h : NumberingLoop used start (vault :: rest) db) :
    ∃ db', initializeState newLedgerId db vault = .ok db' ∧ NumberingLoop used start rest db' := by
  obtain ⟨hnone, hunn⟩ := h.todo vault mem_cons_self
  have hvault := h.rest_mem vault mem_cons_self
  obtain ⟨hnotin, hnodup⟩ := nodup_cons.mp h.nodup
  have hne : ∀ other ∈ rest, other.vaultId ≠ vault.vaultId :=
    fun other hother heq => hnotin (heq ▸ mem_map_of_mem hother)
  have hany : ¬ (hotRows db vault.vaultId).any (·.operationSequence.isSome) = true := by
    rw [List.any_eq_true]
    rintro ⟨row, hrow, hsome⟩
    simp [hunn row hrow] at hsome
  set state := newState (newId "hist" (newLedgerId vault.vaultId)) (hotRows db vault.vaultId).length
    with hstate
  set numbered : MetadataDb := { db with
    syncOperations := numberRows vault.vaultId 1 db.syncOperations } with hnum
  have hsame : List.Forall₂ SameOperation db.syncOperations numbered.syncOperations :=
    forall₂_numberRows (fun row hrow hrowV => hunn row (mem_hotRows.mpr ⟨hrow, hrowV⟩)) 1
  obtain ⟨hback, hforth⟩ := mem_of_forall₂ hsame
  have hvauI : vault.vaultId ∈ numbered.vaults.map vaultId := by
    rw [show numbered.vaults = start.vaults from h.vaults]
    exact mem_map_of_mem hvault
  have hknoN : Known numbered := by
    refine { h.known with nodup_ids := ?_, rows := ?_ }
    · rw [hnum, map_operationId_numberRows]
      exact h.known.nodup_ids
    intro row hrow
    obtain ⟨old, hold, hold'⟩ := hback row hrow
    rw [hold'.vault]
    exact h.known.rows old hold
  have hknown := hknoN.setState hvauI state
  have hevol : Evolves used db (setState numbered vault.vaultId state) := by
    refine ⟨fun row hrow => .inl (hback row hrow), fun row hrow _ => hforth row hrow,
      fun other hother => .inl ⟨other, hother, rfl, id⟩, ?_⟩
    intro other _
    by_cases heq : other = vault.vaultId
    · rw [heq, hnone, stateOf_setState_self]
      exact .new rfl rfl rfl
    · rw [stateOf_setState_of_ne _ _ heq]
      exact .refl _
  refine ⟨setState numbered vault.vaultId state, ?_, ?_⟩
  · rw [initializeState, hnone]
    exact if_neg hany
  refine ⟨h.vaults, hknown, h.evolves.trans hevol hstart h.known hknown hused, ?_, ?_, ?_, ?_, hnodup⟩
  · intro row hrow
    obtain ⟨old, hold, hold'⟩ := hback row hrow
    rw [hold'.id]
    exact h.rows old hold
  · intro other hother hrest
    by_cases heq : other.vaultId = vault.vaultId
    · rw [heq]
      refine ⟨state, stateOf_setState_self _ _ _, newId_ne_empty _ _, ?_⟩
      obtain ⟨hinc, hbnd⟩ := @numbered_numberRows vault.vaultId db.syncOperations 1
      refine ⟨hinc, fun row hrow => (hbnd row hrow).1, fun row hrow => ?_, succ_pos _⟩
      have hlt := (hbnd row hrow).2
      change sequenceNumber row < (hotRows db vault.vaultId).length + 1
      rw [hotRows]
      omega
    · have hoth : hotRows (setState numbered vault.vaultId state) other.vaultId
          = hotRows db other.vaultId := filter_numberRows_of_ne heq 1
      rw [stateOf_setState_of_ne _ _ heq, hoth]
      refine h.done other hother ?_
      rw [mem_cons]
      exact not_or.mpr ⟨fun hsame => heq (congrArg _ hsame), hrest⟩
  · intro other hother
    have hoth : hotRows (setState numbered vault.vaultId state) other.vaultId
        = hotRows db other.vaultId := filter_numberRows_of_ne (hne other hother) 1
    rw [stateOf_setState_of_ne _ _ (hne other hother), hoth]
    exact h.todo other (mem_cons_of_mem _ hother)
  · exact fun other hother => h.rest_mem other (mem_cons_of_mem _ hother)

lemma NumberingLoop.run (newLedgerId : String → String) (hstart : Known start)
    (hused : ∀ vault ∈ start.vaults, vault.vaultId ∈ used) (h : NumberingLoop used start rest db) :
    ∃ db', rest.foldlM (initializeState newLedgerId) db = .ok db' ∧ NumberingLoop used start [] db' := by
  induction rest generalizing db with
  | nil => exact ⟨db, rfl, h⟩
  | cons vault rest ih =>
    obtain ⟨db', hstep, h'⟩ := h.next newLedgerId hstart hused
    obtain ⟨db'', hrest, h''⟩ := ih h'
    refine ⟨db'', ?_, h''⟩
    rw [foldlM_cons, hstep]
    exact hrest

end Numbering

section Recovery

variable {codec : Codec} {used : List String} {disk : Disk}

lemma verifyOrder_ok {next : Nat} (h : Numbered rows next) : ∃ last, verifyOrder rows = .ok last ∧ last < next := by
  have hinc := h.increasing
  have hbnd : ∀ row ∈ rows, 0 < sequenceNumber row ∧ sequenceNumber row < next := fun row hrow =>
    ⟨h.positive row hrow, h.below row hrow⟩
  have hlt := h.next_pos
  clear h
  rw [verifyOrder]
  generalize 0 = previous at hbnd hlt ⊢
  induction rows generalizing previous with
  | nil => exact ⟨previous, rfl, hlt⟩
  | cons row rows ih =>
    obtain ⟨hfirst, hinc⟩ := pairwise_cons.mp hinc
    obtain ⟨hrow, hbnd⟩ := forall_mem_cons.mp hbnd
    have hseq := operationSequence_of_numbered (lt_of_le_of_lt (zero_le _) hrow.1)
    rw [foldlM_cons, hseq]
    simp only [if_pos hrow.1]
    exact ih hinc _ (fun other hother => ⟨hfirst other hother, (hbnd other hother).2⟩) hrow.2

lemma foldlM_initializeState_ok (h : Initialized codec disk) (newLedgerId : String → String) :
    disk.metadata.vaults.foldlM (initializeState newLedgerId) disk.metadata = .ok disk.metadata := by
  have hfold : ∀ vaults ⊆ disk.metadata.vaults,
      vaults.foldlM (initializeState newLedgerId) disk.metadata = .ok disk.metadata := by
    intro vaults
    induction vaults with
    | nil => exact fun _ => rfl
    | cons vault vaults ih =>
      intro hsub
      obtain ⟨hvault, hsub⟩ := cons_subset.mp hsub
      obtain ⟨state, hok⟩ := h.vaults vault hvault
      obtain ⟨last, hlast, hlt⟩ := verifyOrder_ok hok.numbered
      have hstep : initializeState newLedgerId disk.metadata vault = .ok disk.metadata := by
        rw [initializeState, hok.stated]
        simp only [hlast]
        exact if_pos ⟨hlt, hok.ledgerId⟩
      rw [foldlM_cons, hstep]
      exact ih hsub
  exact hfold _ (List.Subset.refl _)

/-- The loop over the ledgers, from metadata that the process has just read or written. -/
lemma foldlM_initializeLedger_runs (h : Started codec used disk) :
    (disk.metadata.vaults.foldlM (initializeLedger codec) disk.metadata).Runs disk (Inv codec used)
      fun _ disk' => Operational codec used disk' := by
  have hloop : Recovering codec used disk.metadata.vaults disk.metadata disk :=
    ⟨h, fun _ hvault => hvault, h.history.known.nodup_vaults, fun _ _ => rfl, .inl rfl,
      fun _ hvault hnot => absurd hvault hnot⟩
  refine (runs_foldlM (Recovering codec used) hloop ?_).mono ?_
  · intro vault rest candidate s hstep
    exact initializeLedger_runs hstep
  · intro candidate s hdone
    exact ⟨hdone.started, fun vault hvault => hdone.settled vault hvault (by simp)⟩

/-- A store without vaults counts as initialized. -/
lemma Inv.initialized_or (h : Inv codec used disk) :
    Initialized codec disk ∨ Unstarted disk ∧ disk.metadata.vaults ≠ [] := by
  rcases h.phases with hini | huns
  · exact .inl hini
  by_cases hempty : disk.metadata.vaults = []
  · refine .inl ⟨?_, ?_⟩
    · simp [hempty]
    · simp [hempty]
  · exact .inr ⟨huns, hempty⟩

lemma Unstarted.stateOf_eq_none (h : Unstarted disk) (vaultId : String) : stateOf disk.metadata vaultId = none := by
  rw [stateOf, h.states]
  rfl

lemma initializeOperationHistory_runs (h : Inv codec used disk) (newLedgerId : String → String) :
    (initializeOperationHistory codec newLedgerId).Runs disk (Inv codec used)
      fun _ disk' => Operational codec used disk' := by
  refine runs_bind (runs_read (runs_bind (runs_check ⟨h.history.known.rows, h.history.known.states⟩ ?_)))
  rcases h.initialized_or with hini | ⟨huns, hne⟩
  · refine runs_bind (runs_ofExcept (foldlM_initializeState_ok hini newLedgerId) ?_)
    have hany : ¬ disk.metadata.vaults.any
        (fun vault => (stateOf disk.metadata vault.vaultId).isNone) = true := by
      rw [List.any_eq_true]
      rintro ⟨vault, hvault, hnone⟩
      obtain ⟨state, hok⟩ := hini.vaults vault hvault
      simp [hok.stated] at hnone
    rw [if_neg hany]
    refine runs_bind ((foldlM_initializeLedger_runs ⟨h.history, hini⟩).mono ?_)
    exact fun _ _ hdone => runs_pure hdone
  · have hnone := huns.stateOf_eq_none
    have hrows : ∀ row ∈ disk.metadata.syncOperations, row.operationId ∈ used := fun row hrow =>
      (h.history.used_rows _ _ (h.history.hot row hrow)).1
    have hloop : NumberingLoop used disk.metadata disk.metadata.vaults disk.metadata :=
      ⟨rfl, h.history.known, .refl _ _, hrows, fun _ hvault hnot => absurd hvault hnot,
        fun vault _ => ⟨hnone _, fun row hrow => huns.unnumbered row (mem_hotRows.mp hrow).1⟩,
        fun _ hvault => hvault, h.history.known.nodup_vaults⟩
    obtain ⟨candidate, hcand, hdone⟩ :=
      hloop.run newLedgerId h.history.known h.history.used_vaults
    refine runs_bind (runs_ofExcept hcand ?_)
    have hcpl : Complete used candidate :=
      ⟨hdone.known, hdone.vaults.symm ▸ h.history.used_vaults, hdone.rows, fun vault hvault =>
        hdone.done vault (hdone.vaults ▸ hvault) (by simp)⟩
    have hany : disk.metadata.vaults.any
        (fun vault => (stateOf disk.metadata vault.vaultId).isNone) = true := by
      obtain ⟨vault, hvault⟩ := exists_mem_of_ne_nil _ hne
      exact any_eq_true.mpr ⟨vault, hvault, by rw [hnone]; rfl⟩
    have hquiet : Quiet codec disk := by
      refine ⟨.inr huns, fun hini vault hvault => ?_⟩
      obtain ⟨state, hok⟩ := hini.vaults vault hvault
      exact absurd hok.stated (by simp [hnone])
    have hstrt : Started codec used (disk.persist candidate) :=
      (Started.persist h.history hquiet hdone.evolves hcpl (List.Subset.refl _)).1
    rw [if_pos hany]
    refine runs_bind (runs_write hstrt.inv ?_)
    refine runs_bind ((foldlM_initializeLedger_runs hstrt).mono ?_)
    exact fun _ _ hdone => runs_pure hdone

end Recovery

section Serving

variable {codec : Codec} {used used' : List String} {disk disk' : Disk} {vault : VaultRow}
  {state : OperationHistoryState}

lemma HistoryOk.mono (h : HistoryOk used disk) (hsub : used ⊆ used') : HistoryOk used' disk := { h with
  used_vaults := fun vault hvault => hsub (h.used_vaults vault hvault)
  used_rows := fun id row hrow =>
    (h.used_rows id row hrow).imp (fun hin => hsub hin) (fun hin => hsub hin)
  used_ledgers := fun vaultId hnot => h.used_ledgers vaultId fun hin => hnot (hsub hin)
  used_batches := fun vaultId ledger hledg proof hproof =>
    hsub (h.used_batches vaultId ledger hledg proof hproof)
  used_pending := fun vaultId state hstate batch hbatch =>
    hsub (h.used_pending vaultId state hstate batch hbatch) }

section
variable (h : Operational codec used disk)
include h

lemma Operational.mono (hsub : used ⊆ used') : Operational codec used' disk :=
  ⟨⟨h.history.mono hsub, h.initialized⟩, h.settled⟩

lemma Operational.quiet : Quiet codec disk :=
  ⟨.inl h.initialized, fun _ => h.settled⟩

/-- A vault in service has an open ledger and nothing pending. -/
lemma Operational.ledgerOpen (hvault : vault ∈ disk.metadata.vaults) (hlive : vault.status ≠ .deleting) :
    ∃ state, LedgerOpen codec used disk disk vault state ∧ state.initPending = false ∧
      state.pendingBatch = none := by
  obtain ⟨state, hok⟩ := h.initialized.vaults vault hvault
  obtain ⟨state', hstate', hinit, hpend⟩ := h.settled vault hvault hlive
  cases hok.stated.symm.trans hstate'
  obtain ⟨archived, hphase, -⟩ := hok.phase hlive
  cases hledg : disk.ledgers vault.vaultId with
  | none =>
    rw [hledg] at hphase
    obtain ⟨hinit', -, -⟩ := hphase
    simp [hinit] at hinit'
  | some ledger =>
    exact ⟨state, ⟨h.toStarted, rfl, hok, ⟨ledger, hledg⟩, fun _ => rfl⟩, hinit, hpend⟩

lemma assertOperational_runs {Q : Unit → Disk → Prop} (hQ : Q () disk) (hC : ∀ disk, Inv codec used disk → C disk) :
    assertOperational.Runs disk C Q := by
  have hloop : assertOperational.Runs disk (Inv codec used) fun _ disk' => disk' = disk := by
    refine runs_bind (runs_read ?_)
    refine (runs_foldlM (fun rest _ disk' => disk' = disk ∧ rest ⊆ disk.metadata.vaults)
      ⟨rfl, List.Subset.refl _⟩ ?_).mono fun _ _ hdone => hdone.1
    rintro vault rest ⟨⟩ disk' ⟨rfl, hsub⟩
    obtain ⟨hvault, hsub⟩ := cons_subset.mp hsub
    rw [assertVault]
    by_cases hlive : vault.status = .deleting
    · rw [if_pos hlive]
      exact runs_pure ⟨rfl, hsub⟩
    rw [if_neg hlive]
    obtain ⟨state, hopen, hinit, hpend⟩ := h.ledgerOpen hvault hlive
    obtain ⟨ledger, archived, hledg, opened, hgen, -⟩ := hopen.settled hlive hpend
    refine runs_bind (orThrow_runs hopen.ok.stated ?_)
    refine runs_bind (runs_check ⟨hinit, hpend⟩ ?_)
    exact verifyAvailable_runs hledg opened hopen.ok.numbered.next_pos hgen ⟨rfl, hsub⟩
  obtain ⟨hwrs, a, s', hres, hfinal, rfl⟩ := hloop
  exact ⟨fun w hw => hC w (hwrs w hw), a, s', hres, hfinal, hQ⟩

end

lemma initializePendingHistory_runs (h : Recovering codec used (vault :: rest) disk.metadata disk)
    (hnone : ∀ vault ∈ disk.metadata.vaults, ¬ HasPending disk.metadata vault) :
    (initializePendingHistory codec vault).Runs disk (Inv codec used) fun _ disk' =>
      Recovering codec used rest disk'.metadata disk' ∧
      ∀ vault ∈ disk'.metadata.vaults, ¬ HasPending disk'.metadata vault := by
  have hvault := h.rest_mem vault mem_cons_self
  rw [initializePendingHistory]
  by_cases hlive : vault.status = .deleting
  · rw [if_pos hlive]
    exact runs_pure ⟨h.next h.started rfl (fun _ _ => rfl) (fun hne => absurd hlive hne) (.inl rfl), hnone⟩
  rw [if_neg hlive]
  obtain ⟨state, hok⟩ := h.started.initialized.vaults vault hvault
  have hpend : state.pendingBatch = none := by
    cases hcase : state.pendingBatch with
    | none => rfl
    | some batch => exact absurd ⟨hlive, state, batch, hok.stated, hcase⟩ (hnone vault hvault)
  refine runs_bind (runs_read (runs_bind (orThrow_runs hok.stated ?_)))
  cases hcase : state.initPending with
  | false =>
    exact runs_pure ⟨h.next h.started rfl (fun _ _ => rfl)
      (fun _ => ⟨state, hok.stated, hcase, hpend⟩) (.inl rfl), hnone⟩
  | true =>
    refine runs_bind (ensureHistory_runs h.started hvault hlive hok hpend ?_)
    intro disk₁ hopen
    obtain ⟨ledger, archived, hledg, opened, hgen, -⟩ := hopen.settled hlive hpend
    refine runs_bind (ledgerOf_runs hledg (runs_bind (runs_check
      ⟨hgen, opened.maxSequence_lt hok.numbered.next_pos⟩ ?_)))
    refine runs_bind (finishInitialization_runs hopen.started (hopen.metadata ▸ hvault)
      hopen.ok hpend hopen.ledger ?_)
    intro disk₂ hcpl _
    have hsts : ∀ other, other ≠ vault.vaultId →
        stateOf disk₂.metadata other = stateOf disk.metadata other := by
      intro other hne
      rw [hcpl.step.states other hne, hopen.metadata]
    have hvs : disk₂.metadata.vaults = disk.metadata.vaults :=
      hcpl.step.vaults.trans (by rw [hopen.metadata])
    refine runs_pure ⟨h.next hcpl.started hvs hsts (fun _ => ⟨_, hcpl.ok.stated, rfl, hpend⟩) (.inl rfl), ?_⟩
    intro other hother hhas
    rw [hvs] at hother
    by_cases hid : other.vaultId = vault.vaultId
    · obtain rfl := h.started.history.known.eq_of_vaultId hother hvault hid
      exact hcpl.ok.not_hasPending hpend hhas
    · exact hnone other hother ((HasPending.congr (hsts _ hid)).mp hhas)

lemma initializePendingHistories_runs (h : Started codec used disk)
    (hnone : ∀ vault ∈ disk.metadata.vaults, ¬ HasPending disk.metadata vault) :
    (initializePendingHistories codec).Runs disk (Inv codec used) fun _ disk' => Operational codec used disk' := by
  refine runs_bind (runs_read ?_)
  have hloop : Recovering codec used disk.metadata.vaults disk.metadata disk :=
    ⟨h, fun _ hvault => hvault, h.history.known.nodup_vaults, fun _ _ => rfl, .inl rfl,
      fun _ hvault hnot => absurd hvault hnot⟩
  refine (runs_foldlM (fun rest _ disk' => Recovering codec used rest disk'.metadata disk' ∧
    ∀ vault ∈ disk'.metadata.vaults, ¬ HasPending disk'.metadata vault) ⟨hloop, hnone⟩ ?_).mono ?_
  · intro vault rest _ s hstep
    exact initializePendingHistory_runs hstep.1 hstep.2
  · intro _ s hdone
    exact ⟨hdone.1.started, fun vault hvault => hdone.1.settled vault hvault (by simp)⟩

/-- A mutation publishes metadata that evolved from what the process had. -/
lemma mutate_runs (h : Operational codec used disk) {newLedgerId : String → String} {candidate : MetadataDb}
    (hev : Evolves used disk.metadata (prepareOperationHistoryMetadata newLedgerId candidate))
    (hcpl : Complete used' (prepareOperationHistoryMetadata newLedgerId candidate)) (hsub : used ⊆ used') :
    (mutate codec newLedgerId candidate).Runs disk (Inv codec used') fun _ disk' =>
      Operational codec used' disk' := by
  obtain ⟨hstrt, hnone⟩ := Started.persist h.history h.quiet hev hcpl hsub
  refine runs_bind (assertOperational_runs h ?_ fun disk hinv =>
    ⟨hinv.history.mono hsub, hinv.phases⟩)
  refine runs_bind (runs_write hstrt.inv ?_)
  exact initializePendingHistories_runs hstrt hnone

/-- The rows that are archived are terminal rows of the vault in the order of their numbers. -/
structure Eligible (db : MetadataDb) (vaultId : String) (rows : List SyncOperationRow) : Prop where
  hot : rows ⊆ hotRows db vaultId
  terminal : ∀ row ∈ rows, isTerminal row.status = true
  increasing : rows.Pairwise fun a b => sequenceNumber a < sequenceNumber b
  atMost : rows.length ≤ 256

lemma eligible_eligibleRows {next : Nat}
    (h : Numbered (hotRows db vaultId) next) (isPendingMerge : SyncOperationRow → Bool) :
    Eligible db vaultId (eligibleRows db vaultId isPendingMerge) := by
  obtain ⟨keep, hkeep⟩ : ∃ keep : SyncOperationRow → Bool, eligibleRows db vaultId isPendingMerge
      = (sortBy (compareOn sequenceNumber) ((hotRows db vaultId).filter fun row =>
        isTerminal row.status && keep row)).take 256 := ⟨_, rfl⟩
  set eligible := (hotRows db vaultId).filter fun row => isTerminal row.status && keep row
    with heli
  have hinc : eligible.Pairwise fun a b => sequenceNumber a < sequenceNumber b :=
    h.increasing.filter _
  have hsort : sortBy (compareOn sequenceNumber) eligible = eligible :=
    sortBy_of_pairwise (hinc.imp fun hlt => by
      rw [compareOn, Nat.isLE_compare]
      exact Nat.le_of_lt hlt)
  rw [hkeep, hsort]
  refine ⟨fun row hrow => mem_of_mem_filter (mem_of_mem_take hrow), fun row hrow => ?_,
    hinc.sublist (take_sublist _ _), length_take_le _ _⟩
  exact (Bool.and_eq_true_iff.mp (mem_filter.mp (mem_of_mem_take hrow)).2).1

/-- The batch that `publishHistoryBatch` hands over. -/
def batchFor (codec : Codec) (vaultId unique : String) (state : OperationHistoryState)
    (rows : List SyncOperationRow) : HistoryBatch :=
  { vaultId
    ledgerId := state.ledgerId
    batchId := newId "batch" unique
    parentGeneration := state.generation
    targetGeneration := state.generation + 1
    rows := rows.map (entryOf codec) }

section
variable (h : Operational codec used disk)
include h

/-- The first step: the metadata names the batch. -/
lemma onTheWay_pending (hvault : vault ∈ disk.metadata.vaults)
    (hlive : vault.status ≠ .deleting) (hopen : LedgerOpen codec used disk disk vault state)
    (hinit : state.initPending = false) (hpend : state.pendingBatch = none)
    (heli : Eligible disk.metadata vault.vaultId rows) (hne : rows.length ≠ 0)
    (hsub : used ⊆ used') (hfresh : newId "batch" unique ∉ used) (hused : newId "batch" unique ∈ used') :
    OnTheWay codec used' (disk.persist (setState disk.metadata vault.vaultId
      { state with pendingBatch := some (batchFor codec vault.vaultId unique state rows) })) vault
      { state with pendingBatch := some (batchFor codec vault.vaultId unique state rows) }
      (batchFor codec vault.vaultId unique state rows) := by
  set state' : OperationHistoryState :=
    { state with pendingBatch := some (batchFor codec vault.vaultId unique state rows) } with hstate'
  have hhist := h.history.mono hsub
  have heq := hhist.persist_setState vault.vaultId state'
  have hstep := onlyVault_setState hhist hvault state'
  have hok' : VaultOk codec (disk.persist (setState disk.metadata vault.vaultId state')) vault
      state' := by
    refine VaultOk.setState hhist hopen.ok rfl rfl ?_
    intro archived _ hphase
    obtain ⟨ledger, hledg⟩ := hopen.ledger
    rw [hledg] at hphase ⊢
    cases hphase with
    | prepared _ _ _ pending | published _ _ _ pending => simp [hpend] at pending
    | settled opened generation init pending distinct =>
      refine .prepared { opened with } generation hinit rfl
        ⟨rfl, rfl, rfl, rfl, rfl, Nat.pos_of_ne_zero hne, heli.atMost, ?_, heli.increasing⟩ heli.hot distinct ?_
      · intro row hrow
        exact ⟨(mem_hotRows.mp (heli.hot hrow)).2, heli.terminal row hrow,
          hopen.ok.numbered.positive row (heli.hot hrow)⟩
      intro proof hproof hsame
      have hin := h.history.used_batches _ _ hledg proof hproof
      rw [hsame] at hin
      exact hfresh hin
  refine ⟨⟨hhist.onlyVault hstep (hhist.used_vaults vault hvault) ?_ ?_,
    h.initialized.onlyVault hstep hvault hok' ?_⟩, ?_, hlive, hok', rfl⟩
  · intro ledger hledg
    exact hhist.used_batches _ _ hledg
  · intro state₁ hstate₁ batch hbatch
    cases hok'.stated.symm.trans hstate₁
    cases hbatch
    exact hused
  · rintro - other hother ⟨hlive', state₁, batch, hstate₁, hbatch⟩
    obtain ⟨state₂, hstate₂, -, hnone⟩ := h.settled other hother hlive'
    cases hstate₁.symm.trans hstate₂
    simp [hnone] at hbatch
  · exact hvault

lemma publishHistoryBatch_runs (hvault : vault ∈ disk.metadata.vaults)
    (hlive : vault.status ≠ .deleting) (heli : Eligible disk.metadata vault.vaultId rows)
    (hne : rows.length ≠ 0) (hsub : used ⊆ used') (hfresh : newId "batch" unique ∉ used)
    (hused : newId "batch" unique ∈ used') :
    (publishHistoryBatch codec vault.vaultId unique rows).Runs disk (Inv codec used') fun _ disk' =>
      Operational codec used' disk' := by
  have h' := h.mono hsub
  obtain ⟨state, hopen, hinit, hpend⟩ := h.ledgerOpen hvault hlive
  obtain ⟨ledger, archived, hledg, opened, hgen, -⟩ := hopen.settled hlive hpend
  refine runs_bind (runs_read (runs_bind (orThrow_runs hopen.ok.stated ?_)))
  refine runs_bind (ensureHistory_runs h'.toStarted hvault hlive hopen.ok hpend ?_)
  intro disk₁ hopen₁
  obtain rfl := hopen₁.unchanged (by simp [hledg])
  refine runs_bind (ledgerOf_runs hledg ?_)
  refine runs_bind (runs_check ⟨hpend, hgen.symm⟩ ?_)
  refine runs_bind (runs_check ?_ ?_)
  · intro row hrow hnone
    have hpos := hopen.ok.numbered.positive row (heli.hot hrow)
    simp [sequenceNumber, hnone] at hpos
  have hway := onTheWay_pending h hvault hlive hopen hinit hpend heli hne hsub hfresh hused
  have heq := h'.history.persist_setState vault.vaultId
    { state with pendingBatch := some (batchFor codec vault.vaultId unique state rows) }
  refine runs_bind (runs_write hway.started.inv ?_)
  refine runs_bind (commitBatch_runs hway ?_)
  intro disk₂ ledger₂ hway₂ hmeta₂ hledg₂ hgen₂
  have hcpl := finishHistoryBatch_completed hway₂ hledg₂ hgen₂
  have hmeta : disk₂.metadata = setState disk₁.metadata vault.vaultId
      { state with pendingBatch := some (batchFor codec vault.vaultId unique state rows) } := by
    rw [hmeta₂, heq]
  change (finishHistoryBatch (setState disk₁.metadata vault.vaultId
    { state with pendingBatch := some (batchFor codec vault.vaultId unique state rows) })
    vault.vaultId (batchFor codec vault.vaultId unique state rows)).Runs _ _ _
  rw [← hmeta]
  refine runs_bind (orThrow_runs hway₂.ok.stated (runs_write hcpl.started.inv ?_))
  refine ⟨hcpl.started, fun other hother hlive' => ?_⟩
  by_cases hid : other.vaultId = vault.vaultId
  · rw [hid]
    exact ⟨_, hcpl.ok.stated, hinit, rfl⟩
  have hother' : other ∈ disk₁.metadata.vaults := by
    rw [hcpl.step.vaults, hmeta] at hother
    exact hother
  rw [hcpl.step.states _ hid, hmeta, stateOf_setState_of_ne _ _ hid]
  exact h.settled other hother' hlive'

lemma archiveCompletedHistory_runs
    (vaultId : String) (isPendingMerge : SyncOperationRow → Bool) (hsub : used ⊆ used')
    (hfresh : newId "batch" unique ∉ used) (hused : newId "batch" unique ∈ used') :
    (archiveCompletedHistory codec vaultId unique isPendingMerge).Runs disk (Inv codec used')
      fun _ disk' => Operational codec used' disk' := by
  have h' := h.mono hsub
  refine runs_bind (assertOperational_runs h' ?_ fun _ hinv => hinv)
  suffices harch : (archiveEligibleUnqueued codec vaultId unique isPendingMerge).Runs disk
      (Inv codec used') fun _ disk' => Operational codec used' disk' from
    runs_bind (harch.mono fun _ _ hdone => runs_pure hdone)
  refine runs_bind (runs_read ?_)
  cases hfind : disk.metadata.vaults.find? (·.vaultId = vaultId) with
  | none =>
    simp only [hfind]
    exact runs_pure h'
  | some vault =>
    have hvault := mem_of_find?_eq_some hfind
    have htest := find?_some hfind
    obtain rfl : vault.vaultId = vaultId := of_decide_eq_true htest
    simp only [hfind]
    by_cases hact : vault.status ≠ .active
    · rw [if_pos hact]
      exact runs_pure h'
    rw [if_neg hact]
    have hlive : vault.status ≠ .deleting := by
      rw [not_not.mp hact]
      decide
    obtain ⟨state, hopen, -, hpend⟩ := h'.ledgerOpen hvault hlive
    obtain ⟨ledger, archived, hledg, opened, hgen, -⟩ := hopen.settled hlive hpend
    refine runs_bind (ensureHistory_runs h'.toStarted hvault hlive hopen.ok hpend ?_)
    intro disk₁ hopen₁
    obtain rfl := hopen₁.unchanged (by simp [hledg])
    refine runs_bind (ledgerOf_runs hledg ?_)
    refine runs_bind (orThrow_runs hopen.ok.stated ?_)
    refine runs_bind (runs_check hpend ?_)
    refine runs_bind (runs_check ⟨hgen, opened.maxSequence_lt hopen.ok.numbered.next_pos⟩ ?_)
    by_cases hempty : (eligibleRows disk₁.metadata vault.vaultId isPendingMerge).length = 0
    · rw [if_pos hempty]
      exact runs_pure h'
    rw [if_neg hempty]
    have heli := eligible_eligibleRows hopen.ok.numbered isPendingMerge
    refine runs_bind ((publishHistoryBatch_runs h hvault hlive heli hempty hsub hfresh hused).mono ?_)
    exact fun _ _ hdone => runs_pure hdone

end

end Serving

/-- Metadata between the changes of a mutation: a vault without a state has no operations yet. -/
structure Draft (used : List String) (db : MetadataDb) : Prop where
  known : Known db
  vaults : ∀ vault ∈ db.vaults, vault.vaultId ∈ used
  rows : ∀ row ∈ db.syncOperations, row.operationId ∈ used
  states : ∀ vault ∈ db.vaults, stateOf db vault.vaultId = none ∧ hotRows db vault.vaultId = [] ∨
    ∃ state, stateOf db vault.vaultId = some state ∧ state.ledgerId ≠ "" ∧
      Numbered (hotRows db vault.vaultId) state.nextSequence

section Changes

variable {used used' : List String} {db db' start : MetadataDb}

lemma Draft.mono (h : Draft used db) (hsub : used ⊆ used') : Draft used' db :=
  ⟨h.known, fun vault hvault => hsub (h.vaults vault hvault), fun row hrow => hsub (h.rows row hrow), h.states⟩

lemma Evolves.anti (h : Evolves used' db db') (hsub : used ⊆ used') : Evolves used db db' := { h with
  rows := fun row hrow => (h.rows row hrow).imp_right fun hnew =>
    ⟨fun hin => hnew.1 (hsub hin), hnew.2⟩
  vaults := fun vault hvault => (h.vaults vault hvault).imp_right fun hnew hin => hnew (hsub hin) }

lemma Draft.vaultId_used (h : Draft used db)
    (hmem : vaultId ∈ db.vaults.map VaultRow.vaultId) : vaultId ∈ used := by
  obtain ⟨vault, hvault, rfl⟩ := mem_map.mp hmem
  exact h.vaults vault hvault

lemma createVault_spec (h : Draft used db) (hfresh : vaultId ∉ used)
    (vault : VaultRow) (hvault : vault.vaultId = vaultId) :
    Draft (vaultId :: used) { db with vaults := db.vaults ++ [vault] } ∧
    Evolves used db { db with vaults := db.vaults ++ [vault] } := by
  subst hvault
  have hnew : vault.vaultId ∉ db.vaults.map vaultId := fun hmem =>
    hfresh (h.vaultId_used hmem)
  have hnone := h.known.stateOf_eq_none hnew
  have hmap : (db.vaults ++ [vault]).map vaultId
      = db.vaults.map vaultId ++ [vault.vaultId] := by simp
  refine ⟨⟨⟨?_, h.known.nodup_ids, ?_, ?_⟩, ?_, ?_, ?_⟩, ⟨?_, ?_, ?_, ?_⟩⟩
  · exact nodup_map_concat h.known.nodup_vaults hnew
  · intro row hrow
    rw [hmap]
    exact mem_append_left _ (h.known.rows row hrow)
  · intro entry hentry
    rw [hmap]
    exact mem_append_left _ (h.known.states entry hentry)
  · exact forall_mem_concat.mpr ⟨fun other hother => mem_cons_of_mem _ (h.vaults other hother), mem_cons_self⟩
  · exact fun row hrow => mem_cons_of_mem _ (h.rows row hrow)
  · refine forall_mem_concat.mpr ⟨h.states, ?_⟩
    refine .inl ⟨hnone, filter_eq_nil_iff.mpr fun row hrow => ?_⟩
    rw [decide_eq_true_eq]
    intro heq
    exact hnew (heq ▸ h.known.rows row hrow)
  · exact fun row hrow => .inl ⟨row, hrow, .refl row⟩
  · exact fun row hrow _ => ⟨row, hrow, .refl row⟩
  · exact forall_mem_concat.mpr ⟨fun other hother => .inl ⟨other, hother, rfl, id⟩, .inr hfresh⟩
  · exact fun _ _ => .refl _

/-- Changing a vault's row, but not its identifier and not away from `deleting`. -/
lemma updateVault_spec (h : Draft used db) (vaultId : String) {update : VaultRow → VaultRow}
    (hid : ∀ vault, (update vault).vaultId = vault.vaultId)
    (hstat : ∀ vault, vault.status = .deleting → (update vault).status = .deleting) :
    Draft used (updateVault db vaultId update) ∧ Evolves used db (updateVault db vaultId update) := by
  have hmap : (updateVault db vaultId update).vaults.map VaultRow.vaultId
      = db.vaults.map VaultRow.vaultId := map_updateFirst hid _
  have hfor : List.Forall₂ (fun vault vault' : VaultRow => vault.vaultId = vault'.vaultId ∧
      (vault.status = .deleting → vault'.status = .deleting)) db.vaults
      (updateVault db vaultId update).vaults :=
    forall₂_updateFirst (fun _ => ⟨rfl, id⟩) (fun vault => ⟨(hid vault).symm, hstat vault⟩) _
  have hback := (mem_of_forall₂ hfor).1
  refine ⟨⟨⟨?_, h.known.nodup_ids, ?_, ?_⟩, ?_, h.rows, ?_⟩, ⟨?_, ?_, ?_, ?_⟩⟩
  · rw [hmap]
    exact h.known.nodup_vaults
  · rw [hmap]
    exact h.known.rows
  · rw [hmap]
    exact h.known.states
  · intro vault hvault
    obtain ⟨old, hold, heq, -⟩ := hback vault hvault
    exact heq ▸ h.vaults old hold
  · intro vault hvault
    obtain ⟨old, hold, heq, -⟩ := hback vault hvault
    rw [← heq]
    exact h.states old hold
  · exact fun row hrow => .inl ⟨row, hrow, .refl row⟩
  · exact fun row hrow _ => ⟨row, hrow, .refl row⟩
  · intro vault hvault
    obtain ⟨old, hold, hsame⟩ := hback vault hvault
    exact .inl ⟨old, hold, hsame⟩
  · exact fun _ _ => .refl _

lemma finalizeDb_spec (h : Draft used db) (vaultId : String) : Draft used { db with
      vaults := db.vaults.filter (·.vaultId ≠ vaultId)
      syncOperations := db.syncOperations.filter (·.vaultId ≠ vaultId)
      operationHistoryByVault := delete db.operationHistoryByVault vaultId } ∧
    Evolves used db { db with
      vaults := db.vaults.filter (·.vaultId ≠ vaultId)
      syncOperations := db.syncOperations.filter (·.vaultId ≠ vaultId)
      operationHistoryByVault := delete db.operationHistoryByVault vaultId } := by
  have hstays : ∀ other ∈ db.vaults.map VaultRow.vaultId, other ≠ vaultId →
      other ∈ (db.vaults.filter (·.vaultId ≠ vaultId)).map VaultRow.vaultId := by
    intro other hother hne
    obtain ⟨vault, hvault, rfl⟩ := mem_map.mp hother
    exact mem_map_of_mem (mem_filter.mpr ⟨hvault, by simpa using hne⟩)
  have hne : ∀ other ∈ (db.vaults.filter (·.vaultId ≠ vaultId)).map VaultRow.vaultId,
      other ≠ vaultId := by
    intro other hother
    obtain ⟨vault, hvault, rfl⟩ := mem_map.mp hother
    simpa using (mem_filter.mp hvault).2
  have hhot : ∀ other, other ≠ vaultId → (db.syncOperations.filter (·.vaultId ≠ vaultId)).filter (·.vaultId = other)
        = db.syncOperations.filter (·.vaultId = other) := by
    intro other hne
    rw [List.filter_filter]
    refine filter_congr fun row _ => ?_
    by_cases heq : row.vaultId = other
    · simp [heq, hne]
    · simp [heq]
  refine ⟨⟨⟨?_, ?_, ?_, ?_⟩, ?_, ?_, ?_⟩, ⟨?_, ?_, ?_, ?_⟩⟩
  · exact h.known.nodup_vaults.sublist (filter_sublist.map _)
  · exact h.known.nodup_ids.sublist (filter_sublist.map _)
  · intro row hrow
    obtain ⟨hmem, hrowNe⟩ := mem_filter.mp hrow
    exact hstays _ (h.known.rows row hmem) (by simpa using hrowNe)
  · intro entry hentry
    obtain ⟨hmem, hentN⟩ := mem_filter.mp hentry
    exact hstays _ (h.known.states entry hmem) (by simpa using hentN)
  · exact fun vault hvault => h.vaults vault (mem_of_mem_filter hvault)
  · exact fun row hrow => h.rows row (mem_of_mem_filter hrow)
  · intro vault hvault
    have hvauN := hne _ (mem_map_of_mem hvault)
    have hold := h.states vault (mem_of_mem_filter hvault)
    rw [hotRows, ← hhot _ hvauN, stateOf, ← valueAt_delete_of_ne _ hvauN] at hold
    exact hold
  · exact fun row hrow => .inl ⟨row, mem_of_mem_filter hrow, .refl row⟩
  · intro row hrow hmem
    exact ⟨row, mem_filter.mpr ⟨hrow, by simpa using hne _ hmem⟩, .refl row⟩
  · exact fun vault hvault => .inl ⟨vault, mem_of_mem_filter hvault, rfl, id⟩
  · intro other hother
    change StateStep (valueAt db.operationHistoryByVault other)
      (valueAt (delete db.operationHistoryByVault vaultId) other)
    rw [valueAt_delete_of_ne _ (hne other hother)]
    exact .refl _

lemma Numbered.congr {rows' : List SyncOperationRow} {next : Nat} (h : Numbered rows next)
    (hmap : rows'.map sequenceNumber = rows.map sequenceNumber) : Numbered rows' next := by
  have hmem : ∀ row' ∈ rows', ∃ row ∈ rows, sequenceNumber row = sequenceNumber row' := by
    intro row' hrow'
    have hin := mem_map_of_mem (f := sequenceNumber) hrow'
    rw [hmap] at hin
    exact mem_map.mp hin
  refine ⟨?_, ?_, ?_, h.next_pos⟩
  · have hpair : (rows.map sequenceNumber).Pairwise (· < ·) := pairwise_map.mpr h.increasing
    rw [← hmap] at hpair
    exact pairwise_map.mp hpair
  · intro row' hrow'
    obtain ⟨row, hrow, heq⟩ := hmem row' hrow'
    exact heq ▸ h.positive row hrow
  · intro row' hrow'
    obtain ⟨row, hrow, heq⟩ := hmem row' hrow'
    exact heq ▸ h.below row hrow

section
variable (h : Draft used db)
include h

lemma updateOperation_spec (operationId : String) (update : SyncOperationRow → SyncOperationRow) :
    Draft used { db with
      syncOperations := updateFirst (·.operationId = operationId) (keepIdentity update)
        db.syncOperations } ∧
    Evolves used db { db with
      syncOperations := updateFirst (·.operationId = operationId) (keepIdentity update)
        db.syncOperations } := by
  set rows' := updateFirst (·.operationId = operationId) (keepIdentity update) db.syncOperations
    with hrows'
  have hfor : List.Forall₂ SameOperation db.syncOperations rows' :=
    forall₂_updateFirst .refl (fun _ => ⟨rfl, rfl, .inr rfl⟩) _
  obtain ⟨hback, hforth⟩ := mem_of_forall₂ hfor
  have hids : rows'.map SyncOperationRow.operationId
      = db.syncOperations.map SyncOperationRow.operationId := by
    refine map_updateFirst ?_ _
    intro row
    rfl
  have hhot : ∀ vaultId, (rows'.filter (·.vaultId = vaultId)).map sequenceNumber
      = (db.syncOperations.filter (·.vaultId = vaultId)).map sequenceNumber := by
    intro vaultId
    refine map_filter_updateFirst ?_ ?_ _
    · exact fun row => rfl
    · exact fun row => rfl
  refine ⟨⟨{ h.known with nodup_ids := hids ▸ h.known.nodup_ids, rows := ?_ }, h.vaults, ?_, ?_⟩,
    ⟨fun row hrow => .inl (hback row hrow), fun row hrow _ => hforth row hrow,
      fun vault hvault => .inl ⟨vault, hvault, rfl, id⟩, fun _ _ => .refl _⟩⟩
  · intro row hrow
    obtain ⟨old, hold, hsame⟩ := hback row hrow
    rw [hsame.vault]
    exact h.known.rows old hold
  · intro row hrow
    obtain ⟨old, hold, hsame⟩ := hback row hrow
    rw [hsame.id]
    exact h.rows old hold
  · intro vault hvault
    rcases h.states vault hvault with ⟨hnone, hempty⟩ | ⟨state, hstate, hledI, hnum⟩
    · have hmap := hhot vault.vaultId
      rw [show db.syncOperations.filter (·.vaultId = vault.vaultId) = [] from hempty, map_nil,
        map_eq_nil_iff] at hmap
      exact .inl ⟨hnone, hmap⟩
    · exact .inr ⟨state, hstate, hledI, hnum.congr (hhot _)⟩

/-- The state that an operation takes its number from. -/
lemma startState_spec (hvault : vault ∈ db.vaults) (newLedgerId : String) :
    ∃ state, (stateOf db vault.vaultId).getD (newState (newId "hist" newLedgerId)
        (hotRows db vault.vaultId).length) = state ∧ state.ledgerId ≠ "" ∧
      Numbered (hotRows db vault.vaultId) state.nextSequence ∧ StateStep (stateOf db vault.vaultId)
        (some { state with nextSequence := state.nextSequence + 1 }) ∧
      ∀ old, stateOf db vault.vaultId = some old → old.nextSequence ≤ state.nextSequence := by
  rcases h.states vault hvault with ⟨hnone, hempty⟩ | ⟨state, hstate, hledI, hnum⟩
  · rw [hnone, hempty]
    refine ⟨_, rfl, newId_ne_empty _ _, ?_, .new rfl rfl rfl, by simp⟩
    exact ⟨.nil, by simp, by simp, succ_pos _⟩
  rw [hstate]
  refine ⟨state, rfl, hledI, hnum, .next (le_succ _), ?_⟩
  intro old hold
  rw [some.inj hold]

lemma startOperation_spec {operationId newLedgerId : String} (hfresh : operationId ∉ used) (input : OperationInput)
    (hinput : input.vaultId ∈ db.vaults.map VaultRow.vaultId) :
    Draft (operationId :: used) (startOperation db operationId newLedgerId input) ∧
    Evolves used db (startOperation db operationId newLedgerId input) := by
  obtain ⟨vault, hvault, heq⟩ := mem_map.mp hinput
  obtain ⟨state, hgetD, hledI, hnum, hstep, hle⟩ := startState_spec h hvault newLedgerId
  rw [heq] at hgetD hnum hstep hle
  obtain ⟨operation, hid, hrowV, hseq, hdb⟩ : ∃ operation : SyncOperationRow,
      operation.operationId = operationId ∧ operation.vaultId = input.vaultId ∧
      operation.operationSequence = some state.nextSequence ∧
      startOperation db operationId newLedgerId input
        = { setState db input.vaultId { state with nextSequence := state.nextSequence + 1 } with
            syncOperations := db.syncOperations ++ [operation] } := by
    refine ⟨_, ?_, ?_, ?_, by rw [startOperation, hgetD]⟩
    · rfl
    · rfl
    · rfl
  rw [hdb]
  have hnumb : sequenceNumber operation = state.nextSequence := by simp [sequenceNumber, hseq]
  have hknown : Known (setState db input.vaultId
      { state with nextSequence := state.nextSequence + 1 }) := h.known.setState hinput _
  have hhot : ∀ vaultId, (db.syncOperations ++ [operation]).filter (·.vaultId = vaultId)
      = hotRows db vaultId ++ if vaultId = input.vaultId then [operation] else [] := by
    intro vaultId
    rw [filter_append, hotRows]
    by_cases hself : vaultId = input.vaultId
    · simp [hself, hrowV]
    · simp [hrowV, Ne.symm hself, hself]
  refine ⟨⟨⟨h.known.nodup_vaults, ?_, ?_, hknown.states⟩, ?_, ?_, ?_⟩, ⟨?_, ?_, ?_, ?_⟩⟩
  · refine nodup_map_concat h.known.nodup_ids fun ha => ?_
    obtain ⟨row, hrow, hab⟩ := mem_map.mp ha
    exact hfresh (hid ▸ hab ▸ h.rows row hrow)
  · refine forall_mem_concat.mpr ⟨h.known.rows, ?_⟩
    rw [hrowV]
    exact hinput
  · exact fun other hother => mem_cons_of_mem _ (h.vaults other hother)
  · refine forall_mem_concat.mpr ⟨fun row hrow => mem_cons_of_mem _ (h.rows row hrow), ?_⟩
    rw [hid]
    exact mem_cons_self
  · intro other hother
    by_cases hself : other.vaultId = input.vaultId
    · refine .inr ⟨{ state with nextSequence := state.nextSequence + 1 }, ?_, hledI, ?_⟩
      · rw [hself]
        exact stateOf_setState_self _ _ _
      change Numbered ((db.syncOperations ++ [operation]).filter _) _
      rw [hhot, if_pos hself, hself]
      refine ⟨pairwise_append.mpr ⟨hnum.increasing, pairwise_singleton _ _, ?_⟩, ?_, ?_, succ_pos _⟩
      · intro a ha b hb
        rw [mem_singleton.mp hb, hnumb]
        exact hnum.below a ha
      · refine forall_mem_concat.mpr ⟨hnum.positive, ?_⟩
        rw [hnumb]
        exact hnum.next_pos
      · intro row hrow
        rcases mem_append.mp hrow with hrow | hrow
        · exact lt_succ_of_lt (hnum.below row hrow)
        · rw [mem_singleton.mp hrow, hnumb]
          exact lt_succ_self _
    · have hold := h.states other hother
      rw [← stateOf_setState_of_ne db { state with nextSequence := state.nextSequence + 1 } hself] at hold
      change _ ∧ (db.syncOperations ++ [operation]).filter _ = [] ∨ ∃ state, _ ∧ _ ∧
        Numbered ((db.syncOperations ++ [operation]).filter _) _
      rw [hhot, if_neg hself, append_nil]
      exact hold
  · refine forall_mem_concat.mpr ⟨fun row hrow => .inl ⟨row, hrow, .refl row⟩, ?_⟩
    rw [hid, hrowV, hnumb]
    exact .inr ⟨hfresh, hle⟩
  · exact fun row hrow _ => ⟨row, mem_append_left _ hrow, .refl row⟩
  · exact fun vault hvault => .inl ⟨vault, hvault, rfl, id⟩
  · intro vaultId _
    change StateStep _ (stateOf (setState db input.vaultId _) vaultId)
    by_cases hself : vaultId = input.vaultId
    · rw [hself, stateOf_setState_self]
      exact hstep
    · rw [stateOf_setState_of_ne _ _ hself]
      exact .refl _

lemma apply_spec {change : Change} (hfresh : ∀ id ∈ change.ids, id ∉ used)
    (happly : change.apply db = .ok db') : Draft (change.ids ++ used) db' ∧ Evolves used db db' := by
  cases change with
  | createVault vaultId currentMain =>
    cases happly
    exact createVault_spec h (hfresh vaultId mem_cons_self) _ rfl
  | setVault vaultId currentMain blocked =>
    cases happly
    exact updateVault_spec h vaultId (fun _ => rfl) fun vault hdel => if_pos hdel
  | beginDeletion vaultId =>
    cases happly
    exact updateVault_spec h vaultId (fun _ => rfl) fun _ _ => rfl
  | finalizeDb vaultId =>
    obtain ⟨vault, -, happly⟩ := bind_eq_ok.mp happly
    split at happly
    · cases happly
      exact finalizeDb_spec h vaultId
    · simp [throw, throwThe, MonadExceptOf.throw, bind, Except.bind] at happly
  | startOperation unique newLedgerId input =>
    obtain ⟨vault, hvault, happly⟩ := bind_eq_ok.mp happly
    cases happly
    refine startOperation_spec h (hfresh _ mem_cons_self) input ?_
    rw [requireVault] at hvault
    split at hvault
    · rename_i found hfind
      have htest := find?_some hfind
      have hid : found.vaultId = input.vaultId := of_decide_eq_true htest
      exact hid ▸ mem_map_of_mem (mem_of_find?_eq_some hfind)
    · simp at hvault
  | updateOperation operationId update =>
    cases happly
    exact updateOperation_spec h operationId update
  | otherTables tables =>
    cases happly
    exact ⟨{ h with known := { h.known with } }, { Evolves.refl used db with }⟩

/-- The changes of a mutation, one after the other. -/
lemma foldlM_apply_spec {changes : List Change} (hnodup : (changes.flatMap Change.ids).Nodup)
    (hfresh : ∀ id ∈ changes.flatMap Change.ids, id ∉ used) (happly : changes.foldlM Change.apply db = .ok db') :
    Draft (changes.flatMap Change.ids ++ used) db' ∧ Evolves used db db' := by
  induction changes generalizing db used with
  | nil =>
    obtain rfl := Except.ok.inj happly
    exact ⟨h, .refl used db⟩
  | cons change changes ih =>
    obtain ⟨db₁, hfirst, hrest⟩ := bind_eq_ok.mp happly
    rw [flatMap_cons] at hnodup hfresh ⊢
    obtain ⟨-, hnodR, hdisj⟩ := nodup_append.mp hnodup
    obtain ⟨hdraft, hev⟩ := apply_spec h (fun id hid => hfresh id (mem_append_left _ hid)) hfirst
    obtain ⟨hdraft', hev'⟩ := ih hdraft hnodR (fun id hid hin =>
      (mem_append.mp hin).elim (fun hmem => hdisj id hmem id hid rfl) (hfresh id (mem_append_right _ hid))) hrest
    refine ⟨hdraft'.mono ?_, hev.trans (hev'.anti (subset_append_right _ _)) h.known
      hdraft.known hdraft'.known h.vaults⟩
    intro id hid
    simp only [mem_append] at hid ⊢
    tauto

end

/-- The loop that gives new vaults their states, with the vaults that it has not reached. -/
lemma foldl_prepare_spec (newLedgerId : String → String)
    (hdraft : Draft used' db) (hev : Evolves used start db) (hstart : Known start)
    (hused : ∀ vault ∈ start.vaults, vault.vaultId ∈ used) (hrest : rest ⊆ db.vaults)
    (hdone : ∀ vault ∈ db.vaults, vault ∉ rest → stateOf db vault.vaultId ≠ none) :
    ∃ db', rest.foldl (prepareVault newLedgerId) db = db' ∧ Draft used' db' ∧ Evolves used start db' ∧
      ∀ vault ∈ db'.vaults, stateOf db' vault.vaultId ≠ none := by
  induction rest generalizing db with
  | nil => exact ⟨db, rfl, hdraft, hev, fun vault hvault => hdone vault hvault (by simp)⟩
  | cons vault rest ih =>
    obtain ⟨hvault, hrest⟩ := cons_subset.mp hrest
    rw [foldl_cons, prepareVault]
    rcases hdraft.states vault hvault with ⟨hnone, hempty⟩ | ⟨state, hstate, -⟩
    · rw [hnone]
      set state := newState (newId "hist" (newLedgerId vault.vaultId)) (hotRows db vault.vaultId).length with hstate
      have hknown := hdraft.known.setState (mem_map_of_mem hvault) state
      have hstep : Evolves used db (setState db vault.vaultId state) := by
        refine ⟨fun row hrow => .inl ⟨row, hrow, .refl row⟩, fun row hrow _ => ⟨row, hrow, .refl row⟩,
          fun other hother => .inl ⟨other, hother, rfl, id⟩, fun other _ => ?_⟩
        by_cases heq : other = vault.vaultId
        · rw [heq, hnone, stateOf_setState_self]
          exact .new rfl rfl rfl
        · rw [stateOf_setState_of_ne _ _ heq]
          exact .refl _
      have hdraft' : Draft used' (setState db vault.vaultId state) := by
        refine ⟨hknown, hdraft.vaults, hdraft.rows, fun other hother => ?_⟩
        by_cases heq : other.vaultId = vault.vaultId
        · rw [heq, stateOf_setState_self, hotRows_setState, hempty]
          exact .inr ⟨state, rfl, newId_ne_empty _ _, ⟨.nil, by simp, by simp, succ_pos _⟩⟩
        · rw [stateOf_setState_of_ne _ _ heq]
          exact hdraft.states other hother
      refine ih hdraft' (hev.trans hstep hstart hdraft.known hknown hused) hrest ?_
      intro other hother hnotin
      by_cases heq : other.vaultId = vault.vaultId
      · rw [heq, stateOf_setState_self]
        simp
      rw [stateOf_setState_of_ne _ _ heq]
      refine hdone other hother ?_
      rw [mem_cons]
      exact not_or.mpr ⟨fun hsame => heq (congrArg _ hsame), hnotin⟩
    · rw [hstate]
      refine ih hdraft hev hrest ?_
      intro other hother hnotin
      by_cases heq : other = vault
      · rw [heq, hstate]
        simp
      refine hdone other hother ?_
      rw [mem_cons]
      exact not_or.mpr ⟨heq, hnotin⟩

lemma prepareOperationHistoryMetadata_spec (newLedgerId : String → String)
    (hdraft : Draft used' db) (hev : Evolves used start db) (hstart : Known start)
    (hused : ∀ vault ∈ start.vaults, vault.vaultId ∈ used) :
    Complete used' (prepareOperationHistoryMetadata newLedgerId db) ∧
    Evolves used start (prepareOperationHistoryMetadata newLedgerId db) := by
  obtain ⟨db', hfold, hdraft', hev', hsts⟩ := foldl_prepare_spec newLedgerId hdraft hev hstart hused
    (List.Subset.refl _) fun _ hvault hnot => absurd hvault hnot
  rw [prepareOperationHistoryMetadata, hfold]
  refine ⟨{ hdraft' with states := fun vault hvault => ?_ }, hev'⟩
  exact (hdraft'.states vault hvault).resolve_left fun hnone => hsts vault hvault hnone.1

lemma Operational.draft {codec : Codec} (h : Operational codec used disk) : Draft used disk.metadata := by
  refine ⟨h.history.known, h.history.used_vaults, fun row hrow =>
    (h.history.used_rows _ _ (h.history.hot row hrow)).1, fun vault hvault => ?_⟩
  obtain ⟨state, hok⟩ := h.initialized.vaults vault hvault
  exact .inr ⟨state, hok.stated, hok.ledgerId, hok.numbered⟩

end Changes

section Runs

variable {codec : Codec} {used' used : List String} {world : World} {α : Type}

/-- What holds between the tasks of a run. -/
structure World.Ok (codec : Codec) (world : World) : Prop where
  inv : Inv codec world.used world.disk
  operational : world.running = true → Operational codec world.used world.disk

lemma Inv.mono (h : Inv codec used disk) (hsub : used ⊆ used') : Inv codec used' disk :=
  ⟨h.history.mono hsub, h.phases⟩

lemma World.Ok.mono (h : world.Ok codec) (hsub : world.used ⊆ used') :
    World.Ok codec { world with used := used' } :=
  ⟨h.inv.mono hsub, fun hrun => (h.operational hrun).mono hsub⟩

/-- A task that runs well may be cut off anywhere. -/
lemma World.ok_perform {task : StoreTask α} {Q : α → Disk → Prop} (hruns : task.Runs world.disk (Inv codec used') Q)
    (hQ : ∀ a disk, Q a disk → Operational codec used' disk) (hinv : Inv codec used' world.disk)
    (crash : Option Nat) : World.Ok codec { world.perform task crash with used := used' } := by
  cases crash with
  | some writes => exact ⟨hruns.cutOff hinv writes, fun hrun => by simp [perform] at hrun⟩
  | none =>
    obtain ⟨-, a, disk', -, hfinal, ha⟩ := hruns
    have hop : Operational codec used' (task.final world.disk) := hfinal ▸ hQ a disk' ha
    exact ⟨hop.inv, fun _ => hop⟩

/-- The ledger of a vault under deletion may go at any time. -/
lemma Started.eraseLedger (h : HistoryOk used disk) (hini : Initialized codec disk)
    (hvault : vault ∈ disk.metadata.vaults) (hdel : vault.status = .deleting) :
    Started codec used { disk with ledgers := Function.update disk.ledgers vault.vaultId none } := by
  have hstep : OnlyVault vault.vaultId disk
      { disk with ledgers := update disk.ledgers vault.vaultId none } :=
    { vaults := rfl
      record := rfl
      original := rfl
      rows := fun _ _ => rfl
      states := fun _ _ => rfl
      ledgers := fun _ hne => update_of_ne hne _ _
      known := h.known
      hot := fun _ hrow => hrow }
  obtain ⟨state, hok⟩ := hini.vaults vault hvault
  have hok' : VaultOk codec
      { disk with ledgers := update disk.ledgers vault.vaultId none } vault state :=
    { hok with phase := fun hlive => absurd hdel hlive }
  refine ⟨h.onlyVault hstep (h.used_vaults vault hvault) ?_ (h.used_pending vault.vaultId),
    hini.onlyVault hstep hvault hok' fun hhas => absurd hdel hhas.1⟩
  intro ledger hledg
  simp at hledg

lemma HistoryOk.eraseLedger (h : HistoryOk used disk) (vaultId : String) :
    HistoryOk used { disk with ledgers := Function.update disk.ledgers vaultId none } := { h with
  used_ledgers := by
    intro other hother
    by_cases heq : other = vaultId
    · simp [heq]
    · simpa [update_of_ne heq] using h.used_ledgers other hother
  used_batches := by
    intro other ledger hledg
    by_cases heq : other = vaultId
    · simp [heq] at hledg
    · exact h.used_batches other ledger (by simpa [update_of_ne heq] using hledg) }

lemma World.ok_act (h : world.Ok codec) {label : Label} (hnodup : label.ids.Nodup)
    (hfresh : ∀ id ∈ label.ids, id ∉ world.used) :
    World.Ok codec { world.act codec label with used := label.ids ++ world.used } := by
  have hsub : world.used ⊆ label.ids ++ world.used := subset_append_right _ _
  have hidle := h.mono hsub
  cases label with
  | mutate changes newLedgerId crash =>
    rw [act]
    split
    · rename_i hrun
      have hop := h.operational hrun
      cases happly : changes.foldlM Change.apply world.disk.metadata with
      | error failure => exact hidle
      | ok candidate =>
        obtain ⟨hdraft, hev⟩ := foldlM_apply_spec hop.draft hnodup hfresh happly
        obtain ⟨hcpl, hev'⟩ := prepareOperationHistoryMetadata_spec newLedgerId hdraft hev
          hop.history.known hop.history.used_vaults
        exact ok_perform (mutate_runs hop hev' hcpl hsub) (fun _ _ hQ => hQ)
          hidle.inv crash
    · exact hidle
  | archive vaultId unique isPendingMerge crash =>
    rw [act]
    split
    · rename_i hrun
      exact ok_perform (archiveCompletedHistory_runs (h.operational hrun) vaultId
        isPendingMerge hsub (hfresh _ mem_cons_self) (mem_append_left _ mem_cons_self))
        (fun _ _ hQ => hQ) hidle.inv crash
    · exact hidle
  | eraseOperationHistory vaultId =>
    rw [act]
    split
    · rename_i hany
      obtain ⟨vault, hvault, htest⟩ := any_eq_true.mp hany
      obtain ⟨rfl, hdel⟩ : vault.vaultId = vaultId ∧ vault.status = .deleting := by
        simpa using htest
      refine ⟨⟨hidle.inv.history.eraseLedger _, ?_⟩, fun hrun => ?_⟩
      · rcases hidle.inv.phases with hini | huns
        · exact .inl (Started.eraseLedger hidle.inv.history hini hvault hdel).initialized
        refine .inr { huns with ledgers := fun other => ?_ }
        change update world.disk.ledgers vault.vaultId none other = none
        by_cases heq : other = vault.vaultId
        · rw [heq, update_self]
        · rw [update_of_ne heq]
          exact huns.ledgers other
      · have hop := hidle.operational hrun
        exact ⟨Started.eraseLedger hop.history hop.initialized hvault hdel, hop.settled⟩
    · exact hidle
  | restart newLedgerId crash =>
    exact ok_perform (initializeOperationHistory_runs hidle.inv newLedgerId)
      (fun _ _ hQ => hQ) hidle.inv crash

lemma World.ok_step (h : world.Ok codec) (label : Label) : (world.step codec label).Ok codec := by
  rw [step]
  split
  · rename_i hids
    exact ok_act h hids.1 hids.2
  · exact h

lemma World.ok_initial (legacy : LegacyDb) : (World.initial legacy).Ok codec := by
  have hknown : Known legacy.db :=
    { legacy with rows := legacy.known, states := by simp [legacy.noHistory] }
  have hvs : ∀ id ∈ legacy.db.vaults.map vaultId, id ∈ (initial legacy).used :=
    fun _ hid => mem_append_left _ hid
  have hhist : HistoryOk (initial legacy).used (initial legacy).disk :=
    { known := hknown
      hot := fun _ hrow => findRow_eq_some hknown hrow
      ids := fun _ _ hrow => (of_findRow hrow).2
      original := fun _ row hrow => (legacy.unnumbered row (of_findRow hrow).1).symm
      original_none := fun _ _ => rfl
      used_vaults := fun _ hvault => hvs _ (mem_map_of_mem hvault)
      used_rows := fun _ row hrow => by
        obtain ⟨hmem, rfl⟩ := of_findRow hrow
        exact ⟨mem_append_right _ (mem_map_of_mem hmem), hvs _ (legacy.known row hmem)⟩
      used_ledgers := fun _ _ => rfl
      used_batches := fun _ _ hledg => by simp [initial] at hledg
      used_pending := fun vaultId state hstate => by
        simp [initial, stateOf, legacy.noHistory, valueAt] at hstate }
  refine ⟨⟨hhist, .inr ⟨legacy.noHistory, legacy.unnumbered, fun _ => rfl, ?_⟩⟩, ?_⟩
  · exact fun _ _ hrow => (of_findRow hrow).1
  · intro hrun
    simp [initial] at hrun

lemma World.ok_run (h : world.Ok codec) (labels : List Label) : (world.run codec labels).Ok codec := by
  induction labels generalizing world with
  | nil => exact h
  | cons label labels ih => exact ih (world.ok_step h label)

/-- The operations of a vault are each in one of the two stores. `record` and `original` hold the
last durable content of every operation that was ever in the metadata file, and its first number. -/
structure HandedOver (codec : Codec) (disk : Disk) (vaultId : String)
    (state : OperationHistoryState) (ledger : Ledger) : Prop where
  stated : stateOf disk.metadata vaultId = some state
  present : disk.ledgers vaultId = some ledger
  generation : ledger.generation = state.generation
  once : ∀ id row, disk.record id = some row → row.vaultId = vaultId →
    disk.metadata.syncOperations.filter (·.operationId = id) = [row] ∧
      ledger.operations.filter (·.operationId = id) = [] ∨
    disk.metadata.syncOperations.filter (·.operationId = id) = [] ∧
      ledger.operations.filter (·.operationId = id) = [archivedRecord codec row] ∧
      decodeRow codec vaultId (archivedRecord codec row) = .ok row
  original : ∀ id row, disk.record id = some row → row.vaultId = vaultId →
    ∃ n, disk.original id = some n ∧ row.operationSequence = some n
  distinct : ((hotRows disk.metadata vaultId).map sequenceNumber ++
    ledger.operations.map HistoryRecord.sequence).Nodup
  below : ∀ n ∈ (hotRows disk.metadata vaultId).map sequenceNumber ++
    ledger.operations.map HistoryRecord.sequence, n < state.nextSequence

lemma filter_of_nodup {α κ : Type*} [DecidableEq κ] {key : α → κ} {l : List α}
    (h : (l.map key).Nodup) {a : α} (ha : a ∈ l) : l.filter (fun b => key b = key a) = [a] := by
  have hmem : ∀ b ∈ l, key b = key a ↔ b = a := fun b hb =>
    ⟨fun heq => inj_on_of_nodup_map h hb ha heq, fun heq => heq ▸ rfl⟩
  obtain ⟨before, after, rfl⟩ := append_of_mem ha
  have hnodup := h.of_map
  obtain ⟨-, hafter, hbef⟩ := nodup_append.mp hnodup
  have hb : before.filter (fun b => key b = key a) = [] := by
    refine filter_eq_nil_iff.mpr fun b hb => ?_
    rw [decide_eq_true_eq, hmem b (mem_append_left _ hb)]
    exact fun heq => hbef b hb a mem_cons_self heq
  have ha' : after.filter (fun b => key b = key a) = [] := by
    refine filter_eq_nil_iff.mpr fun b hb => ?_
    rw [decide_eq_true_eq, hmem b (mem_append_right _ (mem_cons_of_mem _ hb))]
    exact fun heq => (nodup_cons.mp hafter).1 (heq ▸ hb)
  rw [filter_append, filter_cons_of_pos (by simp), hb, ha', nil_append]

lemma Operational.handedOver (h : Operational codec used disk) (hvault : vault ∈ disk.metadata.vaults)
    (hlive : vault.status ≠ .deleting) : ∃ state ledger, HandedOver codec disk vault.vaultId state ledger := by
  obtain ⟨state, hopen, -, hpend⟩ := h.ledgerOpen hvault hlive
  obtain ⟨ledger, archived, hledg, opened, hgen, -, hdist, hrec⟩ :=
    hopen.settled hlive hpend
  have harc : ∀ row ∈ archived, Archivable vault.vaultId row := fun row hrow =>
    opened.vault ▸ opened.held.archivable row hrow
  have hseq : ledger.operations.map HistoryRecord.sequence = archived.map sequenceNumber := by
    rw [opened.held.operations, List.map_map]
    rfl
  have hledI : (ledger.operations.map HistoryRecord.operationId)
      = archived.map SyncOperationRow.operationId := by
    rw [opened.held.operations, List.map_map]
    rfl
  have hnums : ∀ row, row ∈ hotRows disk.metadata vault.vaultId ∨ row ∈ archived →
      0 < sequenceNumber row ∧ sequenceNumber row < state.nextSequence := by
    rintro row (hrow | hrow)
    · exact ⟨hopen.ok.numbered.positive row hrow, hopen.ok.numbered.below row hrow⟩
    · exact ⟨(harc row hrow).numbered, opened.below row hrow⟩
  refine ⟨state, ledger, hopen.ok.stated, hledg, hgen, ?_, ?_, ?_, ?_⟩
  · intro id row hrow hrowV
    obtain rfl := h.history.ids id row hrow
    rcases hrec.present _ row hrow hrowV with hhot | harch
    · refine .inl ⟨filter_of_nodup h.history.known.nodup_ids (mem_hotRows.mp hhot).1, ?_⟩
      refine filter_eq_nil_iff.mpr fun record hrecord => ?_
      rw [opened.held.operations] at hrecord
      obtain ⟨other, hother, rfl⟩ := mem_map.mp hrecord
      rw [decide_eq_true_eq]
      exact fun heq => hdist.id_ne hhot hother heq.symm
    · refine .inr ⟨?_, ?_, decodeRow_archivedRecord (harc row harch)⟩
      · refine filter_eq_nil_iff.mpr fun other hother => ?_
        rw [decide_eq_true_eq]
        intro heq
        have hsame := h.history.hot other hother
        rw [heq, hrow] at hsame
        cases hsame
        exact hdist.id_ne (mem_hotRows.mpr ⟨hother, hrowV⟩) harch rfl
      · have hmem : archivedRecord codec row ∈ ledger.operations := by
          rw [opened.held.operations]
          exact mem_map_of_mem harch
        exact filter_of_nodup (hledI ▸ opened.held.distinct.ids) hmem
  · intro id row hrow hrowV
    obtain ⟨hpos, -⟩ := hnums row (hrec.present id row hrow hrowV)
    have hsequence := operationSequence_of_numbered hpos
    exact ⟨sequenceNumber row, (h.history.original id row hrow).trans hsequence, hsequence⟩
  · rw [hseq, ← map_append]
    exact hdist.numbers
  · intro n hn
    rw [hseq, ← map_append] at hn
    obtain ⟨row, hrow, rfl⟩ := mem_map.mp hn
    exact (hnums row (mem_append.mp hrow)).2

/-- A task that runs well and is not cut off leaves a served store. -/
lemma World.running_perform {task : StoreTask α} {Q : α → Disk → Prop} (hruns : task.Runs world.disk C Q) :
    (world.perform task none).running := by
  obtain ⟨-, a, disk', hres, -⟩ := hruns
  change (task world.disk).2.toBool = true
  rw [hres]
  rfl

/-- Whatever mutations, archive calls, crashes and restarts a store has seen, the next start
recovers it. While a store is served, each operation that was ever durable is in one of the two
stores, once, with its last content and its first number. -/
theorem handoff_loses_and_duplicates_nothing (codec : Codec) (legacy : LegacyDb)
    (labels : List Label) (newLedgerId : String → String) :
    ((World.initial legacy).run codec (labels ++ [.restart newLedgerId none])).running = true ∧
    (((World.initial legacy).run codec labels).running = true →
      ∀ vault ∈ ((World.initial legacy).run codec labels).disk.metadata.vaults,
        vault.status ≠ .deleting → ∃ state ledger,
          HandedOver codec ((World.initial legacy).run codec labels).disk vault.vaultId state ledger) := by
  have hok : World.Ok codec ((initial legacy).run codec labels) :=
    ok_run (ok_initial legacy) labels
  constructor
  · rw [run, foldl_append, foldl_cons, foldl_nil, ← run, step,
      if_pos ⟨nodup_nil, by simp [Label.ids]⟩]
    exact running_perform (initializeOperationHistory_runs hok.inv newLedgerId)
  · intro hrun vault hvault hlive
    exact (hok.operational hrun).handedOver hvault hlive

end Runs

end OperationHistory
