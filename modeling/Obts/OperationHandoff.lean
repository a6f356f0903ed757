import Obts.OperationHistory

/-!
# Nothing is lost or doubled on the way to the ledger

The invariant of the two stores. A vault that is not being deleted is in one of four phases: its
ledger is not created yet, nothing is pending, a batch is recorded in the metadata only, or the
ledger holds the batch and the metadata still has its rows. Each durable step leads from one
phase to the next, and each phase passes every check that recovery makes.
-/
namespace OperationHistory

open Metadata InsertionOrder OperationLedger DurableTasks List Task SyncOperationRow

/-- The rows' numbers increase and lie below the next one. -/
structure Numbered (rows : List SyncOperationRow) (next : Nat) : Prop where
  increasing : rows.Pairwise fun a b => sequenceNumber a < sequenceNumber b
  positive : ∀ row ∈ rows, 0 < sequenceNumber row
  below : ∀ row ∈ rows, sequenceNumber row < next
  next_pos : 0 < next

/-- The vault's ledger holds the archived rows. -/
structure Opened (codec : Codec) (vaultId : String) (state : OperationHistoryState) (ledger : Ledger)
    (archived : List SyncOperationRow) : Prop where
  vault : ledger.vaultId = vaultId
  ledgerId : ledger.ledgerId = state.ledgerId
  held : Holds codec ledger archived
  below : ∀ row ∈ archived, sequenceNumber row < state.nextSequence

/-- The rows of the metadata that are not in the batch. -/
def remaining (batch : HistoryBatch) (hot : List SyncOperationRow) : List SyncOperationRow :=
  hot.filter fun row => !batch.rows.any (·.operationId = row.operationId)

/-- The phases of a vault with these rows in the metadata, by its ledger and the rows in that. -/
inductive Phase (codec : Codec) (vaultId : String) (hot : List SyncOperationRow)
    (state : OperationHistoryState) : Option Ledger → List SyncOperationRow → Prop
  | uncreated (init : state.initPending = true) (generation : state.generation = 0)
      (pending : state.pendingBatch = none) : Phase codec vaultId hot state none []
  | settled {ledger : Ledger} {archived : List SyncOperationRow}
      (opened : Opened codec vaultId state ledger archived)
      (generation : ledger.generation = state.generation)
      (init : state.initPending = true → state.generation = 0)
      (pending : state.pendingBatch = none) (distinct : Distinct (hot ++ archived)) :
      Phase codec vaultId hot state (some ledger) archived
  | prepared {ledger : Ledger} {archived moved : List SyncOperationRow} {batch : HistoryBatch}
      (opened : Opened codec vaultId state ledger archived)
      (generation : ledger.generation = state.generation) (init : state.initPending = false)
      (pending : state.pendingBatch = some batch)
      (batched : Descriptor codec vaultId state.ledgerId state.generation moved batch)
      (moved_hot : moved ⊆ hot) (distinct : Distinct (hot ++ archived))
      (fresh : ∀ proof ∈ ledger.batches, proof.batchId ≠ batch.batchId) :
      Phase codec vaultId hot state (some ledger) archived
  | published {ledger : Ledger} {archived moved : List SyncOperationRow} {batch : HistoryBatch}
      (opened : Opened codec vaultId state ledger archived)
      (generation : ledger.generation = state.generation + 1) (init : state.initPending = false)
      (pending : state.pendingBatch = some batch)
      (batched : Descriptor codec vaultId state.ledgerId state.generation moved batch)
      (moved_hot : moved ⊆ hot) (moved_archived : moved ⊆ archived)
      (distinct : Distinct (remaining batch hot ++ archived))
      (proved : ledger.batches.find? (·.batchId = batch.batchId) = some (proofOf batch)) :
      Phase codec vaultId hot state (some ledger) archived

/-- Every recorded operation of the vault is in the metadata or in the ledger, as recorded. -/
structure Recorded (disk : Disk) (vaultId : String) (archived : List SyncOperationRow) : Prop where
  ledger : ∀ row ∈ archived, disk.record row.operationId = some row
  present : ∀ id row, disk.record id = some row → row.vaultId = vaultId →
    row ∈ hotRows disk.metadata vaultId ∨ row ∈ archived

structure VaultOk (codec : Codec) (disk : Disk) (vault : VaultRow) (state : OperationHistoryState) : Prop where
  stated : stateOf disk.metadata vault.vaultId = some state
  ledgerId : state.ledgerId ≠ ""
  numbered : Numbered (hotRows disk.metadata vault.vaultId) state.nextSequence
  phase : vault.status ≠ .deleting → ∃ archived,
    Phase codec vault.vaultId (hotRows disk.metadata vault.vaultId) state
      (disk.ledgers vault.vaultId) archived ∧ Recorded disk vault.vaultId archived

/-- No reference of the metadata dangles. -/
structure Known (db : MetadataDb) : Prop where
  nodup_vaults : (db.vaults.map VaultRow.vaultId).Nodup
  nodup_ids : (db.syncOperations.map SyncOperationRow.operationId).Nodup
  rows : ∀ row ∈ db.syncOperations, row.vaultId ∈ db.vaults.map VaultRow.vaultId
  states : ∀ entry ∈ db.operationHistoryByVault, entry.1 ∈ db.vaults.map VaultRow.vaultId

/-- The history of the operations agrees with the metadata and names used identifiers only. -/
structure HistoryOk (used : List String) (disk : Disk) : Prop where
  known : Known disk.metadata
  hot : ∀ row ∈ disk.metadata.syncOperations, disk.record row.operationId = some row
  ids : ∀ id row, disk.record id = some row → row.operationId = id
  original : ∀ id row, disk.record id = some row → disk.original id = row.operationSequence
  original_none : ∀ id, disk.record id = none → disk.original id = none
  used_vaults : ∀ vault ∈ disk.metadata.vaults, vault.vaultId ∈ used
  used_rows : ∀ id row, disk.record id = some row → id ∈ used ∧ row.vaultId ∈ used
  used_ledgers : ∀ vaultId, vaultId ∉ used → disk.ledgers vaultId = none
  used_batches : ∀ vaultId ledger, disk.ledgers vaultId = some ledger →
    ∀ proof ∈ ledger.batches, proof.batchId ∈ used
  used_pending : ∀ vaultId state, stateOf disk.metadata vaultId = some state →
    ∀ batch ∈ state.pendingBatch, batch.batchId ∈ used

/-- The vault has a batch to recover. -/
def HasPending (db : MetadataDb) (vault : VaultRow) : Prop :=
  vault.status ≠ .deleting ∧ ∃ state batch, stateOf db vault.vaultId = some state ∧ state.pendingBatch = some batch

/-- Every vault has a history state in order, and at most one has a batch to recover. -/
structure Initialized (codec : Codec) (disk : Disk) : Prop where
  vaults : ∀ vault ∈ disk.metadata.vaults, ∃ state, VaultOk codec disk vault state
  pending : ∀ vault ∈ disk.metadata.vaults, ∀ other ∈ disk.metadata.vaults,
    HasPending disk.metadata vault → HasPending disk.metadata other →
    vault.vaultId = other.vaultId

/-- A store that was never started. -/
structure Unstarted (disk : Disk) : Prop where
  states : disk.metadata.operationHistoryByVault = []
  unnumbered : ∀ row ∈ disk.metadata.syncOperations, row.operationSequence = none
  ledgers : ∀ vaultId, disk.ledgers vaultId = none
  present : ∀ id row, disk.record id = some row → row ∈ disk.metadata.syncOperations

structure Inv (codec : Codec) (used : List String) (disk : Disk) : Prop where
  history : HistoryOk used disk
  phases : Initialized codec disk ∨ Unstarted disk

/-- Nothing is pending in the vault. -/
def Settled (db : MetadataDb) (vault : VaultRow) : Prop :=
  vault.status ≠ .deleting → ∃ state, stateOf db vault.vaultId = some state ∧
    state.initPending = false ∧ state.pendingBatch = none

/-- What holds once the vaults have their states. -/
structure Started (codec : Codec) (used : List String) (disk : Disk) : Prop where
  history : HistoryOk used disk
  initialized : Initialized codec disk

/-- What holds while a process serves the store. -/
structure Operational (codec : Codec) (used : List String) (disk : Disk) : Prop
    extends Started codec used disk where
  settled : ∀ vault ∈ disk.metadata.vaults, Settled disk.metadata vault

variable {codec : Codec} {used : List String} {disk : Disk} {vaultId other : String}
  {db db' : MetadataDb} {row : SyncOperationRow}

lemma Started.inv (h : Started codec used disk) : Inv codec used disk :=
  ⟨h.history, Or.inl h.initialized⟩

@[simp] lemma stateOf_setState_self (db : MetadataDb) (vaultId : String)
    (state : OperationHistoryState) : stateOf (setState db vaultId state) vaultId = some state :=
  valueAt_set_self _ _ _

lemma stateOf_setState_of_ne (db : MetadataDb) (state : OperationHistoryState) (h : other ≠ vaultId) :
    stateOf (setState db vaultId state) other = stateOf db other :=
  valueAt_set_of_ne _ _ h

@[simp] lemma hotRows_setState (db : MetadataDb) (vaultId other : String)
    (state : OperationHistoryState) : hotRows (setState db vaultId state) other = hotRows db other :=
  rfl

lemma mem_hotRows : row ∈ hotRows db vaultId ↔ row ∈ db.syncOperations ∧ row.vaultId = vaultId := by
  simp [hotRows]

lemma Known.setState (h : Known db)
    (hvault : vaultId ∈ db.vaults.map VaultRow.vaultId) (state : OperationHistoryState) :
    Known (setState db vaultId state) := { h with
  states := by
    intro entry hentry
    rcases mem_set.mp hentry with rfl | ⟨-, hentry⟩
    · exact hvault
    · exact h.states entry hentry }

lemma Known.filterRows (h : Known db) (keep : SyncOperationRow → Bool) :
    Known { db with syncOperations := db.syncOperations.filter keep } := { h with
  nodup_ids := h.nodup_ids.sublist (filter_sublist.map _)
  rows := fun row hrow => h.rows row (mem_of_mem_filter hrow) }

/-- Rewriting the metadata with rows that are recorded as they are changes no history. -/
lemma HistoryOk.persist_eq (h : HistoryOk used disk)
    (hrows : ∀ row ∈ db.syncOperations, disk.record row.operationId = some row) :
    disk.persist db = { disk with metadata := db } := by
  have hfind : ∀ id row, findRow db id = some row → disk.record id = some row := by
    intro id row hrow
    have htest := List.find?_some hrow
    have hid : row.operationId = id := of_decide_eq_true htest
    exact hid ▸ hrows row (mem_of_find?_eq_some hrow)
  have hrec : (fun id => (findRow db id).or (disk.record id)) = disk.record := by
    funext id
    cases hrow : findRow db id with
    | none => rfl
    | some row => exact (hfind id row hrow).symm
  have horig : (fun id => (disk.original id).or ((findRow db id).bind (·.operationSequence)))
      = disk.original := by
    funext id
    cases hrow : findRow db id with
    | none => simp
    | some row =>
      rw [h.original id row (hfind id row hrow)]
      cases hseq : row.operationSequence with
      | none => simp [hseq]
      | some n => simp
  rw [Disk.persist, hrec, horig]

lemma HistoryOk.persist_setState (h : HistoryOk used disk) (vaultId : String)
    (state : OperationHistoryState) : disk.persist (setState disk.metadata vaultId state)
      = { disk with metadata := setState disk.metadata vaultId state } :=
  h.persist_eq h.hot

/-- The vault with an identifier is unique. -/
lemma Known.eq_of_vaultId (h : Known db) {vault other : VaultRow}
    (hvault : vault ∈ db.vaults) (hother : other ∈ db.vaults) (heq : vault.vaultId = other.vaultId) :
    vault = other :=
  inj_on_of_nodup_map h.nodup_vaults hvault hother heq

section Checks

variable {vaultId : String} {hot archived moved : List SyncOperationRow}
  {state : OperationHistoryState} {ledger : Ledger} {batch : HistoryBatch}

lemma foldl_max_lt {l : List Nat} {n : Nat} (hn : 0 < n) (h : ∀ a ∈ l, a < n) : l.foldl max 0 < n := by
  have hfold : ∀ (l : List Nat) (a : Nat), a < n → (∀ b ∈ l, b < n) → l.foldl max a < n := by
    intro l
    induction l with
    | nil => intro a ha _; exact ha
    | cons b l ih =>
      intro a ha hl
      obtain ⟨hb, hl⟩ := forall_mem_cons.mp hl
      exact ih (max a b) (by omega) hl
  exact hfold l 0 hn h

lemma Opened.maxSequence_lt (h : Opened codec vaultId state ledger archived)
    (hnext : 0 < state.nextSequence) : ledger.maxSequence < state.nextSequence := by
  rw [h.held.maxSequence]
  refine foldl_max_lt hnext ?_
  intro n hn
  obtain ⟨row, hrow, rfl⟩ := mem_map.mp hn
  exact h.below row hrow

lemma Opened.verifyIdentity (h : Opened codec vaultId state ledger archived)
    {generation nextSequence : Option Nat} (hgen : ∀ g ∈ generation, ledger.generation = g)
    (hnext : ∀ n ∈ nextSequence, ledger.maxSequence < n) :
    ledger.verifyIdentity vaultId state.ledgerId generation nextSequence = .ok () := by
  have hver := h.held.verifyIdentity hgen hnext
  rwa [h.vault, h.ledgerId] at hver

/-- A pending batch collides with nothing in a ledger that does not hold it yet. -/
lemma no_collision (opened : Opened codec vaultId state ledger archived)
    (batched : Descriptor codec vaultId state.ledgerId state.generation moved batch)
    (moved_hot : moved ⊆ hot) (distinct : Distinct (hot ++ archived))
    (fresh : ∀ proof ∈ ledger.batches, proof.batchId ≠ batch.batchId) :
    ¬ (ledger.batches.any (·.batchId = batch.batchId) ∨
      (batch.rows.any fun row => ledger.operations.any fun record =>
        record.operationId = row.operationId || record.sequence = row.sequence)) := by
  rw [any_eq_true, any_eq_true]
  rintro (⟨proof, hproof, heq⟩ | ⟨entry, hentry, hany⟩)
  · exact fresh proof hproof (of_decide_eq_true heq)
  obtain ⟨record, hrec, heq⟩ := any_eq_true.mp hany
  rw [batched.rows] at hentry
  rw [opened.held.operations] at hrec
  obtain ⟨row, hrow, rfl⟩ := mem_map.mp hentry
  obtain ⟨other, hother, rfl⟩ := mem_map.mp hrec
  rcases Bool.or_eq_true_iff.mp heq with heq | heq
  · exact distinct.id_ne (moved_hot hrow) hother (of_decide_eq_true heq).symm
  · exact distinct.number_ne (moved_hot hrow) hother (of_decide_eq_true heq).symm

section
variable (h : Phase codec vaultId hot state (some ledger) archived)
include h

lemma Phase.verifyOpenState (hnext : 0 < state.nextSequence) :
    ledger.verifyOpenState vaultId state.ledgerId (openStateOf state) = .ok () := by
  rw [Ledger.verifyOpenState, openStateOf]
  cases h with
  | settled opened generation init pending distinct =>
    rw [if_pos (opened.maxSequence_lt hnext), pending]
    exact if_pos generation
  | prepared opened generation init pending batched moved_hot distinct fresh =>
    rw [if_pos (opened.maxSequence_lt hnext), pending]
    have hpar := generation.trans batched.parent.symm
    simp only []
    rw [if_pos ⟨batched.vault, batched.ledger, batched.parent, batched.target, Or.inl hpar⟩, if_pos hpar]
    exact if_neg (no_collision opened batched moved_hot distinct fresh)
  | published opened generation init pending batched moved_hot moved_archived distinct proved =>
    rw [if_pos (opened.maxSequence_lt hnext), pending]
    have hbatch := hasBatch_of_proof opened.held batched moved_archived proved
    have htgt := generation.trans batched.target.symm
    have hpar : ledger.generation ≠ state.generation := by omega
    simp only []
    rw [if_pos ⟨batched.vault, batched.ledger, batched.parent, batched.target,
      Or.inr ⟨htgt, hbatch⟩⟩, if_neg (batched.parent ▸ hpar)]
    rfl

lemma Phase.opened : Opened codec vaultId state ledger archived := by
  cases h with
  | settled opened | prepared opened | published opened => exact opened

lemma Phase.verifyOpened (hnext : 0 < state.nextSequence) (validateContents : Bool) :
    verifyOpened codec ledger vaultId state.ledgerId validateContents (openStateOf state) = .ok () := by
  have hcont := h.opened.held.verifyContents
  rw [h.opened.vault] at hcont
  rw [OperationHistory.verifyOpened, h.opened.verifyIdentity (by simp) (by simp), hcont,
    h.verifyOpenState hnext]
  cases validateContents <;> rfl

lemma Phase.init : state.initPending → state.generation = 0 ∧ state.pendingBatch = none := by
  intro hinit
  cases h with
  | settled opened generation init pending => exact ⟨init hinit, pending⟩
  | prepared _ _ init | published _ _ init => exact absurd hinit (by simp [init])

end

end Checks

/-- A step that touches the rows, the state and the ledger of one vault only. -/
structure OnlyVault (vaultId : String) (disk disk' : Disk) : Prop where
  vaults : disk'.metadata.vaults = disk.metadata.vaults
  record : disk'.record = disk.record
  original : disk'.original = disk.original
  rows : ∀ other, other ≠ vaultId → hotRows disk'.metadata other = hotRows disk.metadata other
  states : ∀ other, other ≠ vaultId → stateOf disk'.metadata other = stateOf disk.metadata other
  ledgers : ∀ other, other ≠ vaultId → disk'.ledgers other = disk.ledgers other
  known : Known disk'.metadata
  hot : ∀ row ∈ disk'.metadata.syncOperations, row ∈ disk.metadata.syncOperations

variable {disk' : Disk} {vault : VaultRow} {state state' : OperationHistoryState} {ledger : Ledger}

lemma HistoryOk.onlyVault (h : HistoryOk used disk) (hstep : OnlyVault vaultId disk disk') (hvault : vaultId ∈ used)
    (hbats : ∀ ledger, disk'.ledgers vaultId = some ledger → ∀ proof ∈ ledger.batches, proof.batchId ∈ used)
    (hpend : ∀ state, stateOf disk'.metadata vaultId = some state →
      ∀ batch ∈ state.pendingBatch, batch.batchId ∈ used) : HistoryOk used disk' where
  known := hstep.known
  hot := fun row hrow => hstep.record ▸ h.hot row (hstep.hot row hrow)
  ids := hstep.record ▸ h.ids
  original := by
    rw [hstep.record, hstep.original]
    exact h.original
  original_none := by
    rw [hstep.record, hstep.original]
    exact h.original_none
  used_vaults := hstep.vaults ▸ h.used_vaults
  used_rows := hstep.record ▸ h.used_rows
  used_ledgers := by
    intro other hother
    rw [hstep.ledgers other fun heq => hother (heq ▸ hvault)]
    exact h.used_ledgers other hother
  used_batches := by
    intro other ledger hledg
    by_cases heq : other = vaultId
    · exact hbats ledger (heq ▸ hledg)
    · rw [hstep.ledgers other heq] at hledg
      exact h.used_batches other ledger hledg
  used_pending := by
    intro other state hstate
    by_cases heq : other = vaultId
    · exact hpend state (heq ▸ hstate)
    · rw [hstep.states other heq] at hstate
      exact h.used_pending other state hstate

lemma VaultOk.onlyVault (h : VaultOk codec disk vault state)
    (hstep : OnlyVault vaultId disk disk') (hne : vault.vaultId ≠ vaultId) : VaultOk codec disk' vault state where
  stated := (hstep.states _ hne).trans h.stated
  ledgerId := h.ledgerId
  numbered := (hstep.rows _ hne).symm ▸ h.numbered
  phase := by
    intro hlive
    obtain ⟨archived, hphase, hrec⟩ := h.phase hlive
    refine ⟨archived, ?_, ?_, ?_⟩
    · rw [hstep.rows _ hne, hstep.ledgers _ hne]
      exact hphase
    · exact hstep.record ▸ hrec.ledger
    · rw [hstep.record, hstep.rows _ hne]
      exact hrec.present

lemma HasPending.congr (hsts : stateOf db' vault.vaultId = stateOf db vault.vaultId) :
    HasPending db' vault ↔ HasPending db vault := by
  rw [HasPending, HasPending, hsts]

lemma Initialized.onlyVault (h : Initialized codec disk)
    (hstep : OnlyVault vault.vaultId disk disk') (hvault : vault ∈ disk.metadata.vaults)
    (hok : VaultOk codec disk' vault state')
    (hpend : HasPending disk'.metadata vault → ∀ other ∈ disk.metadata.vaults,
      HasPending disk.metadata other → other.vaultId = vault.vaultId) : Initialized codec disk' where
  vaults := by
    intro other hother
    rw [hstep.vaults] at hother
    by_cases heq : other.vaultId = vault.vaultId
    · have hknown := hstep.known.eq_of_vaultId (hstep.vaults ▸ hother) (hstep.vaults ▸ hvault) heq
      exact hknown ▸ ⟨state', hok⟩
    · obtain ⟨state, hother⟩ := h.vaults other hother
      exact ⟨state, hother.onlyVault hstep heq⟩
  pending := by
    rw [hstep.vaults]
    intro a ha b hb hpa hpb
    have hmoved : ∀ c ∈ disk.metadata.vaults, c.vaultId ≠ vault.vaultId →
        HasPending disk'.metadata c → HasPending disk.metadata c :=
      fun c _ hne => (HasPending.congr (hstep.states _ hne)).mp
    have hself : ∀ c ∈ disk.metadata.vaults, c.vaultId = vault.vaultId → c = vault := fun c hc heq =>
      hstep.known.eq_of_vaultId (hstep.vaults ▸ hc) (hstep.vaults ▸ hvault) heq
    by_cases hea : a.vaultId = vault.vaultId
    · by_cases heb : b.vaultId = vault.vaultId
      · exact hea.trans heb.symm
      · rw [hself a ha hea] at hpa ⊢
        exact (hpend hpa b hb (hmoved b hb heb hpb)).symm
    · by_cases heb : b.vaultId = vault.vaultId
      · rw [hself b hb heb] at hpb ⊢
        exact hpend hpb a ha (hmoved a ha hea hpa)
      · exact h.pending a ha b hb (hmoved a ha hea hpa) (hmoved b hb heb hpb)

lemma mem_vaultIds (hvault : vault ∈ disk.metadata.vaults) :
    vault.vaultId ∈ disk.metadata.vaults.map VaultRow.vaultId :=
  mem_map_of_mem hvault

@[simp] lemma setLedger_ledgers_self (disk : Disk) (vaultId : String) (ledger : Ledger) :
    (disk.setLedger vaultId ledger).ledgers vaultId = some ledger :=
  Function.update_self _ _ _

lemma VaultOk.not_hasPending (h : VaultOk codec disk vault state)
    (hpend : state.pendingBatch = none) : ¬ HasPending disk.metadata vault := by
  rintro ⟨-, state', batch, hstate', hbatch⟩
  rw [h.stated] at hstate'
  cases hstate'
  simp [hpend] at hbatch

/-- Writing a ledger file. -/
lemma onlyVault_setLedger (h : HistoryOk used disk) (vaultId : String) (ledger : Ledger) :
    OnlyVault vaultId disk (disk.setLedger vaultId ledger) where
  vaults := rfl
  record := rfl
  original := rfl
  rows := fun _ _ => rfl
  states := fun _ _ => rfl
  ledgers := fun _ hne => Function.update_of_ne hne _ _
  known := h.known
  hot := fun _ hrow => hrow

/-- Writing the metadata with another state of the vault. -/
lemma onlyVault_setState (h : HistoryOk used disk) (hvault : vault ∈ disk.metadata.vaults)
    (state' : OperationHistoryState) :
    OnlyVault vault.vaultId disk (disk.persist (setState disk.metadata vault.vaultId state')) := by
  rw [h.persist_setState]
  exact {
    vaults := rfl
    record := rfl
    original := rfl
    rows := fun _ _ => rfl
    states := fun _ hne => stateOf_setState_of_ne _ _ hne
    ledgers := fun _ _ => rfl
    known := h.known.setState (mem_vaultIds hvault) state'
    hot := fun _ hrow => hrow }

lemma VaultOk.setState (h : HistoryOk used disk) (hok : VaultOk codec disk vault state)
    (hledI : state'.ledgerId = state.ledgerId) (hnext : state'.nextSequence = state.nextSequence)
    (hphase : ∀ archived, vault.status ≠ .deleting →
      Phase codec vault.vaultId (hotRows disk.metadata vault.vaultId) state (disk.ledgers vault.vaultId) archived →
      Phase codec vault.vaultId (hotRows disk.metadata vault.vaultId) state'
        (disk.ledgers vault.vaultId) archived) :
    VaultOk codec (disk.persist (setState disk.metadata vault.vaultId state')) vault state' := by
  rw [h.persist_setState]
  exact {
    stated := stateOf_setState_self _ _ _
    ledgerId := hledI ▸ hok.ledgerId
    numbered := hnext ▸ hok.numbered
    phase := by
      intro hlive
      obtain ⟨archived, hold, hrec⟩ := hok.phase hlive
      exact ⟨archived, hphase archived hlive hold, hrec.ledger, hrec.present⟩ }

lemma VaultOk.setLedger (hok : VaultOk codec disk vault state) {archived archived' : List SyncOperationRow}
    (hphase : Phase codec vault.vaultId (hotRows disk.metadata vault.vaultId) state
      (some ledger) archived') (hrec : Recorded disk vault.vaultId archived) (hsub : archived ⊆ archived')
    (hnew : ∀ row ∈ archived', disk.record row.operationId = some row) :
    VaultOk codec (disk.setLedger vault.vaultId ledger) vault state := { hok with
  phase := by
    intro _
    refine ⟨archived', ?_, hnew, ?_⟩
    · simpa [Disk.setLedger] using hphase
    · intro id row hrow hvault
      exact (hrec.present id row hrow hvault).imp_right fun hmem => hsub hmem }

section Tasks

variable {Q : Ledger → Disk → Prop} {batch : HistoryBatch}

lemma ledgerOf_runs (hledg : disk.ledgers vaultId = some ledger)
    (h : Q ledger disk) : (ledgerOf vaultId).Runs disk (Inv codec used) Q := by
  refine runs_bind (runs_read ?_)
  rw [hledg]
  exact runs_ofExcept rfl h

lemma orThrow_runs {α : Type} {value : Option α} {message : String} {a : α} {Q : α → Disk → Prop}
    (hvalue : value = some a) (h : Q a disk) : (orThrow value message).Runs disk (Inv codec used) Q := by
  rw [hvalue]
  exact runs_ofExcept rfl h

lemma distinct_hot (h : HistoryOk used disk) (hok : VaultOk codec disk vault state) :
    Distinct (hotRows disk.metadata vault.vaultId) where
  ids := h.known.nodup_ids.sublist (filter_sublist.map _)
  numbers := pairwise_map.mpr (hok.numbered.increasing.imp fun hlt => Nat.ne_of_lt hlt)

/-- What opening the vault's ledger leaves behind. -/
structure LedgerOpen (codec : Codec) (used : List String) (disk disk' : Disk) (vault : VaultRow)
    (state : OperationHistoryState) : Prop where
  started : Started codec used disk'
  metadata : disk'.metadata = disk.metadata
  ok : VaultOk codec disk' vault state
  ledger : ∃ ledger, disk'.ledgers vault.vaultId = some ledger
  unchanged : disk.ledgers vault.vaultId ≠ none → disk' = disk

/-- The file that a vault under initialization gets. -/
lemma LedgerOpen.created (h : Started codec used disk) (hvault : vault ∈ disk.metadata.vaults)
    (hlive : vault.status ≠ .deleting) (hok : VaultOk codec disk vault state)
    (hnone : disk.ledgers vault.vaultId = none) :
    state.initPending ∧ state.generation = 0 ∧ state.pendingBatch = none ∧ LedgerOpen codec used disk
      (disk.setLedger vault.vaultId { vaultId := vault.vaultId, ledgerId := state.ledgerId })
      vault state := by
  obtain ⟨archived, hphase, hrec⟩ := hok.phase hlive
  rw [hnone] at hphase
  obtain ⟨hinit, hgen, hpend⟩ := hphase
  refine ⟨hinit, hgen, hpend, ?_⟩
  have hstep := onlyVault_setLedger h.history vault.vaultId
    { vaultId := vault.vaultId, ledgerId := state.ledgerId }
  have hopn : Opened codec vault.vaultId state
      { vaultId := vault.vaultId, ledgerId := state.ledgerId } [] :=
    ⟨rfl, rfl, holds_new codec _ _, by simp⟩
  have hok' : VaultOk codec (disk.setLedger vault.vaultId { vaultId := vault.vaultId, ledgerId := state.ledgerId })
      vault state := by
    refine hok.setLedger (.settled hopn hgen.symm (fun _ => hgen) hpend ?_)
      hrec (List.Subset.refl _) hrec.ledger
    rw [append_nil]
    exact distinct_hot h.history hok
  refine ⟨⟨h.history.onlyVault hstep (h.history.used_vaults vault hvault) ?_ ?_,
    h.initialized.onlyVault hstep hvault hok' fun hhas =>
      absurd hhas (hok'.not_hasPending hpend)⟩, rfl, hok', ⟨_, setLedger_ledgers_self _ _ _⟩,
    fun hsome => absurd hnone hsome⟩
  · intro ledger hledg
    cases (setLedger_ledgers_self _ _ _).symm.trans hledg
    simp
  · exact h.history.used_pending vault.vaultId

lemma openLedger_runs (h : Started codec used disk) (hvault : vault ∈ disk.metadata.vaults)
    (hlive : vault.status ≠ .deleting) (hok : VaultOk codec disk vault state)
    (validateContents : Bool) {Q : Unit → Disk → Prop}
    (hQ : ∀ disk', LedgerOpen codec used disk disk' vault state → Q () disk') :
    (openLedger codec vault.vaultId state validateContents).Runs disk (Inv codec used) Q := by
  have hnext := hok.numbered.next_pos
  have hver : ∀ disk' ledger, LedgerOpen codec used disk disk' vault state →
      disk'.ledgers vault.vaultId = some ledger → ∀ validate,
      verifyOpened codec ledger vault.vaultId state.ledgerId validate (openStateOf state) = .ok () := by
    intro disk' ledger hopen hledg validate
    obtain ⟨archived, hphase, -⟩ := hopen.ok.phase hlive
    exact (hledg ▸ hphase).verifyOpened hnext validate
  cases hledg : disk.ledgers vault.vaultId with
  | none =>
    obtain ⟨hinit, hgen, hpend, hopen⟩ := LedgerOpen.created h hvault hlive hok hledg
    refine runs_bind (runs_check (fun _ => ⟨hgen, hpend⟩) ?_)
    refine runs_bind (runs_read ?_)
    simp only [hledg]
    refine runs_bind (runs_check hinit ?_)
    refine runs_bind (runs_write hopen.started.inv ?_)
    refine runs_bind (ledgerOf_runs (setLedger_ledgers_self _ _ _) ?_)
    exact runs_ofExcept (hver _ _ hopen (setLedger_ledgers_self _ _ _) _) (hQ _ hopen)
  | some ledger =>
    have hopen : LedgerOpen codec used disk disk vault state :=
      ⟨h, rfl, hok, ⟨ledger, hledg⟩, fun _ => rfl⟩
    obtain ⟨archived, hphase, -⟩ := hok.phase hlive
    refine runs_bind (runs_check (hledg ▸ hphase).init ?_)
    refine runs_bind (runs_read ?_)
    simp only [hledg]
    refine runs_bind (runs_ofExcept (hver _ _ hopen hledg _) ?_)
    refine runs_bind (ledgerOf_runs hledg ?_)
    exact runs_ofExcept (hver _ _ hopen hledg _) (hQ _ hopen)

/-- A vault with nothing pending and an open ledger is settled. -/
lemma LedgerOpen.settled (hopen : LedgerOpen codec used disk disk' vault state)
    (hlive : vault.status ≠ .deleting) (hpend : state.pendingBatch = none) :
    ∃ ledger archived, disk'.ledgers vault.vaultId = some ledger ∧
      Opened codec vault.vaultId state ledger archived ∧ ledger.generation = state.generation ∧
      (state.initPending → state.generation = 0) ∧ Distinct (hotRows disk'.metadata vault.vaultId ++ archived) ∧
      Recorded disk' vault.vaultId archived := by
  obtain ⟨ledger, hledg⟩ := hopen.ledger
  obtain ⟨archived, hphase, hrec⟩ := hopen.ok.phase hlive
  rw [hledg] at hphase
  cases hphase with
  | settled opened generation init pending distinct =>
    exact ⟨ledger, archived, hledg, opened, generation, init, distinct, hrec⟩
  | prepared _ _ _ pending | published _ _ _ pending => simp [hpend] at pending

lemma verifyAvailable_runs {archived : List SyncOperationRow} {Q : Unit → Disk → Prop}
    (hledg : disk.ledgers vaultId = some ledger)
    (opened : Opened codec vaultId state ledger archived) (hnext : 0 < state.nextSequence)
    (hgen : ledger.generation = state.generation) (h : Q () disk) :
    (verifyAvailable vaultId state).Runs disk (Inv codec used) Q := by
  refine runs_bind (ledgerOf_runs hledg ?_)
  refine runs_ofExcept (opened.verifyIdentity ?_ ?_) h
  · intro g hg
    rw [hgen, Option.mem_some.mp hg]
  intro n hn
  rw [← Option.mem_some.mp hn]
  exact opened.maxSequence_lt hnext

lemma ensureHistory_runs (h : Started codec used disk) (hvault : vault ∈ disk.metadata.vaults)
    (hlive : vault.status ≠ .deleting) (hok : VaultOk codec disk vault state)
    (hpend : state.pendingBatch = none) {Q : Unit → Disk → Prop}
    (hQ : ∀ disk', LedgerOpen codec used disk disk' vault state → Q () disk') :
    (ensureHistory codec vault.vaultId).Runs disk (Inv codec used) Q := by
  refine runs_bind (runs_read (runs_bind (orThrow_runs hok.stated ?_)))
  refine runs_bind (openLedger_runs h hvault hlive hok false ?_)
  intro disk' hopen
  obtain ⟨ledger, archived, hledg, opened, hgen, -⟩ := hopen.settled hlive hpend
  exact verifyAvailable_runs hledg opened hok.numbered.next_pos hgen (hQ disk' hopen)

/-- The batch of a vault is on its way: the ledger may or may not hold it. -/
structure OnTheWay (codec : Codec) (used : List String) (disk : Disk) (vault : VaultRow)
    (state : OperationHistoryState) (batch : HistoryBatch) : Prop where
  started : Started codec used disk
  vault_mem : vault ∈ disk.metadata.vaults
  live : vault.status ≠ .deleting
  ok : VaultOk codec disk vault state
  pending : state.pendingBatch = some batch

lemma OnTheWay.hasPending (h : OnTheWay codec used disk vault state batch) : HasPending disk.metadata vault :=
  ⟨h.live, state, batch, h.ok.stated, h.pending⟩

section Distinctness

variable {hot archived moved : List SyncOperationRow} {vaultId ledgerId : String} {generation : Nat}

lemma nodup_archived_moved (h : Distinct (hot ++ archived)) (hmoved : moved ⊆ hot)
    (batched : Descriptor codec vaultId ledgerId generation moved batch) : (archived ++ moved).Nodup := by
  have hall := h.ids.of_map
  refine nodup_append.mpr ⟨hall.of_append_right, ?_, ?_⟩
  · refine batched.increasing.imp ?_
    rintro a b hlt rfl
    exact Nat.lt_irrefl _ hlt
  · rintro a ha b hb rfl
    exact h.id_ne (hmoved hb) ha rfl

lemma mem_remaining (h : (hot.map SyncOperationRow.operationId).Nodup) (hmoved : moved ⊆ hot)
    (batched : Descriptor codec vaultId ledgerId generation moved batch) :
    row ∈ remaining batch hot ↔ row ∈ hot ∧ row ∉ moved := by
  rw [remaining, mem_filter, Bool.not_eq_true', ← Bool.not_eq_true, any_eq_true, batched.rows]
  refine and_congr_right fun hrow => not_congr ⟨?_, ?_⟩
  · rintro ⟨entry, hentry, heq⟩
    obtain ⟨other, hother, rfl⟩ := mem_map.mp hentry
    have hsame : other = row :=
      inj_on_of_nodup_map h (hmoved hother) hrow (of_decide_eq_true heq)
    exact hsame ▸ hother
  · intro hmem
    exact ⟨entryOf codec row, mem_map_of_mem hmem, decide_eq_true rfl⟩

/-- Once the batch is committed, the rest of the metadata's rows and the ledger share nothing. -/
lemma distinct_remaining (h : Distinct (hot ++ archived)) (hmoved : moved ⊆ hot)
    (batched : Descriptor codec vaultId ledgerId generation moved batch) :
    Distinct (remaining batch hot ++ (archived ++ moved)) := by
  refine h.of_nodup ?_ (nodup_append.mpr ⟨?_, nodup_archived_moved h hmoved batched, ?_⟩)
  · intro row hrow
    rcases mem_append.mp hrow with hrow | hrow
    · exact mem_append_left _ (mem_of_mem_filter hrow)
    rcases mem_append.mp hrow with hrow | hrow
    · exact mem_append_right _ hrow
    · exact mem_append_left _ (hmoved hrow)
  · exact h.ids.of_map.of_append_left.filter _
  · rintro a ha b hb rfl
    obtain ⟨hhot, hnot⟩ := (mem_remaining h.of_append.ids hmoved batched).mp ha
    rcases mem_append.mp hb with hb | hb
    · exact h.id_ne hhot hb rfl
    · exact hnot hb

end Distinctness

/-- The second step: the ledger holds the batch, which it may have held already. -/
lemma commitBatch_runs {batch : HistoryBatch} (h : OnTheWay codec used disk vault state batch)
    {Q : Unit → Disk → Prop} (hQ : ∀ disk' ledger, OnTheWay codec used disk' vault state batch →
      disk'.metadata = disk.metadata → disk'.ledgers vault.vaultId = some ledger →
      ledger.generation = state.generation + 1 → Q () disk') :
    (commitBatch codec vault.vaultId state.ledgerId batch).Runs disk (Inv codec used) Q := by
  obtain ⟨archived, hphase, hrec⟩ := h.ok.phase h.live
  cases hledg : disk.ledgers vault.vaultId with
  | none =>
    rw [hledg] at hphase
    obtain ⟨-, -, hnone⟩ := hphase
    simp [h.pending] at hnone
  | some ledger =>
    rw [hledg] at hphase
    refine runs_bind (ledgerOf_runs hledg ?_)
    cases hphase with
    | settled _ _ _ pending => simp [h.pending] at pending
    | @published _ _ moved batch' opened generation init pending batched moved_hot moved_archived
        distinct proved =>
      cases h.pending.symm.trans pending
      have hagain := commitBatch_again opened.held
        (by rw [opened.vault, opened.ledgerId]; exact batched) generation moved_archived proved
      rw [opened.vault, opened.ledgerId] at hagain
      refine runs_bind (runs_ofExcept hagain ?_)
      have hsame : disk.setLedger vault.vaultId ledger = disk := by
        rw [Disk.setLedger, ← hledg, Function.update_eq_self]
      refine runs_write ?_ ?_
      · simp only [hsame]
        exact h.started.inv
      · simp only [hsame]
        exact hQ disk ledger h rfl hledg generation
    | @prepared _ _ moved batch' opened generation init pending batched moved_hot distinct fresh =>
      cases h.pending.symm.trans pending
      have hdist : Distinct (archived ++ moved) :=
        distinct.of_nodup (fun row hrow => (mem_append.mp hrow).elim
          (mem_append_right _) fun hmem => mem_append_left _ (moved_hot hmem))
          (nodup_archived_moved distinct moved_hot batched)
      obtain ⟨ledger', hcmt, hheld, hvault', hledg', hgen', hbats'⟩ :=
        commitBatch_ok opened.held (by rw [opened.vault, opened.ledgerId, generation]; exact batched) hdist fresh
      rw [opened.vault, opened.ledgerId] at hcmt
      have hopn : Opened codec vault.vaultId state ledger' (archived ++ moved) :=
        { vault := hvault'.trans opened.vault
          ledgerId := hledg'.trans opened.ledgerId
          held := hheld
          below := fun row hrow => (mem_append.mp hrow).elim (opened.below row)
            fun hmem => h.ok.numbered.below row (moved_hot hmem) }
      have hprov : ledger'.batches.find? (·.batchId = batch.batchId) = some (proofOf batch) := by
        rw [hbats', List.find?_append, List.find?_eq_none.mpr]
        · simp [proofOf]
        · intro proof hproof
          simpa using fresh proof hproof
      have hstep := onlyVault_setLedger h.started.history vault.vaultId ledger'
      have hok' : VaultOk codec (disk.setLedger vault.vaultId ledger') vault state := by
        refine h.ok.setLedger (.published hopn (hgen'.trans (by rw [generation])) init pending
          batched moved_hot (subset_append_right _ _)
          (distinct_remaining distinct moved_hot batched) hprov) hrec
          (subset_append_left _ _) ?_
        intro row hrow
        rcases mem_append.mp hrow with hrow | hrow
        · exact hrec.ledger row hrow
        · exact h.started.history.hot row (mem_hotRows.mp (moved_hot hrow)).1
      have hstrt : Started codec used (disk.setLedger vault.vaultId ledger') := by
        refine ⟨h.started.history.onlyVault hstep (h.started.history.used_vaults vault h.vault_mem) ?_
          (h.started.history.used_pending vault.vaultId),
          h.started.initialized.onlyVault hstep h.vault_mem hok' fun _ other hother hhas =>
            h.started.initialized.pending other hother vault h.vault_mem hhas h.hasPending⟩
        intro other hother proof hproof
        cases (setLedger_ledgers_self _ _ _).symm.trans hother
        rw [hbats'] at hproof
        rcases mem_append.mp hproof with hproof | hproof
        · exact h.started.history.used_batches _ _ hledg proof hproof
        · rw [mem_singleton.mp hproof]
          exact h.started.history.used_pending _ _ h.ok.stated _ h.pending
      refine runs_bind (runs_ofExcept hcmt (runs_write hstrt.inv ?_))
      exact hQ _ ledger' { h with started := hstrt, ok := hok' } rfl
        (setLedger_ledgers_self _ _ _) (hgen'.trans (by rw [generation]))

lemma hotRows_withoutBatch_self (db : MetadataDb) (vaultId : String) (batch : HistoryBatch)
    (state : OperationHistoryState) :
    hotRows (withoutBatch db vaultId batch state) vaultId = remaining batch (hotRows db vaultId) := by
  rw [hotRows, withoutBatch, remaining, hotRows, setState, filter_filter, filter_filter]
  refine filter_congr fun row _ => ?_
  by_cases hvault : row.vaultId = vaultId
  · simp [hvault]
  · simp [hvault]

lemma hotRows_withoutBatch_of_ne (db : MetadataDb) (batch : HistoryBatch)
    (state : OperationHistoryState) (hne : other ≠ vaultId) :
    hotRows (withoutBatch db vaultId batch state) other = hotRows db other := by
  rw [hotRows, withoutBatch, hotRows, setState, filter_filter]
  refine filter_congr fun row _ => ?_
  by_cases hvault : row.vaultId = other
  · simp [hvault, hne]
  · simp [hvault]

/-- The vault's state when its batch is done. -/
def finished (state : OperationHistoryState) (batch : HistoryBatch) : OperationHistoryState :=
  { state with generation := batch.targetGeneration, pendingBatch := none }

/-- What completing a vault's batch or initialization leaves behind. -/
structure Completed (codec : Codec) (used : List String) (disk disk' : Disk) (vault : VaultRow)
    (state' : OperationHistoryState) : Prop where
  started : Started codec used disk'
  step : OnlyVault vault.vaultId disk disk'
  ok : VaultOk codec disk' vault state'

lemma onlyVault_withoutBatch (h : HistoryOk used disk) (hvault : vault ∈ disk.metadata.vaults)
    (batch : HistoryBatch) (state : OperationHistoryState) :
    disk.persist (withoutBatch disk.metadata vault.vaultId batch state)
      = { disk with metadata := withoutBatch disk.metadata vault.vaultId batch state } ∧
    OnlyVault vault.vaultId disk
      (disk.persist (withoutBatch disk.metadata vault.vaultId batch state)) := by
  have hsub : ∀ row ∈ (withoutBatch disk.metadata vault.vaultId batch state).syncOperations,
      row ∈ disk.metadata.syncOperations := fun row hrow => mem_of_mem_filter hrow
  have heq : disk.persist (withoutBatch disk.metadata vault.vaultId batch state)
      = { disk with metadata := withoutBatch disk.metadata vault.vaultId batch state } :=
    h.persist_eq fun row hrow => h.hot row (hsub row hrow)
  refine ⟨heq, ?_⟩
  rw [heq]
  exact {
    vaults := rfl
    record := rfl
    original := rfl
    rows := fun _ hne => hotRows_withoutBatch_of_ne _ _ _ hne
    states := fun _ hne => stateOf_setState_of_ne _ _ hne
    ledgers := fun _ _ => rfl
    known := (h.known.filterRows _).setState (mem_vaultIds hvault) _
    hot := hsub }

/-- The third step: the metadata goes on without the rows. -/
lemma finishHistoryBatch_completed (h : OnTheWay codec used disk vault state batch)
    (hledg : disk.ledgers vault.vaultId = some ledger)
    (hgen : ledger.generation = state.generation + 1) : Completed codec used disk
      (disk.persist (withoutBatch disk.metadata vault.vaultId batch state)) vault (finished state batch) := by
  obtain ⟨heq, hstep⟩ := onlyVault_withoutBatch h.started.history h.vault_mem batch state
  obtain ⟨archived, hphase, hrec⟩ := h.ok.phase h.live
  rw [hledg] at hphase
  cases hphase with
  | settled _ _ _ pending => simp [h.pending] at pending
  | prepared opened generation => omega
  | @published _ _ moved batch' opened generation init pending batched moved_hot moved_archived
      distinct proved =>
    cases h.pending.symm.trans pending
    have hids : ((hotRows disk.metadata vault.vaultId).map operationId).Nodup :=
      (distinct_hot h.started.history h.ok).ids
    have hok' : VaultOk codec (disk.persist (withoutBatch disk.metadata vault.vaultId batch state)) vault
        (finished state batch) := by
      rw [heq]
      refine ⟨stateOf_setState_self _ _ _, h.ok.ledgerId, ?_, fun _ => ⟨archived, ?_, ?_, ?_⟩⟩
      · rw [hotRows_withoutBatch_self]
        exact ⟨h.ok.numbered.increasing.filter _,
          fun row hrow => h.ok.numbered.positive row (mem_of_mem_filter hrow),
          fun row hrow => h.ok.numbered.below row (mem_of_mem_filter hrow),
          h.ok.numbered.next_pos⟩
      · rw [hotRows_withoutBatch_self, hledg]
        refine .settled { opened with } (generation.trans batched.target.symm) ?_ rfl distinct
        intro hinit
        simp [finished, init] at hinit
      · exact hrec.ledger
      · intro id row hrow hvault
        rw [hotRows_withoutBatch_self, mem_remaining hids moved_hot batched]
        by_cases hmoved : row ∈ moved
        · exact Or.inr (moved_archived hmoved)
        · exact (hrec.present id row hrow hvault).imp_left fun hhot => ⟨hhot, hmoved⟩
    refine ⟨⟨h.started.history.onlyVault hstep (h.started.history.used_vaults vault h.vault_mem) ?_ ?_,
      h.started.initialized.onlyVault hstep h.vault_mem hok' fun hhas =>
        absurd hhas (hok'.not_hasPending rfl)⟩, hstep, hok'⟩
    · intro ledger hledg
      exact h.started.history.used_batches _ _ hledg
    intro state' hstate'
    cases hok'.stated.symm.trans hstate'
    simp [finished]

lemma finishInitialization_runs (h : Started codec used disk)
    (hvault : vault ∈ disk.metadata.vaults) (hok : VaultOk codec disk vault state)
    (hpend : state.pendingBatch = none)
    (hledg : ∃ ledger, disk.ledgers vault.vaultId = some ledger) {Q : MetadataDb → Disk → Prop}
    (hQ : ∀ disk', Completed codec used disk disk' vault { state with initPending := false } →
      disk'.ledgers = disk.ledgers → Q disk'.metadata disk') :
    (finishInitialization vault.vaultId).Runs disk (Inv codec used) Q := by
  refine runs_bind (runs_read (runs_bind (orThrow_runs hok.stated ?_)))
  have heq := h.history.persist_setState vault.vaultId { state with initPending := false }
  have hstep := onlyVault_setState h.history hvault { state with initPending := false }
  have hok' : VaultOk codec (disk.persist (setState disk.metadata vault.vaultId
      { state with initPending := false })) vault { state with initPending := false } := by
    refine VaultOk.setState h.history hok rfl rfl ?_
    intro archived _ hphase
    obtain ⟨ledger, hledg⟩ := hledg
    rw [hledg] at hphase ⊢
    cases hphase with
    | settled opened generation init pending distinct =>
      exact .settled { opened with } generation (fun hinit => by simp at hinit) pending distinct
    | prepared _ _ _ pending | published _ _ _ pending => simp [hpend] at pending
  have hcpl : Completed codec used disk (disk.persist (setState disk.metadata vault.vaultId
      { state with initPending := false })) vault { state with initPending := false } := by
    refine ⟨⟨h.history.onlyVault hstep (h.history.used_vaults vault hvault) ?_ ?_,
      h.initialized.onlyVault hstep hvault hok' fun hhas =>
        absurd hhas (hok'.not_hasPending hpend)⟩, hstep, hok'⟩
    · intro ledger hledg
      exact h.history.used_batches _ _ hledg
    intro state' hstate'
    cases hok'.stated.symm.trans hstate'
    simp [hpend]
  refine runs_bind (runs_write hcpl.started.inv (runs_pure ?_))
  exact hQ _ hcpl (by rw [heq])

lemma foldlM_validateEntry {rows moved : List SyncOperationRow}
    (hids : (rows.map SyncOperationRow.operationId).Nodup) (hmoved : moved ⊆ rows)
    (harc : ∀ row ∈ moved, Archivable vaultId row)
    (hinc : moved.Pairwise fun a b => sequenceNumber a < sequenceNumber b)
    (hdist : (moved.map SyncOperationRow.operationId).Nodup) {seen : Nat × List String}
    (hbelow : ∀ row ∈ moved, seen.1 < sequenceNumber row) (hnew : ∀ row ∈ moved, row.operationId ∉ seen.2) :
    ∃ seen', (moved.map (entryOf codec)).foldlM (validateEntry codec rows) seen = .ok seen' := by
  induction moved generalizing seen with
  | nil => exact ⟨seen, rfl⟩
  | cons row moved ih =>
    obtain ⟨hrow, hmoved⟩ := cons_subset.mp hmoved
    obtain ⟨harch, harc⟩ := forall_mem_cons.mp harc
    obtain ⟨hfirst, hinc⟩ := pairwise_cons.mp hinc
    obtain ⟨hnotin, hdist⟩ := nodup_cons.mp hdist
    obtain ⟨hlt, -⟩ := forall_mem_cons.mp hbelow
    obtain ⟨hfresh, hnew⟩ := forall_mem_cons.mp hnew
    have hfind : rows.reverse.find? (·.operationId = (entryOf codec row).operationId) = some row := by
      have hrev : (rows.reverse.map operationId).Nodup := by
        rw [map_reverse]
        exact nodup_reverse.mpr hids
      exact find?_of_nodup hrev (mem_reverse.mpr hrow)
    have hentry : validateEntry codec rows seen (entryOf codec row)
        = .ok (sequenceNumber row, row.operationId :: seen.2) := by
      rw [validateEntry, hfind]
      exact if_pos ⟨harch.terminal, operationSequence_of_numbered harch.numbered, hlt, hfresh, rfl, rfl⟩
    rw [map_cons, foldlM_cons, hentry]
    refine ih hmoved harc hinc hdist hfirst ?_
    intro other hother
    rw [mem_cons]
    rintro (heq | hseen)
    · exact hnotin (heq ▸ mem_map_of_mem hother)
    · exact hnew other hother hseen

section
variable (h : OnTheWay codec used disk vault state batch)
include h

lemma OnTheWay.batched : ∃ moved, Descriptor codec vault.vaultId state.ledgerId state.generation moved batch ∧
      moved ⊆ hotRows disk.metadata vault.vaultId := by
  obtain ⟨archived, hphase, -⟩ := h.ok.phase h.live
  generalize disk.ledgers vault.vaultId = ledger at hphase
  cases hphase with
  | uncreated _ _ pending | settled _ _ _ pending => simp [h.pending] at pending
  | prepared _ _ _ pending batched moved_hot | published _ _ _ pending batched moved_hot =>
    cases h.pending.symm.trans pending
    exact ⟨_, batched, moved_hot⟩

lemma validateHistoryBatch_ok : validateHistoryBatch codec disk.metadata vault.vaultId state batch = .ok () := by
  obtain ⟨moved, batched, moved_hot⟩ := h.batched
  have hids := (distinct_hot h.started.history h.ok).ids
  have hnodup : moved.Nodup := by
    refine batched.increasing.imp ?_
    rintro a b hlt rfl
    exact Nat.lt_irrefl _ hlt
  have hdist : (moved.map operationId).Nodup :=
    hnodup.map_on fun _ ha _ hb => inj_on_of_nodup_map hids (moved_hot ha) (moved_hot hb)
  have hlen : batch.rows.length = moved.length := by rw [batched.rows, length_map]
  have hne : batch.rows.length ≠ 0 := by
    rw [hlen]
    exact Nat.ne_of_gt batched.nonempty
  obtain ⟨seen, hfold⟩ := foldlM_validateEntry hids moved_hot batched.archivable batched.increasing
    hdist (fun row hrow => (batched.archivable row hrow).numbered) (by simp : ∀ row ∈ moved,
      row.operationId ∉ ((0, []) : Nat × List String).2)
  rw [validateHistoryBatch, if_pos ⟨batched.vault, batched.ledger, batched.parent, batched.target,
    hne, hlen ▸ batched.atMost⟩, batched.rows, hfold]
  rfl

/-- Recovery completes the batch wherever it stopped. -/
lemma recoverHistoryBatch_runs {Q : Unit → Disk → Prop}
    (hQ : ∀ disk', Started codec used disk' → disk'.metadata.vaults = disk.metadata.vaults →
      VaultOk codec disk' vault (finished state batch) → (∀ other, other ≠ vault.vaultId →
        stateOf disk'.metadata other = stateOf disk.metadata other) → Q () disk') :
    (recoverHistoryBatch codec disk.metadata vault.vaultId state batch).Runs disk (Inv codec used)
      Q := by
  obtain ⟨moved, batched, -⟩ := h.batched
  refine runs_bind (runs_ofExcept (validateHistoryBatch_ok h) ?_)
  obtain ⟨archived, hphase, -⟩ := h.ok.phase h.live
  cases hledg : disk.ledgers vault.vaultId with
  | none =>
    rw [hledg] at hphase
    obtain ⟨-, -, hnone⟩ := hphase
    simp [h.pending] at hnone
  | some ledger =>
    have hgen : ledger.generation = batch.parentGeneration ∨
        ledger.generation = batch.targetGeneration := by
      rw [batched.parent, batched.target]
      rw [hledg] at hphase
      cases hphase with
      | settled _ generation | prepared _ generation => exact Or.inl generation
      | published _ generation => exact Or.inr generation
    refine runs_bind (ledgerOf_runs hledg ?_)
    refine runs_bind (runs_check hgen ?_)
    refine runs_bind (commitBatch_runs h ?_)
    intro disk' ledger' h' hmeta hledg' hgen'
    have hcpl := finishHistoryBatch_completed h' hledg' hgen'
    rw [← hmeta]
    refine runs_bind (orThrow_runs h'.ok.stated ?_)
    refine runs_write hcpl.started.inv ?_
    refine hQ _ hcpl.started (hcpl.step.vaults.trans (by rw [hmeta])) hcpl.ok ?_
    intro other hne
    rw [← hmeta]
    exact hcpl.step.states other hne

end

lemma Settled.congr (hsts : stateOf db' vault.vaultId = stateOf db vault.vaultId) :
    Settled db' vault ↔ Settled db vault := by
  rw [Settled, Settled, hsts]

/-- The loop over the vaults at start. The metadata it works on may be stale once a batch was
recovered; no later vault has a batch then, and the states of the later vaults are current. -/
structure Recovering (codec : Codec) (used : List String) (rest : List VaultRow)
    (candidate : MetadataDb) (disk : Disk) : Prop where
  started : Started codec used disk
  rest_mem : ∀ vault ∈ rest, vault ∈ disk.metadata.vaults
  nodup : (rest.map VaultRow.vaultId).Nodup
  states : ∀ vault ∈ rest, stateOf candidate vault.vaultId = stateOf disk.metadata vault.vaultId
  current : candidate = disk.metadata ∨ ∀ vault ∈ rest, ¬ HasPending disk.metadata vault
  settled : ∀ vault ∈ disk.metadata.vaults, vault ∉ rest → Settled disk.metadata vault

variable {rest : List VaultRow} {candidate : MetadataDb}

/-- The loop goes on with the next vault. -/
lemma Recovering.next (h : Recovering codec used (vault :: rest) candidate disk)
    (hstrt : Started codec used disk') (hvs : disk'.metadata.vaults = disk.metadata.vaults)
    (hsts : ∀ other, other ≠ vault.vaultId → stateOf disk'.metadata other = stateOf disk.metadata other)
    (hstl : Settled disk'.metadata vault) {candidate' : MetadataDb} (hcand : candidate' = disk'.metadata ∨
      candidate' = candidate ∧ ∀ vault ∈ rest, ¬ HasPending disk'.metadata vault) :
    Recovering codec used rest candidate' disk' := by
  obtain ⟨hnotin, hnodup⟩ := nodup_cons.mp h.nodup
  have hne : ∀ other ∈ rest, other.vaultId ≠ vault.vaultId :=
    fun other hother heq => hnotin (heq ▸ mem_map_of_mem hother)
  refine ⟨hstrt, ?_, hnodup, ?_, hcand.imp_right And.right, ?_⟩
  · intro other hother
    exact hvs ▸ h.rest_mem other (mem_cons_of_mem _ hother)
  · intro other hother
    rcases hcand with rfl | ⟨rfl, -⟩
    · rfl
    · rw [hsts _ (hne other hother)]
      exact h.states other (mem_cons_of_mem _ hother)
  · intro other hother hrest
    rw [hvs] at hother
    by_cases heq : other = vault
    · exact heq ▸ hstl
    have hid : other.vaultId ≠ vault.vaultId := fun hid => heq
      (h.started.history.known.eq_of_vaultId hother (h.rest_mem vault mem_cons_self) hid)
    refine (Settled.congr (hsts _ hid)).mpr (h.settled other hother ?_)
    rw [mem_cons]
    exact not_or.mpr ⟨heq, hrest⟩

lemma initializeLedger_runs (h : Recovering codec used (vault :: rest) candidate disk) :
    (initializeLedger codec candidate vault).Runs disk (Inv codec used)
      fun candidate' disk' => Recovering codec used rest candidate' disk' := by
  have hvault := h.rest_mem vault mem_cons_self
  obtain ⟨state, hok⟩ := h.started.initialized.vaults vault hvault
  have hstate := (h.states vault mem_cons_self).trans hok.stated
  refine runs_bind (orThrow_runs hstate ?_)
  by_cases hlive : vault.status = .deleting
  · rw [if_pos hlive]
    refine runs_pure (h.next h.started rfl (fun _ _ => rfl) (fun hne => absurd hlive hne) ?_)
    exact h.current.imp_right fun hnone => ⟨rfl, fun other hother =>
      hnone other (mem_cons_of_mem _ hother)⟩
  rw [if_neg hlive]
  have hinit : state.initPending = true → state.generation = 0 ∧ state.pendingBatch = none := by
    obtain ⟨archived, hphase, -⟩ := hok.phase hlive
    generalize disk.ledgers vault.vaultId = ledger at hphase
    cases ledger with
    | none =>
      obtain ⟨-, hgen, hpend⟩ := hphase
      exact fun _ => ⟨hgen, hpend⟩
    | some ledger => exact hphase.init
  refine runs_bind (runs_check hinit ?_)
  cases hpend : state.pendingBatch with
  | some batch =>
    have hway : OnTheWay codec used disk vault state batch :=
      ⟨h.started, hvault, hlive, hok, hpend⟩
    have hcand : candidate = disk.metadata :=
      h.current.resolve_right fun hnone => hnone vault mem_cons_self hway.hasPending
    have hnot : state.initPending = false := by
      cases hcase : state.initPending with
      | false => rfl
      | true =>
        have hnone := (hinit hcase).2
        simp [hpend] at hnone
    subst hcand
    refine runs_bind (runs_ofExcept (validateHistoryBatch_ok hway) ?_)
    refine runs_bind (openLedger_runs h.started hvault hlive hok true ?_)
    intro disk₁ hopen
    have hway₁ : OnTheWay codec used disk₁ vault state batch :=
      ⟨hopen.started, hopen.metadata ▸ hvault, hlive, hopen.ok, hpend⟩
    refine runs_bind ?_
    rw [← hopen.metadata]
    refine recoverHistoryBatch_runs hway₁ ?_
    intro disk₂ hstrt hvs hok₂ hsts
    rw [hnot, if_neg (by simp)]
    rw [hopen.metadata] at hvs hsts ⊢
    refine runs_pure (h.next hstrt hvs hsts ?_ (Or.inr ⟨rfl, ?_⟩))
    · exact fun _ => ⟨finished state batch, hok₂.stated, hnot, rfl⟩
    intro other hother hhas
    have hid : other.vaultId ≠ vault.vaultId := fun hid =>
      (nodup_cons.mp h.nodup).1 (hid ▸ mem_map_of_mem hother)
    rw [HasPending.congr (hsts _ hid)] at hhas
    exact hid (h.started.initialized.pending other
      (h.rest_mem other (mem_cons_of_mem _ hother)) vault hvault hhas hway.hasPending)
  | none =>
    refine runs_bind (openLedger_runs h.started hvault hlive hok true ?_)
    intro disk₁ hopen
    obtain ⟨ledger, archived, hledg, opened, hgen, -⟩ := hopen.settled hlive hpend
    refine runs_bind (ledgerOf_runs hledg ?_)
    refine runs_bind (runs_check ⟨hgen, opened.maxSequence_lt hok.numbered.next_pos⟩ ?_)
    cases hcase : state.initPending with
    | true =>
      refine finishInitialization_runs hopen.started (hopen.metadata ▸ hvault) hopen.ok hpend
        hopen.ledger ?_
      intro disk₂ hcpl _
      refine h.next hcpl.started (hcpl.step.vaults.trans (by rw [hopen.metadata])) ?_ ?_ (Or.inl rfl)
      · intro other hne
        rw [hcpl.step.states other hne, hopen.metadata]
      · exact fun _ => ⟨_, hcpl.ok.stated, rfl, hpend⟩
    | false =>
      refine runs_pure (h.next hopen.started (by rw [hopen.metadata])
        (fun _ _ => by rw [hopen.metadata]) ?_ ?_)
      · exact fun _ => ⟨state, hopen.ok.stated, hcase, hpend⟩
      rw [hopen.metadata]
      exact h.current.imp_right fun hnone => ⟨rfl, fun other hother =>
        hnone other (mem_cons_of_mem _ hother)⟩

end Tasks

end OperationHistory
