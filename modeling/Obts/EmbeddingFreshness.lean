import Obts.EmbeddingWorker

/-!
# Vectors are never stale

A row loses its vector when its revision, its hash or its breadcrumb changes, and a reset that starts a
generation takes all vectors with it. What the worker stores was computed for the revision that the row
still has, under the generation that the schema still has.
-/
namespace EmbeddingWorker

open KeyedRows ProjectionTables List Statement

variable {e : Environment} {s s' : State} {tables after : Tables Computed}
  {affected dimensions next : Nat}
variable {statement : Statement} {row : NoteRow Computed} {token : EmbeddingNoteToken}
  {vector : Option Computed} {v : Computed} {columns : BlockColumns} {source : Source}
  {model : String}

lemma embedding_replaceNote {columns : NoteColumns} {old : NoteRow Computed}
    (h : (replaceNote next columns old).embedding = some v) :
    old.columns.revision = columns.revision ∧ old.embedding = some v := by
  by_cases hrev : old.columns.revision = columns.revision
  · refine ⟨hrev, ?_⟩
    simpa [replaceNote, noteGeneration, hrev] using h
  · simp [replaceNote, noteGeneration, Ne.symm hrev] at h

lemma embedding_replaceBlock {old : BlockRow Computed} (h : (replaceBlock next columns old).embedding = some v) :
    old.columns.contentHash = columns.contentHash ∧ old.columns.sourceRevision = columns.sourceRevision ∧
      old.columns.breadcrumb = columns.breadcrumb ∧ old.embedding = some v := by
  by_cases hsame : old.columns.contentHash = columns.contentHash ∧
      old.columns.sourceRevision = columns.sourceRevision ∧ old.columns.breadcrumb = columns.breadcrumb
  · obtain ⟨hhash, hrev, hbre⟩ := hsame
    refine ⟨hhash, hrev, hbre, ?_⟩
    simpa [replaceBlock, blockGeneration, hhash, hrev, hbre] using h
  -- the trigger clears the vector
  have hchg : columns.contentHash ≠ old.columns.contentHash ∨ columns.sourceRevision ≠ old.columns.sourceRevision ∨
      columns.breadcrumb ≠ old.columns.breadcrumb := by
    by_contra hnone
    simp only [not_or, not_not] at hnone
    exact hsame ⟨hnone.1.symm, hnone.2.1.symm, hnone.2.2.symm⟩
  have hcle : columns.contentHash ≠ old.columns.contentHash ∨ columns.sourceRevision ≠ old.columns.sourceRevision ∨
      columns.breadcrumb ≠ old.columns.breadcrumb ∨ False := by tauto
  rw [replaceBlock, blockGeneration] at h
  simp only [ne_eq, not_true_eq_false, hcle, if_true] at h
  cases h

section
variable (hrun : statement.run tables = some (after, affected))
include hrun

/-- A note's row is one of before as far as vectors go, or it was put in. -/
lemma notes_run (hrow : row ∈ after.notes) :
    (∃ old ∈ tables.notes, row.columns = old.columns ∧ row.embedding = old.embedding) ∨
      (statement = .upsertNote row.columns ∧ ∀ v, row.embedding = some v →
        ∃ old ∈ tables.notes, old.id = row.id ∧ old.columns.revision = row.columns.revision ∧
          old.embedding = some v) := by
  have hkept : after.notes = tables.notes → ∃ old ∈ tables.notes, row.columns = old.columns ∧
      row.embedding = old.embedding :=
    fun hnotes => ⟨row, hnotes ▸ hrow, rfl, rfl⟩
  cases statement with
  | upsertNote columns =>
    cases hrun
    rcases mem_upsert.mp hrow with ⟨hmem, -⟩ | ⟨old, hold, hid, rfl⟩ | ⟨rfl, -⟩
    · exact .inl ⟨row, hmem, rfl, rfl⟩
    · refine .inr ⟨by rw [columns_replaceNote], fun v hv => ?_⟩
      obtain ⟨hrev, hemb⟩ := embedding_replaceNote hv
      refine ⟨old, hold, ?_, ?_, hemb⟩
      · rw [id_replaceNote]
        exact hid
      · rw [columns_replaceNote]
        exact hrev
    · exact .inr ⟨rfl, fun v hv => nomatch hv⟩
  | setLexical id lexical =>
    cases hrun
    obtain ⟨old, hold, rfl⟩ := mem_update.mp hrow
    refine .inl ⟨old, hold, ?_⟩
    split
    · exact ⟨rfl, rfl⟩
    · exact ⟨rfl, rfl⟩
  | deleteNote id =>
    cases hrun
    exact .inl ⟨row, (mem_delete.mp hrow).1, rfl, rfl⟩
  | insertTag | upsertLink | upsertBlock =>
    rw [run] at hrun
    split at hrun <;> cases hrun
    exact .inl (hkept rfl)
  | _ =>
    cases hrun
    exact .inl (hkept rfl)

/-- So is a block's. -/
lemma blocks_run {row : BlockRow Computed} (hrow : row ∈ after.blocks) :
    (∃ old ∈ tables.blocks, row.columns = old.columns ∧ row.embedding = old.embedding) ∨
      ∃ columns, statement = .upsertBlock columns ∧ ((row.columns = columns ∧ row.embedding = none) ∨
          ∃ old ∈ tables.blocks, old.id = columns.id ∧ row.columns = { columns with
            id := old.columns.id, noteId := old.columns.noteId, index := old.columns.index } ∧
          ∀ v, row.embedding = some v → old.columns.contentHash = columns.contentHash ∧
            old.columns.sourceRevision = columns.sourceRevision ∧
            old.columns.breadcrumb = columns.breadcrumb ∧ old.embedding = some v) := by
  have hkept : after.blocks = tables.blocks → ∃ old ∈ tables.blocks, row.columns = old.columns ∧
      row.embedding = old.embedding :=
    fun hblks => ⟨row, hblks ▸ hrow, rfl, rfl⟩
  cases statement with
  | upsertBlock columns =>
    rw [run] at hrun
    split at hrun <;> cases hrun
    rcases mem_upsert.mp hrow with ⟨hmem, -⟩ | ⟨old, hold, hid, rfl⟩ | ⟨rfl, -⟩
    · exact .inl ⟨row, hmem, rfl, rfl⟩
    · exact .inr ⟨columns, rfl, .inr ⟨old, hold, hid, columns_replaceBlock, fun v hv => embedding_replaceBlock hv⟩⟩
    · exact .inr ⟨columns, rfl, .inl ⟨rfl, rfl⟩⟩
  | deleteBlock | deleteNote =>
    cases hrun
    exact .inl ⟨row, (mem_delete.mp hrow).1, rfl, rfl⟩
  | insertTag | upsertLink =>
    rw [run] at hrun
    split at hrun <;> cases hrun
    exact .inl (hkept rfl)
  | _ =>
    cases hrun
    exact .inl (hkept rfl)

lemma generation_run : tables.generation ≤ after.generation := by
  cases statement with
  | insertTag | upsertLink =>
    rw [run] at hrun
    split at hrun <;> cases hrun
    exact Nat.le_refl _
  | upsertBlock columns =>
    rw [run] at hrun
    split at hrun <;> cases hrun
    exact Nat.le_add_right _ _
  | upsertNote columns =>
    cases hrun
    exact Nat.le_add_right _ _
  | _ =>
    cases hrun
    exact Nat.le_refl _

end

/-- The vector is one of the schema's model and generation. -/
def OfSchema (s : State) (v : Computed) : Prop :=
  ∃ schema, s.schema = some schema ∧ v.model = schema.model ∧ v.generation = schema.epoch

section Texts
variable (e : Environment)

/-- The vector was computed from the text of the revision that the note's row names. -/
def OfNote (columns : NoteColumns) (v : Computed) : Prop :=
  ∃ content, e.contentRevision content = columns.revision ∧
    v.text = noteText e v.model ⟨columns.path, columns.title, content⟩

/-- The vector was computed from the breadcrumb and the content of the block. -/
def OfBlock (columns : BlockColumns) (v : Computed) : Prop :=
  ∃ content headings chunk, e.contentRevision content = columns.sourceRevision ∧
    (chunksOf e content)[columns.index]? = some (headings, chunk) ∧
    e.derivation.sha256 chunk = columns.contentHash ∧ v.text = blockText columns.breadcrumb chunk

/-- No vector is stale. -/
structure Fresh (s : State) : Prop where
  notes : ∀ row ∈ s.tables.notes, ∀ v, row.embedding = some v → OfSchema s v ∧ OfNote e row.columns v
  blocks : ∀ row ∈ s.tables.blocks, ∀ v, row.embedding = some v → OfSchema s v ∧ OfBlock e row.columns v

/-- The rows are derived from contents, and what the worker holds is of the revisions and generations that
it was listed with. -/
structure Invariant (s : State) : Prop extends Fresh e s where
  noteRows : ∀ row ∈ s.tables.notes, Genuine e (.upsertNote row.columns)
  blockRows : ∀ row ∈ s.tables.blocks, Genuine e (.upsertBlock row.columns)
  sameDimensions : s.noteDimensions = s.blockDimensions
  epoch : ∀ schema, s.schema = some schema → schema.epoch ≤ s.tables.generation
  tokens : ∀ token ∈ s.tokens, ∃ schema, s.schema = some schema ∧ token.schemaEpoch ≤ schema.epoch ∧
    (token.schemaEpoch = schema.epoch → schema.model = s.model)
  sources : ∀ entry ∈ s.sources, entry.1 ∈ s.tokens ∧ entry.2.path = entry.1.id ∧
    entry.2.title = NoteContent.titleFromNoteId entry.1.id ∧
    e.contentRevision entry.2.content = entry.1.revision
  blockTokens : ∀ entry ∈ s.blockTokens, entry.2.id = blockId entry.1.id entry.2.index

end Texts

section Inputs
variable {path : String} {content : Text} {createdAt : Option Int} {updatedAt : Int}

lemma id_noteInputOf : (noteInputOf e path content createdAt updatedAt).id = path := by
  simp [noteInputOf]

lemma title_noteInputOf :
    (noteInputOf e path content createdAt updatedAt).title = NoteContent.titleFromNoteId path := by
  simp [noteInputOf, NoteContent.noteInputFromRawMarkdown]

lemma content_noteInputOf : (noteInputOf e path content createdAt updatedAt).content = bodyOf e content := by
  simp [noteInputOf, NoteContent.noteInputFromRawMarkdown, bodyOf]

end Inputs

lemma genuine_note {columns : NoteColumns} (h : Genuine e (.upsertNote columns)) :
    columns.path = columns.id ∧ columns.title = NoteContent.titleFromNoteId columns.id := by
  obtain ⟨path, content, createdAt, updatedAt, -, rfl⟩ := h
  simp [noteColumns, id_noteInputOf, title_noteInputOf]

/-- A block has the identifier of its place, and the breadcrumb and the hash of the part there. -/
lemma genuine_block (h : Genuine e (.upsertBlock columns)) :
    columns.id = blockId columns.noteId columns.index ∧ ∃ content headings chunk,
      e.contentRevision content = columns.sourceRevision ∧
      (chunksOf e content)[columns.index]? = some (headings, chunk) ∧
      e.derivation.sha256 chunk = columns.contentHash ∧ columns.breadcrumb
        = breadcrumbPrefix columns.noteId (NoteContent.titleFromNoteId columns.noteId) headings := by
  obtain ⟨path, content, createdAt, updatedAt, hcols⟩ := h
  rw [blockColumns, content_noteInputOf, title_noteInputOf, id_noteInputOf, ← chunksOf] at hcols
  obtain ⟨index, hindex, rfl⟩ := mem_mapIdx.mp hcols
  cases hpart : (chunksOf e content)[index] with
  | mk headings chunk =>
    dsimp only
    exact ⟨rfl, content, headings, chunk, rfl, by rw [List.getElem?_eq_getElem hindex, hpart], rfl, rfl⟩

/-- A note's row is derived from a content, and its vector is not stale. -/
def NoteRowOk (e : Environment) (s : State) (row : NoteRow Computed) : Prop :=
  Genuine e (.upsertNote row.columns) ∧ ∀ v, row.embedding = some v → OfSchema s v ∧ OfNote e row.columns v

def BlockRowOk (e : Environment) (s : State) (row : BlockRow Computed) : Prop :=
  Genuine e (.upsertBlock row.columns) ∧ ∀ v, row.embedding = some v → OfSchema s v ∧ OfBlock e row.columns v

lemma Invariant.noteRow (h : Invariant e s) (hrow : row ∈ s.tables.notes) : NoteRowOk e s row :=
  ⟨h.noteRows row hrow, h.notes row hrow⟩

lemma Invariant.blockRow (h : Invariant e s) {row : BlockRow Computed} (hrow : row ∈ s.tables.blocks) :
    BlockRowOk e s row :=
  ⟨h.blockRows row hrow, h.blocks row hrow⟩

/-- Rows are replaced under the same schema. -/
lemma Invariant.setTables (h : Invariant e s) (hgen : s.tables.generation ≤ tables.generation)
    (hnotes : ∀ row ∈ tables.notes, NoteRowOk e s row)
    (hblks : ∀ row ∈ tables.blocks, BlockRowOk e s row) : Invariant e { s with tables } := { h with
  notes := fun row hrow => (hnotes row hrow).2
  blocks := fun row hrow => (hblks row hrow).2
  noteRows := fun row hrow => (hnotes row hrow).1
  blockRows := fun row hrow => (hblks row hrow).1
  epoch := fun schema hsch => (h.epoch schema hsch).trans hgen }

lemma Invariant.project (h : Invariant e s) (hgen : Genuine e statement)
    (hrun : statement.run s.tables = some (tables, affected)) : Invariant e { s with tables } := by
  refine h.setTables (generation_run hrun) (fun row hrow => ?_) fun row hrow => ?_
  · rcases notes_run hrun hrow with ⟨old, hold, hcols, hemb⟩ | ⟨rfl, hkept⟩
    · rw [NoteRowOk, hcols, hemb]
      exact h.noteRow hold
    refine ⟨hgen, fun v hv => ?_⟩
    obtain ⟨old, hold, hid, hrev, hemb⟩ := hkept v hv
    obtain ⟨hsch, content, hcont, htext⟩ := h.notes old hold v hemb
    -- the path and the title are those of the identifier
    obtain ⟨hpath, htitle⟩ := genuine_note (h.noteRows old hold)
    obtain ⟨hpath', htitle'⟩ := genuine_note hgen
    have hids : old.columns.id = row.columns.id := hid
    refine ⟨hsch, content, hcont.trans hrev, ?_⟩
    rw [htext, hpath, htitle, hpath', htitle', hids]
  · rcases blocks_run hrun hrow with ⟨old, hold, hcols, hemb⟩ |
      ⟨columns, rfl, ⟨hcols, hnone⟩ | ⟨old, hold, hid, hcols, hkept⟩⟩
    · rw [BlockRowOk, hcols, hemb]
      exact h.blockRow hold
    · refine ⟨hcols ▸ hgen, fun v hv => ?_⟩
      rw [hnone] at hv
      cases hv
    · -- a block of this identifier is at the same place of the same note
      have hplace : old.columns.noteId = columns.noteId ∧ old.columns.index = columns.index :=
        blockId_inj ((genuine_block (h.blockRows old hold)).1.symm.trans (hid.trans (genuine_block hgen).1))
      have hsame : row.columns = columns := by
        have hids : old.columns.id = columns.id := hid
        rw [hcols, hplace.1, hplace.2, hids]
      refine ⟨hsame ▸ hgen, fun v hv => ?_⟩
      obtain ⟨hhash, hrev, hbre, hemb⟩ := hkept v hv
      obtain ⟨hsch, content, headings, chunk, hcont, hpart, hchunk, htext⟩ :=
        h.blocks old hold v hemb
      refine ⟨hsch, content, headings, chunk, ?_⟩
      rw [hsame, ← hplace.2, ← hhash, ← hrev, ← hbre]
      exact ⟨hcont, hpart, hchunk, htext⟩

lemma schema_of_any {epoch : Nat} (h : (s.schema.any fun schema => schema.epoch = epoch)) :
    ∃ schema, s.schema = some schema ∧ schema.epoch = epoch := by
  cases hsch : s.schema with
  | none =>
    rw [hsch] at h
    cases h
  | some schema =>
    rw [hsch] at h
    exact ⟨schema, rfl, of_decide_eq_true h⟩

/-- What was computed under the worker's model for a generation is of the schema, if the schema is still
of that generation. -/
lemma Invariant.ofSchema (h : Invariant e s) (htoken : token ∈ s.tokens)
    (hsch : (s.schema.any fun schema => schema.epoch = token.schemaEpoch)) (text : Text) :
    OfSchema s ⟨s.model, token.schemaEpoch, text⟩ := by
  obtain ⟨schema, hsome, hepoch⟩ := schema_of_any hsch
  obtain ⟨schema', hsome', -, hmodel⟩ := h.tokens token htoken
  cases hsome.symm.trans hsome'
  exact ⟨schema, hsome, (hmodel hepoch.symm).symm, hepoch.symm⟩

lemma isCurrent_iff : isCurrent token row ↔
      row.id = token.id ∧ row.columns.revision = token.revision ∧ row.embeddingEpoch = token.epoch := by
  simp [isCurrent, and_assoc]

lemma columns_storeNote : (storeNote vector row).columns = row.columns := by
  cases vector <;> rfl

lemma columns_storeBlock {row : BlockRow Computed} : (storeBlock vector row).columns = row.columns := by
  cases vector <;> rfl

/-- A vector of a row after storing is a stored one or one of before. -/
lemma embedding_storeNote
    (h : (storeNote vector row).embedding = some v) : vector = some v ∨ row.embedding = some v := by
  cases vector with
  | none => exact .inr h
  | some stored => exact .inl h

lemma embedding_storeBlock {row : BlockRow Computed}
    (h : (storeBlock vector row).embedding = some v) : vector = some v ∨ row.embedding = some v := by
  cases vector with
  | none => exact .inr h
  | some stored => exact .inl h

lemma Invariant.completeNote (h : Invariant e s) (succeeded : Bool) (hsrc : (token, source) ∈ s.sources) :
    Invariant e (completeEmbedding token none
      (if succeeded then some ⟨s.model, token.schemaEpoch, noteText e s.model source⟩ else none) s) := by
  obtain ⟨htoken, hpath, htitle, hrev⟩ := h.sources _ hsrc
  rw [completeEmbedding]
  split
  · rename_i hcur
    have hsch := h.ofSchema htoken (Bool.and_eq_true_iff.mp hcur).1
    refine h.setTables (Nat.le_refl _) (fun row hrow => ?_) fun row hrow => h.blockRow hrow
    obtain ⟨old, hold, rfl⟩ := mem_update.mp hrow
    split
    · rename_i hmatch
      obtain ⟨hid, hcurR, -⟩ := isCurrent_iff.mp hmatch
      rw [NoteRowOk, columns_storeNote]
      refine ⟨h.noteRows old hold, fun v hv => ?_⟩
      rcases embedding_storeNote hv with hsto | hbef
      · cases succeeded with
        | false => cases hsto
        | true =>
          cases hsto
          obtain ⟨hpath', htitle'⟩ := genuine_note (h.noteRows old hold)
          have hids : old.columns.id = token.id := hid
          refine ⟨hsch _, source.content, hrev.trans hcurR.symm, ?_⟩
          rw [hpath', htitle', hids, ← htitle, ← hpath]
      · exact h.notes old hold v hbef
    · exact h.noteRow hold
  · exact h

lemma Invariant.completeBlock (h : Invariant e s) (hinj : Function.Injective e.contentRevision)
    {block : EmbeddingBlockToken} {headings : List Heading}
    {content : Text} (succeeded : Bool) (hsrc : (token, source) ∈ s.sources)
    (hblock : (token, block) ∈ s.blockTokens)
    (hchunk : (chunksOf e source.content)[block.index]? = some (headings, content)) :
    Invariant e (completeEmbedding token (some block) (if succeeded then some ⟨s.model, token.schemaEpoch,
        blockText (breadcrumbPrefix source.path source.title headings) content⟩ else none) s) := by
  obtain ⟨htoken, hpath, htitle, hrev⟩ := h.sources _ hsrc
  have hid : block.id = blockId token.id block.index := h.blockTokens _ hblock
  rw [completeEmbedding]
  split
  · rename_i hcur
    have hsch := h.ofSchema htoken (Bool.and_eq_true_iff.mp hcur).1
    refine h.setTables (Nat.le_refl _) (fun row hrow => h.noteRow hrow) fun row hrow => ?_
    obtain ⟨old, hold, rfl⟩ := mem_update.mp hrow
    split
    · rename_i hmatch
      rw [BlockRowOk, columns_storeBlock]
      refine ⟨h.blockRows old hold, fun v hv => ?_⟩
      rcases embedding_storeBlock hv with hsto | hbef
      · cases succeeded with
        | false => cases hsto
        | true =>
          cases hsto
          simp only [isCurrentBlock, Bool.and_eq_true, decide_eq_true_eq, and_assoc] at hmatch
          obtain ⟨hnote, hnotR, hbloI, -⟩ := hmatch
          obtain ⟨holdId, original, parts, part, hcont, hpart, hhash, hbre⟩ :=
            genuine_block (h.blockRows old hold)
          -- the row is at the place of the listed block, and of the content that was read
          have hplace : old.columns.index = block.index :=
            (blockId_inj (holdId.symm.trans (hbloI.trans hid))).2
          have hsame : original = source.content :=
            hinj (hcont.trans (hnotR.trans hrev.symm))
          have hparts : (parts, part) = (headings, content) := by
            rw [hsame, hplace, hchunk] at hpart
            exact (Option.some.inj hpart).symm
          cases hparts
          refine ⟨hsch _, original, headings, content, hcont, hpart, hhash, ?_⟩
          rw [hbre, hnote, hpath, htitle]
      · exact h.blocks old hold v hbef
    · exact h.blockRow hold
  · exact h

lemma notes_clearNotes (tables : Tables Computed) (hrow : row ∈ (clearNotes tables).notes) :
    row.embedding = none ∧ ∃ old ∈ tables.notes, row.columns = old.columns := by
  obtain ⟨place, hplace, rfl⟩ := mem_mapIdx.mp hrow
  exact ⟨rfl, tables.notes[place], getElem_mem hplace, rfl⟩

lemma blocks_clearBlocks (tables : Tables Computed) {row : BlockRow Computed}
    (hrow : row ∈ (clearBlocks tables).blocks) :
    row.embedding = none ∧ ∃ old ∈ tables.blocks, row.columns = old.columns := by
  obtain ⟨place, hplace, rfl⟩ := mem_mapIdx.mp hrow
  exact ⟨rfl, tables.blocks[place], getElem_mem hplace, rfl⟩

/-- A schema of another model or other dimensions has a new generation and no vectors. -/
lemma Invariant.changeSchema (h : Invariant e s) : Invariant e { s with
      tables := { clearBlocks (clearNotes s.tables) with
        generation := (clearBlocks (clearNotes s.tables)).generation + 1 }
      noteDimensions := some dimensions
      blockDimensions := some dimensions
      schema := some ⟨model, dimensions, (clearBlocks (clearNotes s.tables)).generation + 1⟩ } where
  notes row hrow v hv := by
    rw [(notes_clearNotes s.tables hrow).1] at hv
    cases hv
  blocks row hrow v hv := by
    rw [(blocks_clearBlocks (clearNotes s.tables) hrow).1] at hv
    cases hv
  noteRows row hrow := by
    obtain ⟨-, old, hold, hcols⟩ := notes_clearNotes s.tables hrow
    exact hcols ▸ h.noteRows old hold
  blockRows row hrow := by
    obtain ⟨-, old, hold, hcols⟩ := blocks_clearBlocks (clearNotes s.tables) hrow
    exact hcols ▸ h.blockRows old hold
  sameDimensions := rfl
  epoch schema hsch := by
    cases hsch
    exact Nat.le_refl _
  tokens token htoken := by
    -- what was listed before is of an earlier generation
    obtain ⟨schema, hsch, hle, -⟩ := h.tokens token htoken
    have hbef : token.schemaEpoch < (clearBlocks (clearNotes s.tables)).generation + 1 := by
      have hepoch := h.epoch schema hsch
      rw [clearBlocks, clearNotes]
      dsimp only
      omega
    exact ⟨_, rfl, hbef.le, fun hsame => absurd hsame hbef.ne⟩
  sources := h.sources
  blockTokens := h.blockTokens

/-- A schema of the same model and the same dimensions is kept. -/
lemma Invariant.keepSchema (h : Invariant e s)
    (hmodel : ∀ schema, s.schema = some schema → schema.model = model) : Invariant e { s with
      tables := { s.tables with generation := s.tables.generation + 1 }
      noteDimensions := some dimensions
      blockDimensions := some dimensions
      schema := some ⟨model, dimensions, match s.schema with
        | some schema => schema.epoch
        | none => s.tables.generation + 1⟩ } := { h with
  notes := fun row hrow v hv => by
    obtain ⟨⟨schema, hsch, hvect⟩, hnote⟩ := h.notes row hrow v hv
    refine ⟨⟨_, rfl, ?_⟩, hnote⟩
    rw [hsch, ← hmodel schema hsch]
    exact hvect
  blocks := fun row hrow v hv => by
    obtain ⟨⟨schema, hsch, hvect⟩, hblock⟩ := h.blocks row hrow v hv
    refine ⟨⟨_, rfl, ?_⟩, hblock⟩
    rw [hsch, ← hmodel schema hsch]
    exact hvect
  sameDimensions := rfl
  epoch := fun schema hsch => by
    cases hsch
    cases hbef : s.schema with
    | none => exact Nat.le_refl _
    | some before => exact (h.epoch before hbef).trans (Nat.le_succ _)
  tokens := fun token htoken => by
    obtain ⟨schema, hsch, htoks⟩ := h.tokens token htoken
    refine ⟨_, rfl, ?_⟩
    rw [hsch, ← hmodel schema hsch]
    exact htoks }

lemma Invariant.reset (h : Invariant e s) (model : String) (dimensions : Nat) :
    Invariant e (ensureEmbeddingSchema model dimensions s) := by
  rw [ensureEmbeddingSchema, ← h.sameDimensions]
  by_cases hchg : s.noteDimensions ≠ some (min (max dimensions 1) (2 ^ 31 - 1)) ∨
      (s.schema.any fun schema => schema.model ≠ effectiveModel model) = true
  · have hany := Or.inr (a := s.noteDimensions ≠ some (min (max dimensions 1) (2 ^ 31 - 1))) hchg
    simp only [if_pos hchg, if_pos hany]
    cases hsch : s.schema with
    | none | some => exact h.changeSchema
  have hany : ¬(s.noteDimensions ≠ some (min (max dimensions 1) (2 ^ 31 - 1)) ∨
      s.noteDimensions ≠ some (min (max dimensions 1) (2 ^ 31 - 1)) ∨
      (s.schema.any fun schema => schema.model ≠ effectiveModel model) = true) :=
    fun h => h.elim (fun h => hchg (.inl h)) hchg
  simp only [if_neg hchg, if_neg hany]
  refine h.keepSchema fun schema hsch => ?_
  by_contra hmodel
  refine hchg (.inr ?_)
  rw [hsch, Option.any_some]
  exact decide_eq_true hmodel

/-- The tables may be those of the state. -/
def MayHave (e : Environment) (s : State) (tables : Tables Computed) : Prop :=
  Reachable e { s with tables }

lemma MayHave.run (h : MayHave e s tables) (statement : Statement) (hgen : Genuine e statement)
    (hrun : statement.run tables = some (after, affected)) : MayHave e s after :=
  Reachable.step (s := { s with tables }) h (.project hgen hrun)

lemma Invariant.step (h : Invariant e s) (hinj : Function.Injective e.contentRevision)
    (hstep : Step e s s') : Invariant e s' := by
  cases hstep with
  | project hgen hrun => exact h.project hgen hrun
  | draw count =>
    exact h.setTables (Nat.le_add_right _ _) (fun row hrow => h.noteRow hrow) fun row hrow => h.blockRow hrow
  | @list token after limit failures blocks htoken =>
    refine { h with tokens := ?_, sources := ?_ }
    · refine forall_mem_cons.mpr ⟨?_, h.tokens⟩
      rw [embeddingCandidates] at htoken
      cases hsch : s.schema with
      | none =>
        rw [hsch] at htoken
        cases htoken
      | some schema =>
        simp only [hsch] at htoken
        split at htoken
        · rename_i hwork
          obtain ⟨row, -, rfl⟩ := mem_map.mp htoken
          exact ⟨schema, rfl, Nat.le_refl _, fun _ => hwork.1⟩
        · cases htoken
    · intro entry hentry
      obtain ⟨htoks, hrest⟩ := h.sources entry hentry
      exact ⟨mem_cons_of_mem _ htoks, hrest⟩
  | @capture token path title content htoken hsrc hrev =>
    refine { h with sources := ?_ }
    refine forall_mem_cons.mpr ⟨⟨htoken, ?_⟩, h.sources⟩
    rw [embeddingSource, Option.map_eq_some_iff] at hsrc
    obtain ⟨row, hfind, hrow⟩ := hsrc
    obtain ⟨hid, -⟩ := isCurrent_iff.mp (List.find?_some hfind)
    obtain ⟨hpath, htitle⟩ := genuine_note (h.noteRows row (mem_of_find?_eq_some hfind))
    have hids : row.columns.id = token.id := hid
    cases hrow
    exact ⟨hpath.trans hids, htitle.trans (by rw [hids]), hrev⟩
  | @listBlocks token block after failures htoken hblock =>
    refine { h with blockTokens := ?_ }
    refine forall_mem_cons.mpr ⟨?_, h.blockTokens⟩
    rw [embeddingBlocks] at hblock
    split at hblock
    · obtain ⟨row, hrow, rfl⟩ := mem_map.mp hblock
      obtain ⟨hmem, hmatch⟩ := mem_filter.mp (InsertionOrder.mem_sortBy.mp (mem_of_mem_take hrow))
      simp only [Bool.and_eq_true, decide_eq_true_eq, and_assoc] at hmatch
      obtain ⟨hplace, -⟩ := genuine_block (h.blockRows row hmem)
      have hids : row.id = blockId row.columns.noteId row.columns.index := hplace
      rw [hids, hmatch.1]
    · cases hblock
  | completeNote succeeded hsrc hpend => exact h.completeNote succeeded hsrc
  | completeBlock succeeded hsrc hblock hchunk hhash =>
    exact h.completeBlock hinj succeeded hsrc hblock hchunk
  | invalidate htoken =>
    rw [invalidateEmbeddingProjection]
    split
    · exact h.setTables (Nat.le_refl _) (fun row hrow => h.noteRow hrow) fun row hrow => h.blockRow hrow
    · exact h
  | reset model dimensions => exact h.reset model dimensions
  | restart model dimensions =>
    refine { h with tokens := ?_, sources := ?_, blockTokens := ?_ }
    · exact fun token htoken => nomatch htoken
    · exact fun entry hentry => nomatch hentry
    · exact fun entry hentry => nomatch hentry

lemma invariant_of_reachable (hinj : Function.Injective e.contentRevision) (h : Reachable e s) : Invariant e s := by
  induction h with
  | start model dimensions =>
    refine { notes := ?_, blocks := ?_, noteRows := ?_, blockRows := ?_, sameDimensions := rfl
             epoch := ?_, tokens := ?_, sources := ?_, blockTokens := ?_ }
    · exact fun row hrow => nomatch hrow
    · exact fun row hrow => nomatch hrow
    · exact fun row hrow => nomatch hrow
    · exact fun row hrow => nomatch hrow
    · exact fun schema hsch => nomatch hsch
    · exact fun token htoken => nomatch htoken
    · exact fun entry hentry => nomatch hentry
    · exact fun entry hentry => nomatch hentry
  | step _ hstep ih => exact ih.step hinj hstep

/-- A vector is of the schema's generation and of the current text of its row, in whatever order
projections, the worker and resets run. -/
theorem vectors_are_fresh (hinj : Function.Injective e.contentRevision) (h : Reachable e s) : Fresh e s :=
  (invariant_of_reachable hinj h).toFresh

def sampleEnvironment : Environment where
  derivation :=
    { firstH1Title := fun _ => none, plainText := String.ofList, chunks := fun _ body => [([], body)]
      sha256 := String.ofList, toLowercase := id }
  settings := ⟨0, 1000, 0⟩
  yaml := { parse := fun _ => none, print := fun _ => [] }
  inlineTags := fun _ => []
  links := fun _ => []
  contentRevision := String.ofList
  usesClient := fun _ => true

def sampleStatements : List Statement :=
  let input := noteInputOf sampleEnvironment "d/a.md" "hi".toList none 0
  [.upsertFile "d/a.md" "hi" none 0, .upsertNote (noteColumns sampleEnvironment.derivation input "hi"),
    .setLexical "d/a.md" (lexicalColumns sampleEnvironment.derivation input),
    .completeFile "d/a.md" "hi" 3]

def runEach : List Statement → Tables Computed → Tables Computed
  | [], tables => tables
  | statement :: statements, tables =>
    match statement.run tables with
    | some (after, _) => runEach statements after
    | none => tables

/-- The note is there, and the schema is the worker's. -/
def samplePending : State :=
  let s := ensureEmbeddingSchema "m" 1 { model := "m", dimensions := 1 }
  { s with tables := runEach sampleStatements s.tables }

def sampleToken : EmbeddingNoteToken := ⟨"d/a.md", "hi", 2, true, 1⟩

def sampleFile : Source := ⟨"d/a.md", "a", "hi".toList⟩

def sampleRead : State :=
  { samplePending with tokens := [sampleToken], sources := [(sampleToken, sampleFile)] }

def sampleStored : State :=
  completeEmbedding sampleToken none (some ⟨"m", 1, noteText sampleEnvironment "m" sampleFile⟩) sampleRead

lemma MayHave.runEach {statements : List Statement} (h : MayHave e s tables)
    (hgen : ∀ statement ∈ statements, Genuine e statement) : MayHave e s (runEach statements tables) := by
  induction statements generalizing tables with
  | nil => exact h
  | cons statement statements ih =>
    rw [EmbeddingWorker.runEach]
    split
    · rename_i after affected hrun
      refine ih (h.run statement (hgen statement mem_cons_self) hrun) fun other hother => ?_
      exact hgen other (mem_cons_of_mem _ hother)
    · exact h

lemma reachable_samplePending : Reachable sampleEnvironment samplePending := by
  have hreset : Reachable sampleEnvironment
      (ensureEmbeddingSchema "m" 1 { model := "m", dimensions := 1 }) :=
    .step (.start "m" 1) (.reset "m" 1)
  refine MayHave.runEach (s := ensureEmbeddingSchema "m" 1 { model := "m", dimensions := 1 }) hreset ?_
  have hnote : Genuine sampleEnvironment (.upsertNote (noteColumns sampleEnvironment.derivation
      (noteInputOf sampleEnvironment "d/a.md" "hi".toList none 0) "hi")) := by
    exact ⟨"d/a.md", "hi".toList, none, 0, by decide, rfl⟩
  simp only [sampleStatements, forall_mem_cons]
  exact ⟨trivial, hnote, trivial, trivial, fun _ h => nomatch h⟩

lemma reachable_sampleStored : Reachable sampleEnvironment sampleStored := by
  have hlst : sampleToken ∈ embeddingCandidates samplePending "" 1 1 false := by
    have hcand : embeddingCandidates samplePending "" 1 1 false = [sampleToken] := by rfl
    exact mem_singleton_self _
  have hcapt : Step sampleEnvironment { samplePending with tokens := [sampleToken] } sampleRead :=
    .capture mem_cons_self rfl rfl
  have hread : Reachable sampleEnvironment sampleRead :=
    .step (.step reachable_samplePending (.list hlst)) hcapt
  exact .step hread (.completeNote true mem_cons_self rfl)

/-- The stored vector is of the folder, the title and the body. -/
theorem sample_fresh : (sampleStored.tables.notes.map fun row => row.embedding.map Computed.text)
      = [some "d > a\nhi".toList] ∧ Fresh sampleEnvironment sampleStored :=
  ⟨by decide, vectors_are_fresh (fun _ _ h => String.ofList_injective h) reachable_sampleStored⟩

end EmbeddingWorker
