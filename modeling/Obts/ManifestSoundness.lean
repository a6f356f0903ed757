import Obts.ProjectionWrites

/-!
# The manifest of rows

While a write or a deletion is under way, the row of its file is marked incomplete. A write marks it
complete only when all that it put there is there and the rows are as many: nothing is left over then.
-/
namespace ProjectionTables

open InsertionOrder RustText BatchWriter BatchWriter.Writer KeyedRows List Bool Statement

variable {V : Type} {path revision : String} {start tables after : Tables V} {affected : Nat}
variable {statement : Statement} {columns : BlockColumns} {write : PreparedVaultWrite}
  {row other : LinkRow}

/-- The file is marked incomplete, and the rows of the others are those of the start. -/
structure UnderWay (path : String) (start tables : Tables V) : Prop where
  keyed : tables.Keyed
  incomplete : ∀ row ∈ tables.files, row.path = path → row.complete = false
  others : ∀ other, other ≠ path → SameAt other tables start

def Statement.completing : Statement → Bool
  | .completeFile .. => true
  | _ => false

/-- The statement marks its file as incomplete. -/
def Statement.invalidating : Statement → Bool
  | .upsertFile .. => true
  | .invalidateFile _ => true
  | _ => false

lemma incomplete_of_invalidating (hinv : statement.invalidating)
    (hrun : statement.run tables = some (after, affected)) :
    ∀ row ∈ after.files, row.path = statement.owner → row.complete = false := by
  cases statement with
  | upsertFile path revision createdAt updatedAt =>
    cases hrun
    intro row hrow hpath
    rcases mem_upsert.mp hrow with ⟨-, hne⟩ | ⟨old, -, -, rfl⟩ | ⟨rfl, -⟩
    · exact absurd hpath hne
    · rfl
    · rfl
  | invalidateFile path =>
    cases hrun
    intro row hrow hpath
    obtain ⟨old, -, rfl⟩ := mem_update.mp hrow
    by_cases hold : old.path = path
    · rw [if_pos (decide_eq_true hold)]
    · rw [if_neg (by simpa using hold)] at hpath
      exact absurd hpath hold
  | _ => cases hinv

/-- A statement that does not complete a file leaves the files, or their marks are taken away. -/
lemma incomplete_run (hcpl : statement.completing = false) (hrun : statement.run tables = some (after, affected))
    (h : ∀ row ∈ tables.files, row.path = path → row.complete = false) :
    ∀ row ∈ after.files, row.path = path → row.complete = false := by
  cases statement with
  | upsertFile owner revision createdAt updatedAt =>
    cases hrun
    intro row hrow hpath
    rcases mem_upsert.mp hrow with ⟨hmem, -⟩ | ⟨old, -, -, rfl⟩ | ⟨rfl, -⟩
    · exact h row hmem hpath
    · rfl
    · rfl
  | invalidateFile owner =>
    cases hrun
    intro row hrow hpath
    obtain ⟨old, hold, rfl⟩ := mem_update.mp hrow
    by_cases hpick : old.path = owner
    · rw [if_pos (decide_eq_true hpick)]
    · rw [if_neg (by simpa using hpick)] at hpath ⊢
      exact h old hold hpath
  | deleteFile owner =>
    cases hrun
    intro row hrow hpath
    exact h row (mem_delete.mp hrow).1 hpath
  | completeFile owner revision expected => cases hcpl
  | insertTag | upsertLink | upsertBlock =>
    rw [run] at hrun
    split at hrun <;> cases hrun
    exact h
  | _ =>
    cases hrun
    exact h

lemma UnderWay.begin (h : tables.Keyed) (hwell : statement.WellFormed)
    (hinv : statement.invalidating) (hrun : statement.run tables = some (after, affected)) :
    UnderWay statement.owner tables after where
  keyed := keyed_run h hrun hwell
  incomplete := incomplete_of_invalidating hinv hrun
  others := fun _ hother => sameAt_run h hrun hwell hother.symm

lemma UnderWay.run (h : UnderWay path start tables)
    (hrun : statement.run tables = some (after, affected)) (howner : statement.owner = path)
    (hwell : statement.WellFormed) (hcpl : statement.completing = false) : UnderWay path start after where
  keyed := keyed_run h.keyed hrun hwell
  incomplete := incomplete_run hcpl hrun h.incomplete
  others := fun other hother =>
    (sameAt_run h.keyed hrun hwell (howner.trans_ne hother.symm)).trans (h.others other hother)

lemma run_insertTag {row : TagRow} (hrun : (Statement.insertTag row).run tables = some (after, affected)) :
    after = { tables with tags := tables.tags ++ [row] } := by
  rw [run] at hrun
  split at hrun <;> cases hrun
  rfl

lemma run_upsertLink (hrun : (Statement.upsertLink row).run tables = some (after, affected)) : after = { tables with
      links := upsert LinkRow.key row (fun old => { old with position := row.position }) tables.links } := by
  rw [run] at hrun
  split at hrun <;> cases hrun
  rfl

lemma run_upsertBlock (hrun : (Statement.upsertBlock columns).run tables = some (after, affected)) :
    after = { tables with
      blocks := upsert BlockRow.id
        { columns, embeddingEpoch := tables.generation + 1, derivedEpoch := tables.generation + 2 }
        (replaceBlock (tables.generation + 3) columns) tables.blocks
      generation := tables.generation + 3 } := by
  rw [run] at hrun
  split at hrun <;> cases hrun
  rfl

section Notes
variable {batching : Batching} {derivation : Derivation} {settings : BlockSettings}
variable {input : NoteInput} {revision : String} {w : Writer (Tables V)} {links : List LinkInput}

section Put
variable (derivation : Derivation) (settings : BlockSettings) (input : NoteInput) (revision : String)

def HasNote (tables : Tables V) : Prop :=
  ∃ row ∈ tables.notes, row.columns = noteColumns derivation input revision ∧
    row.lexical = some (lexicalColumns derivation input)

/-- All the rows of the note are there. -/
structure Put (tables : Tables V) : Prop where
  note : HasNote derivation input revision tables
  tags : ∀ row ∈ tagRows input, row ∈ tables.tags
  links : ∀ row ∈ linkRows input, row ∈ tables.links
  blocks : ∀ columns ∈ blockColumns derivation settings input revision, ∃ row ∈ tables.blocks, row.columns = columns

end Put

lemma mem_blockColumns (h : columns ∈ blockColumns derivation settings input revision) :
    columns.noteId = input.id ∧ columns.id = blockId input.id columns.index ∧
      (blockColumns derivation settings input revision)[columns.index]? = some columns := by
  obtain ⟨index, hindex, hget⟩ := mem_iff_getElem.mp h
  have hplace : columns.index = index := by
    rw [← hget]
    simp [blockColumns]
  refine ⟨?_, ?_, ?_⟩
  · rw [← hget]
    simp [blockColumns]
  · rw [hplace, ← hget]
    simp [blockColumns]
  · rw [hplace, List.getElem?_eq_getElem hindex, hget]

lemma index_blockColumns (h : columns ∈ blockColumns derivation settings input revision) :
    columns.index < (blockColumns derivation settings input revision).length :=
  (List.getElem?_eq_some_iff.mp (mem_blockColumns h).2.2).1

/-- Blocks with the same identifier are the same. -/
lemma blockColumns_inj {other : BlockColumns} (h : columns ∈ blockColumns derivation settings input revision)
    (hother : other ∈ blockColumns derivation settings input revision) (hid : columns.id = other.id) :
    columns = other := by
  obtain ⟨-, hcols, hget⟩ := mem_blockColumns h
  obtain ⟨-, hoth, hgetO⟩ := mem_blockColumns hother
  rw [hcols, hoth] at hid
  rw [(blockId_inj hid).2, hgetO] at hget
  exact (Option.some.inj hget).symm

lemma targets_addLink {link : LinkInput} :
    (addLink links link).map LinkInput.targetId = add (links.map LinkInput.targetId) link.targetId := by
  rw [addLink, add]
  by_cases hmem : link.targetId ∈ links.map LinkInput.targetId
  · rw [if_pos (by simpa using hmem), if_pos hmem, map_map]
    refine map_congr_left fun existing _ => ?_
    dsimp only [Function.comp_apply]
    split
    · rename_i hrepl
      simp only [and_eq_true, decide_eq_true_eq] at hrepl
      exact hrepl.1.symm
    · rfl
  · rw [if_neg (by simpa using hmem), if_neg hmem, map_append, map_singleton]

lemma nodup_targets : ((orderedLinks links).map LinkInput.targetId).Nodup := by
  have hfold : ∀ start : List LinkInput, (start.map LinkInput.targetId).Nodup →
      ((links.foldl addLink start).map LinkInput.targetId).Nodup := by
    induction links with
    | nil => exact fun start hstart => hstart
    | cons link links ih =>
      intro start hstart
      refine ih _ ?_
      rw [targets_addLink]
      exact nodup_add hstart _
  exact ((sortBy_perm _ _).map _).nodup_iff.mpr (hfold [] nodup_nil)

lemma targets_linkRows :
    (linkRows input).map LinkRow.targetId = (orderedLinks input.links).map LinkInput.targetId := by
  rw [linkRows, map_map]
  rfl

/-- Links to the same target are the same. -/
lemma linkRows_inj (h : row ∈ linkRows input) (hother : other ∈ linkRows input)
    (hkey : row.key = other.key) : row = other := by
  have hnodup : ((linkRows input).map LinkRow.targetId).Nodup := by
    rw [targets_linkRows]
    exact nodup_targets
  exact inj_on_of_nodup_map hnodup h hother (congrArg Prod.snd hkey)

lemma hasNote_of_notes_eq (h : HasNote derivation input revision tables)
    (hnotes : after.notes = tables.notes) : HasNote derivation input revision after := by
  rw [HasNote, hnotes]
  exact h

lemma columns_upsertNote {columns : NoteColumns}
    (hrun : (Statement.upsertNote columns).run tables = some (after, affected)) :
    ∃ row ∈ after.notes, row.columns = columns := by
  cases hrun
  by_cases hmem : columns.id ∈ tables.notes.map NoteRow.id
  · obtain ⟨old, hold, hid⟩ := mem_map.mp hmem
    exact ⟨_, mem_upsert.mpr (.inr (.inl ⟨old, hold, hid, rfl⟩)), columns_replaceNote⟩
  · exact ⟨_, mem_upsert.mpr (.inr (.inr ⟨rfl, hmem⟩)), rfl⟩

lemma hasNote_setLexical (h : ∃ row ∈ tables.notes, row.columns = noteColumns derivation input revision)
    (hrun : (Statement.setLexical input.id (lexicalColumns derivation input)).run tables
      = some (after, affected)) : HasNote derivation input revision after := by
  cases hrun
  obtain ⟨row, hrow, hcols⟩ := h
  have hid : row.id = input.id := congrArg NoteColumns.id hcols
  exact ⟨_, mem_update.mpr ⟨row, hrow, if_pos (decide_eq_true hid)⟩, hcols, rfl⟩

lemma mem_upsertLink
    (hrun : (Statement.upsertLink row).run tables = some (after, affected)) : row ∈ after.links := by
  rw [run_upsertLink hrun]
  by_cases hmem : row.key ∈ tables.links.map LinkRow.key
  · obtain ⟨old, hold, hkey⟩ := mem_map.mp hmem
    refine mem_upsert.mpr (.inr (.inl ⟨old, hold, hkey, ?_⟩))
    obtain ⟨hsrc, htgt⟩ := Prod.mk.inj hkey
    rw [hsrc, htgt]
  · exact mem_upsert.mpr (.inr (.inr ⟨rfl, hmem⟩))

lemma mem_upsertLink_of_ne
    (hrun : (Statement.upsertLink row).run tables = some (after, affected)) (h : other ∈ tables.links)
    (hne : other.key ≠ row.key) : other ∈ after.links := by
  rw [run_upsertLink hrun]
  exact mem_upsert.mpr (.inl ⟨h, hne⟩)

lemma exists_upsertBlock (hkeyed : tables.Keyed) (hwell : columns.id = blockId columns.noteId columns.index)
    (hrun : (Statement.upsertBlock columns).run tables = some (after, affected)) :
    ∃ row ∈ after.blocks, row.columns = columns := by
  rw [run_upsertBlock hrun]
  by_cases hmem : columns.id ∈ tables.blocks.map BlockRow.id
  · obtain ⟨old, hold, hid⟩ := mem_map.mp hmem
    refine ⟨_, mem_upsert.mpr (.inr (.inl ⟨old, hold, hid, rfl⟩)), ?_⟩
    -- the row that is replaced is that of the same note and place
    have hplace := blockId_inj ((hkeyed.blockIds old hold).symm.trans (hid.trans hwell))
    rw [columns_replaceBlock, hplace.1, hplace.2, ← BlockRow.id, hid]
  · exact ⟨_, mem_upsert.mpr (.inr (.inr ⟨rfl, hmem⟩)), rfl⟩

lemma mem_upsertBlock_of_ne {other : BlockRow V}
    (hrun : (Statement.upsertBlock columns).run tables = some (after, affected))
    (h : other ∈ tables.blocks) (hne : other.id ≠ columns.id) : other ∈ after.blocks := by
  rw [run_upsertBlock hrun]
  exact mem_upsert.mpr (.inl ⟨h, hne⟩)

lemma mem_pageAfter {keys : List String} {key later : String} (h : key ∈ pageAfter keys later) : key ∈ keys :=
  (mem_filter.mp (mem_sortBy.mp (mem_of_mem_take h))).1

section Rules
variable {X : Tables V → Prop}

/-- Statements about the file that do not complete it. -/
structure Statement.Within (path : String) (statement : Statement) : Prop where
  owner : statement.owner = path
  wellFormed : statement.WellFormed
  completing : statement.completing = false

lemma sweep_yields {select : Tables V → String → List String} {statement : String → Statement}
    (h : Safe (UnderWay path start) w) (hview : UnderWay path start w.view) (hX : X w.view)
    (hwin : ∀ key, (statement key).Within path)
    (hkey : ∀ begun key later, UnderWay path start begun → key ∈ select begun later →
      ∀ tables after affected, X tables → (statement key).run tables = some (after, affected) → X after) :
    Yields (UnderWay path start) (fun tables => UnderWay path start tables ∧ X tables)
      (sweep batching select statement w) := by
  refine yields_sweep h.flush tx_flush (by rw [view_flush]; exact ⟨hview, hX⟩) ?_
  rintro begun later ⟨hbegun, -⟩ key hmem tables after affected ⟨hway, htabs⟩ hrun
  have hafter := hway.run hrun (hwin key).owner (hwin key).wellFormed (hwin key).completing
  exact ⟨hafter, hafter, hkey begun key later hbegun hmem tables after affected htabs hrun⟩

/-- Rows that are put in are there in the end. -/
lemma execEach_yields {ι : Type} {make : ι → Statement} {items : List ι} {Q : ι → Tables V → Prop}
    (h : Safe (UnderWay path start) w) (hview : UnderWay path start w.view) (hX : X w.view)
    (hmake : Function.Injective make) (hwin : ∀ item ∈ items, (make item).Within path)
    (hitem : ∀ item ∈ items, ∀ tables after affected, UnderWay path start tables → X tables →
      (make item).run tables = some (after, affected) →
      X after ∧ Q item after ∧ ∀ other ∈ items, Q other tables → Q other after) : Yields (UnderWay path start)
      (fun tables => UnderWay path start tables ∧ X tables ∧ ∀ item ∈ items, Q item tables)
      (execEach batching (items.map make) w) := by
  have hall : ([] ++ items.map make) = items.map make := nil_append _
  refine Yields.mono (yields_execEach (P := fun done tables => UnderWay path start tables ∧ X tables ∧
    ∀ item ∈ items, make item ∈ done → Q item tables) [] h
    ⟨hview, hX, fun item _ hdone => absurd hdone not_mem_nil⟩ ?_) fun tables htabs => ?_
  rotate_left
  · exact ⟨htabs.1, htabs.2.1, fun item hmem => htabs.2.2 item hmem (mem_map_of_mem hmem)⟩
  rintro done _ tables after affected hmem ⟨hway, htabs, hdone⟩ hrun
  obtain ⟨item, hitems, rfl⟩ := mem_map.mp hmem
  have hstep := hwin item hitems
  have hafter := hway.run hrun hstep.owner hstep.wellFormed hstep.completing
  obtain ⟨hXaf, hQ, hkept⟩ := hitem item hitems tables after affected hway htabs hrun
  refine ⟨hafter, hafter, hXaf, fun other hother hoth => ?_⟩
  rcases mem_append.mp hoth with hbef | hnow
  · exact hkept other hother (hdone other hother hbef)
  · rw [hmake (mem_singleton.mp hnow)]
    exact hQ

end Rules

section
variable (h : Safe (UnderWay input.id start) w)
include h

section
variable (hview : UnderWay input.id start w.view) {X : Tables V → Prop}
include hview

lemma tags_yields (hX : X w.view) (hkept : ∀ tables tags, X tables → X { tables with tags }) :
    Yields (UnderWay input.id start)
      (fun tables => UnderWay input.id start tables ∧ X tables ∧ ∀ row ∈ tagRows input, row ∈ tables.tags)
      (execEach batching ((tagRows input).map .insertTag) w) := by
  refine execEach_yields h hview hX (fun _ _ => insertTag.inj) ?_ ?_
  · intro row hrow
    obtain ⟨tag, -, rfl⟩ := mem_map.mp hrow
    exact ⟨rfl, trivial, rfl⟩
  intro row _ tables after affected _ htabs hrun
  obtain rfl := run_insertTag hrun
  exact ⟨hkept _ _ htabs, by simp, fun other _ hother => mem_append_left _ hother⟩

lemma links_yields (hX : X w.view) (hkept : ∀ tables links, X tables → X { tables with links }) :
    Yields (UnderWay input.id start) (fun tables => UnderWay input.id start tables ∧ X tables ∧
        ∀ row ∈ linkRows input, row ∈ tables.links) (execEach batching ((linkRows input).map .upsertLink) w) := by
  refine execEach_yields h hview hX (fun _ _ => upsertLink.inj) ?_ ?_
  · intro row hrow
    obtain ⟨link, -, rfl⟩ := mem_map.mp hrow
    exact ⟨rfl, trivial, rfl⟩
  intro row hrow tables after affected _ htabs hrun
  have hX : X after := by
    rw [run_upsertLink hrun]
    exact hkept _ _ htabs
  refine ⟨hX, mem_upsertLink hrun, fun other hother hmem => ?_⟩
  by_cases hkey : other.key = row.key
  · rw [linkRows_inj hother hrow hkey]
    exact mem_upsertLink hrun
  · exact mem_upsertLink_of_ne hrun hmem hkey

lemma blocks_yields (hX : X w.view)
    (hkept : ∀ tables blocks generation, X tables → X { tables with blocks, generation }) :
    Yields (UnderWay input.id start) (fun tables => UnderWay input.id start tables ∧ X tables ∧
        ∀ columns ∈ blockColumns derivation settings input revision, ∃ row ∈ tables.blocks, row.columns = columns)
      (execEach batching ((blockColumns derivation settings input revision).map .upsertBlock) w) := by
  refine execEach_yields h hview hX (fun _ _ => upsertBlock.inj) ?_ ?_
  · intro columns hcols
    obtain ⟨hnote, hid, -⟩ := mem_blockColumns hcols
    exact ⟨hnote, by rw [Statement.WellFormed, hnote, hid], rfl⟩
  intro columns hcols tables after affected hway htabs hrun
  have hX : X after := by
    rw [run_upsertBlock hrun]
    exact hkept _ _ _ htabs
  obtain ⟨hnote, hid, -⟩ := mem_blockColumns hcols
  have hhere : ∃ row ∈ after.blocks, row.columns = columns :=
    exists_upsertBlock hway.keyed (by rw [hid, hnote]) hrun
  refine ⟨hX, hhere, fun other hother => ?_⟩
  rintro ⟨row, hrow, rfl⟩
  by_cases hsame : row.id = columns.id
  · rw [blockColumns_inj hother hcols hsame]
    exact hhere
  · exact ⟨row, mem_upsertBlock_of_ne hrun hrow hsame, rfl⟩

/-- Only blocks past the last are deleted. -/
lemma cleanupBlocks_yields (hput : Put derivation settings input revision w.view) : Yields (UnderWay input.id start)
      (fun tables => UnderWay input.id start tables ∧ Put derivation settings input revision tables)
      (cleanupBlocks batching input.id (some (blockColumns derivation settings input revision).length) w) := by
  refine sweep_yields h hview hput (fun key => ⟨rfl, trivial, rfl⟩) ?_
  intro begun key later hbegun hmem tables after affected htabs hrun
  obtain ⟨past, hpast, rfl⟩ := mem_map.mp (mem_pageAfter hmem)
  obtain ⟨hblock, hpick⟩ := mem_filter.mp hpast
  simp only [Option.all_some, and_eq_true, decide_eq_true_eq] at hpick
  cases hrun
  refine { htabs with blocks := fun columns hcols => ?_ }
  obtain ⟨row, hrow, rfl⟩ := htabs.blocks columns hcols
  refine ⟨row, mem_delete.mpr ⟨hrow, ?_⟩, rfl⟩
  rw [and_eq_false_iff, decide_eq_false_iff_not, decide_eq_false_iff_not]
  refine .inr fun hid => ?_
  -- the block would stand both before and past the end
  have hindex := index_blockColumns hcols
  have hkey : blockId input.id row.columns.index = blockId past.columns.noteId past.columns.index :=
    (mem_blockColumns hcols).2.1.symm.trans (hid.trans (hbegun.keyed.blockIds past hblock))
  have hplace := (blockId_inj hkey).2
  omega

/-- The statements of a note put all its rows there. -/
lemma projectNote_yields (hmark : endsWith input.id ".md") : Yields (UnderWay input.id start)
      (fun tables => UnderWay input.id start tables ∧ Put derivation settings input revision tables)
      (projectNote batching derivation settings input revision w) := by
  refine Yields.bind (B := fun tables => UnderWay input.id start tables ∧
    ∃ row ∈ tables.notes, row.columns = noteColumns derivation input revision)
    (yields_exec h fun state affected hrun => ?_) fun w hsafe hB => ?_
  · have hway := hview.run hrun rfl hmark rfl
    exact ⟨hway, hway, columns_upsertNote hrun⟩
  refine Yields.bind (B := fun tables => UnderWay input.id start tables ∧ HasNote derivation input revision tables)
    (yields_exec hsafe fun state affected hrun => ?_) fun w hsafe hB => ?_
  · have hway := hB.1.run hrun rfl trivial rfl
    exact ⟨hway, hway, hasNote_setLexical hB.2 hrun⟩
  refine Yields.bind (sweep_yields hsafe hB.1 hB.2 (fun key => ⟨rfl, trivial, rfl⟩)
    fun _ key _ _ _ tables after affected hnote hrun => ?_) fun w hsafe hB => ?_
  · cases hrun
    exact hasNote_of_notes_eq hnote rfl
  refine Yields.bind (sweep_yields hsafe hB.1 hB.2 (fun key => ⟨rfl, trivial, rfl⟩)
    fun _ key _ _ _ tables after affected hnote hrun => ?_) fun w hsafe hB => ?_
  · cases hrun
    exact hasNote_of_notes_eq hnote rfl
  refine Yields.bind (tags_yields (X := HasNote derivation input revision) hsafe hB.1 hB.2
    fun _ _ hnote => hasNote_of_notes_eq hnote rfl) fun w hsafe hB => ?_
  refine Yields.bind (links_yields (X := fun tables => HasNote derivation input revision tables ∧
    ∀ row ∈ tagRows input, row ∈ tables.tags) hsafe hB.1 hB.2
    fun _ _ hkept => ⟨hasNote_of_notes_eq hkept.1 rfl, hkept.2⟩) fun w hsafe hB => ?_
  refine Yields.bind (blocks_yields (X := fun tables => (HasNote derivation input revision tables ∧
    ∀ row ∈ tagRows input, row ∈ tables.tags) ∧ ∀ row ∈ linkRows input, row ∈ tables.links) hsafe hB.1
    hB.2 fun _ _ _ hkept => ⟨⟨hasNote_of_notes_eq hkept.1.1 rfl, hkept.1.2⟩, hkept.2⟩)
    fun w hsafe hB => ?_
  obtain ⟨hway, ⟨⟨hnote, htags⟩, hlinks⟩, hblks⟩ := hB
  exact cleanupBlocks_yields hsafe hway ⟨hnote, htags, hlinks, hblks⟩

end

end

lemma begin_yields (statement : Statement) (hkeyed : start.Keyed) (hwell : statement.WellFormed)
    (hinv : statement.invalidating) : Yields (UnderWay statement.owner start) (UnderWay statement.owner start)
      (exec batching statement { committed := start }) := by
  refine yields_exec ⟨fun _ hmem => absurd hmem not_mem_nil, fun _ hnone => nomatch hnone⟩ ?_
  intro state affected hrun
  have hway := UnderWay.begin hkeyed hwell hinv hrun
  exact ⟨hway, hway⟩

lemma exec_yields (h : Safe (UnderWay path start) w) (hview : UnderWay path start w.view)
    (hwin : statement.Within path) :
    Yields (UnderWay path start) (UnderWay path start) (exec batching statement w) := by
  refine yields_exec h fun state affected hrun => ?_
  have hway := hview.run hrun hwin.owner hwin.wellFormed hwin.completing
  exact ⟨hway, hway⟩

lemma projectRows_yields (hkeyed : start.Keyed) : Yields (UnderWay write.path start)
      (fun tables => UnderWay write.path start tables ∧
        ∀ input, write.note = some input → Put derivation settings input revision tables)
      (projectRows batching derivation settings write revision start) := by
  refine Yields.bind (begin_yields (.upsertFile write.path revision write.createdAt write.updatedAt)
    hkeyed trivial rfl) fun w hsafe hview => ?_
  cases hnote : write.note with
  | none => exact ⟨hsafe.flush, by rw [view_flush]; exact ⟨hview, fun _ hsome => nomatch hsome⟩⟩
  | some input =>
    have hpath : input.id = write.path := write.noteId input hnote
    have hmark : endsWith input.id ".md" = true := by
      rw [hpath, ← write.markdown, hnote]
      rfl
    have hinput : Safe (UnderWay input.id start) w ∧ UnderWay input.id start w.view := by
      rw [hpath]
      exact ⟨hsafe, hview⟩
    rw [← hpath]
    refine (projectNote_yields hinput.1.flush (by rw [view_flush]; exact hinput.2) hmark).mono ?_
    rintro tables ⟨hway, hput⟩
    exact ⟨hway, fun other hother => Option.some.inj hother ▸ hput⟩

/-- A deletion never completes its file. -/
lemma sqlDeleteProjection_ends (hkeyed : start.Keyed) :
    Ends (UnderWay path start) (UnderWay path start) (sqlDeleteProjection batching path start) := by
  have hsweep : ∀ {select : Tables V → String → List String} {statement : String → Statement}
      {w : Writer (Tables V)}, (∀ key, (statement key).Within path) → Safe (UnderWay path start) w →
      UnderWay path start w.view →
      Yields (UnderWay path start) (UnderWay path start) (sweep batching select statement w) :=
    fun hwin hsafe hview => (sweep_yields (X := fun _ => True) hsafe hview trivial hwin
      fun _ _ _ _ _ _ _ _ _ _ => trivial).mono fun _ htabs => htabs.1
  refine Yields.ends (begin_yields (.invalidateFile path) hkeyed trivial rfl) fun w hsafe hview => ?_
  refine Yields.ends (hsweep (fun key => ⟨rfl, trivial, rfl⟩) hsafe hview) fun w hsafe hview => ?_
  refine Yields.ends (hsweep (fun key => ⟨rfl, trivial, rfl⟩) hsafe hview) fun w hsafe hview => ?_
  refine Yields.ends (hsweep (fun key => ⟨rfl, trivial, rfl⟩) hsafe hview) fun w hsafe hview => ?_
  refine Yields.ends (exec_yields hsafe hview ⟨rfl, trivial, rfl⟩) fun w hsafe hview => ?_
  refine Yields.ends (exec_yields hsafe hview ⟨rfl, trivial, rfl⟩) fun w hsafe hview => ?_
  refine ⟨fun state hstate => hsafe.flush.commits state (dropLast_subset _ hstate), ?_⟩
  rw [committed_flush]
  exact hview

end Notes

section Complete
variable (derivation : Derivation) (settings : BlockSettings) (write : PreparedVaultWrite)
variable (revision : String)

/-- The rows of the file are those derived from the write. -/
structure Projected (tables : Tables V) : Prop where
  notes : (tables.notes.filter fun row => row.id = write.path).map (fun row => (row.columns, row.lexical))
    = (write.note.map fun input =>
        (noteColumns derivation input revision, some (lexicalColumns derivation input))).toList
  tags : (tables.tags.filter fun row => row.noteId = write.path).Perm ((write.note.map tagRows).getD [])
  links : (tables.links.filter fun row => row.sourceId = write.path).Perm ((write.note.map linkRows).getD [])
  blocks : ((tables.blocks.filter fun row => row.columns.noteId = write.path).map BlockRow.columns).Perm
    ((write.note.map fun input => blockColumns derivation settings input revision).getD [])

end Complete

section Counting
variable {derivation : Derivation} {settings : BlockSettings} {write : PreparedVaultWrite}
variable {input : NoteInput} {revision : String}

lemma nodup_tagRows : (tagRows input).Nodup := by
  refine (nodup_ofList input.tags).map fun tag other heq => ?_
  exact congrArg TagRow.tag heq

lemma nodup_linkRows : (linkRows input).Nodup := by
  refine List.Nodup.of_map LinkRow.targetId ?_
  rw [targets_linkRows]
  exact nodup_targets

lemma nodup_blockColumns : (blockColumns derivation settings input revision).Nodup := by
  rw [nodup_iff_injective_get]
  intro i j heq
  have hindex : ∀ k : Fin (blockColumns derivation settings input revision).length,
      ((blockColumns derivation settings input revision).get k).index = k := by
    intro k
    rw [get_eq_getElem]
    simp [blockColumns]
  exact Fin.ext ((hindex i).symm.trans ((congrArg BlockColumns.index heq).trans (hindex j)))

lemma length_targets : (ofList ((linkRows input).map LinkRow.targetId)).length = (linkRows input).length := by
  rw [ofList_of_nodup (by rw [targets_linkRows]; exact nodup_targets), length_map]

/-- Of all that was put there, the counts allow no more. -/
lemma perms_of_counts {note : Nat} {tags tags' : List TagRow} {links links' : List LinkRow}
    {blocks blocks' : List BlockColumns} (htags : tags.Subperm tags') (hlinks : links.Subperm links')
    (hblks : blocks.Subperm blocks') (hnote : 2 ≤ note) (hcount : 2 + tags.length + links.length + blocks.length
      = note + (tags'.length + links'.length + blocks'.length)) :
    tags'.Perm tags ∧ links'.Perm links ∧ blocks'.Perm blocks := by
  have htagL := htags.length_le
  have hlinL := hlinks.length_le
  have hbloL := hblks.length_le
  exact ⟨(htags.perm_of_length_le (by omega)).symm, (hlinks.perm_of_length_le (by omega)).symm,
    (hblks.perm_of_length_le (by omega)).symm⟩

lemma filter_note (hkeyed : tables.Keyed) (hnote : HasNote derivation input revision tables) :
    (tables.notes.filter fun row => row.id = input.id).map (fun row => (row.columns, row.lexical))
      = [(noteColumns derivation input revision, some (lexicalColumns derivation input))] := by
  obtain ⟨row, hrow, hcols, hlex⟩ := hnote
  have hid : row.id = input.id := congrArg NoteColumns.id hcols
  rw [← hid, filter_key hkeyed.notes hrow, map_singleton, hcols, hlex]

lemma noteCount_of_hasNote (hnote : HasNote derivation input revision tables) :
    2 ≤ tables.noteCount input.id revision := by
  obtain ⟨row, hrow, hcols, hlex⟩ := hnote
  have hmem : row ∈ tables.notes.filter fun row =>
      row.id = input.id && row.columns.revision = revision && row.lexical.isSome := by
    refine mem_filter.mpr ⟨hrow, ?_⟩
    rw [NoteRow.id, hcols, hlex]
    simp [noteColumns]
  have hpos := length_pos_of_mem hmem
  rw [Tables.noteCount]
  omega

/-- The files that a completing statement changes. -/
lemma completes_of_run {expected : Nat}
    (hrun : (Statement.completeFile path revision expected).run tables = some (after, 1)) :
    expected = tables.manifestCount path revision ∧
      (∃ row ∈ tables.files, row.path = path ∧ row.revision = revision) ∧ after = { tables with
        files := update (completes tables path revision expected)
          (fun row => { row with complete := true, rowCount := expected }) tables.files } := by
  obtain ⟨hafter, hcount⟩ := Prod.mk.inj (Option.some.inj hrun)
  obtain ⟨row, hrow⟩ := length_pos_iff_exists_mem.mp (by omega :
    0 < (tables.files.filter (completes tables path revision expected)).length)
  obtain ⟨hmem, hcpl⟩ := mem_filter.mp hrow
  simp only [completes, and_eq_true, decide_eq_true_eq] at hcpl
  exact ⟨hcpl.2, ⟨row, hmem, hcpl.1.1, hcpl.1.2⟩, hafter.symm⟩

/-- What completes has exactly the rows of the write. -/
lemma projected_of_complete (hkeyed : tables.Keyed)
    (hput : ∀ input, write.note = some input → Put derivation settings input revision tables)
    (hcount : expectedCount derivation settings write revision = tables.manifestCount write.path revision) :
    Projected derivation settings write revision tables := by
  rw [expectedCount, Tables.manifestCount, Tables.derivedCount] at hcount
  cases hnote : write.note with
  | none =>
    rw [hnote] at hcount
    dsimp only at hcount
    have hempty : ∀ row ∈ tables.notes, ¬ row.id = write.path := by
      intro row hrow hid
      have hmark := hkeyed.markdown row hrow
      rw [hid, ← write.markdown, hnote] at hmark
      cases hmark
    refine ⟨?_, ?_, ?_, ?_⟩
    · rw [hnote, filter_eq_nil_iff.mpr fun row hrow => by simpa using hempty row hrow]
      rfl
    · have htags : (tables.tags.filter fun row => row.noteId = write.path).length = 0 := by omega
      rw [hnote, eq_nil_of_length_eq_zero htags]
      exact List.Perm.refl _
    · have hlinks : (tables.links.filter fun row => row.sourceId = write.path).length = 0 := by omega
      rw [hnote, eq_nil_of_length_eq_zero hlinks]
      exact List.Perm.refl _
    · have hblks : (tables.blocks.filter fun row => row.columns.noteId = write.path).length = 0 := by
        omega
      rw [hnote, eq_nil_of_length_eq_zero hblks]
      exact List.Perm.refl _
  | some input =>
    have hpath : input.id = write.path := write.noteId input hnote
    have hall := hput input hnote
    rw [hnote, ← hpath] at hcount
    dsimp only at hcount
    rw [length_targets] at hcount
    have htags : (tagRows input).Subperm (tables.tags.filter fun row => row.noteId = input.id) := by
      refine nodup_tagRows.subperm fun row hrow => mem_filter.mpr ⟨hall.tags row hrow, ?_⟩
      obtain ⟨tag, -, rfl⟩ := mem_map.mp hrow
      exact decide_eq_true rfl
    have hlinks : (linkRows input).Subperm
        (tables.links.filter fun row => row.sourceId = input.id) := by
      refine nodup_linkRows.subperm fun row hrow => mem_filter.mpr ⟨hall.links row hrow, ?_⟩
      obtain ⟨link, -, rfl⟩ := mem_map.mp hrow
      exact decide_eq_true rfl
    have hblks : (blockColumns derivation settings input revision).Subperm
        ((tables.blocks.filter fun row => row.columns.noteId = input.id).map BlockRow.columns) := by
      refine nodup_blockColumns.subperm fun columns hcols => ?_
      obtain ⟨row, hrow, rfl⟩ := hall.blocks columns hcols
      exact mem_map_of_mem (mem_filter.mpr ⟨hrow, decide_eq_true (mem_blockColumns hcols).1⟩)
    obtain ⟨htagP, hlinP, hbloP⟩ := perms_of_counts htags hlinks hblks
      (noteCount_of_hasNote hall.note) (by rw [length_map]; omega)
    refine ⟨?_, ?_, ?_, ?_⟩
    · rw [hnote, ← hpath]
      exact filter_note hkeyed hall.note
    · rw [hnote, ← hpath]
      exact htagP
    · rw [hnote, ← hpath]
      exact hlinP
    · rw [hnote, ← hpath]
      exact hbloP

end Counting

section Runs
variable {derivation : Derivation} {batching : Batching} {settings : BlockSettings}
variable {write : PreparedVaultWrite} {revision : String} {w : Writer (Tables V)}

/-- The file is complete at the revision, with the rows of the write. -/
structure Completed (derivation : Derivation) (settings : BlockSettings) (write : PreparedVaultWrite)
    (revision : String) (start tables : Tables V) : Prop where
  keyed : tables.Keyed
  revisions : ∀ row ∈ tables.files, row.path = write.path → row.revision = revision
  projected : Projected derivation settings write revision tables
  others : ∀ other, other ≠ write.path → SameAt other tables start

/-- Completing what is all there. -/
lemma Completed.of_run (hway : UnderWay write.path start tables)
    (hput : ∀ input, write.note = some input → Put derivation settings input revision tables)
    (hrun : (Statement.completeFile write.path revision
      (expectedCount derivation settings write revision)).run tables = some (after, 1)) :
    Completed derivation settings write revision start after := by
  have hkeyed := keyed_run hway.keyed hrun trivial
  have hoth := fun other (hother : other ≠ write.path) =>
    (sameAt_run hway.keyed hrun trivial hother.symm).trans (hway.others other hother)
  obtain ⟨hcount, ⟨row, hrow, hpath, hrev⟩, hafter⟩ := completes_of_run hrun
  refine ⟨hkeyed, ?_, ?_, hoth⟩
  · intro other hother hothP
    rw [hafter] at hother
    obtain ⟨old, hold, rfl⟩ := mem_update.mp hother
    have hfld : ∀ changes : Bool, (if changes = true then
          { old with complete := true, rowCount := expectedCount derivation settings write revision }
        else old).path = old.path ∧
        (if changes = true then
          { old with complete := true, rowCount := expectedCount derivation settings write revision }
        else old).revision = old.revision := by
      intro changes
      cases changes <;> exact ⟨rfl, rfl⟩
    rw [(hfld _).1] at hothP
    rw [(hfld _).2, inj_on_of_nodup_map hway.keyed.files hold hrow (hothP.trans hpath.symm)]
    exact hrev
  · obtain ⟨hnotes, htags, hlinks, hblks⟩ := projected_of_complete hway.keyed hput hcount
    rw [hafter]
    exact ⟨hnotes, htags, hlinks, hblks⟩

/-- Up to its last batch a write is under way, and with that it is complete. -/
lemma sqlProjectWrite_ends (hkeyed : start.Keyed) :
    Ends (UnderWay write.path start) (Completed derivation settings write revision start)
      (sqlProjectWrite batching derivation settings write revision start) := by
  refine Yields.ends (projectRows_yields hkeyed) fun w hsafe hview => hsafe.commitOne ?_
  intro tables affected hrun
  split
  · rename_i hone
    subst hone
    exact Completed.of_run hview.1 hview.2 hrun
  rename_i hone
  obtain ⟨rfl, hcount⟩ := Prod.mk.inj (Option.some.inj hrun)
  have hle : (w.view.files.filter (completes w.view write.path revision
      (expectedCount derivation settings write revision))).length ≤ 1 := by
    refine length_filter_le_one write.path hview.1.keyed.files fun row _ hrow => ?_
    simp only [completes, and_eq_true, decide_eq_true_eq] at hrow
    exact hrow.1.1
  have hnone := filter_eq_nil_iff.mp (eq_nil_of_length_eq_zero (by omega :
    (w.view.files.filter (completes w.view write.path revision
      (expectedCount derivation settings write revision))).length = 0))
  rw [update_eq_self fun row hrow => not_eq_true _ ▸ hnone row hrow]
  exact hview.1

end Runs

/-- A call with its own batches; a write also has the settings of its blocks. -/
inductive Operation where
  | write (settings : BlockSettings) (prepared : PreparedVaultWrite) (revision : String)
  | delete (file : String)

def Operation.file : Operation → String
  | .write _ prepared _ => prepared.path
  | .delete file => file

section Histories
variable (derivation : Derivation)

def Operation.execute (batching : Batching) (tables : Tables V) :
    Operation → Except (Writer (Tables V)) (Writer (Tables V))
  | .write settings prepared revision =>
    sqlProjectWrite batching derivation settings prepared revision tables
  | .delete file => sqlDeleteProjection batching file tables

/-- An operation that was begun, and whether all its batches were committed. -/
structure Event where
  operation : Operation
  ran : Bool

/-- An operation runs to its end, stops after a batch that is not its last, or fails. -/
inductive Step (tables : Tables V) : Event → Tables V → Prop
  | ran {operation : Operation} {batching : Batching} {w : Writer (Tables V)}
      (h : operation.execute derivation batching tables = .ok w) : Step tables ⟨operation, true⟩ w.committed
  | stopped {operation : Operation} {batching : Batching} {w : Writer (Tables V)} {after : Tables V}
      (h : operation.execute derivation batching tables = .ok w) (hafter : after ∈ w.commits.dropLast) :
      Step tables ⟨operation, false⟩ after
  | failed {operation : Operation} {batching : Batching} {w : Writer (Tables V)} {after : Tables V}
      (h : operation.execute derivation batching tables = .error w) (hafter : after ∈ w.commits) :
      Step tables ⟨operation, false⟩ after

/-- Tables in which no file is complete, and what operations one after the other make of them. -/
inductive Reached : Tables V → List Event → Prop
  | start {tables : Tables V} (hkeyed : tables.Keyed)
      (hincomplete : ∀ row ∈ tables.files, row.complete = false) : Reached tables []
  | step {tables after : Tables V} {history : List Event} {event : Event}
      (hreached : Reached tables history) (hstep : Step derivation tables event after) :
      Reached after (history ++ [event])

/-- The last operation begun for a path. -/
def lastOn (path : String) (history : List Event) : Option Event :=
  (history.filter fun event => event.operation.file = path).getLast?

/-- Where a file is complete, the last write begun for it ran to its end, and its rows are those. -/
structure Sound (tables : Tables V) (history : List Event) : Prop where
  keyed : tables.Keyed
  complete : ∀ row ∈ tables.files, row.complete = true → ∃ settings write,
    lastOn row.path history = some ⟨.write settings write row.revision, true⟩ ∧ write.path = row.path ∧
      Projected derivation settings write row.revision tables

end Histories

section Soundness
variable {derivation : Derivation} {history : List Event} {event : Event} {settings : BlockSettings}
  {row : FileRow}

lemma lastOn_append_self (h : event.operation.file = path) : lastOn path (history ++ [event]) = some event := by
  rw [lastOn, filter_append, filter_cons_of_pos (by simpa using h)]
  simp

lemma lastOn_append_of_ne (h : event.operation.file ≠ path) :
    lastOn path (history ++ [event]) = lastOn path history := by
  rw [lastOn, filter_append, filter_cons_of_neg (by simpa using h), filter_nil,
    append_nil, lastOn]

/-- What is derived from a write is a matter of the rows of its file. -/
lemma Projected.of_sameAt
    (h : Projected derivation settings write revision tables) (hsame : SameAt write.path after tables) :
    Projected derivation settings write revision after := by
  refine ⟨?_, ?_, ?_, ?_⟩
  · rw [hsame.notes]
    exact h.notes
  · rw [hsame.tags]
    exact h.tags
  · rw [hsame.links]
    exact h.links
  · rw [hsame.blocks]
    exact h.blocks

lemma mem_files_of_sameAt (hsame : SameAt row.path after tables)
    (hrow : row ∈ after.files) : row ∈ tables.files := by
  have hmem : row ∈ after.files.filter fun other => other.path = row.path :=
    mem_filter.mpr ⟨hrow, decide_eq_true rfl⟩
  rw [hsame.files] at hmem
  exact (mem_filter.mp hmem).1

/-- The files of other paths stay sound. -/
lemma Sound.others (event : Event) (h : Sound derivation tables history)
    (hoth : ∀ other, other ≠ event.operation.file → SameAt other after tables)
    (hrow : row ∈ after.files) (hcpl : row.complete) (hne : row.path ≠ event.operation.file) :
    ∃ settings write, lastOn row.path (history ++ [event])
        = some ⟨.write settings write row.revision, true⟩ ∧ write.path = row.path ∧
      Projected derivation settings write row.revision after := by
  have hsame := hoth row.path hne
  obtain ⟨settings, write, hlast, hpath, hproj⟩ :=
    h.complete row (mem_files_of_sameAt hsame hrow) hcpl
  refine ⟨settings, write, ?_, hpath, hproj.of_sameAt (hpath ▸ hsame)⟩
  rw [lastOn_append_of_ne hne.symm]
  exact hlast

/-- A step ends in what its operation commits. -/
lemma Step.of_ends (J : Bool → Tables V → Prop) (hstep : Step derivation tables event after)
    (hends : ∀ batching, Ends (J false) (J true) (event.operation.execute derivation batching tables)) :
    J event.ran after := by
  cases hstep with
  | @ran operation batching w hrun =>
    have hends := hends batching
    rw [hrun] at hends
    exact hends.2
  | @stopped operation batching w after hrun hafter =>
    have hends := hends batching
    rw [hrun] at hends
    exact hends.1 _ hafter
  | @failed operation batching w after hrun hafter =>
    have hends := hends batching
    rw [hrun] at hends
    exact hends _ hafter

/-- An operation leaves the rows of other files alone. -/
lemma Step.sameAt (hkeyed : tables.Keyed) (hstep : Step derivation tables event after) :
    after.Keyed ∧ ∀ other, other ≠ event.operation.file → SameAt other after tables := by
  refine hstep.of_ends (fun _ after => after.Keyed ∧ ∀ other, other ≠ event.operation.file →
    SameAt other after tables) fun batching => ?_
  obtain ⟨operation, ran⟩ := event
  cases operation with
  | write settings prepared revision =>
    exact (sqlProjectWrite_ends hkeyed).mono (fun _ hway => ⟨hway.keyed, hway.others⟩)
      fun _ hcpl => ⟨hcpl.keyed, hcpl.others⟩
  | delete file =>
    exact (sqlDeleteProjection_ends hkeyed).mono (fun _ hway => ⟨hway.keyed, hway.others⟩)
      fun _ hway => ⟨hway.keyed, hway.others⟩

section
variable (h : Sound derivation tables history)
include h

/-- An operation that is under way leaves the others as they are. -/
lemma Sound.underWay (hway : UnderWay event.operation.file tables after) :
    Sound derivation after (history ++ [event]) where
  keyed := hway.keyed
  complete := by
    intro row hrow hcpl
    by_cases hpath : row.path = event.operation.file
    · rw [hway.incomplete row hrow hpath] at hcpl
      cases hcpl
    · exact h.others event hway.others hrow hcpl hpath

lemma Sound.completed (hcpl : Completed derivation settings write revision tables after) :
    Sound derivation after (history ++ [⟨.write settings write revision, true⟩]) where
  keyed := hcpl.keyed
  complete := by
    intro row hrow hcomp
    by_cases hpath : row.path = write.path
    · have hrev := hcpl.revisions row hrow hpath
      subst hrev
      exact ⟨settings, write, lastOn_append_self hpath.symm, hpath.symm, hcpl.projected⟩
    · exact h.others ⟨.write settings write revision, true⟩ hcpl.others hrow hcomp hpath

/-- Whatever an operation commits is sound. -/
lemma Sound.execute (operation : Operation) (batching : Batching) :
    Ends (fun after => Sound derivation after (history ++ [⟨operation, false⟩]))
      (fun after => Sound derivation after (history ++ [⟨operation, true⟩]))
      (operation.execute derivation batching tables) := by
  cases operation with
  | write settings prepared revision =>
    exact (sqlProjectWrite_ends h.keyed).mono (fun _ hway => h.underWay hway)
      fun _ hcpl => h.completed hcpl
  | delete file =>
    exact (sqlDeleteProjection_ends h.keyed).mono (fun _ hway => h.underWay hway)
      fun _ hway => h.underWay hway

lemma Sound.step (hstep : Step derivation tables event after) : Sound derivation after (history ++ [event]) :=
  hstep.of_ends (fun ran after => Sound derivation after (history ++ [⟨event.operation, ran⟩]))
    (h.execute event.operation)

end

/-- In every history, what is complete is sound. -/
lemma sound_of_reached (h : Reached derivation tables history) : Sound derivation tables history := by
  induction h with
  | start hkeyed hinc =>
    refine ⟨hkeyed, fun row hrow hcpl => ?_⟩
    rw [hinc row hrow] at hcpl
    cases hcpl
  | step _ hstep ih => exact ih.step hstep

/-- However many operations on other files run, stop or fail, the rows of a path stay as they are. -/
theorem others_undisturbed (h : Reached derivation tables history)
    (hsteps : Relation.ReflTransGen (fun now next => ∃ event : Event, event.operation.file ≠ path ∧
      Step derivation now event next) tables after) : SameAt path after tables := by
  have hkept : after.Keyed ∧ SameAt path after tables := by
    induction hsteps with
    | refl => exact ⟨(sound_of_reached h).keyed, .refl path tables⟩
    | tail _ hstep ih =>
      obtain ⟨event, hne, hstep⟩ := hstep
      obtain ⟨hkeyed, hoth⟩ := hstep.sameAt ih.1
      exact ⟨hkeyed, (hoth path hne.symm).trans ih.2⟩
  exact hkept.2

/-- The rows of a path are those of the same derivation, in any order and with any vectors. -/
structure AlikeAt (path : String) (left right : Tables V) : Prop where
  notes : (left.notes.filter fun row => row.id = path).map (fun row => (row.columns, row.lexical))
    = (right.notes.filter fun row => row.id = path).map fun row => (row.columns, row.lexical)
  tags : (left.tags.filter fun row => row.noteId = path).Perm (right.tags.filter fun row => row.noteId = path)
  links : (left.links.filter fun row => row.sourceId = path).Perm
    (right.links.filter fun row => row.sourceId = path)
  blocks : ((left.blocks.filter fun row => row.columns.noteId = path).map BlockRow.columns).Perm
    ((right.blocks.filter fun row => row.columns.noteId = path).map BlockRow.columns)

lemma Step.projected (hkeyed : tables.Keyed)
    (hstep : Step derivation tables ⟨.write settings write revision, true⟩ after) :
    Projected derivation settings write revision after :=
  hstep.of_ends (fun ran after => ran → Projected derivation settings write revision after)
    (fun _ => (sqlProjectWrite_ends hkeyed).mono (fun _ _ hran => Bool.noConfusion hran)
      fun _ hcpl _ => hcpl.projected) rfl

/-- A write that runs to its end leaves the same rows for its path, whatever earlier operations left there and
however its rows fall into batches. -/
theorem writes_converge {tables' after' : Tables V} {history' : List Event}
    (h : Reached derivation tables history) (h' : Reached derivation tables' history')
    (hstep : Step derivation tables ⟨.write settings write revision, true⟩ after)
    (hstep' : Step derivation tables' ⟨.write settings write revision, true⟩ after') :
    AlikeAt write.path after after' := by
  obtain ⟨hnotes, htags, hlinks, hblks⟩ := hstep.projected (sound_of_reached h).keyed
  obtain ⟨hnotes', htags', hlinks', hblks'⟩ := hstep'.projected (sound_of_reached h').keyed
  exact ⟨hnotes.trans hnotes'.symm, htags.trans htags'.symm, hlinks.trans hlinks'.symm, hblks.trans hblks'.symm⟩

/-- A revision that is reported for a path is that of the last write begun for it, which ran to its end,
and the rows of the path are those derived from that write. -/
theorem sqlRevisions_sound {revision : String} (h : Reached derivation tables history)
    (hreported : (path, revision) ∈ sqlRevisions tables) (hrevision : revision ≠ "") :
    ∃ settings write, lastOn path history = some ⟨.write settings write revision, true⟩ ∧
      write.path = path ∧ Projected derivation settings write revision tables := by
  obtain ⟨row, hrow, heq⟩ := mem_map.mp hreported
  obtain ⟨rfl, hrep⟩ := Prod.mk.inj heq
  rw [reportedRevision] at hrep
  split at hrep
  · rename_i hcoun
    subst hrep
    exact (sound_of_reached h).complete row (mem_filter.mp hrow).1 (and_eq_true_iff.mp hcoun).1
  · exact absurd hrep.symm hrevision

def sampleDerivation : Derivation where
  firstH1Title := fun _ => none
  plainText := fun _ => "hi"
  chunks := fun _ body => [([], body)]
  sha256 := fun _ => "98ea6e4f216f2fb4b69fff9b3a44842c38686ca685f3f55dc48c5d3fb1107be4"
  toLowercase := toAsciiLowercase

def sampleWrite : PreparedVaultWrite where
  path := "a.md"
  createdAt := none
  updatedAt := 0
  note := some {
    id := "a.md", title := "a", content := "hi\n".toList, frontmatter := .record [], tags := ["x"],
    createdAt := none, updatedAt := 0, links := [⟨"b.md", 0⟩] }
  noteId := by rintro input ⟨⟩; rfl
  markdown := by decide

def sampleSettings : BlockSettings := ⟨0, 1000, 0⟩

def sampleOperation : Operation := .write sampleSettings sampleWrite "r"

/-- Every second row begins a batch, and the note's row has its own transaction. -/
def sampleBatching : Batching where
  limits := ⟨2, 100⟩
  bytes := fun
    | .upsertNote _ => 200
    | _ => 10

/-- What an operation leaves of the tables. -/
def executed (operation : Operation) (batching : Batching) (tables : Tables Unit) : Tables Unit :=
  match operation.execute sampleDerivation batching tables with
  | .ok w => w.committed
  | .error w => w.committed

def sampleTables : Tables Unit := executed sampleOperation sampleBatching {}

lemma empty_reached : Reached sampleDerivation ({} : Tables Unit) [] :=
  .start ⟨nodup_nil, nodup_nil, nodup_nil, nodup_nil, nodup_nil,
    fun _ h => (not_mem_nil h).elim, fun _ h => (not_mem_nil h).elim⟩
    fun _ h => (not_mem_nil h).elim

lemma sample_step : Step sampleDerivation ({} : Tables Unit) ⟨sampleOperation, true⟩ sampleTables :=
  .ran (rfl : sampleOperation.execute sampleDerivation sampleBatching {} = .ok _)

lemma sample_reached : Reached sampleDerivation sampleTables [⟨sampleOperation, true⟩] :=
  .step empty_reached sample_step

/-- The same write over what the first one left, in other batches. -/
def replayedTables : Tables Unit := executed sampleOperation ⟨⟨1, 100⟩, fun _ => 10⟩ sampleTables

theorem sample_converges : AlikeAt "a.md" sampleTables replayedTables :=
  writes_converge empty_reached sample_reached sample_step
    (.ran (rfl : sampleOperation.execute sampleDerivation ⟨⟨1, 100⟩, fun _ => 10⟩ sampleTables = .ok _))

def otherWrite : PreparedVaultWrite where
  path := "b.md"
  createdAt := none
  updatedAt := 0
  note := sampleWrite.note.map fun input => { input with id := "b.md", title := "b" }
  noteId := by rintro input ⟨⟩; rfl
  markdown := by decide

def otherOperation : Operation := .write sampleSettings otherWrite "r"

def otherTables : Tables Unit := executed otherOperation sampleBatching sampleTables

/-- A note that is written leaves the rows of the one before. -/
theorem sample_undisturbed : SameAt "a.md" otherTables sampleTables :=
  others_undisturbed sample_reached (.single ⟨⟨otherOperation, true⟩, by decide,
    .ran (rfl : otherOperation.execute sampleDerivation sampleBatching sampleTables = .ok _)⟩)

/-- The revision of the note that was written is reported. -/
theorem sample_sound : ∃ settings write,
    lastOn "a.md" [⟨sampleOperation, true⟩] = some ⟨.write settings write "r", true⟩ ∧
      write.path = "a.md" ∧ Projected sampleDerivation settings write "r" sampleTables :=
  sqlRevisions_sound sample_reached (mem_singleton.mpr (by rfl)) (by decide)

end Soundness

end ProjectionTables
