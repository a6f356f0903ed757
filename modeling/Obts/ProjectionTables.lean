import Obts.JsonValues
import Obts.KeyedRows

/-!
# The tables of the index

A file of the vault has a row, a Markdown file also a note with its tags, links and blocks. The rows hold
what is derived from the file, not its text. Vectors are computed elsewhere and cleared by triggers when
what they were computed from changes.
-/
namespace ProjectionTables

open JsonValues RustText KeyedRows List

structure FileRow where
  (path revision : String)
  createdAt : Option Int
  updatedAt : Int
  complete : Bool
  rowCount : Nat

structure NoteColumns where
  (id path title : String)
  headingTitle : Option String
  summary : String
  frontmatter : Value
  revision : String
  createdAt : Option Int
  updatedAt : Int
  policyOwner : Option String
  policyTitleAscii : String
  projectionHub : Bool
  bodyBytes : Nat

/-- What full-text search reads; `search` is the text of the search vector. -/
structure LexicalColumns where
  (title plaintext : String)
  search : List Char

structure NoteRow (V : Type) where
  columns : NoteColumns
  lexical : Option LexicalColumns := none
  embedding : Option V := none
  embeddingEpoch : Nat
  embeddingFailures : Nat := 0

structure TagRow where
  (noteId tag policyTag : String)

structure LinkRow where
  (sourceId targetId : String)
  position : Nat

structure BlockColumns where
  (id noteId : String)
  index : Nat
  (headingPath breadcrumb contentHash sourceRevision : String)

structure BlockRow (V : Type) where
  columns : BlockColumns
  embedding : Option V := none
  (embeddingEpoch derivedEpoch : Nat)
  embeddingFailures : Nat := 0

/-- `generation` is the last value of the sequence of embedding generations. -/
structure Tables (V : Type) where
  files : List FileRow := []
  notes : List (NoteRow V) := []
  tags : List TagRow := []
  links : List LinkRow := []
  blocks : List (BlockRow V) := []
  generation : Nat := 0

def TagRow.key (row : TagRow) : String × String := (row.noteId, row.tag)

def LinkRow.key (row : LinkRow) : String × String := (row.sourceId, row.targetId)

def NoteRow.id {V : Type} (row : NoteRow V) : String := row.columns.id

def BlockRow.id {V : Type} (row : BlockRow V) : String := row.columns.id

def blockId (noteId : String) (index : Nat) : String := noteId ++ "##" ++ index.repr

section Triggers
variable {V : Type} (next : Nat)

/-- Before a note's row is updated: a new revision has a new generation, without a vector. -/
def noteGeneration (old new : NoteRow V) : NoteRow V :=
  if new.columns.revision ≠ old.columns.revision then
    { new with embeddingEpoch := next, embedding := none, embeddingFailures := 0 }
  else new

/-- Before a block's row is updated: so has a block that is derived anew. -/
def blockGeneration (old new : BlockRow V) : BlockRow V :=
  if new.columns.contentHash ≠ old.columns.contentHash ∨ new.columns.sourceRevision ≠ old.columns.sourceRevision ∨
      new.columns.breadcrumb ≠ old.columns.breadcrumb ∨ new.derivedEpoch ≠ old.derivedEpoch then
    { new with derivedEpoch := next, embedding := none, embeddingFailures := 0 }
  else new

def replaceNote (columns : NoteColumns) (old : NoteRow V) : NoteRow V :=
  noteGeneration next old { old with
    columns
    embedding := if old.columns.revision = columns.revision then old.embedding else none }

/-- The row keeps its identifier, its note and its place. -/
def replaceBlock (columns : BlockColumns) (old : BlockRow V) : BlockRow V :=
  blockGeneration next old { old with
    columns := { columns with
      id := old.columns.id, noteId := old.columns.noteId, index := old.columns.index }
    embedding := if old.columns.contentHash = columns.contentHash then old.embedding else none
    embeddingFailures :=
      if old.columns.contentHash = columns.contentHash then old.embeddingFailures else 0 }

end Triggers

inductive Statement where
  | upsertFile (path revision : String) (createdAt : Option Int) (updatedAt : Int)
  | upsertNote (columns : NoteColumns)
  | setLexical (id : String) (lexical : LexicalColumns)
  | deleteTag (noteId tag : String)
  | deleteLink (sourceId targetId : String)
  | deleteBlock (noteId id : String)
  | insertTag (row : TagRow)
  | upsertLink (row : LinkRow)
  | upsertBlock (columns : BlockColumns)
  | completeFile (path revision : String) (expected : Nat)
  | invalidateFile (path : String)
  | deleteNote (id : String)
  | deleteFile (path : String)

section Statements
variable {V : Type} (tables : Tables V)

def Tables.hasNote (id : String) : Bool := tables.notes.any fun row => row.id = id

/-- The rows of tags, links and blocks that a note has. -/
def Tables.derivedCount (path : String) : Nat :=
  (tables.tags.filter fun row => row.noteId = path).length +
    (tables.links.filter fun row => row.sourceId = path).length +
    (tables.blocks.filter fun row => row.columns.noteId = path).length

/-- The row counts as a file's own twice with its lexical columns, and not without them. -/
def Tables.noteCount (path revision : String) : Nat :=
  2 * (tables.notes.filter fun row =>
    row.id = path && row.columns.revision = revision && row.lexical.isSome).length

def Tables.manifestCount (path revision : String) : Nat :=
  1 + tables.noteCount path revision + tables.derivedCount path

def completes (path revision : String) (expected : Nat) (row : FileRow) : Bool :=
  row.path = path && row.revision = revision && expected = tables.manifestCount path revision

/-- What a statement makes of the tables and how many rows it changes; it fails where a key is taken or a
note is missing. -/
def Statement.run : Statement → Tables V → Option (Tables V × Nat)
  | .upsertFile path revision createdAt updatedAt, tables =>
    some ({ tables with
      files := upsert FileRow.path ⟨path, revision, createdAt, updatedAt, false, 0⟩
        (fun old => { old with revision, createdAt, updatedAt, complete := false, rowCount := 0 })
        tables.files }, 1)
  | .upsertNote columns, tables =>
    some ({ tables with
      notes := upsert NoteRow.id { columns, embeddingEpoch := tables.generation + 1 }
        (replaceNote (tables.generation + 2) columns) tables.notes
      generation := tables.generation + 2 }, 1)
  | .setLexical id lexical, tables =>
    some ({ tables with
      notes := update (fun row => row.id = id) (fun row => { row with lexical := some lexical }) tables.notes },
      (tables.notes.filter fun row => row.id = id).length)
  | .deleteTag noteId tag, tables =>
    some ({ tables with tags := delete (fun row => row.key = (noteId, tag)) tables.tags },
      (tables.tags.filter fun row => row.key = (noteId, tag)).length)
  | .deleteLink sourceId targetId, tables =>
    some ({ tables with links := delete (fun row => row.key = (sourceId, targetId)) tables.links },
      (tables.links.filter fun row => row.key = (sourceId, targetId)).length)
  | .deleteBlock noteId id, tables =>
    some ({ tables with
      blocks := delete (fun row => row.columns.noteId = noteId && row.id = id) tables.blocks },
      (tables.blocks.filter fun row => row.columns.noteId = noteId && row.id = id).length)
  | .insertTag row, tables =>
    if tables.hasNote row.noteId && !(tables.tags.any fun old => old.key = row.key) then
      some ({ tables with tags := tables.tags ++ [row] }, 1)
    else none
  | .upsertLink row, tables =>
    if tables.hasNote row.sourceId then
      some ({ tables with
      links := upsert LinkRow.key row (fun old => { old with position := row.position }) tables.links }, 1)
    else none
  | .upsertBlock columns, tables =>
    if tables.hasNote columns.noteId then
      some ({ tables with
        blocks := upsert BlockRow.id
          { columns, embeddingEpoch := tables.generation + 1, derivedEpoch := tables.generation + 2 }
          (replaceBlock (tables.generation + 3) columns) tables.blocks
        generation := tables.generation + 3 }, 1)
    else none
  | .completeFile path revision expected, tables =>
    some ({ tables with
      files := update (completes tables path revision expected)
        (fun row => { row with complete := true, rowCount := expected }) tables.files },
      (tables.files.filter (completes tables path revision expected)).length)
  | .invalidateFile path, tables =>
    some ({ tables with
      files := update (fun row => row.path = path) (fun row => { row with complete := false }) tables.files },
      (tables.files.filter fun row => row.path = path).length)
  | .deleteNote id, tables =>
    some ({ tables with
      notes := delete (fun row => row.id = id) tables.notes
      tags := delete (fun row => row.noteId = id) tables.tags
      links := delete (fun row => row.sourceId = id) tables.links
      blocks := delete (fun row => row.columns.noteId = id) tables.blocks },
      (tables.notes.filter fun row => row.id = id).length)
  | .deleteFile path, tables =>
    some ({ tables with files := delete (fun row => row.path = path) tables.files },
      (tables.files.filter fun row => row.path = path).length)

end Statements

lemma digits_not_hash (index : Nat) : ∀ c ∈ index.repr.toList, (c ≠ '#') := by
  intro c hc
  rw [Nat.toList_repr] at hc
  have hdigit := Nat.isDigit_of_mem_toDigits (by decide) (by decide) hc
  rintro rfl
  exact absurd hdigit (by decide)

/-- The identifier of a block tells the note and the place of the block. -/
lemma blockId_inj {noteId other : String} {index place : Nat}
    (h : blockId noteId index = blockId other place) : noteId = other ∧ index = place := by
  have hlist : noteId.toList ++ ['#', '#'] ++ index.repr.toList
      = other.toList ++ ['#', '#'] ++ place.repr.toList := by
    have hchars := congrArg String.toList h
    simpa [blockId] using hchars
  have htake : ∀ (front : List Char) (n : Nat),
      (front ++ ['#', '#'] ++ n.repr.toList).reverse.takeWhile (fun c => decide (c ≠ '#'))
        = n.repr.toList.reverse := by
    intro front n
    rw [reverse_append, takeWhile_append_of_pos]
    · simp
    · intro c hc
      exact decide_eq_true (digits_not_hash n c (mem_reverse.mp hc))
  have hdig : index.repr.toList = place.repr.toList := by
    have hboth := congrArg (fun text => text.reverse.takeWhile fun c => decide (c ≠ '#')) hlist
    rw [htake, htake, reverse_inj] at hboth
    exact hboth
  rw [hdig] at hlist
  have hfront := append_cancel_right (append_cancel_right hlist)
  have hindex : index = place := by
    have hvalue := congrArg (fun digits => Nat.ofDigitChars 10 digits 0) hdig
    simpa [Nat.ofDigitChars_toDigits] using hvalue
  exact ⟨String.toList_injective hfront, hindex⟩

variable {statement : Statement} {affected : Nat}

section Keys
variable {V : Type} {next : Nat} {columns : BlockColumns} {old : BlockRow V}

/-- The keys are unique, as the database sees to it, a block has the identifier of its place, and only
Markdown files have notes. -/
structure Tables.Keyed (tables : Tables V) : Prop where
  files : (tables.files.map FileRow.path).Nodup
  notes : (tables.notes.map NoteRow.id).Nodup
  tags : (tables.tags.map TagRow.key).Nodup
  links : (tables.links.map LinkRow.key).Nodup
  blocks : (tables.blocks.map BlockRow.id).Nodup
  blockIds : ∀ row ∈ tables.blocks, row.id = blockId row.columns.noteId row.columns.index
  markdown : ∀ row ∈ tables.notes, endsWith row.id ".md" = true

/-- The statement puts in a note only for a Markdown file, and a block only under its identifier. -/
def Statement.WellFormed : Statement → Prop
  | .upsertNote columns => endsWith columns.id ".md" = true
  | .upsertBlock columns => columns.id = blockId columns.noteId columns.index
  | _ => True

lemma columns_noteGeneration {old new : NoteRow V} : (noteGeneration next old new).columns = new.columns ∧
      (noteGeneration next old new).lexical = new.lexical := by
  rw [noteGeneration]
  split
  · exact ⟨rfl, rfl⟩
  · exact ⟨rfl, rfl⟩

lemma columns_blockGeneration {new : BlockRow V} : (blockGeneration next old new).columns = new.columns := by
  rw [blockGeneration]
  split
  · rfl
  · rfl

@[simp] lemma columns_replaceNote {columns : NoteColumns} {old : NoteRow V} :
    (replaceNote next columns old).columns = columns :=
  columns_noteGeneration.1

@[simp] lemma id_replaceNote {columns : NoteColumns} {old : NoteRow V} :
    (replaceNote next columns old).id = columns.id :=
  congrArg NoteColumns.id columns_replaceNote

lemma columns_replaceBlock : (replaceBlock next columns old).columns = { columns with
      id := old.columns.id, noteId := old.columns.noteId, index := old.columns.index } :=
  columns_blockGeneration

@[simp] lemma id_replaceBlock : (replaceBlock next columns old).id = old.id := by
  rw [BlockRow.id, columns_replaceBlock, BlockRow.id]

lemma Statement.keyed_run {tables after : Tables V}
    (h : tables.Keyed) (hrun : statement.run tables = some (after, affected)) (hwell : statement.WellFormed) :
    after.Keyed := by
  cases statement with
  | upsertFile path revision createdAt updatedAt =>
    cases hrun
    exact { h with files := nodup_upsert h.files fun old hold => hold }
  | upsertNote columns =>
    cases hrun
    refine { h with notes := nodup_upsert h.notes fun old _ => id_replaceNote, markdown := ?_ }
    intro row hrow
    rcases mem_upsert.mp hrow with ⟨hmem, -⟩ | ⟨old, -, -, rfl⟩ | ⟨rfl, -⟩
    · exact h.markdown row hmem
    · rw [id_replaceNote]
      exact hwell
    · exact hwell
  | setLexical id lexical =>
    cases hrun
    refine { h with notes := nodup_update h.notes fun _ => rfl, markdown := fun row hrow => ?_ }
    obtain ⟨old, hold, rfl⟩ := mem_update.mp hrow
    have hid : (if decide (old.id = id) = true then { old with lexical := some lexical } else old).id
        = old.id := by split <;> rfl
    rw [hid]
    exact h.markdown old hold
  | deleteTag noteId tag =>
    cases hrun
    exact { h with tags := nodup_delete h.tags }
  | deleteLink sourceId targetId =>
    cases hrun
    exact { h with links := nodup_delete h.links }
  | deleteBlock noteId id =>
    cases hrun
    exact { h with
      blocks := nodup_delete h.blocks
      blockIds := fun row hrow => h.blockIds row (mem_delete.mp hrow).1 }
  | insertTag row =>
    obtain ⟨hfree, ⟨⟩⟩ := Option.ite_none_right_eq_some.mp hrun
    refine { h with tags := ?_ }
    refine InsertionOrder.nodup_map_concat h.tags fun ha => ?_
    obtain ⟨old, hold, heq⟩ := mem_map.mp ha
    simp only [Bool.and_eq_true, Bool.not_eq_true', any_eq_false, decide_eq_true_eq] at hfree
    exact hfree.2 old hold heq
  | upsertLink row =>
    obtain ⟨-, ⟨⟩⟩ := Option.ite_none_right_eq_some.mp hrun
    exact { h with links := nodup_upsert h.links fun old hold => hold }
  | upsertBlock columns =>
    obtain ⟨-, ⟨⟩⟩ := Option.ite_none_right_eq_some.mp hrun
    refine { h with
      blocks := nodup_upsert h.blocks fun old hold => id_replaceBlock.trans hold, blockIds := ?_ }
    intro row hrow
    rcases mem_upsert.mp hrow with ⟨hmem, -⟩ | ⟨old, hold, -, rfl⟩ | ⟨rfl, -⟩
    · exact h.blockIds row hmem
    · rw [id_replaceBlock, columns_replaceBlock]
      exact h.blockIds old hold
    · exact hwell
  | completeFile | invalidateFile =>
    cases hrun
    exact { h with files := nodup_update h.files fun _ => rfl }
  | deleteNote id =>
    cases hrun
    exact {
      files := h.files
      notes := nodup_delete h.notes
      tags := nodup_delete h.tags
      links := nodup_delete h.links
      blocks := nodup_delete h.blocks
      blockIds := fun row hrow => h.blockIds row (mem_delete.mp hrow).1
      markdown := fun row hrow => h.markdown row (mem_delete.mp hrow).1 }
  | deleteFile path =>
    cases hrun
    exact { h with files := nodup_delete h.files }

end Keys

section Others
variable {V : Type} {path : String}

/-- The file that a statement is about. -/
def Statement.owner : Statement → String
  | .upsertFile path .. => path
  | .upsertNote columns => columns.id
  | .setLexical id _ => id
  | .deleteTag noteId _ => noteId
  | .deleteLink sourceId _ => sourceId
  | .deleteBlock noteId _ => noteId
  | .insertTag row => row.noteId
  | .upsertLink row => row.sourceId
  | .upsertBlock columns => columns.noteId
  | .completeFile path .. => path
  | .invalidateFile path => path
  | .deleteNote id => id
  | .deleteFile path => path

/-- The rows of a path are the same. -/
structure SameAt (path : String) (left right : Tables V) : Prop where
  files : left.files.filter (fun row => row.path = path) = right.files.filter fun row => row.path = path
  notes : left.notes.filter (fun row => row.id = path) = right.notes.filter fun row => row.id = path
  tags : left.tags.filter (fun row => row.noteId = path) = right.tags.filter fun row => row.noteId = path
  links :
    left.links.filter (fun row => row.sourceId = path) = right.links.filter fun row => row.sourceId = path
  blocks : left.blocks.filter (fun row => row.columns.noteId = path)
    = right.blocks.filter fun row => row.columns.noteId = path

lemma SameAt.refl (path : String) (tables : Tables V) : SameAt path tables tables :=
  ⟨rfl, rfl, rfl, rfl, rfl⟩

lemma SameAt.trans {left middle right : Tables V} (h : SameAt path left middle)
    (h' : SameAt path middle right) : SameAt path left right :=
  ⟨h.files.trans h'.files, h.notes.trans h'.notes, h.tags.trans h'.tags, h.links.trans h'.links,
    h.blocks.trans h'.blocks⟩

/-- A statement leaves the rows of the other files alone. -/
lemma Statement.sameAt_run {tables after : Tables V}
    (h : tables.Keyed) (hrun : statement.run tables = some (after, affected))
    (hwell : statement.WellFormed) (hpath : statement.owner ≠ path) : SameAt path after tables := by
  have hne : ∀ {owner : String}, owner ≠ path → decide (owner = path) = false :=
    fun howner => decide_eq_false howner
  have hother : ∀ {owner other : String}, other = owner → owner ≠ path → decide (other = path) = false :=
    fun heq howner => decide_eq_false (heq.trans_ne howner)
  cases statement with
  | upsertFile owner revision createdAt updatedAt =>
    cases hrun
    refine { SameAt.refl path tables with files := filter_upsert (hne hpath) fun old _ hold => ?_ }
    exact ⟨hother hold hpath, hother hold hpath⟩
  | upsertNote columns =>
    cases hrun
    refine { SameAt.refl path tables with notes := filter_upsert (hne hpath) fun old _ hold => ?_ }
    rw [id_replaceNote]
    exact ⟨hother hold hpath, hne hpath⟩
  | setLexical id lexical =>
    cases hrun
    refine { SameAt.refl path tables with notes := filter_update fun old _ hold => ?_ }
    exact ⟨hother (of_decide_eq_true hold) hpath, hother (of_decide_eq_true hold) hpath⟩
  | deleteTag noteId tag =>
    cases hrun
    refine { SameAt.refl path tables with tags := filter_delete fun old _ hold => ?_ }
    exact hother (congrArg Prod.fst (of_decide_eq_true hold)) hpath
  | deleteLink sourceId targetId =>
    cases hrun
    refine { SameAt.refl path tables with links := filter_delete fun old _ hold => ?_ }
    exact hother (congrArg Prod.fst (of_decide_eq_true hold)) hpath
  | deleteBlock noteId id =>
    cases hrun
    refine { SameAt.refl path tables with blocks := filter_delete fun old _ hold => ?_ }
    exact hother (of_decide_eq_true (Bool.and_eq_true_iff.mp hold).1) hpath
  | insertTag row =>
    obtain ⟨-, ⟨⟩⟩ := Option.ite_none_right_eq_some.mp hrun
    refine { SameAt.refl path tables with tags := ?_ }
    have hrow : row.noteId ≠ path := hpath
    rw [filter_append, filter_singleton, hne hrow]
    exact append_nil _
  | upsertLink row =>
    obtain ⟨-, ⟨⟩⟩ := Option.ite_none_right_eq_some.mp hrun
    refine { SameAt.refl path tables with links := filter_upsert (hne hpath) fun old _ hold => ?_ }
    have hsrc : old.sourceId = row.sourceId := congrArg Prod.fst hold
    exact ⟨hother hsrc hpath, hother hsrc hpath⟩
  | upsertBlock columns =>
    obtain ⟨-, ⟨⟩⟩ := Option.ite_none_right_eq_some.mp hrun
    refine { SameAt.refl path tables with blocks := filter_upsert (hne hpath) fun old hmem hold => ?_ }
    -- a row with this identifier is one of this note
    have hnote : old.columns.noteId = columns.noteId :=
      (blockId_inj ((h.blockIds old hmem).symm.trans (hold.trans hwell))).1
    rw [columns_replaceBlock]
    exact ⟨hother hnote hpath, hother hnote hpath⟩
  | completeFile owner revision expected =>
    cases hrun
    refine { SameAt.refl path tables with files := filter_update fun old _ hold => ?_ }
    have howner : old.path = owner := by
      rw [completes, Bool.and_eq_true, Bool.and_eq_true, decide_eq_true_eq] at hold
      exact hold.1.1
    exact ⟨hother howner hpath, hother howner hpath⟩
  | invalidateFile owner =>
    cases hrun
    refine { SameAt.refl path tables with files := filter_update fun old _ hold => ?_ }
    exact ⟨hother (of_decide_eq_true hold) hpath, hother (of_decide_eq_true hold) hpath⟩
  | deleteNote id =>
    cases hrun
    exact {
      files := rfl
      notes := filter_delete fun old _ hold => hother (of_decide_eq_true hold) hpath
      tags := filter_delete fun old _ hold => hother (of_decide_eq_true hold) hpath
      links := filter_delete fun old _ hold => hother (of_decide_eq_true hold) hpath
      blocks := filter_delete fun old _ hold => hother (of_decide_eq_true hold) hpath }
  | deleteFile owner =>
    cases hrun
    refine { SameAt.refl path tables with files := filter_delete fun old _ hold => ?_ }
    exact hother (of_decide_eq_true hold) hpath

end Others

end ProjectionTables
