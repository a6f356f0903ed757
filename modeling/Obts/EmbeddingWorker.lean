import Obts.ProjectionWrites

/-!
# The embedding worker

The worker lists notes and blocks without a vector, reads their text, has it embedded and stores the
vector later, if the rows are still those that it listed and the schema is of the same generation. Each
step here is one transaction, or one statement of a projection: the rows that a batch has changed are
locked until it is committed.
-/
namespace EmbeddingWorker

open RustText KeyedRows ProjectionTables

/-- A vector, by what it was computed from. -/
structure Computed where
  model : String
  generation : Nat
  text : Text

structure Schema where
  model : String
  (dimensions epoch : Nat)

structure EmbeddingNoteToken where
  (id revision : String)
  epoch : Nat
  pendingNote : Bool
  schemaEpoch : Nat

structure EmbeddingBlockToken where
  id : String
  (index epoch derivedEpoch : Nat)
  (sourceRevision hash : String)

/-- A file as it was read for a token, and the title of its note. -/
structure Source where
  (path title : String)
  content : Text

/-- The database, and what the worker's process has in memory. -/
structure State where
  tables : Tables Computed := {}
  schema : Option Schema := none
  noteDimensions : Option Nat := none
  blockDimensions : Option Nat := none
  model : String
  dimensions : Nat
  tokens : List EmbeddingNoteToken := []
  sources : List (EmbeddingNoteToken × Source) := []
  blockTokens : List (EmbeddingNoteToken × EmbeddingBlockToken) := []

/-- How a content is read, and which models are served by a client. -/
structure Environment where
  derivation : Derivation
  settings : BlockSettings
  yaml : NoteContent.Yaml
  inlineTags : Text → List String
  links : Text → List LinkInput
  contentRevision : Text → String
  usesClient : String → Bool

section Queries
variable (s : State)

def pendingNote (failures : Nat) (row : NoteRow Computed) : Bool :=
  row.embedding.isNone && decide (row.embeddingFailures < failures)

def pendingBlock (failures : Nat) (row : BlockRow Computed) : Bool :=
  row.embedding.isNone && decide (row.embeddingFailures < failures)

def isCandidate (after : String) (failures : Nat) (blocks : Bool) (row : NoteRow Computed) : Bool :=
  (s.tables.files.any fun file => file.path = row.columns.path && file.complete) &&
    decide (byteOrder after row.id = .lt) &&
    (pendingNote failures row || (blocks && s.tables.blocks.any fun block =>
      block.columns.noteId = row.id && pendingBlock failures block))

/-- Nothing is listed unless the schema is that of the worker. -/
def embeddingCandidates (after : String) (limit failures : Nat) (blocks : Bool) : List EmbeddingNoteToken :=
  match s.schema with
  | none => []
  | some schema =>
    if schema.model = s.model ∧ schema.dimensions = s.dimensions then
      ((InsertionOrder.sortBy (fun a b => byteOrder a.id b.id)
        (s.tables.notes.filter (isCandidate s after failures blocks))).take
          (max 1 (min limit 128))).map fun row =>
        ⟨row.id, row.columns.revision, row.embeddingEpoch, pendingNote failures row, schema.epoch⟩
    else []

def isCurrent (token : EmbeddingNoteToken) (row : NoteRow Computed) : Bool :=
  row.id = token.id && row.columns.revision = token.revision && row.embeddingEpoch = token.epoch

def embeddingSource (token : EmbeddingNoteToken) : Option (String × String) :=
  (s.tables.notes.find? (isCurrent token)).map fun row => (row.columns.path, row.columns.title)

def embeddingBlocks (note : EmbeddingNoteToken) (after : Int) (failures : Nat) : List EmbeddingBlockToken :=
  if s.tables.notes.any (isCurrent note) then
    ((InsertionOrder.sortBy (fun a b => compare a.columns.index b.columns.index)
      (s.tables.blocks.filter fun row =>
        row.columns.noteId = note.id && row.columns.sourceRevision = note.revision &&
          decide (after < row.columns.index) && pendingBlock failures row)).take 128).map fun row =>
      ⟨row.id, row.columns.index, row.embeddingEpoch, row.derivedEpoch, row.columns.sourceRevision,
        row.columns.contentHash⟩
  else []

end Queries

/-- A vector is stored, or a failure counted. -/
def storeNote (vector : Option Computed) (row : NoteRow Computed) : NoteRow Computed :=
  match vector with
  | some vector => { row with embedding := some vector, embeddingFailures := 0 }
  | none => { row with embeddingFailures := row.embeddingFailures + 1 }

def storeBlock (vector : Option Computed) (row : BlockRow Computed) : BlockRow Computed :=
  match vector with
  | some vector => { row with embedding := some vector, embeddingFailures := 0 }
  | none => { row with embeddingFailures := row.embeddingFailures + 1 }

variable (note : EmbeddingNoteToken)

def isCurrentBlock (block : EmbeddingBlockToken) (row : BlockRow Computed) : Bool :=
  row.columns.noteId = note.id && row.columns.sourceRevision = note.revision && row.id = block.id &&
    row.embeddingEpoch = block.epoch && row.derivedEpoch = block.derivedEpoch &&
    row.columns.contentHash = block.hash && row.columns.sourceRevision = block.sourceRevision

/-- The schema and the note must be those of the token, and the block that of its own. -/
def completeEmbedding (block : Option EmbeddingBlockToken) (vector : Option Computed) (s : State) : State :=
  if (s.schema.any fun schema => schema.epoch = note.schemaEpoch) && s.tables.notes.any (isCurrent note) then
    match block with
    | some block =>
      { s with tables := { s.tables with
          blocks := update (isCurrentBlock note block) (storeBlock vector) s.tables.blocks } }
    | none =>
      { s with tables := { s.tables with
          notes := update (isCurrent note) (storeNote vector) s.tables.notes } }
  else s

def invalidateEmbeddingProjection (s : State) : State :=
  if (s.schema.any fun schema => schema.epoch = note.schemaEpoch) && s.tables.notes.any (isCurrent note) then
    { s with tables := { s.tables with
        files := update (fun row => row.path = note.id && row.revision = note.revision)
          (fun row => { row with complete := false }) s.tables.files } }
  else s

section Texts
variable (e : Environment)

def bodyOf (content : Text) : Text := (NoteContent.parseFrontmatter e.yaml content).2

def noteText (model : String) (source : Source) : Text :=
  let breadcrumb := breadcrumbPrefix source.path source.title []
  if e.usesClient model ∧ breadcrumb ≠ "" then breadcrumb.toList ++ '\n' :: bodyOf e source.content
  else bodyOf e source.content

def blockText (breadcrumb : String) (content : Text) : Text := breadcrumb.toList ++ '\n' :: content

/-- The parts of a content, in the order of the blocks. -/
def chunksOf (content : Text) : List (List Heading × Text) :=
  e.derivation.chunks e.settings (bodyOf e content)

/-- The note of a content. -/
def noteInputOf (path : String) (content : Text) (createdAt : Option Int) (updatedAt : Int) : NoteInput :=
  let parsed := NoteContent.noteInputFromRawMarkdown e.yaml e.inlineTags path content
  { id := path, title := parsed.title, content := parsed.body, frontmatter := parsed.frontmatter
    tags := parsed.tags, createdAt, updatedAt, links := e.links parsed.body }

end Texts

def clearNotes (tables : Tables Computed) : Tables Computed :=
  { tables with
    notes := tables.notes.mapIdx fun place row =>
      { row with embedding := none, embeddingEpoch := tables.generation + 1 + place, embeddingFailures := 0 }
    generation := tables.generation + tables.notes.length }

def clearBlocks (tables : Tables Computed) : Tables Computed :=
  { tables with
    blocks := tables.blocks.mapIdx fun place row =>
      { row with embedding := none, embeddingEpoch := tables.generation + 1 + place, embeddingFailures := 0 }
    generation := tables.generation + tables.blocks.length }

def effectiveModel (model : String) : String := if trim model = "" then "unknown" else trim model

/-- Vectors of another model or of other dimensions are cleared. -/
def ensureEmbeddingSchema (model : String) (dimensions : Nat) (s : State) : State :=
  let model := effectiveModel model
  let dimensions := min (max dimensions 1) (2 ^ 31 - 1)
  let dimensionsChanged := s.noteDimensions ≠ some dimensions
  let blockDimensionsChanged := s.blockDimensions ≠ some dimensions
  let modelChanged := s.schema.any fun schema => schema.model ≠ model
  let tables := if dimensionsChanged ∨ modelChanged then clearNotes s.tables else s.tables
  let tables :=
    if blockDimensionsChanged ∨ dimensionsChanged ∨ modelChanged then clearBlocks tables else tables
  let changed := dimensionsChanged ∨ blockDimensionsChanged ∨ modelChanged
  { s with
    tables := { tables with generation := tables.generation + 1 }
    noteDimensions := some dimensions
    blockDimensions := some dimensions
    schema := some {
      model, dimensions
      epoch := match s.schema with
        | some schema => if changed then tables.generation + 1 else schema.epoch
        | none => tables.generation + 1 } }

section Runs
variable (e : Environment)

/-- The rows that a statement puts in are derived from a content with the revision that they name. -/
def Genuine : Statement → Prop
  | .upsertNote columns => ∃ path content createdAt updatedAt, endsWith path ".md" = true ∧
      columns = noteColumns e.derivation (noteInputOf e path content createdAt updatedAt)
        (e.contentRevision content)
  | .upsertBlock columns => ∃ path content createdAt updatedAt,
      columns ∈ blockColumns e.derivation e.settings (noteInputOf e path content createdAt updatedAt)
        (e.contentRevision content)
  | _ => True

inductive Step (s : State) : State → Prop
  | project {statement : Statement} {tables : Tables Computed} {affected : Nat}
      (hgenuine : Genuine e statement) (hrun : statement.run s.tables = some (tables, affected)) :
      Step s { s with tables }
  /-- A transaction that is rolled back has drawn from the sequence of generations. -/
  | draw (count : Nat) :
      Step s { s with tables := { s.tables with generation := s.tables.generation + count } }
  | list {token : EmbeddingNoteToken} {after : String} {limit failures : Nat} {blocks : Bool}
      (htoken : token ∈ embeddingCandidates s after limit failures blocks) :
      Step s { s with tokens := token :: s.tokens }
  | capture {token : EmbeddingNoteToken} {path title : String} {content : Text} (htoken : token ∈ s.tokens)
      (hsource : embeddingSource s token = some (path, title))
      (hrevision : e.contentRevision content = token.revision) :
      Step s { s with sources := (token, ⟨path, title, content⟩) :: s.sources }
  | listBlocks {token : EmbeddingNoteToken} {block : EmbeddingBlockToken} {after : Int} {failures : Nat}
      (htoken : token ∈ s.tokens) (hblock : block ∈ embeddingBlocks s token after failures) :
      Step s { s with blockTokens := (token, block) :: s.blockTokens }
  | completeNote {token : EmbeddingNoteToken} {source : Source} (succeeded : Bool)
      (hsource : (token, source) ∈ s.sources) (hpending : token.pendingNote = true) :
      Step s (completeEmbedding token none
        (if succeeded then some ⟨s.model, token.schemaEpoch, noteText e s.model source⟩ else none) s)
  /-- The part at the place of the block has its hash. -/
  | completeBlock {token : EmbeddingNoteToken} {source : Source} {block : EmbeddingBlockToken}
      {headings : List Heading} {content : Text} (succeeded : Bool)
      (hsource : (token, source) ∈ s.sources) (hblock : (token, block) ∈ s.blockTokens)
      (hchunk : (chunksOf e source.content)[block.index]? = some (headings, content))
      (hhash : e.derivation.sha256 content = block.hash) :
      Step s (completeEmbedding token (some block) (if succeeded then some ⟨s.model, token.schemaEpoch,
          blockText (breadcrumbPrefix source.path source.title headings) content⟩ else none) s)
  | invalidate {token : EmbeddingNoteToken} (htoken : token ∈ s.tokens) :
      Step s (invalidateEmbeddingProjection token s)
  | reset (model : String) (dimensions : Nat) : Step s (ensureEmbeddingSchema model dimensions s)
  /-- The worker's process ends, and starts with a configuration. -/
  | restart (model : String) (dimensions : Nat) :
      Step s { s with model, dimensions, tokens := [], sources := [], blockTokens := [] }

inductive Reachable : State → Prop
  | start (model : String) (dimensions : Nat) : Reachable { model, dimensions }
  | step {s s' : State} (h : Reachable s) (hstep : Step e s s') : Reachable s'

end Runs

end EmbeddingWorker
