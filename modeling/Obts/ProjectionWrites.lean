import Mathlib.Algebra.GroupWithZero.Nat
import Obts.BatchWriter
import Obts.NoteContent
import Obts.ProjectionTables

/-!
# Writing the index

A write first marks the file's row as incomplete, in a batch of its own. Then it replaces the note, its
tags and links, and its blocks, and last it marks the row as complete if the rows are as many as it put
there.
-/
namespace ProjectionTables

open InsertionOrder JsonValues RustText AccessPolicies BatchWriter List

abbrev Text := List Char

structure LinkInput where
  targetId : String
  position : Nat

structure NoteInput where
  (id title : String)
  content : Text
  frontmatter : Value
  tags : List String
  createdAt : Option Int
  updatedAt : Int
  links : List LinkInput

/-- The Markdown files are those that have a note, which goes by its path. -/
structure PreparedVaultWrite where
  path : String
  createdAt : Option Int
  updatedAt : Int
  note : Option NoteInput
  noteId : ∀ input, note = some input → input.id = path
  markdown : note.isSome = endsWith path ".md"

structure Heading where
  level : Nat
  text : String

structure BlockSettings where
  (minChars chunkBytes overlapSentences : Nat)

/-- Reading Markdown, hashing and Unicode. `chunks` are the parts of a body below their headings. -/
structure Derivation where
  firstH1Title : Text → Option String
  plainText : Text → String
  chunks : BlockSettings → Text → List (List Heading × Text)
  sha256 : Text → String
  toLowercase : String → String

/-- The lines of a text without their ends; a carriage return goes with the line feed after it. -/
def lines (text : Text) : List Text :=
  let parts := text.splitOn '\n'
  (parts.dropLast.map fun line => if line.getLast? = some '\r' then line.dropLast else line) ++
    parts.getLast?.toList.filter fun line => line ≠ []

/-- The headings. -/
def structuralSummary (content : Text) : String :=
  "\n".intercalate (((lines content).filter fun line => line.head? = some '#').map String.ofList)

def byteSize (text : Text) : Nat := (text.map Char.utf8Size).sum

/-- The characters that fit, up to the first that does not. -/
def truncateUtf8 : Nat → Text → Text
  | _, [] => []
  | limit, c :: text =>
    if c.utf8Size ≤ limit then c :: truncateUtf8 (limit - c.utf8Size) text else []

def maxIndexedSearchTextBytes : Nat := 500000

def isMocLabel (label : String) : Bool :=
  ["moc", "map_of_content", "map_of_contents"].contains
    (String.ofList ((toAsciiLowercase (trim label)).toList.map fun c => if c = '-' then '_' else c))

def asBool : Value → Option Bool
  | .boolean value => some value
  | _ => none

def asArray : Value → Option (List Value)
  | .array items => some items
  | _ => none

def frontmatterMarksHub (frontmatter : Value) : Bool :=
  match frontmatter.asObject with
  | none => false
  | some object =>
    ((object.get "type").bind Value.asStr).any isMocLabel ||
      ((object.get "moc").bind asBool).getD false || ((object.get "is_hub").bind asBool).getD false ||
      ((object.get "tags").bind asArray).any fun tags => (tags.filterMap Value.asStr).any isMocLabel

/-- Of the links to one target the first stays. -/
def addLink (links : List LinkInput) (link : LinkInput) : List LinkInput :=
  if (links.map LinkInput.targetId).contains link.targetId then
    links.map fun existing =>
      if existing.targetId = link.targetId && link.position < existing.position then link else existing
  else links ++ [link]

def linkOrder (a b : LinkInput) : Ordering :=
  (compare a.position b.position).then (byteOrder a.targetId b.targetId)

def orderedLinks (links : List LinkInput) : List LinkInput := sortBy linkOrder (links.foldl addLink [])

/-- The folder, the title and the headings above a block. -/
def breadcrumbPrefix (path title : String) (headings : List Heading) : String :=
  let stripped := if endsWith path ".md" then path.toList.take (path.length - 3) else path.toList
  let folder := String.ofList (((stripped.splitOn '/').dropLast.intersperse ['/']).flatten)
  " > ".intercalate ((if folder = "" then [] else [folder]) ++ (if title = "" then [] else [title]) ++
    headings.map Heading.text)

def headingPath (headings : List Heading) : String :=
  " > ".intercalate (headings.map fun heading =>
    String.ofList (List.replicate heading.level '#') ++ " " ++ heading.text)

def summaryWithTitleFallback (title : String) (content : Text) : String :=
  let summary := structuralSummary content
  let header := "# " ++ (if trim title = "" then "Untitled" else trim title)
  if summary = "" then header
  else if (lines summary.toList).any fun line => "# ".toList.isPrefixOf line then summary
  else header ++ "\n" ++ summary

section Derived
variable (derivation : Derivation)

def noteColumns (input : NoteInput) (revision : String) : NoteColumns where
  id := input.id
  path := input.id
  title := input.title
  headingTitle := derivation.firstH1Title input.content
  summary := summaryWithTitleFallback input.title input.content
  frontmatter := input.frontmatter
  revision
  createdAt := input.createdAt
  updatedAt := input.updatedAt
  policyOwner := ownerFromFrontmatter input.frontmatter
  policyTitleAscii := toAsciiLowercase input.title
  projectionHub := frontmatterMarksHub input.frontmatter
  bodyBytes := byteSize input.content

variable (input : NoteInput)

def lexicalColumns : LexicalColumns :=
  let searchText := derivation.plainText input.content
  { title := derivation.toLowercase (NoteContent.titleFromNoteId input.id)
    plaintext := derivation.toLowercase searchText
    search := truncateUtf8 maxIndexedSearchTextBytes (input.title ++ "\n" ++ searchText).toList }

/-- Each tag once. -/
def tagRows : List TagRow :=
  (ofList input.tags).map fun tag => ⟨input.id, tag, toAsciiLowercase (normalizeTag tag)⟩

/-- The largest `i32`. -/
def maxPosition : Nat := 2 ^ 31 - 1

def linkRows : List LinkRow :=
  (orderedLinks input.links).map fun link => ⟨input.id, link.targetId, min link.position maxPosition⟩

def blockColumns (settings : BlockSettings) (input : NoteInput) (revision : String) : List BlockColumns :=
  (derivation.chunks settings input.content).mapIdx fun index (headings, content) =>
    { id := blockId input.id index
      noteId := input.id
      index
      headingPath := headingPath headings
      breadcrumb := breadcrumbPrefix input.id input.title headings
      contentHash := derivation.sha256 content
      sourceRevision := revision }

end Derived

def page : Nat := 128

section Select
variable {V : Type}

/-- A page of the keys after a key. -/
def pageAfter (keys : List String) (after : String) : List String :=
  (sortBy byteOrder (keys.filter fun key => byteOrder after key = .lt)).take page

variable (path : String)

def selectTags (tables : Tables V) (after : String) : List String :=
  pageAfter ((tables.tags.filter fun row => row.noteId = path).map TagRow.tag) after

def selectLinks (tables : Tables V) (after : String) : List String :=
  pageAfter ((tables.links.filter fun row => row.sourceId = path).map LinkRow.targetId) after

def selectBlocks (blocksAfter : Option Nat) (tables : Tables V) (after : String) : List String :=
  pageAfter ((tables.blocks.filter fun row =>
    row.columns.noteId = path && blocksAfter.all fun first => first ≤ row.columns.index).map
      BlockRow.id) after

end Select

/-- The limits of a batch and the bytes of the parameters of a statement. -/
structure Batching where
  limits : Limits
  bytes : Statement → Nat

section Writes
variable {V : Type} (batching : Batching)

def exec (statement : Statement) (w : Writer (Tables V)) : Except (Writer (Tables V)) (Writer (Tables V)) :=
  w.exec batching.limits statement.run (batching.bytes statement)

def execEach (statements : List Statement) (w : Writer (Tables V)) :
    Except (Writer (Tables V)) (Writer (Tables V)) :=
  w.execEach batching.limits Statement.run batching.bytes statements

/-- There are no more pages than rows, and one that is empty. -/
def sweep (select : Tables V → String → List String) (statement : String → Statement)
    (w : Writer (Tables V)) : Except (Writer (Tables V)) (Writer (Tables V)) :=
  let rows := w.view.tags.length + w.view.links.length + w.view.blocks.length
  w.flush.sweep batching.limits select (fun key => (statement key).run)
    (fun key => batching.bytes (statement key)) (rows + 1) ""

variable (path : String)

def cleanupTags (w : Writer (Tables V)) : Except (Writer (Tables V)) (Writer (Tables V)) :=
  sweep batching (selectTags path) (.deleteTag path) w

def cleanupLinks (w : Writer (Tables V)) : Except (Writer (Tables V)) (Writer (Tables V)) :=
  sweep batching (selectLinks path) (.deleteLink path) w

def cleanupBlocks (blocksAfter : Option Nat) (w : Writer (Tables V)) :
    Except (Writer (Tables V)) (Writer (Tables V)) :=
  sweep batching (selectBlocks path blocksAfter) (.deleteBlock path) w

variable (derivation : Derivation) (settings : BlockSettings)

/-- The rows of a note; the count is that of what it put there. -/
def projectNote (input : NoteInput) (revision : String) (w : Writer (Tables V)) :
    Except (Writer (Tables V)) (Writer (Tables V)) := do
  let w ← exec batching (.upsertNote (noteColumns derivation input revision)) w
  let w ← exec batching (.setLexical input.id (lexicalColumns derivation input)) w
  let w ← cleanupTags batching input.id w
  let w ← cleanupLinks batching input.id w
  let w ← execEach batching ((tagRows input).map .insertTag) w
  let w ← execEach batching ((linkRows input).map .upsertLink) w
  let blocks := blockColumns derivation settings input revision
  let w ← execEach batching (blocks.map .upsertBlock) w
  cleanupBlocks batching input.id (some blocks.length) w

variable (write : PreparedVaultWrite) (revision : String)

def expectedCount : Nat :=
  match write.note with
  | none => 1
  | some input => 1 + (2 + (tagRows input).length + (ofList ((linkRows input).map LinkRow.targetId)).length +
      (blockColumns derivation settings input revision).length)

/-- The file is incomplete before any of its derived rows is written. -/
def projectRows (tables : Tables V) : Except (Writer (Tables V)) (Writer (Tables V)) := do
  let w ← exec batching (.upsertFile write.path revision write.createdAt write.updatedAt)
    { committed := tables }
  match write.note with
  | none => .ok w.flush
  | some input => projectNote batching derivation settings input revision w.flush

def sqlProjectWrite (tables : Tables V) : Except (Writer (Tables V)) (Writer (Tables V)) := do
  let w ← projectRows batching derivation settings write revision tables
  let complete := Statement.completeFile write.path revision (expectedCount derivation settings write revision)
  w.commitOne batching.limits complete.run (batching.bytes complete)

def sqlDeleteProjection (path : String) (tables : Tables V) :
    Except (Writer (Tables V)) (Writer (Tables V)) := do
  let w ← exec batching (.invalidateFile path) { committed := tables }
  let w ← cleanupTags batching path w
  let w ← cleanupLinks batching path w
  let w ← cleanupBlocks batching path none w
  let w ← exec batching (.deleteNote path) w
  let w ← exec batching (.deleteFile path) w
  .ok w.flush

end Writes

section Pages
variable {V : Type} {batching : Batching} {w : Writer (Tables V)} {path : String}

/-- How many keys are after a key. -/
def keysLeft (keys : List String) (after : String) : Nat :=
  (keys.filter fun key => byteOrder after key = .lt).length

lemma keysLeft_last {keys : List String} {after last : String}
    (h : (pageAfter keys after).getLast? = some last) : keysLeft keys last < keysLeft keys after := by
  have hmem := mem_filter.mp (mem_sortBy.mp (mem_of_mem_take (mem_of_getLast? h)))
  exact length_after_lt hmem.1 (of_decide_eq_true hmem.2)

/-- A sweep reads pages until none is left. -/
lemma sweep_enough (keys : Tables V → List String) (statement : String → Statement)
    (hkeys : ∀ key tables after affected, (statement key).run tables = some (after, affected) →
      (keys after).Sublist (keys tables)) (hrows : (keys w.view).length
      ≤ w.view.tags.length + w.view.links.length + w.view.blocks.length) (more : Nat) :
    w.flush.sweep batching.limits (fun tables => pageAfter (keys tables)) (fun key => (statement key).run)
        (fun key => batching.bytes (statement key))
        (w.view.tags.length + w.view.links.length + w.view.blocks.length + 1 + more) ""
      = sweep batching (fun tables => pageAfter (keys tables)) statement w := by
  induction more with
  | zero => rfl
  | succ more ih =>
    rw [← ih, ← Nat.add_assoc]
    refine Writer.sweep_succ (fun tables => keysLeft (keys tables)) Writer.tx_flush ?_ ?_ ?_
    · exact fun tables after last h => keysLeft_last h
    · exact fun key tables after affected h later =>
        ((hkeys key tables after affected h).filter _).length_le
    · rw [Writer.committed_flush]
      have hleft : keysLeft (keys w.view) "" ≤ (keys w.view).length := length_filter_le _ _
      omega

/-- So do the three that a note has. -/
theorem cleanups_enough (w : Writer (Tables V)) (blocksAfter : Option Nat) (more : Nat) :
    let pages := w.view.tags.length + w.view.links.length + w.view.blocks.length + 1 + more
    w.flush.sweep batching.limits (selectTags path) (fun key => (Statement.deleteTag path key).run)
        (fun key => batching.bytes (.deleteTag path key)) pages "" = cleanupTags batching path w ∧
    w.flush.sweep batching.limits (selectLinks path) (fun key => (Statement.deleteLink path key).run)
        (fun key => batching.bytes (.deleteLink path key)) pages "" = cleanupLinks batching path w ∧
    w.flush.sweep batching.limits (selectBlocks path blocksAfter) (fun key => (Statement.deleteBlock path key).run)
        (fun key => batching.bytes (.deleteBlock path key)) pages ""
      = cleanupBlocks batching path blocksAfter w := by
  refine ⟨sweep_enough (fun tables => (tables.tags.filter fun row => row.noteId = path).map TagRow.tag)
    (.deleteTag path) ?_ ?_ more, sweep_enough (fun tables =>
      (tables.links.filter fun row => row.sourceId = path).map LinkRow.targetId)
    (.deleteLink path) ?_ ?_ more, sweep_enough (fun tables => (tables.blocks.filter fun row =>
      row.columns.noteId = path && blocksAfter.all fun first => first ≤ row.columns.index).map
        BlockRow.id) (.deleteBlock path) ?_ ?_ more⟩
  · intro key tables after affected h
    cases h
    exact (filter_sublist.filter _).map _
  · rw [length_map]
    exact (length_filter_le _ _).trans (by omega)
  · intro key tables after affected h
    cases h
    exact (filter_sublist.filter _).map _
  · rw [length_map]
    exact (length_filter_le _ _).trans (by omega)
  · intro key tables after affected h
    cases h
    exact (filter_sublist.filter _).map _
  · rw [length_map]
    exact (length_filter_le _ _).trans (by omega)

end Pages

section Revisions
variable {V : Type}

/-- A Markdown file has its note and as many rows as were counted. -/
def reportedRevision (tables : Tables V) (row : FileRow) : String :=
  if row.complete && (!endsWith row.path ".md" ||
      (tables.notes.any fun note =>
        note.id = row.path && note.columns.revision = row.revision && note.lexical.isSome) &&
      row.rowCount = 3 + tables.derivedCount row.path) then
    row.revision
  else ""

/-- The paths with their revisions, an empty one for what is not complete. -/
def sqlRevisions (tables : Tables V) : List (String × String) :=
  (tables.files.filter fun row => row.path ≠ "").map fun row => (row.path, reportedRevision tables row)

end Revisions

end ProjectionTables
