import Obts.TextLines

/-!
# Conflicts of text, line by line

The rows of a conflict, and the text that choices for its changed rows make. The diff library is a parameter: of
`diffLines` it matters that it returns an edit script, of the word diff nothing.
-/
namespace ConflictDiffs

open TextLines List

/-- A part of a diff. -/
structure Part where
  value : Text
  (added removed : Bool)

structure DiffLibrary where
  (diffLines diffWordsWithSpace : Text → Text → List Part)

inductive ContentKind where
  | text
  | largeText
  | binary
  deriving DecidableEq

structure ConflictReviewFile where
  path : String
  contentKind : ContentKind
  (serverContent deviceContent : Option Text)

inductive LineResolution where
  | server
  | device
  | both

structure DiffToken where
  text : Text
  changed : Bool

structure ContextRow where
  id : String
  (serverLine deviceLine : Nat)
  text : Text

structure ChangeRow where
  id : String
  (serverLine deviceLine : Option Nat)
  (serverText deviceText : Option Text)
  (serverTokens deviceTokens : List DiffToken)

inductive ConflictDiffRow where
  | context (row : ContextRow)
  | change (row : ChangeRow)

/-- The tokens of the server's line and those of the device's. -/
def wordTokens (diff : DiffLibrary) (serverText deviceText : Option Text) : List DiffToken × List DiffToken :=
  let server := stripLineEnding (serverText.getD [])
  let device := stripLineEnding (deviceText.getD [])
  let parts := diff.diffWordsWithSpace server device
  ((parts.filter fun part => !part.added).map fun part => ⟨part.value, part.removed⟩,
    (parts.filter fun part => !part.removed).map fun part => ⟨part.value, part.added⟩)

/-- The counters of the loop over the parts. -/
structure Counters where
  (serverLine deviceLine contextIndex changeIndex : Nat)

/-- The rows of an unchanged part. -/
def contextRows (counters : Counters) : List Text → List ConflictDiffRow × Counters
  | [] => ([], counters)
  | text :: texts =>
    let row := .context ⟨s!"context-{counters.contextIndex}", counters.serverLine, counters.deviceLine, text⟩
    let (rows, counters) := contextRows ⟨counters.serverLine + 1, counters.deviceLine + 1, counters.contextIndex + 1,
      counters.changeIndex⟩ texts
    (row :: rows, counters)

/-- The texts of the rows of a changed block, up to the longer of the two sides. -/
def pairLines : List Text → List Text → List (Option Text × Option Text)
  | [], devices => devices.map fun device => (none, some device)
  | server :: servers, devices => (some server, devices.head?) :: pairLines servers devices.tail

/-- A line number of a row with a text, and the counter behind it. -/
def numberLine (text : Option Text) (line : Nat) : Option Nat × Nat :=
  if text.isSome then (some line, line + 1) else (none, line)

def changeRows (diff : DiffLibrary) (counters : Counters) :
    List (Option Text × Option Text) → List ConflictDiffRow × Counters
  | [] => ([], counters)
  | (serverText, deviceText) :: texts =>
    let wordDiff := wordTokens diff serverText deviceText
    let (serverLine, nextServer) := numberLine serverText counters.serverLine
    let (deviceLine, nextDevice) := numberLine deviceText counters.deviceLine
    let row := .change ⟨s!"change-{counters.changeIndex}", serverLine, deviceLine, serverText, deviceText, wordDiff.1,
      wordDiff.2⟩
    let (rows, counters) := changeRows diff ⟨nextServer, nextDevice, counters.contextIndex, counters.changeIndex + 1⟩
      texts
    (row :: rows, counters)

/-- The loop over the parts, with the lines of the block of changed parts that has been read last. The block ends
before an unchanged part and behind the last one. -/
def buildRows (diff : DiffLibrary) (counters : Counters) (serverLines deviceLines : List Text) :
    List Part → List ConflictDiffRow
  | [] => (changeRows diff counters (pairLines serverLines deviceLines)).1
  | part :: parts =>
    if !part.added && !part.removed then
      let (changes, counters) := changeRows diff counters (pairLines serverLines deviceLines)
      let (contexts, counters) := contextRows counters (splitLines part.value)
      changes ++ contexts ++ buildRows diff counters [] [] parts
    else
      buildRows diff counters (if part.removed then serverLines ++ splitLines part.value else serverLines)
        (if part.added then deviceLines ++ splitLines part.value else deviceLines) parts

variable (file : ConflictReviewFile)

def ConflictReviewFile.serverText : Text := file.serverContent.getD []

def ConflictReviewFile.deviceText : Text := file.deviceContent.getD []

def buildConflictDiff (diff : DiffLibrary) (file : ConflictReviewFile) : List ConflictDiffRow :=
  if file.contentKind ≠ .text then []
  else buildRows diff ⟨1, 1, 0, 0⟩ [] [] (diff.diffLines file.serverText file.deviceText)

variable (rows : List ConflictDiffRow)

def changedRows : List ChangeRow :=
  rows.filterMap fun row =>
    match row with
    | .change row => some row
    | .context _ => none

/-- What the loop over the rows has put together: the text, and whether it is the content of a file. -/
structure Selection where
  output : Text
  present : Bool

/-- A side of a changed row that was chosen. -/
def Selection.choose (selection : Selection) (content text : Option Text) : Selection :=
  ⟨selection.output ++ text.getD [], selection.present || content.isSome⟩

variable (choices : String → Option LineResolution)

def selectRow (selection : Selection) :
    ConflictDiffRow → Selection
  | .context row => ⟨selection.output ++ row.text, true⟩
  | .change row =>
    match choices row.id with
    | some .server => selection.choose file.serverContent row.serverText
    | some .device => selection.choose file.deviceContent row.deviceText
    | some .both => (selection.choose file.serverContent row.serverText).choose file.deviceContent row.deviceText
    | none => selection

def resolveConflictFile : Except String (Option Text) :=
  if file.contentKind ≠ .text then .error "Binary files cannot be resolved as text."
  else if changedRows rows = [] then
    if file.serverContent = file.deviceContent then .ok file.serverContent
    else .error s!"A whole-file choice is required for {file.path}."
  else if (changedRows rows).any fun row => (choices row.id).isNone then
    .error s!"Every changed line in {file.path} requires a choice."
  else
    let selection := rows.foldl (selectRow file choices) ⟨[], false⟩
    .ok (if selection.present then some selection.output else none)

inductive Side where
  | server
  | device
  deriving DecidableEq

variable (side : Side)

def Side.content (file : ConflictReviewFile) : Option Text :=
  match side with
  | .server => file.serverContent
  | .device => file.deviceContent

def Side.text (file : ConflictReviewFile) : Text := (side.content file).getD []

/-- The lines of a side in a row. -/
def Side.linesIn : Side → ConflictDiffRow → List Text
  | _, .context row => [row.text]
  | .server, .change row => row.serverText.toList
  | .device, .change row => row.deviceText.toList

/-- All lines of a side in the rows. -/
def Side.lines (rows : List ConflictDiffRow) : List Text := rows.flatMap side.linesIn

/-- Whether a part belongs to the text of a side. -/
def Side.has : Side → Part → Bool
  | .server, part => !part.added
  | .device, part => !part.removed

/-- The texts of the parts of a side. -/
def Side.values (parts : List Part) : List Text := (parts.filter side.has).map Part.value

/-- The choice of a side. -/
def Side.choice : Side → LineResolution
  | .server => .server
  | .device => .device

/-- Each part is unchanged, added or removed, and the parts of a side make up its text. -/
structure EditScript (parts : List Part) (file : ConflictReviewFile) : Prop where
  exclusive : ∀ part ∈ parts, ¬ (part.added ∧ part.removed)
  text : ∀ side : Side, (side.values parts).flatten = side.text file

section Rows
variable {diff : DiffLibrary} (side : Side)

lemma lines_append (rows others : List ConflictDiffRow) :
    side.lines (rows ++ others) = side.lines rows ++ side.lines others := flatMap_append

lemma lines_contextRows (counters : Counters) (texts : List Text) :
    side.lines (contextRows counters texts).1 = texts := by
  induction texts generalizing counters with
  | nil => rfl
  | cons text texts ih =>
    have hrest := ih ⟨counters.serverLine + 1, counters.deviceLine + 1, counters.contextIndex + 1,
      counters.changeIndex⟩
    rw [Side.lines] at hrest ⊢
    rw [contextRows, flatMap_cons, hrest]
    cases side <;> rfl

/-- The lines of a side in the texts of changed rows. -/
def Side.pick : Side → List (Option Text × Option Text) → List Text
  | .server, texts => texts.flatMap fun pair => pair.1.toList
  | .device, texts => texts.flatMap fun pair => pair.2.toList

lemma lines_changeRows (counters : Counters) (texts : List (Option Text × Option Text)) :
    side.lines (changeRows diff counters texts).1 = side.pick texts := by
  induction texts generalizing counters with
  | nil => cases side <;> rfl
  | cons pair texts ih =>
    have hrest := ih ⟨(numberLine pair.1 counters.serverLine).2, (numberLine pair.2 counters.deviceLine).2,
      counters.contextIndex, counters.changeIndex + 1⟩
    rw [Side.lines] at hrest ⊢
    rw [changeRows, flatMap_cons, hrest]
    cases side <;> rfl

lemma pick_pairLines (servers devices : List Text) :
    Side.server.pick (pairLines servers devices) = servers ∧
      Side.device.pick (pairLines servers devices) = devices := by
  induction servers generalizing devices with
  | nil => simp [pairLines, Side.pick, flatMap_map]
  | cons server servers ih =>
    obtain ⟨hsrv, hdev⟩ := ih devices.tail
    simp only [Side.pick] at hsrv hdev ⊢
    rw [pairLines, flatMap_cons, flatMap_cons, hsrv, hdev]
    cases devices <;> exact ⟨rfl, rfl⟩

/-- What has been read of the last block, by side. -/
def Side.of (side : Side) (servers devices : List Text) : List Text :=
  match side with
  | .server => servers
  | .device => devices

lemma lines_block (counters : Counters) (servers devices : List Text) :
    side.lines (changeRows diff counters (pairLines servers devices)).1 = side.of servers devices := by
  rw [lines_changeRows]
  cases side with
  | server => exact (pick_pairLines servers devices).1
  | device => exact (pick_pairLines servers devices).2

/-- The rows hold the lines of a side in order. -/
lemma lines_buildRows {parts : List Part} (hexcl : ∀ part ∈ parts, ¬ (part.added ∧ part.removed))
    (counters : Counters) (servers devices : List Text) : side.lines (buildRows diff counters servers devices parts)
      = side.of servers devices ++ (side.values parts).flatMap splitLines := by
  induction parts generalizing counters servers devices with
  | nil => simp [buildRows, lines_block, Side.values]
  | cons part parts ih =>
    rw [forall_mem_cons] at hexcl
    obtain ⟨hpart, hparts⟩ := hexcl
    have hrest := ih hparts
    obtain ⟨value, added, removed⟩ := part
    cases added with
    | false =>
      cases removed with
      | false =>
        cases side <;>
          simp [buildRows, lines_append, lines_block, lines_contextRows, hrest, Side.values, Side.has, Side.of]
      | true => cases side <;> simp [buildRows, hrest, Side.values, Side.has, Side.of]
    | true =>
      cases removed with
      | false => cases side <;> simp [buildRows, hrest, Side.values, Side.has, Side.of]
      | true => exact absurd ⟨rfl, rfl⟩ hpart

end Rows

section Sides
variable {diff : DiffLibrary} {file : ConflictReviewFile} {choices : String → Option LineResolution}
  {rows : List ConflictDiffRow} {side : Side}

/-- The script of a file. -/
def scriptOf (diff : DiffLibrary) (file : ConflictReviewFile) : List Part :=
  diff.diffLines file.serverText file.deviceText

lemma lines_buildConflictDiff (hkind : file.contentKind = .text) (hscr : EditScript (scriptOf diff file) file)
    (side : Side) : side.lines (buildConflictDiff diff file) =
      (side.values (scriptOf diff file)).flatMap splitLines := by
  rw [buildConflictDiff, if_neg (not_not.mpr hkind), ← scriptOf, lines_buildRows side hscr.exclusive]
  cases side <;> exact nil_append _

lemma flatten_flatMap_splitLines (values : List Text) : (values.flatMap splitLines).flatten = values.flatten := by
  induction values with
  | nil => rfl
  | cons value values ih => simp [flatten_splitLines, ih]

/-- The rows of a text file hold all of the text of a side. -/
lemma flatten_buildConflictDiff (hkind : file.contentKind = .text) (hscr : EditScript (scriptOf diff file) file)
    (side : Side) : (side.lines (buildConflictDiff diff file)).flatten = side.text file := by
  rw [lines_buildConflictDiff hkind hscr, flatten_flatMap_splitLines, hscr.text]

lemma line_of_mem_lines (hkind : file.contentKind = .text) (hscr : EditScript (scriptOf diff file) file)
    {line : Text} (h : line ∈ side.lines (buildConflictDiff diff file)) : Line line := by
  rw [lines_buildConflictDiff hkind hscr] at h
  obtain ⟨value, -, hline⟩ := mem_flatMap.mp h
  exact line_of_mem hline

lemma mem_changedRows {row : ChangeRow} : row ∈ changedRows rows ↔ .change row ∈ rows := by
  rw [changedRows, mem_filterMap]
  constructor
  · rintro ⟨other, hother, heq⟩
    cases other with
    | context row => cases heq
    | change row => exact Option.some.inj heq ▸ hother
  · exact fun h => ⟨.change row, h, rfl⟩

/-- What the loop over the rows ends with. -/
def selectionOf (file : ConflictReviewFile) (choices : String → Option LineResolution) (rows : List ConflictDiffRow) :
    Selection := rows.foldl (selectRow file choices) ⟨[], false⟩

lemma resolveConflictFile_decided (hkind : file.contentKind = .text) (hchg : changedRows rows ≠ [])
    (hdec : ∀ row ∈ changedRows rows, choices row.id ≠ none) :
    resolveConflictFile file rows choices = .ok (if (selectionOf file choices rows).present then
      some (selectionOf file choices rows).output else none) := by
  have hall : ((changedRows rows).any fun row => (choices row.id).isNone) = false := by
    simpa using hdec
  rw [resolveConflictFile, if_neg (not_not.mpr hkind), if_neg hchg, hall]
  rfl

/-- Whether a row shows that the file of a side is there. -/
def Side.shows (side : Side) (file : ConflictReviewFile) : ConflictDiffRow → Bool
  | .context _ => true
  | .change _ => (side.content file).isSome

lemma selectRow_side {row : ConflictDiffRow} (selection : Selection)
    (hcho : ∀ change, row = .change change → choices change.id = some side.choice) :
    selectRow file choices selection row
      = ⟨selection.output ++ (side.linesIn row).flatten, selection.present || side.shows file row⟩ := by
  cases row with
  | context row => simp [selectRow, Side.linesIn, Side.shows]
  | change row =>
    have h := hcho row rfl
    cases side with
    | server => cases htext : row.serverText <;>
        simp [selectRow, h, Side.choice, Selection.choose, Side.linesIn, Side.shows, Side.content, htext]
    | device => cases htext : row.deviceText <;>
        simp [selectRow, h, Side.choice, Selection.choose, Side.linesIn, Side.shows, Side.content, htext]

/-- With one side chosen throughout, the loop puts together its lines. -/
lemma foldl_selectRow_side (hcho : ∀ row ∈ changedRows rows, choices row.id = some side.choice)
    (selection : Selection) : rows.foldl (selectRow file choices) selection
      = ⟨selection.output ++ (side.lines rows).flatten, selection.present || rows.any (side.shows file)⟩ := by
  induction rows generalizing selection with
  | nil => simp [Side.lines]
  | cons row rows ih =>
    have hrow : ∀ change, row = .change change → choices change.id = some side.choice := by
      rintro change rfl
      exact hcho change (mem_changedRows.mpr mem_cons_self)
    have hrows : ∀ change ∈ changedRows rows, choices change.id = some side.choice :=
      fun change hchg => hcho change (mem_changedRows.mpr (mem_cons_of_mem _ (mem_changedRows.mp hchg)))
    rw [foldl_cons, selectRow_side selection hrow, ih hrows]
    simp [Side.lines, Bool.or_assoc]

end Sides

/-- Choosing one side for every changed row gives the content of that side, and none where it is absent. -/
theorem resolve_one_side (diff : DiffLibrary) (file : ConflictReviewFile) (choices : String → Option LineResolution)
    (side : Side) (hkind : file.contentKind = .text) (hscript : EditScript (scriptOf diff file) file)
    (hchanged : changedRows (buildConflictDiff diff file) ≠ [])
    (hchoices : ∀ row ∈ changedRows (buildConflictDiff diff file), choices row.id = some side.choice) :
    resolveConflictFile file (buildConflictDiff diff file) choices = .ok (side.content file) := by
  have hdec : ∀ row ∈ changedRows (buildConflictDiff diff file), choices row.id ≠ none := by
    intro row hrow
    rw [hchoices row hrow]
    exact Option.some_ne_none _
  have hflat := flatten_buildConflictDiff hkind hscript side
  rw [resolveConflictFile_decided hkind hchanged hdec, selectionOf, foldl_selectRow_side hchoices]
  simp only [nil_append, Bool.false_or, hflat]
  cases hcont : side.content file with
  | some content =>
    -- one changed row is enough to show that the side is there
    obtain ⟨row, hrow⟩ := exists_mem_of_ne_nil _ hchanged
    have hshows : (buildConflictDiff diff file).any (side.shows file) = true :=
      any_eq_true.mpr ⟨_, mem_changedRows.mp hrow, by simp [Side.shows, hcont]⟩
    simp [hshows, Side.text, hcont]
  | none =>
    -- an unchanged row would hold a line of the absent text
    have htext : side.text file = [] := by simp [Side.text, hcont]
    have hnone : (buildConflictDiff diff file).any (side.shows file) = false := by
      rw [any_eq_false]
      intro row hrow
      cases row with
      | change row => simp [Side.shows, hcont]
      | context row =>
        have hline : row.text ∈ side.lines (buildConflictDiff diff file) :=
          mem_flatMap.mpr ⟨_, hrow, by cases side <;> exact mem_singleton_self _⟩
        have hempty : row.text = [] := flatten_eq_nil_iff.mp (hflat.trans htext) _ hline
        exact absurd hempty (line_of_mem_lines hkind hscript hline).ne_nil
    simp [hnone]

/-- A diff that keeps nothing of two different texts. -/
def replacingDiff : DiffLibrary where
  diffLines server device := if server = device then [⟨server, false, false⟩]
    else [⟨server, false, true⟩, ⟨device, true, false⟩]
  diffWordsWithSpace server device := [⟨server, false, true⟩, ⟨device, true, false⟩]

/-- The server has `a`, and the device has put another line behind it. -/
def longerNote : ConflictReviewFile := ⟨"note.md", .text, some [97], some [97, 10, 98]⟩

lemma editScript_longerNote : EditScript (scriptOf replacingDiff longerNote) longerNote where
  exclusive := by decide
  text side := by cases side <;> rfl

theorem resolve_one_side_longerNote :
    resolveConflictFile longerNote (buildConflictDiff replacingDiff longerNote) (fun _ => some .device)
      = .ok (some [97, 10, 98]) :=
  resolve_one_side replacingDiff longerNote (fun _ => some .device) .device rfl editScript_longerNote (by decide)
    (fun _ _ => rfl)

end ConflictDiffs
