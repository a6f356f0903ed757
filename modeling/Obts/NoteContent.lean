import Obts.AccessPolicies
import Obts.ListSearch

/-!
# The content of a note

A Markdown note begins with a block of YAML between two lines of dashes, its front matter, and its tags
are those named there together with those written in its body.
-/
namespace NoteContent

open InsertionOrder JsonValues RustText List

abbrev Text := List Char

/-- Printing a mapping, without the last line break, and parsing a text. -/
structure Yaml where
  print : Map → Text
  parse : Text → Option Value

/-- `\A(?:\u\x7bfeff\x7d)?---\r?\n` -/
def opening (content : Text) : Option Text :=
  let text := match content with
    | c :: rest => if c.toNat = 0xFEFF then rest else content
    | [] => []
  match text with
  | '-' :: '-' :: '-' :: '\n' :: rest => some rest
  | '-' :: '-' :: '-' :: '\r' :: '\n' :: rest => some rest
  | _ => none

/-- `---(?:\r?\n|$)` -/
def dashes : Text → Option Text
  | ['-', '-', '-'] => some []
  | '-' :: '-' :: '-' :: '\n' :: rest => some rest
  | '-' :: '-' :: '-' :: '\r' :: '\n' :: rest => some rest
  | _ => none

/-- `\r?\n---(?:\r?\n|$)` -/
def closing : Text → Option Text
  | '\n' :: rest => dashes rest
  | '\r' :: '\n' :: rest => dashes rest
  | _ => none

/-- What stands before the first closing line, and what after it. -/
def scan : Text → Option (Text × Text)
  | [] => none
  | c :: rest =>
    match closing (c :: rest) with
    | some after => some ([], after)
    | none => (scan rest).map fun found => (c :: found.1, found.2)

def isLineBreak (c : Char) : Bool := c = '\r' || c = '\n'

def parseFrontmatter (yaml : Yaml) (content : Text) : Value × Text :=
  match (opening content).bind scan with
  | none => (.record [], content)
  | some (text, rest) => ((yaml.parse text).getD (.record []), rest.dropWhile isLineBreak)

/-- A front matter and what follows it after an empty line. -/
structure Markdown where
  frontmatter : Map
  body : Text

def Markdown.text (yaml : Yaml) (markdown : Markdown) : Text :=
  "---\n".toList ++ yaml.print markdown.frontmatter ++ "\n---\n\n".toList ++ markdown.body

/-- The mapping is read back from its print, of which no line but the first is a line of dashes. -/
structure Yaml.RoundTrips (yaml : Yaml) (frontmatter : Map) : Prop where
  parse : yaml.parse (yaml.print frontmatter) = some (.record frontmatter)
  plain : '\r' ∉ yaml.print frontmatter
  lines : ¬ "\n---\n".toList <:+: yaml.print frontmatter ++ ['\n']

/-- Dashes that close a block before another line break are a line of the block. -/
lemma dashes_line {back rest after : Text} (hplain : '\r' ∉ back)
    (h : dashes (back ++ '\n' :: rest) = some after) : "---\n".toList <+: back ++ ['\n'] := by
  rw [dashes.eq_def] at h
  split at h
  · rename_i heq
    have hmem : '\n' ∈ back ++ '\n' :: rest := by simp
    rw [heq] at hmem
    simp at hmem
  · rename_i rest' heq
    rcases back with _ | ⟨a, _ | ⟨b, _ | ⟨c, back⟩⟩⟩
    · simp at heq
    · simp at heq
    · simp at heq
    simp only [cons_append, cons.injEq] at heq
    obtain ⟨rfl, rfl, rfl, heq⟩ := heq
    cases back with
    | nil => exact prefix_rfl
    | cons d back =>
      obtain ⟨rfl, -⟩ := cons.inj heq
      exact ⟨back ++ ['\n'], rfl⟩
  · rename_i rest' heq
    rcases back with _ | ⟨a, _ | ⟨b, _ | ⟨c, back⟩⟩⟩
    · simp at heq
    · simp at heq
    · simp at heq
    simp only [cons_append, cons.injEq] at heq
    obtain ⟨rfl, rfl, rfl, heq⟩ := heq
    cases back with
    | nil => simp at heq
    | cons d back =>
      obtain ⟨rfl, -⟩ := cons.inj heq
      simp at hplain
  · cases h

/-- A block is scanned up to the first line that closes it. -/
lemma scan_append {text rest after : Text} (hplain : '\r' ∉ text)
    (hlines : ¬ "\n---\n".toList <:+: text ++ ['\n']) (hclosing : dashes rest = some after) :
    scan (text ++ '\n' :: rest) = some (text, after) := by
  induction text with
  | nil => rw [nil_append, scan, closing, hclosing]
  | cons c text ih =>
    have hrest : scan (text ++ '\n' :: rest) = some (text, after) :=
      ih (fun hmem => hplain (mem_cons_of_mem _ hmem))
        fun hinner => hlines (hinner.trans (infix_cons_iff.mpr (Or.inr infix_rfl)))
    have hhere : closing (c :: (text ++ '\n' :: rest)) = none := by
      rw [closing.eq_def]
      split
      · rename_i line heq
        obtain ⟨rfl, rfl⟩ := cons.inj heq
        by_contra hfound
        obtain ⟨found, hfound⟩ := Option.ne_none_iff_exists'.mp hfound
        obtain ⟨tail, htail⟩ := dashes_line (fun hmem => hplain (mem_cons_of_mem _ hmem)) hfound
        exact hlines ⟨[], tail, by simp [← htail]⟩
      · rename_i line heq
        obtain ⟨rfl, -⟩ := cons.inj heq
        exact absurd mem_cons_self hplain
      · rfl
    rw [cons_append, scan, hhere]
    rw [hrest]
    rfl

/-- What is written is parsed again. -/
lemma parseFrontmatter_text {yaml : Yaml} {markdown : Markdown}
    (h : yaml.RoundTrips markdown.frontmatter) : parseFrontmatter yaml (markdown.text yaml)
      = (.record markdown.frontmatter, markdown.body.dropWhile isLineBreak) := by
  have hopen : opening (markdown.text yaml)
      = some (yaml.print markdown.frontmatter ++ '\n' :: ("---\n\n".toList ++ markdown.body)) := by
    rw [Markdown.text, append_assoc, append_assoc]
    rfl
  have hdash : dashes ("---\n\n".toList ++ markdown.body) = some ('\n' :: markdown.body) := rfl
  rw [parseFrontmatter, hopen, Option.bind_some, scan_append h.plain h.lines hdash]
  simp only [h.parse, Option.getD_some]
  rw [dropWhile_cons_of_pos (by decide)]

def pushTag (tags : List String) (raw : String) : List String :=
  let normalized := trimStartMatches (trim raw) '#'
  if normalized = "" then tags else tags ++ [normalized]

/-- What is left of a list when equal neighbours are dropped. -/
def dedupFrom (same : String → String → Bool) (kept : String) : List String → List String
  | [] => [kept]
  | tag :: tags =>
    if same tag kept then dedupFrom same kept tags else kept :: dedupFrom same tag tags

variable (same : String → String → Bool)

def dedupBy : List String → List String
  | [] => []
  | tag :: tags => dedupFrom same tag tags

def sortDedup (tags : List String) : List String :=
  dedupBy same (sortBy byteOrder tags)

/-- A list of texts, or one text with commas and blanks. -/
def namedTags (frontmatter : Value) : List String :=
  match frontmatter.get "tags" with
  | some (.array items) => items.filterMap Value.asStr
  | some (.string raw) => (raw.toList.splitOnP fun c => c = ',' || c = ' ').map String.ofList
  | _ => []

def extractFrontmatterTags (frontmatter : Value) : List String :=
  sortDedup (fun a b => decide (a = b)) ((namedTags frontmatter).foldl pushTag [])

structure NoteInput where
  title : String
  body : Text
  frontmatter : Value
  tags : List String

/-- The last part of the path, without its ending. -/
def titleFromNoteId (path : String) : String :=
  let filename := (path.toList.splitOn '/').getLast?.getD []
  let stem := if ".md".toList.isSuffixOf filename then filename.take (filename.length - 3) else filename
  let stem := trim (String.ofList stem)
  if stem = "" then "Untitled" else stem

/-- `inlineTags` finds the tags written in a body outside code. -/
def noteInputFromRawMarkdown (yaml : Yaml) (inlineTags : Text → List String) (path : String)
    (content : Text) : NoteInput :=
  let (frontmatter, body) := parseFrontmatter yaml content
  { title := titleFromNoteId path
    body
    frontmatter
    tags := sortDedup eqIgnoreAsciiCase (sortDedup (fun a b => decide (a = b))
      (inlineTags body ++ extractFrontmatterTags frontmatter)) }

end NoteContent
