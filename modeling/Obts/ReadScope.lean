import Obts.AccessPolicies
import Obts.ThreeValued

/-!
# The read scope

Searches do not ask the policy note by note. They select the readable notes by a condition that is made
of the rules, and only when some rule has a title pattern, which the database cannot test, are the
selected notes checked one by one.
-/
namespace ReadScope

open InsertionOrder ThreeValued JsonValues RustText AccessPolicies

structure NoteRow where
  (id path title : String)
  policyOwner : Option String
  createdAt : Option Int
  updatedAt : Int

structure TagRow where
  (noteId tag : String)
  policyTag : Option String

structure Tables where
  notes : List NoteRow
  tags : List TagRow

/-- The conditions of the query, on a row `n` of the notes. -/
inductive Condition where
  | literal (value : Bool)
  | and (left right : Condition)
  | or (left right : Condition)
  | not (condition : Condition)
  | coalesce (condition : Condition) (value : Bool)
  /-- `ltrim(n.path,'/')=$1` -/
  | pathIs (text : String)
  /-- `starts_with(ltrim(n.path,'/'),$1)` -/
  | pathStartsWith (text : String)
  /-- `EXISTS(SELECT 1 FROM tags t WHERE t.note_id=n.id AND t.policy_tag=ANY($1))` -/
  | hasTag (policyTags : List String)
  | createdAtLeast (time : Int)
  | createdAtMost (time : Int)
  | updatedAtLeast (time : Int)
  | updatedAtMost (time : Int)
  /-- `n.policy_owner IS NOT DISTINCT FROM $1` -/
  | ownerIs (principal : String)
  /-- `n.policy_owner IS DISTINCT FROM $1` -/
  | ownerIsDistinct (principal : String)

def Condition.eval (tags : List TagRow) (n : NoteRow) : Condition → Truth
  | .literal value => some value
  | .and left right => ThreeValued.and (left.eval tags n) (right.eval tags n)
  | .or left right => ThreeValued.or (left.eval tags n) (right.eval tags n)
  | .not condition => ThreeValued.not (condition.eval tags n)
  | .coalesce condition value => ThreeValued.coalesce (condition.eval tags n) value
  | .pathIs text => some (decide (trimStartMatches n.path '/' = text))
  | .pathStartsWith text => some (startsWith (trimStartMatches n.path '/') text)
  | .hasTag policyTags => some (tags.any fun t =>
      t.noteId = n.id && policyTags.any fun policyTag => t.policyTag = some policyTag)
  | .createdAtLeast time => compareWith (fun created => decide (time ≤ created)) n.createdAt
  | .createdAtMost time => compareWith (fun created => decide (created ≤ time)) n.createdAt
  | .updatedAtLeast time => some (decide (time ≤ n.updatedAt))
  | .updatedAtMost time => some (decide (n.updatedAt ≤ time))
  | .ownerIs principal => some (decide (n.policyOwner = some principal))
  | .ownerIsDistinct principal => some (decide (n.policyOwner ≠ some principal))

def pathMatch (pathPrefix : String) : Condition :=
  let pathPrefix := trimStartMatches (trim pathPrefix) '/'
  if pathPrefix = "" then .literal true
  else .or (.pathIs pathPrefix)
    (.pathStartsWith (if endsWith pathPrefix "/" then pathPrefix else pathPrefix ++ "/"))

/-- What a matcher that is no default asks, part by part. -/
def matcherParts (m : AccessMatcher) (auth : AuthContext) (now : Int) : List Condition :=
  m.pathPrefix.toList.map pathMatch ++
  (if m.pathPrefixes.isEmpty then []
    else [m.pathPrefixes.foldl (fun c pathPrefix => .or c (pathMatch pathPrefix)) (.literal false)]) ++
  m.tagsAll.map (fun tag => .hasTag [policyTag tag]) ++
  (if m.tagsAny.isEmpty then [] else [.hasTag (m.tagsAny.map policyTag)]) ++
  (if m.tagsNone.isEmpty then [] else [.not (.hasTag (m.tagsNone.map policyTag))]) ++
  m.createdAfter.toList.map .createdAtLeast ++
  m.createdBefore.toList.map .createdAtMost ++
  m.updatedAfter.toList.map .updatedAtLeast ++
  m.updatedBefore.toList.map .updatedAtMost ++
  m.createdWithinSeconds.toList.map (fun seconds => .createdAtLeast (now - windowOf seconds)) ++
  m.updatedWithinSeconds.toList.map (fun seconds => .updatedAtLeast (now - windowOf seconds)) ++
  m.owner.toList.map fun owner =>
    if owner then .ownerIs auth.principal else .ownerIsDistinct auth.principal

def matcher (m : AccessMatcher) (auth : AuthContext) (now : Int) : Condition :=
  if m.default.getD false then .literal true
  else (matcherParts m auth now).foldl .and (.literal true)

def allowing (rules : List AccessRule) : List AccessMatcher :=
  rules.filterMap fun rule => if rule.isAllow then rule.matcher else none

/-- The denying rules that the database can test. -/
def denying (rules : List AccessRule) : List AccessMatcher :=
  (rules.filterMap fun rule => if rule.isDeny then rule.matcher else none).filter fun m =>
    m.titleRegex.isNone

/-- The condition, and whether the selected notes have to be checked. -/
def policy (config : AuthorizationConfig) (auth : AuthContext) (now : Int) : Condition × Bool :=
  match config.get auth.context with
  | none => (.literal false, false)
  | some policy =>
    let fallback := policy.read.any fun rule => rule.matcher.any fun m => m.titleRegex.isSome
    let allowed := (allowing policy.read).foldl (fun c m => .or c (matcher m auth now)) (.literal false)
    ((denying policy.read).foldl
      (fun c m => .and c (.not (.coalesce (matcher m auth now) false))) allowed, fallback)

def pageSize : Nat := 128

section Scope
variable (regex : String → Option (String → Bool))
variable (config : AuthorizationConfig) (auth : AuthContext) (now : Int) (tables : Tables)

/-- The metadata of a row that the policy asks for; of the front matter there is only the owner. -/
def policyNote (n : NoteRow) : PolicyNote where
  path := n.path
  title := n.title
  tags := sortBy byteOrder (ofList ((tables.tags.filter fun t => t.noteId = n.id).map fun t => t.tag))
  createdAt := n.createdAt
  updatedAt := n.updatedAt
  owner := ownerFromFrontmatter (.record [("created_by", (n.policyOwner.map JsonTrees.Tree.string).getD .null)])

def nextPage (scope : List String) (after : String) : List NoteRow :=
  (sortBy (fun a b => byteOrder a.id b.id)
    (tables.notes.filter fun n =>
      decide (n.id ∈ scope) && decide (byteOrder after n.id = .lt))).take pageSize

def checkRow (state : String × List String) (n : NoteRow) : String × List String :=
  (n.id, if policyAllows regex config auth .read (policyNote tables n) now then state.2
    else state.2.filter (· ≠ n.id))

/-- The loop over the pages; none when the fuel does not suffice. -/
def recheck : Nat → String × List String → Option (List String)
  | 0, _ => none
  | fuel + 1, (after, scope) =>
    match nextPage tables scope after with
    | [] => some scope
    | n :: rows => recheck fuel ((n :: rows).foldl (checkRow regex config auth now tables) (after, scope))

/-- The ids of `bridge_scope`. -/
def sqlScope : Option (List String) :=
  let (condition, fallback) := policy config auth now
  let scope := (tables.notes.filter fun n =>
    decide (Selects (condition.eval tables.tags n))).map NoteRow.id
  if fallback then recheck regex config auth now tables (tables.notes.length + 1) ("", scope)
  else some scope

end Scope

structure StoredNote where
  (path title : String)
  frontmatter : Value
  tags : List String
  createdAt : Option Int
  updatedAt : Int

/-- The notes of a vault, by their paths. -/
structure Vault where
  notes : List StoredNote
  distinct : (notes.map StoredNote.path).Nodup
  named : ∀ note ∈ notes, note.path ≠ ""

def policyNoteFromStored (note : StoredNote) : PolicyNote where
  path := note.path
  title := note.title
  tags := note.tags
  createdAt := note.createdAt
  updatedAt := note.updatedAt
  owner := ownerFromFrontmatter note.frontmatter

def noteRow (note : StoredNote) : NoteRow where
  id := note.path
  path := note.path
  title := note.title
  policyOwner := ownerFromFrontmatter note.frontmatter
  createdAt := note.createdAt
  updatedAt := note.updatedAt

def tagRows (note : StoredNote) : List TagRow :=
  (ofList note.tags).map fun tag => { noteId := note.path, tag, policyTag := some (policyTag tag) }

/-- The rows that the projections of the notes store. -/
def project (vault : Vault) : Tables where
  notes := vault.notes.map noteRow
  tags := vault.notes.flatMap tagRows

/-- One note with one tag. -/
def sampleVault : Vault where
  notes := [⟨"a.md", "a", .null, ["Work"], none, 0⟩]
  distinct := List.nodup_singleton _
  named := by simp

example : (project sampleVault).tags.map TagRow.policyTag = [some "work"] := by decide +kernel

end ReadScope
