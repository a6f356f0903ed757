import Obts.NoteContent

/-!
# Updating a note

A caller who may edit a note sends new content or patches, tags and metadata. The structured update
rebuilds the front matter from that of the note; the raw edit takes the whole new file and puts back
what the bridge manages.
-/
namespace NoteUpdates

open InsertionOrder JsonValues RustText AccessPolicies NoteContent ListSearch

inductive ContentPatchOperation where
  | replace (old new : Text)
  | delete (old : Text)
  | insertBefore (anchor text : Text)
  | insertAfter (anchor text : Text)
  | append (text : Text)
  | prepend (text : Text)

structure UpdateNoteRequest where
  content : Option Text := none
  contentPatch : Option (List ContentPatchOperation) := none
  tags : Option (List String) := none
  metadata : Option Value := none
  expectedRevision : Option String := none

inductive WriteError where
  | notFound
  | policyDenied (reason : String)
  | preconditionRequired
  | revisionMismatch
  | invalidUpdate (reason : String)

/-- The text before the only occurrence of the needle, and the text after it. -/
def uniqueMatch (body needle : Text) (fieldName : String) : Except String (Text × Text) :=
  if needle = [] then .error (fieldName ++ " must not be empty")
  else match indexOf needle body with
  | none => .error (fieldName ++ " text was not found")
  | some start =>
    let after := body.drop (start + needle.length)
    if (indexOf needle after).isSome then .error (fieldName ++ " text matched more than once")
    else .ok (body.take start, after)

def applyContentPatchOperation (body : Text) : ContentPatchOperation → Except String Text
  | .replace old new => (uniqueMatch body old "old").map fun (before, after) => before ++ new ++ after
  | .delete old => (uniqueMatch body old "old").map fun (before, after) => before ++ after
  | .insertBefore anchor text =>
    (uniqueMatch body anchor "anchor").map fun (before, after) => before ++ text ++ anchor ++ after
  | .insertAfter anchor text =>
    (uniqueMatch body anchor "anchor").map fun (before, after) => before ++ anchor ++ text ++ after
  | .append text => .ok (body ++ text)
  | .prepend text => .ok (text ++ body)

def patchFrom (index : Nat) (body : Text) : List ContentPatchOperation → Except WriteError Text
  | [] => .ok body
  | operation :: patch =>
    match applyContentPatchOperation body operation with
    | .error reason =>
      .error (.invalidUpdate ("content_patch: operation " ++ toString index ++ ": " ++ reason))
    | .ok body => patchFrom (index + 1) body patch

def applyContentPatch (existingBody : Text) (patch : List ContentPatchOperation) : Except WriteError Text :=
  if patch = [] then
    .error (.invalidUpdate "content_patch: content_patch must contain at least one operation")
  else patchFrom 0 existingBody patch

/-- The new text that a request gives for an old one. -/
def candidateOf (request : UpdateNoteRequest) (existing : Text) : Except WriteError Text :=
  match request.content, request.contentPatch with
  | some content, none => .ok content
  | none, some patch => applyContentPatch existing patch
  | none, none => .ok existing
  | some _, some _ => .error (.invalidUpdate "content and content_patch are mutually exclusive")

def isPreserved (existingTags : List String) (tag : String) : Bool :=
  existingTags.any fun candidate => tagMatches candidate tag

/-- The protected tags that the note has are added. -/
def withPreserved (tags preserveTags existingTags : List String) : List String :=
  sortDedup eqIgnoreAsciiCase ((preserveTags.filter (isPreserved existingTags)).foldl addUniqueTag tags)

section Frontmatter
variable (timestamp : Int → String)

def tagValues (tags : List String) : Value := .array (tags.map .string)

def managedKeys : List String := ["created", "created_by", "tags", "updated"]

/-- The front matter of the structured update; it does not look at the tags among the metadata. -/
def rebuildFrontmatter (tags : Option (List String)) (metadata : Option Map)
    (existingFrontmatter : Value) (now : Int) : Map :=
  let fm := (existingFrontmatter.asObject.getD []).insert "updated" (.string (timestamp now))
  let fm := match tags with
    | some tags => fm.insert "tags" (tagValues tags)
    | none => fm
  match metadata with
  | some entries => fm.extend (entries.filter fun entry => !(["tags", "updated"].contains entry.1))
  | none => fm

def setOwnerMetadata (map : Map) (principal : String) : Map :=
  let principal := trim principal
  if principal = "" then map
  else
    let map := map.insert "created_by" (.string principal)
    match (map.get "vault_bridge").bind Value.asObject with
    | some legacy =>
      let legacy := legacy.remove "created_by"
      if legacy.isEmpty then map.remove "vault_bridge" else map.insert "vault_bridge" (.record legacy)
    | none => map

/-- The owner is taken from both its places. -/
def withoutOwner (map : Map) : Map :=
  let map := map.remove "created_by"
  match (map.get "vault_bridge").bind Value.asObject with
  | some legacy => map.insert "vault_bridge" (.record (legacy.remove "created_by"))
  | none => map

/-- What the raw edit puts back into the candidate's front matter. -/
def restoreManaged (map : Map) (tags : List String) (existingFrontmatter : Value) (now : Int) : Map :=
  let map := (map.insert "tags" (tagValues tags)).insert "updated" (.string (timestamp now))
  let map := match existingFrontmatter.get "created" with
    | some created => map.insert "created" created
    | none => map.remove "created"
  let map := withoutOwner map
  match ownerFromFrontmatter existingFrontmatter with
  | some owner => setOwnerMetadata map owner
  | none => map

end Frontmatter

structure MarkdownFile where
  path : String
  content : Text
  createdAt : Option Int
  updatedAt : Int

/-- The rows of the index, or the file on disk. -/
inductive Source where
  | index
  | file

/-- Code that is not the bridge's own, and hashing. -/
structure Surroundings where
  yaml : Yaml
  inlineTags : Text → List String
  timestamp : Int → String
  wholeFileRevision : Text → String
  regex : String → Option (String → Bool)

section Preparing
variable (w : Surroundings)

/-- The tags of the index are a set of rows. -/
def existingTags (source : Source) (note : NoteInput) : List String :=
  match source with
  | .index => sortBy byteOrder (ofList note.tags)
  | .file => note.tags

def policyNoteOf (file : MarkdownFile) (note : NoteInput) (tags : List String) : PolicyNote where
  path := file.path
  title := note.title
  tags
  createdAt := file.createdAt
  updatedAt := file.updatedAt
  owner := ownerFromFrontmatter note.frontmatter

variable (request : UpdateNoteRequest)

def requireMatchingRevision (current : Text) : Except WriteError Unit :=
  match (request.expectedRevision.map trim).filter (· ≠ "") with
  | none => .error .preconditionRequired
  | some expected =>
    if expected ≠ w.wholeFileRevision current then .error .revisionMismatch else .ok ()

def requestMetadata : Except WriteError (Option Map) :=
  match request.metadata with
  | none => .ok none
  | some metadata =>
    match metadata.asObject with
    | none => .error (.invalidUpdate "metadata must be an object")
    | some entries => .ok (some entries)

def structuredUpdate (note : NoteInput) (tags preserveTags : List String)
    (now : Int) : Except WriteError Markdown :=
  (requestMetadata request).bind fun metadata =>
    (candidateOf request note.body).map fun body =>
      { frontmatter := rebuildFrontmatter w.timestamp
          (request.tags.map fun named => withPreserved named preserveTags tags)
          (metadata.map fun entries => managedKeys.foldl Map.remove entries) note.frontmatter now
        body := trimText body ++ ['\n'] }

/-- The candidate's front matter, with the metadata. -/
def candidateMap (map : Map) (metadata : Option Map) : Map :=
  match metadata with
  | some entries => map.extend (entries.filter fun entry => !managedKeys.contains entry.1)
  | none => map

/-- A body that is not empty ends with a line break; what stands before it ends with one in any case. -/
def rawUpdate (file : MarkdownFile) (note : NoteInput)
    (tags preserveTags : List String) (now : Int) : Except WriteError Markdown :=
  (candidateOf request file.content).bind fun candidate =>
    let parsed := parseFrontmatter w.yaml candidate
    match parsed.1.asObject with
    | none => .error (.invalidUpdate "markdown frontmatter must be a YAML mapping")
    | some map =>
      (requestMetadata request).map fun metadata =>
        let map := candidateMap map metadata
        let named := request.tags.getD (extractFrontmatterTags (.record map))
        { frontmatter := restoreManaged w.timestamp map (withPreserved named preserveTags tags)
            note.frontmatter now
          body := if trimText parsed.2 = [] then [] else trimText parsed.2 ++ ['\n'] }

/-- The new content of a note, unless the update is refused. -/
def prepareUpdate (config : AuthorizationConfig) (auth : AuthContext) (source : Source) (raw : Bool)
    (file : MarkdownFile) (request : UpdateNoteRequest) (now : Int) : Except WriteError Markdown :=
  let note := noteInputFromRawMarkdown w.yaml w.inlineTags file.path file.content
  let tags := existingTags source note
  let policy := policyNoteOf file note tags
  if !policyAllows w.regex config auth .read policy now then .error .notFound
  else match policyDecisionFor w.regex config auth .edit policy now with
  | none =>
    .error (.policyDenied "no matching edit rule in the effective authorization policy")
  | some decision =>
    match requireMatchingRevision w request file.content with
    | .error reason => .error reason
    | .ok _ =>
      if raw then rawUpdate w request file note tags decision.preserveTags now
      else structuredUpdate w request note tags decision.preserveTags now

end Preparing

end NoteUpdates
