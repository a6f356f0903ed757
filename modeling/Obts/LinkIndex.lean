import Obts.RepairPlans

/-!
# Links of a vault

`VaultLinkIndex` and `rewriteTarget`, with what they call of `path.posix`. A link is read from the folder of
its note, as a path of the vault, or as the last segments of one.
-/
namespace LinkIndex

open InsertionOrder PortableNames NameRepair RepairPlans

/-- One segment of the loop of `normalizeString`. -/
def stepSegment (allowAboveRoot : Bool) (kept : List (List Char)) (segment : List Char) : List (List Char) :=
  if segment = [] || segment = ['.'] then kept
  else if segment = ['.', '.'] then
    if kept ≠ [] && kept.getLast? ≠ some ['.', '.'] then kept.dropLast
    else if allowAboveRoot then kept ++ [segment]
    else kept
  else kept ++ [segment]

variable (path : List Char)

def normalizeString (allowAboveRoot : Bool) : List (List Char) :=
  (path.splitOn '/').foldl (stepSegment allowAboveRoot) []

/-- `posix.normalize(path)` -/
def normalize : List Char :=
  if path = [] then ['.']
  else
    let isAbsolute : Bool := path.head? = some '/'
    let trailingSeparator : Bool := path.getLast? = some '/'
    let normalized := normalizeString path !isAbsolute
    if normalized = [] then if isAbsolute then ['/'] else if trailingSeparator then ['.', '/'] else ['.']
    else
      (if isAbsolute then ['/'] else []) ++ ['/'].intercalate normalized ++ (if trailingSeparator then ['/'] else [])

/-- `posix.join(directory, path)` -/
def join (directory path : List Char) : List Char :=
  normalize (['/'].intercalate ([directory, path].filter (· ≠ [])))

/-- The way from the first of two paths to the second, both as segments. -/
def wayBetween : List (List Char) → List (List Char) → List (List Char)
  | here :: start, there :: target =>
    if here = there then wayBetween start target
    else List.replicate (start.length + 1) ['.', '.'] ++ there :: target
  | start, target => List.replicate start.length ['.', '.'] ++ target

/-- `posix.relative(from, to)`, where neither path leads above the working directory. -/
def relative (start target : List Char) : List Char :=
  ['/'].intercalate (wayBetween (normalizeString start true) (normalizeString target true))

/-- `posix.extname(path)` -/
def extname : List Char :=
  if basename path = ['.', '.'] then [] else (atLastDot (basename path)).2

inductive LinkStyle where
  | wiki
  | markdown
  deriving DecidableEq

inductive LinkForm where
  | absolute
  | relative
  | suffix
  deriving DecidableEq

structure Resolution where
  path : List Char
  form : LinkForm
  deriving DecidableEq

/-- An index; its maps are read off the paths it was built from. -/
structure VaultLinkIndex where
  paths : List (List Char)

def markdownExtension : List Char := ".md".toList

/-- The folder of a note, none being written for the root. -/
def sourceDirectoryOf (sourcePath : List Char) : List Char := rootless (dirname sourcePath)

section Index
variable (u : CaseFolding) (index : VaultLinkIndex)

def VaultLinkIndex.byKey (key : List Char) : List (List Char) :=
  index.paths.filter fun path => foldPathCase u path = key

def VaultLinkIndex.byBasenameKey (key : List Char) : List (List Char) :=
  index.paths.filter fun path => foldPathCase u (basename path) = key

/-- A path with or without its extension, as it is spelled and then by a folded form that only one path has. -/
def VaultLinkIndex.lookup (path : List Char) : Option (List Char) :=
  let candidates := [path, path ++ markdownExtension]
  match candidates.find? fun candidate => index.paths.contains candidate with
  | some found => some found
  | none => candidates.findSome? fun candidate =>
    match index.byKey u (foldPathCase u candidate) with
    | [only] => some only
    | _ => none

/-- The order of the matches: those next to the note, then by depth, then by code units. -/
def compareMatches (sourceDirectory : List Char) : List Char → List Char → Ordering :=
  compareLex (compareOn fun path => if dirname path = sourceDirectory then 0 else 1) compareFolders

def VaultLinkIndex.suffixMatch (linkpath sourceDirectory : List Char) : Option (List Char) :=
  let options := [linkpath, linkpath ++ markdownExtension].map (foldPathCase u)
  let found := ofList (options.flatMap fun option => (index.byBasenameKey u (basename option)).filter fun path =>
    foldPathCase u path = option || ('/' :: option).isSuffixOf (foldPathCase u path))
  (sortBy (compareMatches sourceDirectory) found).head?

/-- A link as it is read from the folder of its note. -/
def relativeReading (linkpath sourceDirectory : List Char) : List Char :=
  normalize (join (if sourceDirectory = [] then ['.'] else sourceDirectory) linkpath)

def VaultLinkIndex.resolve (linkpath sourcePath : List Char) (style : LinkStyle) : Option Resolution :=
  if linkpath = [] then none
  else
    let sourceDirectory := sourceDirectoryOf sourcePath
    let explicitRelative := ['.', '/'].isPrefixOf linkpath || ['.', '.', '/'].isPrefixOf linkpath
    let relative := relativeReading linkpath sourceDirectory
    let relativeValid := !(['.', '.', '/'].isPrefixOf relative) && relative ≠ ['.', '.'] && relative ≠ ['.']
    let absolute := linkpath.dropWhile (· = '/')
    let found := if (explicitRelative || style = .markdown) && relativeValid then index.lookup u relative else none
    match found with
    | some path => some ⟨path, .relative⟩
    | none =>
      if explicitRelative then none
      else
        match index.lookup u absolute with
        | some path => some ⟨path, .absolute⟩
        | none => (index.suffixMatch u absolute sourceDirectory).map fun path => ⟨path, .suffix⟩

/-- A link leads to a file. -/
def Leads (linkpath sourcePath : List Char) (style : LinkStyle) (target : List Char) : Prop :=
  (index.resolve u linkpath sourcePath style).map Resolution.path = some target

instance {linkpath sourcePath target : List Char} {style : LinkStyle} :
    Decidable (Leads u index linkpath sourcePath style target) :=
  inferInstanceAs (Decidable ((index.resolve u linkpath sourcePath style).map Resolution.path = some target))

end Index

def stripMarkdownExtension (path : List Char) (keepExtension : Bool) : List Char :=
  if !keepExtension && markdownExtension.isSuffixOf path then path.take (path.length - 3) else path

def relativeLink (fromDirectory target : List Char) : List Char :=
  let way := relative (if fromDirectory = [] then ['.'] else fromDirectory) target
  if way = [] then basename target else way

structure LinkRewriteContext where
  (sourceOld sourceNew : List Char)
  (oldIndex newIndex : VaultLinkIndex)
  map : List Char → List Char

/-- A name with something other than dots behind its last dot. -/
def hasExtension (name : List Char) : Bool :=
  match lastDot name with
  | some dot => dot + 1 < name.length
  | none => false

variable (u : CaseFolding)

def keepsExtension (linkpath path : List Char) : Bool :=
  hasExtension (basename linkpath) && (u.lower (extname path)).isSuffixOf (u.lower linkpath)

variable (linkpath : List Char)

def leadingSlash : List Char := if ['/'].isPrefixOf linkpath then ['/'] else []

/-- The texts that are tried for a link, in order. -/
def candidateTexts (linkpath intended sourceDirectory : List Char) (form : LinkForm) (keepExtension : Bool) :
    List (List Char) :=
  (match form with
    | .relative =>
      let way := relativeLink sourceDirectory intended
      [stripMarkdownExtension (if ['.', '/'].isPrefixOf linkpath && !(['.'].isPrefixOf way) then '.' :: '/' :: way
        else way) keepExtension]
    | .suffix =>
      let segments := intended.splitOn '/'
      (List.range' 1 segments.length).map fun count =>
        stripMarkdownExtension (['/'].intercalate (segments.drop (segments.length - count))) keepExtension
    | .absolute => []) ++
    [leadingSlash linkpath ++ stripMarkdownExtension intended keepExtension]

/-- The new text of a link, when it has to change. -/
def rewriteTarget (style : LinkStyle) (context : LinkRewriteContext) :
    Option (List Char) :=
  match context.oldIndex.resolve u linkpath context.sourceOld style with
  | none => none
  | some resolved =>
    let intended := context.map resolved.path
    let leads := fun text => Leads u context.newIndex text context.sourceNew style intended
    if leads linkpath then none
    else
      let texts := candidateTexts linkpath intended (sourceDirectoryOf context.sourceNew) resolved.form
        (keepsExtension u linkpath resolved.path)
      some ((texts.find? leads).getD (leadingSlash linkpath ++ intended))

/-- The text that stands for a link after the rewrite. -/
def standingText (style : LinkStyle) (context : LinkRewriteContext) : List Char :=
  (rewriteTarget u linkpath style context).getD linkpath

/-- The context of the links of a note, as a repair gives it. -/
def contextOf (files : List (List Char)) (plan : NameRepairPlan) (source : List Char) : LinkRewriteContext :=
  let map := fun path => (valueAt plan.fileMap path).getD path
  ⟨source, map source, ⟨files⟩, ⟨plan.files⟩, map⟩

end LinkIndex
