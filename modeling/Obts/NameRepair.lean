import Obts.FreshNames
import Obts.PortableNames

/-!
# The plan of a name repair

`planNameRepair` with all it calls. Folders are renamed level by level, folders of one folded name becoming
one; files are placed next to them, first those that keep their names, and one whose name is taken gets a
number.
-/
namespace NameRepair

open InsertionOrder PathPolicy PortableNames

/-- `\s` of a regular expression, and what `trim` drops. -/
def isSpace (c : Char) : Bool :=
  [0x20, 0xa0, 0x1680, 0x2028, 0x2029, 0x202f, 0x205f, 0x3000, 0xfeff].contains c.toNat ||
    (9 ≤ c.toNat && c.toNat ≤ 13) || (0x2000 ≤ c.toNat && c.toNat ≤ 0x200a)

/-- One space for each run of white space; `after` tells whether one was just written. -/
def collapse : Bool → List Char → List Char
  | _, [] => []
  | after, c :: text =>
    if isSpace c then if after then collapse true text else ' ' :: collapse true text
    else c :: collapse false text

variable (text : List Char)

def trim : List Char :=
  ((text.dropWhile isSpace).reverse.dropWhile isSpace).reverse

/-- What stands for a character, apart from white space. -/
def replacement (c : Char) : List Char :=
  if c = ':' || c = '|' then " - ".toList
  else if c = '\x22' then ['\x27']
  else if c = '\\' then ['-']
  else if ['*', '<', '>', '?'].contains c || isControl c then []
  else [c]

def sanitizeText : List Char := trim (collapse false (text.flatMap replacement))

/-- `text.lastIndexOf('.')` -/
def lastDot : Option Nat :=
  (text.reverse.findIdx? (· = '.')).map fun index => text.length - 1 - index

/-- A text before and from its last dot, when that is not its first character. -/
def atLastDot : List Char × List Char :=
  match lastDot text with
  | some (dot + 1) => (text.take (dot + 1), text.drop (dot + 1))
  | _ => (text, [])

def isAlphanumeric (c : Char) : Bool := isAsciiLetter c || (48 ≤ c.toNat && c.toNat ≤ 57)

/-- A dot and up to sixteen letters and digits. -/
def isExtension : List Char → Bool
  | '.' :: name => name ≠ [] && name.length ≤ 16 && name.all isAlphanumeric
  | _ => false

def forbiddenResultSegments : List (List Char) := [[], ['.'], ['.', '.'], ".git".toList]

def sanitizeSegment (segment : List Char) (isFile isRoot : Bool) : List Char :=
  if !segmentHasReservedCharacters segment then segment
  else
    let parts := atLastDot segment
    let (front, extension) := if isFile && isExtension parts.2 then parts else (segment, [])
    let stem := sanitizeText front
    (if forbiddenResultSegments.contains stem || (isRoot && stem = ".obts".toList) then "Untitled".toList
      else stem) ++ extension

variable (path : List Char)

/-- `posix.basename(path)` -/
def basename : List Char :=
  ((path.reverse.dropWhile (· = '/')).takeWhile (· ≠ '/')).reverse

/-- `posix.dirname(path)`: what is before the last slash with a character other than slashes behind it. -/
def dirname : List Char :=
  match (path.reverse.dropWhile (· = '/')).dropWhile (· ≠ '/') with
  | [] => if path.head? = some '/' then ['/'] else ['.']
  | [_] => ['/']
  | _ :: front => if path.head? = some '/' && front.length = 1 then ['/', '/'] else front.reverse

def suffix (attempt : Nat) : List Char := ' ' :: '(' :: Nat.toDigits 10 attempt ++ [')']

def withSuffix (attempt : Nat) : List Char :=
  let parts := atLastDot (basename path)
  let name := parts.1 ++ suffix attempt ++ parts.2
  if dirname path = ['.'] then name else dirname path ++ '/' :: name

/-- `newParent ? newParent + '/' + name : name` -/
def below (newParent : Option (List Char)) (name : List Char) : List Char :=
  match newParent with
  | none | some [] => name
  | some folder => folder ++ '/' :: name

structure Directories where
  (directoryMap directoryByKey : List (List Char × List Char))

/-- The new folder of a path: none is above a path at the root. -/
def newParentOf (directoryMap : List (List Char × List Char)) (path : List Char) : Option (List Char) :=
  if dirname path = ['.'] then some [] else valueAt directoryMap (dirname path)

section Plan
variable (u : CaseFolding)

def candidateOf (directoryMap : List (List Char × List Char)) (path : List Char) (isFile : Bool) : List Char :=
  let newParent := newParentOf directoryMap path
  below newParent (sanitizeSegment (basename path) isFile (newParent = some []))

/-- The step of the loop over the folders. -/
def claimDirectory (state : Directories) (folder : List Char) : Directories :=
  let candidate := candidateOf state.directoryMap folder false
  let key := foldPathCase u candidate
  match valueAt state.directoryByKey key with
  | some existing => { state with directoryMap := set state.directoryMap folder existing }
  | none => ⟨set state.directoryMap folder candidate, set state.directoryByKey key candidate⟩

/-- The folders above the files, and the explicit folders with those above them. -/
def folders (files directories : List (List Char)) : List (List Char) :=
  ofList (((files.map dirname ++ directories).filter (· ≠ ['.'])).flatMap pathPrefixes)

/-- By depth, then by code units. -/
def compareFolders : List Char → List Char → Ordering :=
  compareLex (compareOn fun path => (path.splitOn '/').length) compareText

def claimDirectories (files directories : List (List Char)) : Directories :=
  (sortBy compareFolders (folders files directories)).foldl (claimDirectory u) ⟨[], []⟩

structure Placed where
  taken : List (List Char)
  fileMap : List (List Char × List Char)

/-- The step of the first loop over the files: one that keeps its path. -/
def keepFile (state : Placed) (candidate : List Char × List Char) : Placed :=
  if candidate.2 ≠ candidate.1 || foldPathCase u candidate.1 ∈ state.taken then state
  else ⟨add state.taken (foldPathCase u candidate.1), set state.fileMap candidate.1 candidate.1⟩

/-- The targets that are tried in turn. -/
def attemptedTarget (candidate : List Char) : Nat → List Char
  | 0 => candidate
  | n + 1 => withSuffix candidate (n + 2)

/-- The loop over the targets. -/
def searchTarget (taken : List (List Char)) (candidate : List Char) (fuel : Nat) : Option (List Char) :=
  FreshNames.search (foldPathCase u) (attemptedTarget candidate) taken fuel 0

def freeTarget (taken : List (List Char)) (candidate : List Char) : List Char :=
  (searchTarget u taken candidate (taken.length + 2)).getD candidate

/-- The step of the second loop over the files. -/
def placeFile (state : Placed) (candidate : List Char × List Char) : Placed :=
  if (valueAt state.fileMap candidate.1).isSome then state
  else
    let target := freeTarget u state.taken candidate.2
    ⟨add state.taken (foldPathCase u target), set state.fileMap candidate.1 target⟩

def placeFiles (claimed : Directories) (files : List (List Char)) : Placed :=
  let candidates := files.map fun file => (file, candidateOf claimed.directoryMap file true)
  candidates.foldl (placeFile u) (candidates.foldl (keepFile u) ⟨claimed.directoryByKey.map Prod.fst, []⟩)

structure NameRepairRename where
  (source target : List Char)
  kind : NodeKind
  reasons : List UnportableReason

structure NameRepairPlan where
  renames : List NameRepairRename
  (fileMap directoryMap : List (List Char × List Char))
  (files directories : List (List Char))

structure NameRepairError where
  (code message : String)

def sortPaths (paths : List (List Char)) : List (List Char) := sortBy compareText paths

def renamesOf (unportable : List UnportablePath) (map : List (List Char × List Char)) (kind : NodeKind)
    (paths : List (List Char)) : List NameRepairRename :=
  paths.filterMap fun path =>
    let target := (valueAt map path).getD []
    if target = path then none
    else some ⟨path, target, kind,
      ((unportable.find? fun entry => entry.path = path).map (·.reasons)).getD [.caseCollision]⟩

/-- A repaired path is a vault path that takes part in sync. -/
def isRepairedPath (path : List Char) : Bool :=
  normalizeVaultPath u.toNormalization (String.ofList path) = .ok ⟨String.ofList path⟩ &&
    isSyncableVaultPath u.toNormalization (String.ofList path)

def planNameRepair (files explicitDirectories : List (List Char)) : Except NameRepairError NameRepairPlan :=
  let sortedFiles := sortPaths (ofList files)
  let sortedDirectories := sortPaths (ofList explicitDirectories)
  let unportable := findUnportablePaths u sortedFiles sortedDirectories
  let claimed := claimDirectories u sortedFiles sortedDirectories
  let placed := placeFiles u claimed sortedFiles
  let newFiles := sortedFiles.map fun file => (valueAt placed.fileMap file).getD []
  let newDirectories := sortedDirectories.map fun folder => (valueAt claimed.directoryMap folder).getD []
  if !(newFiles ++ newDirectories).all (isRepairedPath u) then
    .error ⟨"name_repair_unresolvable", "A repaired name is not a valid vault path."⟩
  else if !(findUnportablePaths u newFiles newDirectories).isEmpty then
    .error ⟨"name_repair_unresolvable", "The repaired names still contain unrepresentable paths."⟩
  else
    .ok {
      renames := renamesOf unportable placed.fileMap .file sortedFiles ++
        renamesOf unportable claimed.directoryMap .directory sortedDirectories
      fileMap := placed.fileMap
      directoryMap := claimed.directoryMap
      files := sortPaths newFiles
      directories := sortPaths (ofList newDirectories) }

end Plan

end NameRepair
