import Obts.LocalCapture

/-!
# The bridge's walk over the vault

The bridge walks the folders of the vault from the root. It passes over excluded and ignored entries and
keeps the files that it supports. An entry with a name that is not UTF-8, or with one that the ignore policy
refuses, ends the walk. The paths of a commit go through the same checks one by one.
-/
namespace DiskWalk

open SlashPath ClientPaths VaultInventory LocalCapture Option List

variable (p : Path)

def endsIn (extension : String) : Bool := extension.toList.isSuffixOf p.text.toList

def isSupportedPath : Bool := endsIn p ".md" || endsIn p ".base"

def isExcludedPath : Bool :=
  pathsOverlapWithinRoot p ⟨".obts"⟩ || (p.text.toList.splitOn '/').contains ".git".toList ||
    pathsOverlapWithinRoot p ⟨".obsidian/cache"⟩ || p.text = ".obsidian/workspace.json" ||
    p.text = ".obsidian/workspace-mobile.json" || pathsOverlapWithinRoot p ⟨".obsidian/plugins/obts"⟩

/-- The components of a path: empty ones go, and single dots but for a first one. -/
def normalizeRelativePath : Option Path :=
  let segments := p.text.toList.splitOn '/'
  let parts := segments.filter fun segment => segment ≠ [] && segment ≠ ['.']
  if ['/'].isPrefixOf p.text.toList || segments.head? = some ['.'] || parts.contains ['.', '.'] ||
      parts = [] then none
  else some (joinSegments parts)

/-- The crate's matcher for lines of rules; it may refuse a line. A matcher says whether the rules ignore a
path itself. -/
structure GitignoreBuilder where
  build : List (List Char) → Option (List Char → Bool → Bool)

/-- `str::lines`: a line ends before a newline, or before a carriage return and a newline. -/
def lines (text : List Char) : List (List Char) :=
  let pieces := text.splitOn '\n'
  let whole := if pieces.getLastD [] = [] then pieces.dropLast else pieces
  whole.map fun line => if ['\r'].isSuffixOf line then line.dropLast else line

def dropByteOrderMark : List Char → List Char
  | '\uFEFF' :: text => text
  | text => text

/-- The loop over the parts of a path: the path down to each of them is matched. -/
def matchesAlong (matcher : List Char → Bool → Bool) (isDirectory : Bool) : List Char → List (List Char) → Bool
  | _, [] => false
  | front, part :: parts =>
    let here := if front = [] then part else front ++ '/' :: part
    matcher here (!parts.isEmpty || isDirectory) || matchesAlong matcher isDirectory here parts

section RootPolicy
variable (u : SegmentNormalization) (crate : GitignoreBuilder) (disk : Disk)

def ignores (matcher : List Char → Bool → Bool) : Policy := fun p isDirectory =>
  if !isCanonicalPath p then none
  else
    let normalized := u.nfc p.text.toList
    if normalized = rootIgnorePath.text.toList then some false
    else some (matchesAlong matcher isDirectory [] (normalized.splitOn '/'))

def fromBytes (bytes : Option (List UInt8)) : Option Policy :=
  match bytes with
  | none => (crate.build []).map (ignores u)
  | some bytes =>
    if bytes.length > maxRootIgnoreBytes then none
    else do
      let text ← decodeFatal bytes
      if text.contains '\x00' then none
      else (crate.build (lines (dropByteOrderMark text))).map (ignores u)

def readPolicy : Option Policy := do
  let bytes ← readRootIgnoreBytes disk
  fromBytes u crate bytes

end RootPolicy

section Walk
variable (disk : Disk) (undecodable : Path → Bool) (policy : Policy)

/-- What is passed over. -/
def skips (p : Path) (isDirectory : Bool) : Option Bool :=
  if isExcludedPath p then some true else policy p isDirectory

def walkFile (file : Path) : Option (List Path) := do
  let skipped ← skips policy file false
  return if skipped then [] else if isSupportedPath file then [file] else []

/-- A folder with a name that is not UTF-8 cannot be walked. -/
def walkMetadata : Nat → Path → Option (List Path)
  | 0, _ => none
  | fuel + 1, dir =>
    if undecodable dir then none
    else do
      let listing ← disk.list dir
      let below ← collect (fun folder => do
        let skipped ← skips policy folder true
        if skipped then some [] else walkMetadata fuel folder) listing.folders
      let here ← collect (walkFile policy) listing.files
      return below ++ here

def listRootMetadata : Option (List Path) := walkMetadata disk undecodable policy disk.rounds root

end Walk

def isAsciiHexdigit (c : Char) : Bool :=
  '0' ≤ c && c ≤ '9' || 'a' ≤ c && c ≤ 'f' || 'A' ≤ c && c ≤ 'F'

def validateCommitId (commit : String) : Bool :=
  commit.toList.length = 40 && commit.toList.all isAsciiHexdigit

/-- A file of the headless client's delta. -/
structure IndexFile where
  path : Path
  oid : String

section Target
variable (policy : Policy)

def targetFile (file : IndexFile) : Option (Option IndexFile) := do
  let path ← normalizeRelativePath file.path
  if !isSupportedPath path || isExcludedPath path then some none
  else do
    let ignored ← policy path false
    if ignored then some none
    else if validateCommitId file.oid then some (some ⟨path, file.oid⟩) else none

/-- The files of a commit that have rows; two of one path are refused. -/
def targetManifest : List IndexFile → Option (List IndexFile)
  | [] => some []
  | file :: files => do
    let kept ← targetFile policy file
    let rest ← targetManifest files
    match kept with
    | none => some rest
    | some kept => if (rest.map IndexFile.path).contains kept.path then none else some (kept :: rest)

/-- Whether the disk and a commit have rows for the same paths. A full reconcile compares them first. -/
def checkSnapshot (disk : Disk) (undecodable : Path → Bool) (head : List IndexFile) : Option Bool := do
  let target ← targetManifest policy head
  let expected ← listRootMetadata disk undecodable policy
  let paths := target.map IndexFile.path
  return expected.all paths.contains && paths.all expected.contains

end Target

section Reached
variable {disk : Disk} {undecodable : Path → Bool} {policy : Policy} {found : List Path}
  {p dir : Path} {fuel k : Nat}

lemma skips_eq_false {isDirectory : Bool} : skips policy p isDirectory = some false ↔
      isExcludedPath p = false ∧ policy p isDirectory = some false := by
  rw [skips]
  cases isExcludedPath p with
  | true | false => simp

variable (disk policy) in
/-- The walk goes from a folder into another. -/
def Goes (dir next : Path) : Prop :=
  next ∈ disk.folders ∧ parent next = dir ∧ skips policy next true = some false

variable (disk policy) in
def Walked : Path → Prop := Relation.ReflTransGen (Goes disk policy) root

variable (disk undecodable policy) in
/-- The walk has an answer for everything that stands in a folder. -/
structure Answered (dir : Path) : Prop where
  decodable : undecodable dir = false
  listed : dir = root ∨ dir ∈ disk.folders
  files : ∀ p ∈ disk.files.paths, parent p = dir → ∃ skipped, skips policy p false = some skipped
  folders : ∀ p ∈ disk.folders, parent p = dir → ∃ skipped, skips policy p true = some skipped

/-- A folder lies as deep as the walk has gone. -/
def Deep (k : Nat) (dir : Path) : Prop := k ≤ depth dir ∧ dir ≠ root ∨ k = 0

lemma Goes.deep {next : Path} (h : Goes disk policy dir next) (hdir : Deep k dir) : Deep (k + 1) next := by
  obtain ⟨hfold, hpar, -⟩ := h
  refine .inl ⟨?_, fun hroot => disk.named next hfold (congrArg Path.text hroot)⟩
  have hpos := depth_pos next
  rcases hdir with ⟨hdir, hroot⟩ | hzero
  · rcases parent_cases next with ⟨-, hpar'⟩ | ⟨-, hdepth⟩
    · exact absurd (hpar.symm.trans hpar') hroot
    · rw [hpar] at hdepth
      omega
  · omega

/-- There is fuel for a folder that the walk comes to. -/
lemma fuel_pos (hdir : Deep k dir) (hlst : dir = root ∨ dir ∈ disk.folders)
    (hfuel : disk.rounds ≤ k + fuel) : 0 < fuel := by
  rcases hdir with ⟨hdir, hroot⟩ | hzero
  · have hdepth := depth_le_rounds (hlst.resolve_left hroot)
    omega
  · rw [hzero, Disk.rounds] at hfuel
    omega

lemma walkFile_eq_some {file : Path} (h : walkFile policy file = some found) :
    p ∈ found ↔ p = file ∧ skips policy file false = some false ∧ isSupportedPath file := by
  obtain ⟨skipped, hskips, h⟩ := bind_eq_some_iff.mp h
  cases h
  rw [hskips]
  cases skipped with
  | true => simp
  | false => cases isSupportedPath file <;> simp

/-- The walk succeeds just when it has all the answers that it asks for. -/
lemma exists_walk_iff (hdir : Deep k dir) (hfuel : disk.rounds ≤ k + fuel) :
    (∃ found, walkMetadata disk undecodable policy fuel dir = some found) ↔
      ∀ d, Relation.ReflTransGen (Goes disk policy) dir d → Answered disk undecodable policy d := by
  induction fuel generalizing k dir with
  | zero =>
    refine iff_of_false (fun ⟨found, h⟩ => nomatch h) fun h => ?_
    exact absurd (fuel_pos hdir (h dir .refl).listed hfuel) (Nat.lt_irrefl 0)
  | succ fuel ih =>
    have hnext : ∀ next, Goes disk policy dir next →
        ((∃ found, walkMetadata disk undecodable policy fuel next = some found) ↔
          ∀ d, Relation.ReflTransGen (Goes disk policy) next d → Answered disk undecodable policy d) :=
      fun next hgoes => ih (hgoes.deep hdir) (by omega)
    rw [walkMetadata]
    constructor
    · rintro ⟨found, h⟩
      split at h
      · cases h
      rename_i hdec
      obtain ⟨listing, hlst, h⟩ := bind_eq_some_iff.mp h
      obtain ⟨below, hbelow, h⟩ := bind_eq_some_iff.mp h
      obtain ⟨here, hhere, -⟩ := bind_eq_some_iff.mp h
      obtain ⟨hlis, rfl⟩ := Disk.mem_of_list hlst
      have hfold : ∀ p ∈ disk.folders, parent p = dir → ∃ one,
          ((skips policy p true).bind fun skipped =>
            if skipped then some [] else walkMetadata disk undecodable policy fuel p) = some one :=
        fun p hp hpar => exists_of_collect hbelow (mem_filter.mpr ⟨hp, decide_eq_true hpar⟩)
      intro d hd
      rcases hd.cases_head with rfl | ⟨next, hgoes, hd⟩
      · refine ⟨Bool.not_eq_true _ ▸ hdec, hlis, fun p hp hpar => ?_, fun p hp hpar => ?_⟩
        · obtain ⟨one, hone⟩ := exists_of_collect hhere (mem_filter.mpr ⟨hp, decide_eq_true hpar⟩)
          obtain ⟨skipped, hskips, -⟩ := bind_eq_some_iff.mp hone
          exact ⟨skipped, hskips⟩
        obtain ⟨one, hone⟩ := hfold p hp hpar
        obtain ⟨skipped, hskips, -⟩ := bind_eq_some_iff.mp hone
        exact ⟨skipped, hskips⟩
      · obtain ⟨one, hone⟩ := hfold next hgoes.1 hgoes.2.1
        rw [hgoes.2.2, bind_some, if_neg Bool.false_ne_true] at hone
        exact (hnext next hgoes).mp ⟨one, hone⟩ d hd
    · intro h
      have hhere := h dir .refl
      have hlist : disk.list dir = some
          { files := disk.files.paths.filter fun p => parent p = dir
            folders := disk.folders.filter fun p => parent p = dir } := if_pos hhere.listed
      have hfiles : ∃ found, collect (walkFile policy)
          (disk.files.paths.filter fun p => parent p = dir) = some found := by
        refine exists_collect fun p hp => ?_
        obtain ⟨hmem, hpar⟩ := mem_filter.mp hp
        obtain ⟨skipped, hskips⟩ := hhere.files p hmem (of_decide_eq_true hpar)
        exact ⟨_, by rw [walkFile, hskips]; rfl⟩
      have hdirs : ∃ found, collect (fun folder => (skips policy folder true).bind fun skipped =>
          if skipped then some [] else walkMetadata disk undecodable policy fuel folder)
          (disk.folders.filter fun p => parent p = dir) = some found := by
        refine exists_collect fun p hp => ?_
        obtain ⟨hmem, hpar⟩ := mem_filter.mp hp
        obtain ⟨skipped, hskips⟩ := hhere.folders p hmem (of_decide_eq_true hpar)
        rw [hskips, bind_some]
        cases skipped with
        | true => exact ⟨[], rfl⟩
        | false =>
          have hgoes : Goes disk policy dir p := ⟨hmem, of_decide_eq_true hpar, hskips⟩
          exact (hnext p hgoes).mpr fun d hd => h d (.head hgoes hd)
      obtain ⟨files, hfiles⟩ := hfiles
      obtain ⟨folders, hdirs⟩ := hdirs
      refine ⟨folders ++ files, ?_⟩
      rw [if_neg (by rw [hhere.decodable]; exact Bool.false_ne_true), hlist]
      simp only [bind_eq_bind, bind_some, hfiles]
      rw [hdirs]
      rfl

/-- What a walk finds are the supported files of the folders that it comes to. -/
lemma mem_walk (h : walkMetadata disk undecodable policy fuel dir = some found) :
    p ∈ found ↔ p ∈ disk.files.paths ∧ Relation.ReflTransGen (Goes disk policy) dir (parent p) ∧
      skips policy p false = some false ∧ isSupportedPath p := by
  induction fuel generalizing dir found with
  | zero => cases h
  | succ fuel ih =>
    rw [walkMetadata] at h
    split at h
    · cases h
    obtain ⟨listing, hlist, h⟩ := bind_eq_some_iff.mp h
    obtain ⟨below, hbelow, h⟩ := bind_eq_some_iff.mp h
    obtain ⟨here, hhere, hfound⟩ := bind_eq_some_iff.mp h
    cases hfound
    obtain ⟨-, rfl⟩ := Disk.mem_of_list hlist
    rw [mem_append]
    constructor
    · rintro (hmem | hmem)
      · obtain ⟨folder, hdir, one, hone, hp⟩ := (mem_collect hbelow).mp hmem
        obtain ⟨hdirs, hpar⟩ := mem_filter.mp hdir
        obtain ⟨skipped, hskips, hone⟩ := bind_eq_some_iff.mp hone
        cases skipped with
        | true =>
          cases hone
          cases hp
        | false =>
          obtain ⟨hfile, hreach, hrest⟩ := (ih hone).mp hp
          exact ⟨hfile, .head ⟨hdirs, of_decide_eq_true hpar, hskips⟩ hreach, hrest⟩
      · obtain ⟨file, hfile, one, hone, hp⟩ := (mem_collect hhere).mp hmem
        obtain ⟨hfiles, hpar⟩ := mem_filter.mp hfile
        obtain ⟨rfl, hkept⟩ := (walkFile_eq_some hone).mp hp
        rw [of_decide_eq_true hpar]
        exact ⟨hfiles, .refl, hkept⟩
    · rintro ⟨hfile, hreach, hkept⟩
      rcases hreach.cases_head with hhere' | ⟨next, hgoes, hreach⟩
      · refine .inr ((mem_collect hhere).mpr ?_)
        have hlst : p ∈ disk.files.paths.filter fun p => parent p = dir :=
          mem_filter.mpr ⟨hfile, decide_eq_true hhere'.symm⟩
        obtain ⟨one, hone⟩ := exists_of_collect hhere hlst
        exact ⟨p, hlst, one, hone, (walkFile_eq_some hone).mpr ⟨rfl, hkept⟩⟩
      · refine .inl ((mem_collect hbelow).mpr ?_)
        have hlst : next ∈ disk.folders.filter fun p => parent p = dir :=
          mem_filter.mpr ⟨hgoes.1, decide_eq_true hgoes.2.1⟩
        obtain ⟨one, hone⟩ := exists_of_collect hbelow hlst
        refine ⟨next, hlst, one, hone, ?_⟩
        obtain ⟨skipped, hskips, hone⟩ := bind_eq_some_iff.mp hone
        cases hskips.symm.trans hgoes.2.2
        exact (ih hone).mpr ⟨hfile, hreach, hkept⟩

variable (disk undecodable policy) in
/-- The walk from the root has all answers. -/
def Walkable : Prop := ∀ d, Walked disk policy d → Answered disk undecodable policy d

lemma exists_list_iff :
    (∃ found, listRootMetadata disk undecodable policy = some found) ↔ Walkable disk undecodable policy :=
  exists_walk_iff (.inr rfl) (Nat.zero_add disk.rounds).ge

lemma mem_list (h : listRootMetadata disk undecodable policy = some found) :
    p ∈ found ↔ p ∈ disk.files.paths ∧ Walked disk policy (parent p) ∧
      skips policy p false = some false ∧ isSupportedPath p :=
  mem_walk h

end Reached

end DiskWalk
