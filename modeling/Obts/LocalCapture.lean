import Mathlib.Data.Char
import Mathlib.Data.List.Lex
import Obts.GitTrees
import Obts.NameTrees
import Obts.Utf8
import Obts.VaultInventory

/-!
# Local captures

The client captures the vault as a commit: it lists the files, reads them, and writes the tree of the
local history with what it did not find taken out. The ignore rules are those of the root `.gitignore`;
their matching and the hashes of Git objects belong to packages.
-/
namespace LocalCapture

open InsertionOrder SlashPath FileTrees GitTrees ClientPaths VaultInventory List FileTree
open NameTrees (nodup_setAll setAll valueAt_cons)
open Option (bind_eq_bind bind_eq_some_iff bind_some ite_none_left_eq_some some_ne_none)

/-- Whether the rules in a text ignore a path; the path of a directory ends with a slash. -/
structure IgnoreRules where
  ignores : List Char → List Char → Bool

def maxRootIgnoreBytes : Nat := 1024 * 1024

def rootIgnorePath : Path := ⟨".gitignore"⟩

/-- The decoder that refuses what is not UTF-8. -/
def decodeFatal (bytes : List UInt8) : Option (List Char) :=
  if Utf8.encode (Utf8.decode bytes) = bytes then some (Utf8.decode bytes) else none

/-- The paths that a policy may be asked about. -/
def isCanonicalPath (p : Path) : Bool :=
  let text := p.text.toList
  !(text = [] || ['/'].isPrefixOf text || text.contains '\\' || text.contains '\x00' || ['/'].isSuffixOf text ||
    (text.splitOn '/').any fun part => part = [] || part = ['.'] || part = ['.', '.'])

def rulesPolicy (u : SegmentNormalization) (rules : IgnoreRules) (contents : List Char) : Policy :=
  fun p isDirectory =>
    if !isCanonicalPath p then none
    else
      let normalized := u.nfc p.text.toList
      if normalized = rootIgnorePath.text.toList then some false
      else some (rules.ignores contents (normalized ++ if isDirectory then ['/'] else []))

def createRootIgnorePolicy (u : SegmentNormalization) (rules : IgnoreRules)
    (bytes : Option (List UInt8)) : Option Policy :=
  match bytes with
  | none => some (rulesPolicy u rules [])
  | some bytes =>
    if bytes.length > maxRootIgnoreBytes then none
    else do
      let contents ← decodeFatal bytes
      if contents.contains '\x00' then none else some (rulesPolicy u rules contents)

/-- The name of a file or a folder. -/
def Name : Type := List Char

instance : LinearOrder Name := inferInstanceAs (LinearOrder (List Char))

abbrev TreeObject := NameTrees.Tree Name TreeEntry

/-- The object names that Git gives. -/
structure Hashes where
  blob : List UInt8 → String
  tree : TreeObject → String

def segments (p : Path) : List Name := p.text.toList.splitOn '/'

def joinSegments (names : List Name) : Path := ⟨String.ofList (['/'].intercalate names)⟩

def flattenTree (tree : TreeObject) : List (Path × TreeEntry) :=
  tree.flatten.map fun e => (joinSegments e.1, e.2)

variable (entries : List (Path × TreeEntry))

def planOf : NameTrees.Plan Name TreeEntry :=
  .ofEntries (entries.map fun e => (segments e.1, e.2))

def basename (p : Path) : List Char := (p.text.toList.splitOn '/').getLastD []

/-- An entry without a basename leaves only its folders. -/
def planEntry (plan : NameTrees.Plan Name TreeEntry) (e : Path × TreeEntry) : NameTrees.Plan Name TreeEntry :=
  if basename e.1 = [] then plan.enter (segments e.1).dropLast
  else plan.insert (segments e.1) e.2

def writeTreeFromEntries : TreeObject :=
  (entries.foldl planEntry .empty).build

def writeTreeWithChanges (base : TreeObject) (changes : List (Path × TreeEntry)) : Option TreeObject :=
  match base with
  | .leaf _ => none
  | .node children => (planOf changes).write children

structure RootPolicy where
  bytes : Option (List UInt8)
  oid : Option String
  policy : Policy

structure Snapshot where
  files : List Path
  entries : List (Path × TreeEntry)
  rootPolicy : RootPolicy

section Capture
variable (u : SegmentNormalization) (rules : IgnoreRules) (hashes : Hashes) (disk : Disk)

/-- The bytes of the root `.gitignore`, if there is one. None stands for an error: it is a folder, or
too large. -/
def readRootIgnoreBytes : Option (Option (List UInt8)) :=
  match disk.files.get rootIgnorePath with
  | some bytes => if bytes.length > maxRootIgnoreBytes then none else some (some bytes)
  | none => if rootIgnorePath ∈ disk.folders then none else some none

def readRootIgnorePolicy : Option RootPolicy := do
  let bytes ← readRootIgnoreBytes disk
  let policy ← createRootIgnorePolicy u rules bytes
  return { bytes, oid := bytes.map hashes.blob, policy }

/-- What the scan cache says of a file whose metadata are still those it was cached with. -/
abbrev ScanCache := Path → Option String

variable (cache : ScanCache)

/-- One file of a snapshot. A cached blob is taken when it is the one in the base tree. -/
def captureFile (forced : Path → Bool) (baseEntries : List (Path × TreeEntry))
    (rootPolicy : RootPolicy) (filePath : Path) : Option (Path × TreeEntry) := do
  let content ← disk.files.get filePath
  let cached := if forced filePath then none else
    (cache filePath).filter fun oid => (valueAt baseEntries filePath).map (·.oid) = some oid
  match cached with
  | some oid => return (filePath, ⟨.regular, oid⟩)
  | none =>
    if filePath = rootIgnorePath ∧ (content.length > maxRootIgnoreBytes ∨ rootPolicy.bytes ≠ some content) then none
    else return (filePath, ⟨.regular, hashes.blob content⟩)

variable (forcePaths : List Path)

/-- The root policy file is always read, as is what stands at or below a forced path. -/
def isForced (filePath : Path) : Bool :=
  ((rootIgnorePath :: forcePaths).filter (isSyncableVaultPath u)).any fun hint =>
    pathsOverlapWithinRoot filePath (normalizePath u hint)

variable (baseEntries : List (Path × TreeEntry))

def captureEntries (rootPolicy : RootPolicy) (files : List Path) : Option (List (Path × TreeEntry)) :=
  files.mapM (captureFile hashes disk cache (isForced u forcePaths) baseEntries rootPolicy)

/-- Whether the vault still has the policy and the files of a snapshot. -/
def verifyLocalPolicySnapshot (snapshot : Snapshot) : Option Unit := do
  let current ← readRootIgnorePolicy u rules hashes disk
  let files ← scanSyncableFiles u disk (some snapshot.rootPolicy.policy)
  if current.oid ≠ snapshot.rootPolicy.oid ∨
      (valueAt snapshot.entries rootIgnorePath).map (·.oid) ≠ snapshot.rootPolicy.oid ∨
      current.bytes ≠ snapshot.rootPolicy.bytes ∨ snapshot.files ≠ files then none
  else return ()

def captureLocalFileSnapshot (rootPolicy : RootPolicy) (verifyInventory : Bool)
    (localFiles : List Path) : Option Snapshot := do
  let files := sort localFiles
  let entries ← captureEntries u hashes disk cache forcePaths baseEntries rootPolicy files
  let snapshot := { files, entries, rootPolicy }
  if verifyInventory then verifyLocalPolicySnapshot u rules hashes disk snapshot
  return snapshot

/-- The tree that a capture of the whole vault commits on a base, if it differs from the base. None
stands for an error. -/
def createLocalCommit (base : Option TreeObject) : Option (Option TreeObject) := do
  let baseEntries := (base.map flattenTree).getD []
  let pinnedPolicy ← readRootIgnorePolicy u rules hashes disk
  let localFiles ← scanSyncableFiles u disk (some pinnedPolicy.policy)
  let kept := baseEntries.filter fun e => isSyncableVaultPath u e.1 && localFiles.contains e.1
  let snapshot ← captureLocalFileSnapshot u rules hashes disk cache forcePaths baseEntries
    pinnedPolicy true localFiles
  let nextEntries := setAll kept snapshot.entries
  let tree := writeTreeFromEntries nextEntries
  match base with
  | some base =>
    if hashes.tree base = hashes.tree tree then return none
    else do
      verifyLocalPolicySnapshot u rules hashes disk snapshot
      return some tree
  | none =>
    if nextEntries = [] then return none
    else do
      verifyLocalPolicySnapshot u rules hashes disk snapshot
      return some tree

end Capture

/-- The root object of a commit that holds these files. -/
def objectOf (tree : Tree) : TreeObject := (planOf tree.entries).build

variable {entries baseEntries : List (Path × TreeEntry)} {tree base : Tree} {p : Path}

lemma writeTreeFromEntries_of_named (hnamed : ∀ e ∈ entries, basename e.1 ≠ []) :
    writeTreeFromEntries entries = (planOf entries).build := by
  have hfold : ∀ plan, entries.foldl planEntry plan
      = (entries.map fun e => (segments e.1, e.2)).foldl (fun plan e => plan.insert e.1 e.2) plan := by
    induction entries with
    | nil => exact fun plan => rfl
    | cons e entries ih =>
      intro plan
      rw [foldl_cons, map_cons, foldl_cons, planEntry, if_neg (hnamed e mem_cons_self)]
      exact ih (fun e he => hnamed e (mem_cons_of_mem _ he)) _
  rw [writeTreeFromEntries, hfold]
  rfl

/-- A valid path has a basename. -/
lemma basename_of_valid (hp : isValidVaultPath p) : basename p ≠ [] := by
  have hne := splitOn_ne_nil '/' p.text.toList
  rw [basename, getLastD_eq_getLast?, List.getLast?_eq_some_getLast hne]
  exact ((isValidVaultPath_iff.mp hp).segments _ (getLast_mem hne)).1

lemma joinSegments_segments (p : Path) : joinSegments (segments p) = p := by
  rw [joinSegments, segments, intercalate_splitOn]
  exact SlashPath.Path.ext String.ofList_toList

lemma segments_injective : Function.Injective segments := by
  intro p q h
  rw [← joinSegments_segments p, h, joinSegments_segments]

lemma segments_ne_nil (p : Path) : segments p ≠ [] := splitOn_ne_nil '/' _

/-- A path whose segments go on from those of another stands below it. -/
lemma lt_of_segments_append {q : Path} {more : List (List Char)} (hmore : more ≠ [])
    (h : p.text.toList.splitOn '/' ++ more = q.text.toList.splitOn '/') : p < q := by
  rw [Path.lt_iff]
  refine ⟨['/'].intercalate more, ?_⟩
  have htext := congrArg (List.intercalate ['/']) h
  rw [intercalate_append_of_ne_nil '/' (splitOn_ne_nil '/' _) hmore, intercalate_splitOn,
    intercalate_splitOn] at htext
  rw [Path.withSlash, append_assoc]
  exact htext

section Object
variable {entries : List (Path × TreeEntry)} {path : List Name}

lemma nodup_segments (hnodup : (entries.map Prod.fst).Nodup) :
    ((entries.map fun e => (segments e.1, e.2)).map Prod.fst).Nodup := by
  have hmap := hnodup.map segments_injective
  rwa [map_map] at hmap ⊢

lemma valueAt_segments (entries : List (Path × TreeEntry)) (p : Path) :
    valueAt (entries.map fun e => (segments e.1, e.2)) (segments p) = valueAt entries p := by
  induction entries with
  | nil => rfl
  | cons e entries ih =>
    rw [map_cons, valueAt_cons, valueAt_cons, ih]
    by_cases h : e.1 = p
    · rw [if_pos h, if_pos (congrArg segments h)]
    · rw [if_neg h, if_neg fun hsegs => h (segments_injective hsegs)]

lemma segments_of_valueAt (h : valueAt (entries.map fun e => (segments e.1, e.2)) path ≠ none) :
    ∃ p ∈ entries.map Prod.fst, segments p = path := by
  rw [Ne, valueAt_eq_none, not_not, map_map] at h
  obtain ⟨e, he, hpath⟩ := mem_map.mp h
  exact ⟨e.1, mem_map_of_mem he, hpath⟩

lemma valueAt_of_no_path (hpath : ¬ ∃ p, segments p = path) :
    valueAt (entries.map fun e => (segments e.1, e.2)) path = none := by
  by_contra h
  obtain ⟨p, -, hp⟩ := segments_of_valueAt h
  exact hpath ⟨p, hp⟩

lemma lookup_planOf (hnodup : (entries.map Prod.fst).Nodup) (path : List Name) :
    (planOf entries).lookup path = valueAt (entries.map fun e => (segments e.1, e.2)) path := by
  refine NameTrees.Plan.lookup_ofEntries (nodup_segments hnodup) ?_ path
  intro e he
  obtain ⟨e', -, rfl⟩ := mem_map.mp he
  exact segments_ne_nil e'.1

end Object

lemma prefixFree_planOf (tree : Tree) : (planOf tree.entries).PrefixFree := by
  intro path more hpath hmore
  rw [lookup_planOf tree.nodup] at hpath hmore
  obtain ⟨p, hp, rfl⟩ := segments_of_valueAt hpath
  obtain ⟨q, hq, hsegs⟩ := segments_of_valueAt hmore
  by_contra hne
  exact tree.antichain p hp q hq (lt_of_segments_append hne hsegs.symm)

lemma objectOf_spec (tree : Tree) : (objectOf tree).Canonical ∧ ∀ path, (objectOf tree).lookup path
      = valueAt (tree.entries.map fun e => (segments e.1, e.2)) path := by
  obtain ⟨hcan, hlook⟩ :=
    (NameTrees.Plan.sound_ofEntries _).build (prefixFree_planOf tree)
  exact ⟨hcan, fun path => (hlook path).trans (lookup_planOf tree.nodup path)⟩

lemma mem_flattenTree {e : Path × TreeEntry} : e ∈ flattenTree (objectOf tree) ↔ e ∈ tree.entries := by
  obtain ⟨hcan, hlook⟩ := objectOf_spec tree
  obtain ⟨p, entry⟩ := e
  constructor
  · intro hmem
    obtain ⟨⟨path, entry'⟩, he, heq⟩ := mem_map.mp hmem
    cases heq
    rw [hcan.mem_flatten, hlook] at he
    obtain ⟨q, -, rfl⟩ := segments_of_valueAt (he ▸ some_ne_none entry')
    rw [valueAt_segments] at he
    rw [joinSegments_segments]
    exact mem_of_get he
  · intro hmem
    refine mem_map.mpr ⟨(segments p, entry), ?_, by rw [joinSegments_segments]⟩
    rw [hcan.mem_flatten, hlook, valueAt_segments]
    exact get_of_mem hmem

lemma nodup_flattenTree (tree : Tree) : ((flattenTree (objectOf tree)).map Prod.fst).Nodup := by
  obtain ⟨hcan, hlook⟩ := objectOf_spec tree
  rw [flattenTree, map_map]
  have hnodup := hcan.nodup_flatten
  refine List.Nodup.map_on ?_ hnodup.of_map
  intro e he e' he' hsame
  have hpath : ∀ e ∈ (objectOf tree).flatten, ∃ p, segments p = e.1 := by
    intro e he
    have hvalue := hcan.mem_flatten.mp he
    rw [hlook] at hvalue
    obtain ⟨p, -, hp⟩ := segments_of_valueAt (hvalue ▸ some_ne_none e.2)
    exact ⟨p, hp⟩
  obtain ⟨p, hp⟩ := hpath e he
  obtain ⟨q, hq⟩ := hpath e' he'
  have hjoin : joinSegments e.1 = joinSegments e'.1 := hsame
  rw [← hp, ← hq, joinSegments_segments, joinSegments_segments] at hjoin
  exact inj_on_of_nodup_map hnodup he he' (by rw [← hp, ← hq, hjoin])

lemma valueAt_flattenTree (tree : Tree) (p : Path) : valueAt (flattenTree (objectOf tree)) p = tree.get p := by
  cases h : tree.get p with
  | some entry =>
    exact (valueAt_eq_some (nodup_flattenTree tree)).mpr
      (mem_flattenTree.mpr (mem_of_get h))
  | none =>
    rw [get_eq_none] at h
    rw [valueAt_eq_none]
    intro hmem
    obtain ⟨e, he, rfl⟩ := mem_map.mp hmem
    exact h (mem_map_of_mem (mem_flattenTree.mp he))

/-- The object of the files that a map holds, when the map holds just the files of a tree. -/
lemma build_planOf (hnodup : (entries.map Prod.fst).Nodup) (hsame : ∀ p, valueAt entries p = tree.get p) :
    (planOf entries).build = objectOf tree := by
  obtain ⟨hcan, hlook⟩ := objectOf_spec tree
  refine NameTrees.Plan.build_ofEntries hcan (nodup_segments hnodup) ?_ fun path => ?_
  · intro e he
    obtain ⟨e', -, rfl⟩ := mem_map.mp he
    exact segments_ne_nil e'.1
  rw [hlook]
  by_cases hpath : ∃ p, segments p = path
  · obtain ⟨p, rfl⟩ := hpath
    rw [valueAt_segments, valueAt_segments]
    exact hsame p
  · rw [valueAt_of_no_path hpath, valueAt_of_no_path hpath]

/-- Trees that hold the same files have one object. -/
lemma objectOf_eq {tree' : Tree} (h : ∀ p, tree.get p = tree'.get p) : objectOf tree = objectOf tree' :=
  build_planOf tree.nodup h

lemma writeTreeFromEntries_eq (hnodup : (entries.map Prod.fst).Nodup) (hnamed : ∀ e ∈ entries, basename e.1 ≠ [])
    (hsame : ∀ p, valueAt entries p = tree.get p) : writeTreeFromEntries entries = objectOf tree :=
  (writeTreeFromEntries_of_named hnamed).trans (build_planOf hnodup hsame)

variable {rootPolicy : RootPolicy}

section Policies
variable {u : SegmentNormalization} {rules : IgnoreRules} {hashes : Hashes} {disk : Disk}

lemma isCanonicalPath_of_valid (hp : Normal u p) (hvalid : isValidVaultPath p) : isCanonicalPath p := by
  have h := isValidVaultPath_iff.mp hvalid
  have hnul : '\x00' ∉ p.text.toList := fun hmem => h.no_control _ hmem (by decide)
  have hlast : ¬ ['/'] <:+ p.text.toList := by
    rintro ⟨front, hfront⟩
    have hsplit := splitOn_append_cons_self front [] (a := '/')
    have hempty : [] ∈ p.text.toList.splitOn '/' := by
      rw [← hfront, hsplit]
      exact mem_append_right _ (mem_singleton_self [])
    exact (h.segments [] hempty).1 rfl
  have hparts : ∀ part ∈ p.text.toList.splitOn '/', ¬ ((part = [] ∨ part = ['.']) ∨ part = ['.', '.']) := by
    intro part hpart hbad
    obtain ⟨h1, h2, h3⟩ := h.segments part hpart
    rcases hbad with (h1' | h2') | h3'
    · exact h1 h1'
    · exact h2 h2'
    · exact h3 h3'
  simp only [isCanonicalPath, Bool.not_eq_true', ← Bool.not_eq_true, Bool.or_eq_true,
    decide_eq_true_eq, List.isPrefixOf_iff_prefix, isSuffixOf_iff_suffix, contains_iff_mem,
    any_eq_true, not_or, not_exists, not_and]
  exact ⟨⟨⟨⟨⟨h.ne_nil, h.not_absolute⟩, hp.backslash⟩, hnul⟩, hlast⟩,
    fun part hpart => by simpa only [not_or] using hparts part hpart⟩

lemma policy_of_create {bytes : Option (List UInt8)} {policy : Policy}
    (h : createRootIgnorePolicy u rules bytes = some policy) :
    (∀ content, bytes = some content → content.length ≤ maxRootIgnoreBytes) ∧
      ∃ contents, policy = rulesPolicy u rules contents := by
  cases bytes with
  | none => exact ⟨by simp, [], (Option.some.inj h).symm⟩
  | some bytes =>
    obtain ⟨hsize, h⟩ := ite_none_left_eq_some.mp h
    obtain ⟨contents, -, h⟩ := bind_eq_some_iff.mp h
    obtain ⟨-, h⟩ := ite_none_left_eq_some.mp h
    refine ⟨?_, contents, (Option.some.inj h).symm⟩
    rintro content ⟨⟩
    exact not_lt.mp hsize

lemma answers_rulesPolicy (contents : List Char) : Answers u (some (rulesPolicy u rules contents)) := by
  intro p isDirectory hp hvalid
  simp only [ignoredBy, rulesPolicy, isCanonicalPath_of_valid hp hvalid, Bool.not_true,
    Bool.false_eq_true, if_false]
  split
  · exact ⟨_, rfl⟩
  · exact ⟨_, rfl⟩

/-- The root policy file is never ignored. -/
lemma rulesPolicy_rootIgnorePath (contents : List Char) :
    rulesPolicy u rules contents rootIgnorePath false = some false := by
  have hcan : isCanonicalPath rootIgnorePath = true := by decide
  have hnfc : u.nfc rootIgnorePath.text.toList = rootIgnorePath.text.toList :=
    u.nfc_ascii _ (all_iff_forall_prop.mp (by decide))
  simp [rulesPolicy, hcan, hnfc]

lemma isSyncable_rootIgnorePath : isSyncableVaultPath u rootIgnorePath := by
  have hnorm : normalizePath u rootIgnorePath = rootIgnorePath :=
    normal_of (by decide) (by decide) (u.nfc_ascii _ (all_iff_forall_prop.mp (by decide)))
  rw [isSyncableVaultPath, hnorm]
  decide

lemma not_lt_rootIgnorePath (d : Path) : ¬ d < rootIgnorePath := by
  intro h
  have hmem := mem_directoryPrefixes.mpr h
  have hnil : directoryPrefixes rootIgnorePath = [] := by decide
  cases hmem

lemma readRootIgnorePolicy_eq_some (h : readRootIgnorePolicy u rules hashes disk = some rootPolicy) :
    rootPolicy.bytes = disk.files.get rootIgnorePath ∧ rootIgnorePath ∉ disk.folders ∧
      rootPolicy.oid = rootPolicy.bytes.map hashes.blob ∧
      (∀ content, rootPolicy.bytes = some content → content.length ≤ maxRootIgnoreBytes) ∧
      ∃ contents, rootPolicy.policy = rulesPolicy u rules contents := by
  obtain ⟨bytes, hbytes, h⟩ := bind_eq_some_iff.mp h
  obtain ⟨policy, hpol, h⟩ := bind_eq_some_iff.mp h
  cases h
  obtain ⟨hsize, hrules⟩ := policy_of_create hpol
  refine ⟨?_, ?_, rfl, hsize, hrules⟩
  · rw [readRootIgnoreBytes] at hbytes
    split at hbytes
    · rename_i content hcont
      obtain ⟨-, hbytes⟩ := ite_none_left_eq_some.mp hbytes
      exact (Option.some.inj hbytes).symm.trans hcont.symm
    rename_i hnone
    obtain ⟨-, hbytes⟩ := ite_none_left_eq_some.mp hbytes
    exact (Option.some.inj hbytes).symm.trans hnone.symm
  · intro hmem
    have hno : disk.files.get rootIgnorePath = none :=
      get_eq_none.mpr (disk.distinct _ hmem)
    rw [readRootIgnoreBytes, hno] at hbytes
    simp only [if_pos hmem] at hbytes
    cases hbytes

end Policies

/-- Files as blobs of a tree. -/
def gitTree (hashes : Hashes) (contents : FileTree Path (List UInt8)) : Tree where
  entries := contents.entries.map fun e => (e.1, ⟨.regular, hashes.blob e.2⟩)
  nodup := by
    rw [List.map_map]
    exact contents.nodup
  antichain := by
    rw [List.map_map]
    exact contents.antichain

lemma get_gitTree (hashes : Hashes) (contents : FileTree Path (List UInt8)) (p : Path) :
    (gitTree hashes contents).get p = (contents.get p).map fun content => ⟨.regular, hashes.blob content⟩ := by
  cases h : contents.get p with
  | none =>
    rw [get_eq_none] at h
    rw [Option.map_none, get_eq_none, paths, gitTree, map_map]
    exact h
  | some content =>
    have hmem := mem_of_get h
    exact get_of_mem (mem_map.mpr ⟨(p, content), hmem, rfl⟩)

section Vault
variable {u : SegmentNormalization} {rules : IgnoreRules} {hashes : Hashes} {disk : Disk}
  {cache : ScanCache} {files forcePaths : List Path}

/-- The files that were found, as blobs. -/
def vaultTree (hashes : Hashes) (disk : Disk) (files : List Path) : Tree :=
  gitTree hashes (disk.files.filter files.contains)

lemma get_vaultTree (files : List Path) (p : Path) : (vaultTree hashes disk files).get p = if p ∈ files then
      (disk.files.get p).map fun content => ⟨.regular, hashes.blob content⟩ else none := by
  rw [vaultTree, get_gitTree, get_filter]
  by_cases hp : p ∈ files
  · rw [if_pos hp, if_pos (contains_iff_mem.mpr hp)]
  · rw [if_neg hp, if_neg fun h => hp (contains_iff_mem.mp h)]
    rfl

/-- A blob that the cache vouches for is that of the file's bytes. -/
def Vouched (hashes : Hashes) (disk : Disk) (cache : ScanCache) (baseEntries : List (Path × TreeEntry)) : Prop :=
  ∀ p oid content, cache p = some oid → (valueAt baseEntries p).map (·.oid) = some oid →
    disk.files.get p = some content → oid = hashes.blob content

/-- What the cache says of one path is true, unless the path is read anyway. -/
def VouchedAt (hashes : Hashes) (disk : Disk) (cache : ScanCache) (forced : Path → Bool)
    (baseEntries : List (Path × TreeEntry)) (p : Path) : Prop :=
  forced p = false → ∀ oid content, cache p = some oid →
    (valueAt baseEntries p).map (·.oid) = some oid → disk.files.get p = some content →
    oid = hashes.blob content

lemma Vouched.vouchedAt (h : Vouched hashes disk cache baseEntries) (forced : Path → Bool) (p : Path) :
    VouchedAt hashes disk cache forced baseEntries p :=
  fun _ => h p

lemma captureFile_eq {forced : Path → Bool} (hroot : rootPolicy.bytes = disk.files.get rootIgnorePath)
    (hsize : ∀ content, rootPolicy.bytes = some content → content.length ≤ maxRootIgnoreBytes)
    (hcache : VouchedAt hashes disk cache forced baseEntries p) {content : List UInt8}
    (hcont : disk.files.get p = some content) : captureFile hashes disk cache forced baseEntries rootPolicy p
      = some (p, ⟨.regular, hashes.blob content⟩) := by
  rw [captureFile, hcont, bind_eq_bind, bind_some]
  simp only
  split
  · rename_i oid hoid
    obtain ⟨hforc, hoid⟩ := ite_none_left_eq_some.mp hoid
    obtain ⟨hcach, hbase⟩ := Option.filter_eq_some_iff.mp hoid
    rw [hcache (Bool.not_eq_true _ ▸ hforc) oid content hcach (of_decide_eq_true hbase) hcont]
    rfl
  · rw [if_neg]
    · rfl
    rintro ⟨rfl, hbad⟩
    rw [hcont] at hroot
    rcases hbad with hlarge | hother
    · exact absurd (hsize content hroot) (not_le.mpr hlarge)
    · exact hother hroot

lemma captureEntries_eq (forcePaths : List Path) (hroot : rootPolicy.bytes = disk.files.get rootIgnorePath)
    (hsize : ∀ content, rootPolicy.bytes = some content → content.length ≤ maxRootIgnoreBytes)
    (hcache : ∀ p ∈ files, VouchedAt hashes disk cache (isForced u forcePaths) baseEntries p)
    (hfiles : ∀ p ∈ files, p ∈ disk.files.paths) :
    ∃ entries, captureEntries u hashes disk cache forcePaths baseEntries rootPolicy files
        = some entries ∧ entries.map Prod.fst = files ∧
      ∀ p, valueAt entries p = (vaultTree hashes disk files).get p := by
  induction files with
  | nil => exact ⟨[], rfl, rfl, fun p => (get_vaultTree [] p).symm⟩
  | cons first files ih =>
    obtain ⟨entries, hents, hkeys, hvals⟩ := ih (fun p hp => hcache p (mem_cons_of_mem _ hp))
      fun p hp => hfiles p (mem_cons_of_mem _ hp)
    obtain ⟨content, hcont⟩ :=
      Option.ne_none_iff_exists'.mp (mem_paths.mp (hfiles first mem_cons_self))
    have hfirst := captureFile_eq hroot hsize (hcache first mem_cons_self) hcont
    refine ⟨(first, ⟨.regular, hashes.blob content⟩) :: entries, ?_, ?_, fun p => ?_⟩
    · rw [captureEntries] at hents ⊢
      rw [mapM_cons, hfirst, hents]
      rfl
    · rw [map_cons, hkeys]
    · rw [valueAt_cons, get_vaultTree]
      by_cases hp : first = p
      · subst hp
        rw [if_pos rfl, if_pos mem_cons_self, hcont]
        rfl
      rw [if_neg hp, hvals, get_vaultTree]
      by_cases hmem : p ∈ files
      · rw [if_pos hmem, if_pos (mem_cons_of_mem _ hmem)]
      rw [if_neg hmem, if_neg]
      intro hmem'
      rcases mem_cons.mp hmem' with rfl | hmem'
      · exact hp rfl
      · exact hmem hmem'

lemma sort_scanSyncableFiles {policy : Option Policy}
    (h : scanSyncableFiles u disk policy = some files) : sort files = files := by
  obtain ⟨inventory, -, h⟩ := bind_eq_some_iff.mp h
  cases h
  exact sortBy_of_pairwise (pairwise_sortBy _ _)

/-- A snapshot of the files that the scan finds passes its own check. -/
lemma verifyLocalPolicySnapshot_eq (hroot : readRootIgnorePolicy u rules hashes disk = some rootPolicy)
    (hscan : scanSyncableFiles u disk (some rootPolicy.policy) = some files)
    (hmem : rootIgnorePath ∈ files ↔ rootIgnorePath ∈ disk.files.paths)
    (hents : ∀ p, valueAt entries p = (vaultTree hashes disk files).get p) :
    verifyLocalPolicySnapshot u rules hashes disk { files, entries, rootPolicy } = some () := by
  obtain ⟨hbytes, -, hoid, -, -⟩ := readRootIgnorePolicy_eq_some hroot
  have hentry : (valueAt entries rootIgnorePath).map (·.oid) = rootPolicy.oid := by
    rw [hents, get_vaultTree, hoid, hbytes]
    by_cases h : rootIgnorePath ∈ disk.files.paths
    · rw [if_pos (hmem.mpr h)]
      cases disk.files.get rootIgnorePath with
      | none | some => rfl
    · rw [if_neg fun hfile => h (hmem.mp hfile), get_eq_none.mpr h]
      rfl
  rw [verifyLocalPolicySnapshot, hroot]
  simp only [bind_eq_bind, bind_some, hscan]
  rw [if_neg]
  · rfl
  rintro (h | h | h | h)
  · exact h rfl
  · exact h hentry
  · exact h rfl
  · exact h rfl

/-- The tree that a capture commits is that of the files that the scan finds, if they are there. -/
lemma createLocalCommit_of_scan (hroot : readRootIgnorePolicy u rules hashes disk = some rootPolicy)
    (hcache : ∀ p ∈ files, VouchedAt hashes disk cache (isForced u forcePaths) (flattenTree (objectOf base)) p)
    (hscan : scanSyncableFiles u disk (some rootPolicy.policy) = some files) (hnodup : files.Nodup)
    (hfiles : ∀ p ∈ files, p ∈ disk.files.paths)
    (hmem : rootIgnorePath ∈ disk.files.paths → rootIgnorePath ∈ files) :
    createLocalCommit u rules hashes disk cache forcePaths (some (objectOf base))
      = some (if hashes.tree (objectOf base) = hashes.tree (objectOf (vaultTree hashes disk files))
        then none else some (objectOf (vaultTree hashes disk files))) := by
  obtain ⟨hbytes, -, hoid, hsize, contents, hpol⟩ := readRootIgnorePolicy_eq_some hroot
  have hsort := sort_scanSyncableFiles hscan
  obtain ⟨entries, hents, hkeys, hvals⟩ := captureEntries_eq (u := u) forcePaths
    hbytes hsize hcache hfiles
  have hver := verifyLocalPolicySnapshot_eq hroot hscan ⟨hfiles _, hmem⟩ hvals
  have htree : writeTreeFromEntries (setAll
      ((flattenTree (objectOf base)).filter fun e =>
        isSyncableVaultPath u e.1 && files.contains e.1) entries)
      = objectOf (vaultTree hashes disk files) := by
    have hkept : (((flattenTree (objectOf base)).filter fun e =>
        isSyncableVaultPath u e.1 && files.contains e.1).map Prod.fst).Nodup :=
      (nodup_flattenTree base).sublist (filter_sublist.map Prod.fst)
    have hsame : ∀ p, valueAt (setAll ((flattenTree (objectOf base)).filter fun e =>
        isSyncableVaultPath u e.1 && files.contains e.1) entries) p
        = (vaultTree hashes disk files).get p := by
      intro p
      rw [NameTrees.valueAt_setAll (hkeys ▸ hnodup), hvals]
      cases hp : (vaultTree hashes disk files).get p with
      | some entry => rfl
      | none =>
        -- what was kept of the base is among the files found
        rw [Option.none_or, valueAt_eq_none]
        intro hkey
        obtain ⟨e, he, rfl⟩ := mem_map.mp hkey
        obtain ⟨-, hkeep⟩ := mem_filter.mp he
        have hfile := contains_iff_mem.mp (Bool.and_eq_true_iff.mp hkeep).2
        rw [get_vaultTree, if_pos hfile, Option.map_eq_none_iff, get_eq_none] at hp
        exact hp (hfiles e.1 hfile)
    refine writeTreeFromEntries_eq (nodup_setAll hkept) ?_ hsame
    intro e he
    have hvalue := (valueAt_eq_some (nodup_setAll hkept)).mpr he
    rw [hsame, get_vaultTree] at hvalue
    obtain ⟨hfile, hvalue⟩ := Option.ite_none_right_eq_some.mp hvalue
    exact basename_of_valid (mem_scanSyncableFiles hscan hfile).2
  have hsnap : captureLocalFileSnapshot u rules hashes disk cache forcePaths
      (flattenTree (objectOf base)) rootPolicy true files = some { files, entries, rootPolicy } := by
    rw [captureLocalFileSnapshot, hsort, hents]
    simp only [bind_eq_bind, bind_some, if_true, hver]
    rfl
  rw [createLocalCommit, hroot]
  simp only [bind_eq_bind, bind_some, Option.map_some, Option.getD_some, hscan, hsnap, htree, hver]
  by_cases hsame : hashes.tree (objectOf base) = hashes.tree (objectOf (vaultTree hashes disk files))
  · rw [if_pos hsame, if_pos hsame]
    rfl
  · rw [if_neg hsame, if_neg hsame]
    rfl

lemma mem_of_captureEntries
    (h : captureEntries u hashes disk cache forcePaths baseEntries rootPolicy files = some entries) :
    ∀ p ∈ files, p ∈ disk.files.paths := by
  induction files generalizing entries with
  | nil => exact fun p hp => absurd hp not_mem_nil
  | cons first files ih =>
    rw [captureEntries, mapM_cons] at h
    obtain ⟨e, he, h⟩ := bind_eq_some_iff.mp h
    obtain ⟨rest, hrest, -⟩ := bind_eq_some_iff.mp h
    intro p hp
    rcases mem_cons.mp hp with rfl | hp
    · obtain ⟨content, hcont, -⟩ := bind_eq_some_iff.mp he
      rw [mem_paths, hcont]
      exact some_ne_none content
    · exact ih hrest p hp

/-- A capture that succeeds has scanned the vault, and every file that it found was there. -/
lemma scan_of_createLocalCommit {base : Option TreeObject} {captured : Option TreeObject}
    (h : createLocalCommit u rules hashes disk cache forcePaths base = some captured) :
    ∃ rootPolicy files, readRootIgnorePolicy u rules hashes disk = some rootPolicy ∧
      scanSyncableFiles u disk (some rootPolicy.policy) = some files ∧ ∀ p ∈ files, p ∈ disk.files.paths := by
  obtain ⟨rootPolicy, hroot, h⟩ := bind_eq_some_iff.mp h
  obtain ⟨files, hscan, h⟩ := bind_eq_some_iff.mp h
  obtain ⟨snapshot, hsnap, -⟩ := bind_eq_some_iff.mp h
  obtain ⟨entries, hents, -⟩ := bind_eq_some_iff.mp hsnap
  exact ⟨rootPolicy, files, hroot, hscan, fun p hp =>
    mem_of_captureEntries hents p (mem_sort.mpr hp)⟩

/-- The tree that a capture commits is that of the files that the scan finds. -/
lemma createLocalCommit_eq (hplain : Plain u disk)
    (hroot : readRootIgnorePolicy u rules hashes disk = some rootPolicy)
    (hcache : Vouched hashes disk cache (flattenTree (objectOf base))) :
    ∃ files, scanSyncableFiles u disk (some rootPolicy.policy) = some files ∧ files.Nodup ∧
      (∀ p, p ∈ files ↔ p ∈ disk.files.paths ∧ isSyncableVaultPath u p ∧
        rootPolicy.policy p false = some false ∧ ∀ d, d < p → isSyncableVaultPath u d) ∧
      createLocalCommit u rules hashes disk cache forcePaths (some (objectOf base))
        = some (if hashes.tree (objectOf base) = hashes.tree (objectOf (vaultTree hashes disk files))
          then none else some (objectOf (vaultTree hashes disk files))) := by
  obtain ⟨-, -, -, -, contents, hpol⟩ := readRootIgnorePolicy_eq_some hroot
  obtain ⟨files, hscan, hnodup, hspec⟩ := scanSyncableFiles_plain hplain
    (hpol ▸ answers_rulesPolicy contents : Answers u (some rootPolicy.policy))
  refine ⟨files, hscan, hnodup, hspec, createLocalCommit_of_scan hroot
    (fun p _ => hcache.vouchedAt _ p) hscan hnodup (fun p hp => ((hspec p).mp hp).1) fun hfile => ?_⟩
  refine (hspec _).mpr ⟨hfile, isSyncable_rootIgnorePath, ?_, fun d hd => absurd hd (not_lt_rootIgnorePath d)⟩
  rw [ignoredBy, hpol]
  exact rulesPolicy_rootIgnorePath contents

end Vault

end LocalCapture
