import Mathlib.Logic.Relation
import Obts.ClientPaths
import Obts.FileTrees

/-!
# The inventory of the vault

The client lists the vault folder by folder, in rounds. It decides at each folder whether to go down:
into one whose own path it does not sync it does not look. A file is found when the folders above it
are all entered, and it is left out when the root policy ignores it.
-/
namespace VaultInventory

open InsertionOrder SlashPath FileTrees ClientPaths List Nat
open Option (bind_eq_bind bind_eq_some_iff bind_some)
open PathPolicy (withSlashes withSlashes_of_not_mem)

/-- What the adapter shows: files, and folders with everything above them. -/
structure Disk where
  files : FileTree Path (List UInt8)
  folders : List Path
  closed : ∀ p, p ∈ files.paths ∨ p ∈ folders → ∀ d, d < p → d ∈ folders
  distinct : ∀ d ∈ folders, d ∉ files.paths
  named : ∀ d ∈ folders, d.text ≠ ""

def root : Path := ⟨""⟩

/-- The folder that a path stands in. -/
def parent (p : Path) : Path := (directoryPrefixes p).getLast?.getD root

structure Listing where
  (files folders : List Path)

/-- `adapter.list` refuses a folder that does not exist. -/
def Disk.list (disk : Disk) (dir : Path) : Option Listing :=
  if dir = root ∨ dir ∈ disk.folders then
    some { files := disk.files.paths.filter fun p => parent p = dir
           folders := disk.folders.filter fun p => parent p = dir }
  else none

/-- `policy.ignores` for a path and whether it is a directory; none stands for an error. -/
abbrev Policy := Path → Bool → Option Bool

/-- The results for the elements one after the other, unless one of them fails. -/
def collect {α β : Type} (f : α → Option (List β)) : List α → Option (List β)
  | [] => some []
  | a :: as => do
    let found ← f a
    let rest ← collect f as
    return found ++ rest

def ignoredBy (policy : Option Policy) (p : Path) (isDirectory : Bool) : Option Bool :=
  match policy with
  | none => some false
  | some ignores => ignores p isDirectory

/-- A folder that is entered, and whether it is listed. -/
structure FolderVisit where
  path : Path
  (listed entered : Bool)

section Inventory
variable (u : SegmentNormalization) (disk : Disk) (policy : Option Policy) (skipIgnored : Bool)

def visitFolder (folder : Path) : Option (List FolderVisit) :=
  let normalizedFolder := normalizePath u folder
  if inObts normalizedFolder then some []
  else if !isValidVaultPath normalizedFolder then none
  else if !isSyncableVaultPath u normalizedFolder then some []
  else do
    let ignoredDirectory ← ignoredBy policy normalizedFolder true
    return [{ path := normalizedFolder, listed := !ignoredDirectory,
              entered := !(ignoredDirectory && skipIgnored) }]

def visitFile (file : Path) : Option (List Path) :=
  let normalizedFile := normalizePath u file
  if inObts normalizedFile then some []
  else if !isValidVaultPath normalizedFile then none
  else do
    let ignored ← ignoredBy policy normalizedFile false
    return if ignored then [] else [normalizedFile]

def readFiles (dir : Path) : Option (List Path) := do
  let listing ← disk.list dir
  collect (visitFile u policy) listing.files

def readFolders (dir : Path) : Option (List FolderVisit) := do
  let listing ← disk.list dir
  collect (visitFolder u policy skipIgnored) listing.folders

structure Inventory where
  (files directories : List Path)

/-- The rounds over the frontier. -/
def scanFrom : Nat → List Path → Option Inventory
  | _, [] => some { files := [], directories := [] }
  | 0, _ :: _ => none
  | fuel + 1, dir :: frontier => do
    let files ← collect (readFiles u disk policy) (dir :: frontier)
    let visits ← collect (readFolders u disk policy skipIgnored) (dir :: frontier)
    let next := (visits.filter (·.entered)).map (·.path)
    let rest ← scanFrom fuel (sort (ofList next))
    return { files := files ++ rest.files
             directories := (visits.filter (·.listed)).map (·.path) ++ rest.directories }

/-- The number of segments. -/
def depth (p : Path) : Nat := (p.text.toList.splitOn '/').length

/-- As many rounds as folders are nested, and one for the folder the scan begins at. -/
def Disk.rounds : Nat := (disk.folders.map depth).foldr max 0 + 1

def listLocalVaultInventory (dir : Path) : Option Inventory := do
  let found ← scanFrom u disk policy skipIgnored disk.rounds [dir]
  return { files := sort (ofList found.files), directories := sort (ofList found.directories) }

def scanSyncableFiles : Option (List Path) := do
  let inventory ← listLocalVaultInventory u disk policy false root
  return sort (inventory.files.filter fun p => isSyncableVaultPath u p)

end Inventory

section Collect
variable {α β : Type} {f : α → Option (List β)} {as : List α} {bs : List β}

lemma collect_cons_eq_some {a : α} : collect f (a :: as) = some bs ↔
      ∃ found rest, f a = some found ∧ collect f as = some rest ∧ found ++ rest = bs := by
  rw [collect, bind_eq_bind, bind_eq_some_iff]
  constructor
  · rintro ⟨found, hfound, hrest⟩
    obtain ⟨rest, hrest, hbs⟩ := bind_eq_some_iff.mp hrest
    exact ⟨found, rest, hfound, hrest, Option.some.inj hbs⟩
  · rintro ⟨found, rest, hfound, hrest, rfl⟩
    exact ⟨found, hfound, bind_eq_some_iff.mpr ⟨rest, hrest, rfl⟩⟩

lemma mem_collect (h : collect f as = some bs) {b : β} :
    b ∈ bs ↔ ∃ a ∈ as, ∃ found, f a = some found ∧ b ∈ found := by
  induction as generalizing bs with
  | nil =>
    cases h
    simp
  | cons a as ih =>
    obtain ⟨found, rest, hfound, hrest, rfl⟩ := collect_cons_eq_some.mp h
    rw [mem_append, ih hrest]
    constructor
    · rintro (hb | ⟨a', ha', found', hfound', hb⟩)
      · exact ⟨a, mem_cons_self, found, hfound, hb⟩
      · exact ⟨a', mem_cons_of_mem a ha', found', hfound', hb⟩
    rintro ⟨a', ha', found', hfound', hb⟩
    rcases mem_cons.mp ha' with rfl | ha'
    · rw [hfound] at hfound'
      exact .inl (Option.some.inj hfound' ▸ hb)
    · exact .inr ⟨a', ha', found', hfound', hb⟩

lemma exists_of_collect (h : collect f as = some bs) {a : α} (ha : a ∈ as) : ∃ found, f a = some found := by
  induction as generalizing bs with
  | nil => cases ha
  | cons a' as ih =>
    obtain ⟨found, rest, hfound, hrest, rfl⟩ := collect_cons_eq_some.mp h
    rcases mem_cons.mp ha with rfl | ha
    · exact ⟨found, hfound⟩
    · exact ih hrest ha

lemma exists_collect (h : ∀ a ∈ as, ∃ found, f a = some found) : ∃ bs, collect f as = some bs := by
  induction as with
  | nil => exact ⟨[], rfl⟩
  | cons a as ih =>
    obtain ⟨found, hfound⟩ := h a mem_cons_self
    obtain ⟨rest, hrest⟩ := ih fun a ha => h a (mem_cons_of_mem _ ha)
    exact ⟨found ++ rest, collect_cons_eq_some.mpr ⟨found, rest, hfound, hrest, rfl⟩⟩

end Collect

lemma depth_lt {a b : Path} (h : a < b) : depth a < depth b := by
  obtain ⟨rest, -, hsplit⟩ := splitOn_of_withSlash (Path.lt_iff.mp h)
  have hpos := length_pos_iff.mpr (splitOn_ne_nil '/' rest)
  rw [depth, depth, hsplit, length_append]
  omega

lemma depth_pos (p : Path) : 0 < depth p :=
  length_pos_iff.mpr (splitOn_ne_nil '/' p.text.toList)

lemma slash_notMem_segment {text segment : List Char} (h : segment ∈ text.splitOn '/') : '/' ∉ segment := by
  induction text generalizing segment with
  | nil =>
    rw [splitOn_nil, mem_singleton] at h
    rw [h]
    exact not_mem_nil
  | cons ch text ih =>
    rw [splitOn_cons_eq_if_modifyHead] at h
    split at h
    · rcases mem_cons.mp h with rfl | h
      · exact not_mem_nil
      · exact ih h
    rename_i hch
    cases hsplit : text.splitOn '/' with
    | nil => exact absurd hsplit (splitOn_ne_nil '/' text)
    | cons first segments =>
      rw [hsplit] at ih h
      rw [modifyHead_cons, mem_cons] at h
      rcases h with rfl | h
      · rw [mem_cons, not_or]
        refine ⟨?_, ih mem_cons_self⟩
        rintro rfl
        exact hch (beq_self_eq_true '/')
      · exact ih (mem_cons_of_mem first h)

variable {p d : Path}

lemma depth_take {index : Nat} (hpos : 0 < index) (hle : index ≤ depth p) :
    depth ⟨String.ofList (['/'].intercalate ((p.text.toList.splitOn '/').take index))⟩ = index := by
  have hne : (p.text.toList.splitOn '/').take index ≠ [] := by
    intro hnil
    have hlen := congrArg length hnil
    rw [length_take, length_nil] at hlen
    rw [depth] at hle
    omega
  have hplain : ∀ segment ∈ (p.text.toList.splitOn '/').take index, '/' ∉ segment := by
    intro segment hseg
    exact slash_notMem_segment (mem_of_mem_take hseg)
  rw [depth, String.toList_ofList, splitOn_intercalate '/' hplain hne, length_take]
  exact min_eq_left hle

/-- A path stands in the root, or in the lowest of the folders above it. -/
lemma parent_cases (p : Path) : (directoryPrefixes p = [] ∧ parent p = root) ∨
      (parent p < p ∧ depth (parent p) + 1 = depth p) := by
  have hpos := depth_pos p
  obtain ⟨n, hn⟩ : ∃ n, depth p = n + 1 := ⟨depth p - 1, by omega⟩
  have hlen : (p.text.toList.splitOn '/').length - 1 = n := by
    rw [depth] at hn
    omega
  cases n with
  | zero =>
    left
    have hnil : directoryPrefixes p = [] := by
      rw [directoryPrefixes, hlen]
      rfl
    exact ⟨hnil, by rw [parent, hnil]; rfl⟩
  | succ n =>
    right
    have hrange : range' 1 (n + 1) = range' 1 n ++ [n + 1] := by
      rw [range'_concat, Nat.one_mul, Nat.add_comm]
    have hlast : parent p
        = ⟨String.ofList (['/'].intercalate ((p.text.toList.splitOn '/').take (n + 1)))⟩ := by
      rw [parent, directoryPrefixes, hlen, hrange, map_append, map_singleton, getLast?_concat]
      rfl
    have hmem : parent p ∈ directoryPrefixes p := by
      rw [hlast, directoryPrefixes, hlen]
      refine mem_map.mpr ⟨n + 1, ?_, rfl⟩
      rw [mem_range'_1]
      omega
    refine ⟨mem_directoryPrefixes.mp hmem, ?_⟩
    rw [hlast, depth_take (by omega) (by omega), hn]

lemma le_parent (h : d < p) : d ≤ parent p ∧ parent p < p := by
  rcases parent_cases p with ⟨hnil, -⟩ | ⟨hlt, hdepth⟩
  · have hmem := mem_directoryPrefixes.mpr h
    rw [hnil] at hmem
    cases hmem
  refine ⟨?_, hlt⟩
  rcases ForestEdits.ForestOrder.le_or_le_of_le h.le hlt.le with hle | hle
  · exact hle
  rcases hle.lt_or_eq with hlt' | heq
  · -- nothing stands between a path and its parent
    have h1 := depth_lt hlt'
    have h2 := depth_lt h
    omega
  · exact heq ▸ le_rfl

variable {dir folder file next : Path} {visits : List FolderVisit} {frontier files : List Path}
  {found inventory : Inventory} {fuel k : Nat} {visit : FolderVisit}

section Rounds
variable {u : SegmentNormalization} {disk : Disk} {policy : Option Policy} {skipIgnored : Bool}

variable (u disk policy skipIgnored) in
/-- The scan goes from a folder into another. -/
def Enters (dir next : Path) : Prop :=
  ∃ visits, readFolders u disk policy skipIgnored dir = some visits ∧
    ∃ visit ∈ visits, visit.entered = true ∧ visit.path = next

/-- A round and the rounds after it. -/
lemma scanFrom_succ_eq_some (h : scanFrom u disk policy skipIgnored (fuel + 1) (dir :: frontier) = some found) :
    ∃ files visits rest, collect (readFiles u disk policy) (dir :: frontier) = some files ∧
      collect (readFolders u disk policy skipIgnored) (dir :: frontier) = some visits ∧
      scanFrom u disk policy skipIgnored fuel
        (sort (ofList ((visits.filter (·.entered)).map (·.path)))) = some rest ∧
      found.files = files ++ rest.files := by
  obtain ⟨files, hfiles, h⟩ := bind_eq_some_iff.mp h
  obtain ⟨visits, hvis, h⟩ := bind_eq_some_iff.mp h
  obtain ⟨rest, hrest, h⟩ := bind_eq_some_iff.mp h
  cases h
  exact ⟨files, visits, rest, hfiles, hvis, hrest, rfl⟩

lemma mem_next (hvis : collect (readFolders u disk policy skipIgnored) frontier = some visits) :
    next ∈ sort (ofList ((visits.filter (·.entered)).map (·.path))) ↔
      ∃ dir ∈ frontier, Enters u disk policy skipIgnored dir next := by
  simp only [mem_sort, mem_ofList, mem_map, mem_filter]
  constructor
  · rintro ⟨visit, ⟨hmem, hent⟩, hpath⟩
    obtain ⟨dir, hdir, found, hfound, hvisit⟩ := (mem_collect hvis).mp hmem
    exact ⟨dir, hdir, found, hfound, visit, hvisit, hent, hpath⟩
  · rintro ⟨dir, hdir, found, hfound, visit, hvisit, hent, hpath⟩
    exact ⟨visit, ⟨(mem_collect hvis).mpr ⟨dir, hdir, found, hfound, hvisit⟩, hent⟩, hpath⟩

/-- What a round finds in the folders of its frontier, the scan finds in all that it reaches. -/
lemma mem_scanFrom (select : Inventory → List Path) {finds : Path → Prop}
    (hnone : select { files := [], directories := [] } = [])
    (hround : ∀ fuel dir frontier found,
      scanFrom u disk policy skipIgnored (fuel + 1) (dir :: frontier) = some found →
      ∃ visits rest, collect (readFolders u disk policy skipIgnored) (dir :: frontier) = some visits ∧
        scanFrom u disk policy skipIgnored fuel
          (sort (ofList ((visits.filter (·.entered)).map (·.path)))) = some rest ∧
        (p ∈ select found ↔ (∃ d ∈ dir :: frontier, finds d) ∨ p ∈ select rest))
    (h : scanFrom u disk policy skipIgnored fuel frontier = some found) :
    p ∈ select found ↔ ∃ start ∈ frontier, ∃ dir,
      Relation.ReflTransGen (Enters u disk policy skipIgnored) start dir ∧ finds dir := by
  induction fuel generalizing frontier found with
  | zero =>
    cases frontier with
    | nil =>
      cases h
      simp [hnone]
    | cons dir frontier => cases h
  | succ fuel ih =>
    cases frontier with
    | nil =>
      cases h
      simp [hnone]
    | cons first frontier =>
      obtain ⟨visits, rest, hvis, hrest, hfound⟩ := hround fuel first frontier found h
      rw [hfound, ih hrest]
      constructor
      · rintro (⟨dir, hdir, hp⟩ | ⟨next, hnext, dir, hpath, hp⟩)
        · exact ⟨dir, hdir, dir, .refl, hp⟩
        · obtain ⟨start, hstart, hent⟩ := (mem_next hvis).mp hnext
          exact ⟨start, hstart, dir, .head hent hpath, hp⟩
      · rintro ⟨start, hstart, dir, hpath, hp⟩
        rcases hpath.cases_head with rfl | ⟨next, hent, hpath⟩
        · exact .inl ⟨start, hstart, hp⟩
        · exact .inr ⟨next, (mem_next hvis).mpr ⟨start, hstart, hent⟩, dir, hpath, hp⟩

/-- The files found are those of the folders that the scan comes to. -/
lemma mem_files_scanFrom (h : scanFrom u disk policy skipIgnored fuel frontier = some found) :
    p ∈ found.files ↔ ∃ start ∈ frontier, ∃ dir,
      Relation.ReflTransGen (Enters u disk policy skipIgnored) start dir ∧
      ∃ files, readFiles u disk policy dir = some files ∧ p ∈ files := by
  refine mem_scanFrom Inventory.files rfl (fun fuel dir frontier found h => ?_) h
  obtain ⟨files, visits, rest, hfiles, hvis, hrest, hfound⟩ := scanFrom_succ_eq_some h
  refine ⟨visits, rest, hvis, hrest, ?_⟩
  rw [hfound, mem_append, mem_collect hfiles]

end Rounds

section Depth
variable {u : SegmentNormalization} {disk : Disk} {policy : Option Policy} {skipIgnored : Bool}

lemma depth_le_rounds (hd : d ∈ disk.folders) : depth d < disk.rounds := by
  have hle : ∀ depths : List Nat, ∀ n ∈ depths, n ≤ depths.foldr max 0 := by
    intro depths
    induction depths with
    | nil => exact fun n hn => absurd hn not_mem_nil
    | cons m depths ih =>
      intro n hn
      rcases mem_cons.mp hn with rfl | hn
      · exact le_max_left n _
      · exact (ih n hn).trans (le_max_right m _)
  exact lt_succ_of_le (hle _ _ (mem_map_of_mem hd))

/-- A folder that the scan comes to: it is entered, and it lies deep enough. -/
structure Level (k : Nat) (dir : Path) : Prop where
  le_depth : k ≤ depth dir
  valid : isValidVaultPath dir = true
  no_backslash : '\\' ∉ dir.text.toList

lemma Level.ne_root (h : Level k dir) : dir ≠ root := by
  rintro rfl
  exact (isValidVaultPath_iff.mp h.valid).ne_nil rfl

lemma visitFolder_eq_some (h : visitFolder u policy skipIgnored folder = some visits)
    (hvisit : visit ∈ visits) : visit.path = normalizePath u folder ∧ inObts visit.path = false ∧
      isValidVaultPath visit.path ∧ isSyncableVaultPath u visit.path ∧
      ∃ ignored, ignoredBy policy visit.path true = some ignored ∧
        visit.listed = !ignored ∧ visit.entered = !(ignored && skipIgnored) := by
  simp only [visitFolder] at h
  split at h
  · cases h
    cases hvisit
  rename_i hobts
  split at h
  · cases h
  rename_i hvalid
  split at h
  · cases h
    cases hvisit
  rename_i hsync
  obtain ⟨ignored, hign, h⟩ := bind_eq_some_iff.mp h
  cases h
  obtain rfl := mem_singleton.mp hvisit
  exact ⟨rfl, Bool.not_eq_true _ ▸ hobts, by simpa using hvalid, by simpa using hsync,
    ignored, hign, rfl, rfl⟩

lemma Enters.exists_folder (h : Enters u disk policy skipIgnored dir next) :
    (dir = root ∨ dir ∈ disk.folders) ∧ ∃ folder ∈ disk.folders, parent folder = dir ∧
      next = normalizePath u folder ∧ isValidVaultPath next ∧ isSyncableVaultPath u next := by
  obtain ⟨visits, hvis, visit, hvisit, -, rfl⟩ := h
  obtain ⟨listing, hlst, hvis⟩ := bind_eq_some_iff.mp hvis
  obtain ⟨hdir, ⟨⟩⟩ := Option.ite_none_right_eq_some.mp hlst
  obtain ⟨folder, hfold, found, hfound, hmem⟩ := (mem_collect hvis).mp hvisit
  obtain ⟨hmem', hpar⟩ := mem_filter.mp hfold
  obtain ⟨hpath, -, hvalid, hsync, -⟩ := visitFolder_eq_some hfound hmem
  exact ⟨hdir, folder, hmem', of_decide_eq_true hpar, hpath, hvalid, hsync⟩

lemma depth_normalizePath (p : Path) (hlt : d < p) (hback : '\\' ∉ d.text.toList)
    (habs : ¬ ['/'] <+: d.text.toList) (hne : d.text.toList ≠ []) : depth d < depth (normalizePath u p) := by
  obtain ⟨rest, htext, -⟩ := splitOn_of_withSlash (Path.lt_iff.mp hlt)
  have hslas : withSlashes p.text.toList = d.text.toList ++ '/' :: withSlashes rest := by
    rw [htext, withSlashes, map_append, map_cons]
    exact congrArg (· ++ _) (withSlashes_of_not_mem hback)
  have hkept : ¬ ['/'] <+: d.text.toList ++ '/' :: withSlashes rest := by
    intro hleads
    cases hd : d.text.toList with
    | nil => exact hne hd
    | cons ch text =>
      rw [hd, cons_append, cons_prefix_cons] at hleads
      exact habs (hd ▸ hleads.1 ▸ ⟨text, rfl⟩)
  rw [depth, depth, normalizePath, String.toList_ofList, u.nfc_segments, length_map, hslas,
    dropWhile_slash hkept, splitOn_append_cons_self, length_append]
  have hpos := length_pos_iff.mpr (splitOn_ne_nil '/' (withSlashes rest))
  omega

/-- A folder that is entered lies deeper than the one it is entered from. -/
lemma Enters.level (h : Enters u disk policy skipIgnored dir next)
    (hdir : Level k dir ∨ k = 0) : Level (k + 1) next := by
  obtain ⟨-, folder, hfold, hpar, rfl, hvalid, -⟩ := h.exists_folder
  refine ⟨?_, hvalid, backslash_notMem_normalizePath folder⟩
  rcases hdir with hdir | rfl
  · rcases parent_cases folder with ⟨-, hroot⟩ | ⟨hlt, -⟩
    · exact absurd (hpar.symm.trans hroot) hdir.ne_root
    have hpath := isValidVaultPath_iff.mp hdir.valid
    rw [hpar] at hlt
    have hdepth := depth_normalizePath (u := u) folder hlt hdir.no_backslash hpath.not_absolute
      hpath.ne_nil
    have hle := hdir.le_depth
    omega
  · exact depth_pos _

/-- The rounds succeed when the folders that they may come to can be read. -/
lemma exists_scanFrom_of {P : Path → Prop} (hlst : ∀ dir, P dir → dir = root ∨ dir ∈ disk.folders)
    (hreads : ∀ dir, P dir → (∃ files, readFiles u disk policy dir = some files) ∧
      ∃ visits, readFolders u disk policy skipIgnored dir = some visits)
    (hent : ∀ dir next, P dir → Enters u disk policy skipIgnored dir next → P next) (hcom : ∀ dir ∈ frontier, P dir)
    (hfron : ∀ dir ∈ frontier, Level k dir ∨ k = 0) (hfuel : disk.rounds ≤ k + fuel) :
    ∃ found, scanFrom u disk policy skipIgnored fuel frontier = some found := by
  induction fuel generalizing k frontier with
  | zero =>
    cases frontier with
    | nil => exact ⟨_, rfl⟩
    | cons dir frontier =>
      exfalso
      rcases hfron dir mem_cons_self with hlevel | rfl
      · rcases hlst dir (hcom dir mem_cons_self) with hroot | hmem
        · exact hlevel.ne_root hroot
        have hlt := depth_le_rounds hmem
        have hle := hlevel.le_depth
        omega
      · rw [Disk.rounds] at hfuel
        omega
  | succ fuel ih =>
    cases frontier with
    | nil => exact ⟨_, rfl⟩
    | cons first frontier =>
      obtain ⟨files, hfiles⟩ := exists_collect fun dir hdir => (hreads dir (hcom dir hdir)).1
      obtain ⟨visits, hvis⟩ := exists_collect fun dir hdir => (hreads dir (hcom dir hdir)).2
      have hnext : ∀ next ∈ sort (ofList ((visits.filter (·.entered)).map (·.path))),
          ∃ dir ∈ first :: frontier, Enters u disk policy skipIgnored dir next :=
        fun next hnext => (mem_next hvis).mp hnext
      obtain ⟨rest, hrest⟩ := ih
        (fun next hmem =>
          let ⟨dir, hdir, henter⟩ := hnext next hmem
          hent dir next (hcom dir hdir) henter)
        (fun next hmem =>
          let ⟨dir, hdir, henter⟩ := hnext next hmem
          .inl (henter.level (hfron dir hdir)))
        (by omega : disk.rounds ≤ k + 1 + fuel)
      rw [scanFrom, hfiles, hvis]
      simp only [bind_eq_bind, bind_some, hrest]
      exact ⟨_, rfl⟩

end Depth

section Found
variable {u : SegmentNormalization} {disk : Disk} {policy : Option Policy}

lemma visitFile_eq_some {found : List Path} (h : visitFile u policy file = some found) (hp : p ∈ found) :
    p = normalizePath u file ∧ isValidVaultPath p := by
  simp only [visitFile] at h
  split at h
  · cases h
    cases hp
  split at h
  · cases h
  rename_i hvalid
  obtain ⟨ignored, -, h⟩ := bind_eq_some_iff.mp h
  cases h
  cases ignored with
  | true => cases hp
  | false =>
    obtain rfl := mem_singleton.mp hp
    exact ⟨rfl, by simpa using hvalid⟩

lemma valid_of_mem_files (h : listLocalVaultInventory u disk policy false root = some inventory)
    (hp : p ∈ inventory.files) : Normal u p ∧ isValidVaultPath p := by
  obtain ⟨found, hfound, hinv⟩ := bind_eq_some_iff.mp h
  cases hinv
  rw [mem_sort, mem_ofList] at hp
  obtain ⟨-, -, dir, -, read, hread, hmem⟩ := (mem_files_scanFrom hfound).mp hp
  obtain ⟨listing, -, hread⟩ := bind_eq_some_iff.mp hread
  obtain ⟨file, -, one, hone, hin⟩ := (mem_collect hread).mp hmem
  obtain ⟨rfl, hvalid⟩ := visitFile_eq_some hone hin
  exact ⟨normal_normalizePath (isValidVaultPath_iff.mp hvalid).not_absolute, hvalid⟩

lemma mem_scanSyncableFiles (h : scanSyncableFiles u disk policy = some files) (hp : p ∈ files) :
    Normal u p ∧ isValidVaultPath p := by
  obtain ⟨inventory, hinv, h⟩ := bind_eq_some_iff.mp h
  cases h
  exact valid_of_mem_files hinv (mem_filter.mp (mem_sort.mp hp)).1

end Found

section Plain
variable {u : SegmentNormalization} {disk : Disk} {policy : Option Policy}

variable (u disk) in
/-- Outside the client's own folder every name is valid and normal. -/
def Plain : Prop :=
  ∀ p, p ∈ disk.files.paths ∨ p ∈ disk.folders → inObts p = false → Normal u p ∧ isValidVaultPath p = true

variable (u policy) in
/-- The policy has an answer for every path that the client may ask about. -/
def Answers : Prop :=
  ∀ p isDirectory, Normal u p → isValidVaultPath p = true → ∃ ignored, ignoredBy policy p isDirectory = some ignored

lemma inObts_iff : inObts p ↔ (⟨".obts"⟩ : Path) ≤ p :=
  pathsOverlapWithinRoot_iff

lemma normalizePath_obts : normalizePath u ⟨".obts"⟩ = ⟨".obts"⟩ := by
  have hdrop : (withSlashes ".obts".toList).dropWhile (· = '/') = ".obts".toList := by decide
  rw [normalizePath, hdrop, u.nfc_ascii _ (all_iff_forall_prop.mp (by decide))]
  exact SlashPath.Path.ext String.ofList_toList

lemma not_le_root (hd : d.text ≠ "") : ¬ d ≤ root := by
  rintro (hroot | ⟨rest, hrest⟩)
  · exact hd (congrArg Path.text hroot.symm)
  · have hlen := congrArg length hrest
    simp [Path.withSlash, root] at hlen

/-- What stands in the client's own folder is that folder, or stands in one in it. -/
lemma eq_obts_of_inObts (hp : inObts p) (hpar : inObts (parent p) = false) : p = ⟨".obts"⟩ := by
  rcases (inObts_iff.mp hp).lt_or_eq with hlt | heq
  · have hle := (le_parent hlt).1
    rw [inObts_iff.mpr hle] at hpar
    cases hpar
  · exact heq.symm

lemma isSyncableVaultPath_valid (h : isSyncableVaultPath u p) : isValidVaultPath (normalizePath u p) := by
  simp only [isSyncableVaultPath, Bool.and_eq_true] at h
  exact h.1.1.1.1

/-- The client's own folder does not take part in sync. -/
lemma inObts_of_syncable (h : isSyncableVaultPath u p) : inObts p = false := by
  rw [← Bool.not_eq_true]
  intro hobts
  have hvalid := isSyncableVaultPath_valid h
  rcases (inObts_iff.mp hobts).lt_or_eq with hlt | rfl
  · obtain ⟨rest, htext, -⟩ := splitOn_of_withSlash (Path.lt_iff.mp hlt)
    have hslas : withSlashes p.text.toList = ".obts".toList ++ '/' :: withSlashes rest := by
      rw [htext, withSlashes, map_append, map_cons]
      exact congrArg (· ++ _) (by decide)
    have hkept : ¬ ['/'] <+: ".obts".toList ++ '/' :: withSlashes rest := by
      rintro ⟨more, hmore⟩
      exact absurd (congrArg head? hmore) (by simp)
    have hnobts := (isValidVaultPath_iff.mp hvalid).not_obts
    rw [normalizePath, String.toList_ofList, u.nfc_segments, hslas, dropWhile_slash hkept,
      splitOn_append_cons_self] at hnobts
    have hfirst : ".obts".toList.splitOn '/' = [".obts".toList] := by decide
    rw [hfirst, singleton_append, map_cons, head?_cons,
      u.nfc_ascii _ (all_iff_forall_prop.mp (by decide))] at hnobts
    exact hnobts rfl
  · rw [normalizePath_obts] at hvalid
    exact absurd hvalid (by decide)

/-- A folder that the scan may list. -/
def Listable (disk : Disk) (dir : Path) : Prop :=
  dir = root ∨ dir ∈ disk.folders ∧ inObts dir = false

lemma Listable.inObts (h : Listable disk dir) : inObts dir = false := by
  rcases h with rfl | ⟨-, h⟩
  · decide
  · exact h

lemma Listable.list (h : Listable disk dir) : disk.list dir = some
      { files := disk.files.paths.filter fun p => parent p = dir
        folders := disk.folders.filter fun p => parent p = dir } := by
  rw [Disk.list, if_pos]
  rcases h with hroot | ⟨hmem, -⟩
  · exact .inl hroot
  · exact .inr hmem

section
variable (hplain : Plain u disk)
include hplain

section
variable (hpolicy : Answers u policy)
include hpolicy

lemma visitFolder_plain (hdir : folder ∈ disk.folders) (hpar : inObts (parent folder) = false) :
    ∃ visits, visitFolder u policy false folder = some visits ∧ ∀ next,
      (∃ visit ∈ visits, visit.entered ∧ visit.path = next) ↔ next = folder ∧ isSyncableVaultPath u folder := by
  cases hobts : inObts folder with
  | true =>
    obtain rfl := eq_obts_of_inObts hobts hpar
    refine ⟨[], ?_, ?_⟩
    · simp [visitFolder, normalizePath_obts, hobts]
    intro next
    have hno : isSyncableVaultPath u ⟨".obts"⟩ = false := by
      rw [← Bool.not_eq_true]
      intro hsync
      have hvalid := isSyncableVaultPath_valid hsync
      rw [normalizePath_obts] at hvalid
      exact absurd hvalid (by decide)
    simp [hno]
  | false =>
    obtain ⟨hnorm, hvalid⟩ := hplain folder (.inr hdir) hobts
    rw [ClientPaths.Normal] at hnorm
    cases hsync : isSyncableVaultPath u folder with
    | false =>
      refine ⟨[], ?_, by simp⟩
      simp [visitFolder, hnorm, hobts, hvalid, hsync]
    | true =>
      obtain ⟨ignored, hign⟩ := hpolicy folder true hnorm hvalid
      refine ⟨[{ path := folder, listed := !ignored, entered := true }], ?_, ?_⟩
      · simp [visitFolder, hnorm, hobts, hvalid, hsync, hign]
      intro next
      simp only [mem_singleton, exists_eq_left, true_and, and_true]
      exact eq_comm

lemma visitFile_plain (hfile : file ∈ disk.files.paths) (hpar : inObts (parent file) = false) :
    ∃ files, visitFile u policy file = some files ∧ ∀ p,
      p ∈ files ↔ p = file ∧ inObts file = false ∧ ignoredBy policy file false = some false := by
  cases hobts : inObts file with
  | true =>
    obtain rfl := eq_obts_of_inObts hobts hpar
    refine ⟨[], ?_, by simp⟩
    simp [visitFile, normalizePath_obts, hobts]
  | false =>
    obtain ⟨hnorm, hvalid⟩ := hplain file (.inl hfile) hobts
    rw [ClientPaths.Normal] at hnorm
    obtain ⟨ignored, hign⟩ := hpolicy file false hnorm hvalid
    refine ⟨if ignored then [] else [file], ?_, ?_⟩
    · simp [visitFile, hnorm, hobts, hvalid, hign]
    · intro p
      cases ignored <;> simp [hign]

lemma readFiles_plain (hdir : Listable disk dir) : ∃ files, readFiles u disk policy dir = some files ∧ ∀ p,
      p ∈ files ↔ p ∈ disk.files.paths ∧ parent p = dir ∧ inObts p = false ∧
        ignoredBy policy p false = some false := by
  have hvisit : ∀ file ∈ disk.files.paths.filter (fun p => parent p = dir),
      ∃ files, visitFile u policy file = some files ∧ ∀ p,
        p ∈ files ↔ p = file ∧ inObts file = false ∧ ignoredBy policy file false = some false := by
    intro file hfile
    obtain ⟨hmem, hpar⟩ := mem_filter.mp hfile
    refine visitFile_plain hplain hpolicy hmem ?_
    rw [of_decide_eq_true hpar]
    exact hdir.inObts
  obtain ⟨files, hfiles⟩ := exists_collect fun file hfile =>
    let ⟨found, hfound, _⟩ := hvisit file hfile
    ⟨found, hfound⟩
  refine ⟨files, ?_, fun p => ?_⟩
  · rw [readFiles, hdir.list]
    exact hfiles
  rw [mem_collect hfiles]
  constructor
  · rintro ⟨file, hfile, found, hfound, hp⟩
    obtain ⟨found', hfound', hspec⟩ := hvisit file hfile
    cases hfound.symm.trans hfound'
    obtain ⟨rfl, hrest⟩ := (hspec p).mp hp
    obtain ⟨hmem, hpar⟩ := mem_filter.mp hfile
    exact ⟨hmem, of_decide_eq_true hpar, hrest⟩
  · rintro ⟨hmem, hpar, hrest⟩
    have hfile : p ∈ disk.files.paths.filter (fun p => parent p = dir) :=
      mem_filter.mpr ⟨hmem, decide_eq_true hpar⟩
    obtain ⟨found, hfound, hspec⟩ := hvisit p hfile
    exact ⟨p, hfile, found, hfound, (hspec p).mpr ⟨rfl, hrest⟩⟩

lemma readFolders_plain (hdir : Listable disk dir) :
    (∃ visits, readFolders u disk policy false dir = some visits) ∧ ∀ next, Enters u disk policy false dir next
        ↔ next ∈ disk.folders ∧ parent next = dir ∧ isSyncableVaultPath u next := by
  have hvisit : ∀ folder ∈ disk.folders.filter (fun p => parent p = dir),
      ∃ visits, visitFolder u policy false folder = some visits ∧ ∀ next,
        (∃ visit ∈ visits, visit.entered = true ∧ visit.path = next)
          ↔ next = folder ∧ isSyncableVaultPath u folder = true := by
    intro folder hfold
    obtain ⟨hmem, hpar⟩ := mem_filter.mp hfold
    refine visitFolder_plain hplain hpolicy hmem ?_
    rw [of_decide_eq_true hpar]
    exact hdir.inObts
  obtain ⟨visits, hvisits⟩ := exists_collect fun folder hfold =>
    let ⟨found, hfound, _⟩ := hvisit folder hfold
    ⟨found, hfound⟩
  have hread : readFolders u disk policy false dir = some visits := by
    rw [readFolders, hdir.list]
    exact hvisits
  refine ⟨⟨visits, hread⟩, fun next => ?_⟩
  constructor
  · rintro ⟨visits', hread', visit, hmem, hent, rfl⟩
    cases hread.symm.trans hread'
    obtain ⟨folder, hfold, found, hfound, hvis⟩ := (mem_collect hvisits).mp hmem
    obtain ⟨found', hfound', hspec⟩ := hvisit folder hfold
    cases hfound.symm.trans hfound'
    obtain ⟨heq, hsync⟩ := (hspec visit.path).mp ⟨visit, hvis, hent, rfl⟩
    obtain ⟨hmem, hpar⟩ := mem_filter.mp hfold
    rw [heq]
    exact ⟨hmem, of_decide_eq_true hpar, hsync⟩
  · rintro ⟨hmem, hpar, hsync⟩
    have hfold : next ∈ disk.folders.filter (fun p => parent p = dir) :=
      mem_filter.mpr ⟨hmem, decide_eq_true hpar⟩
    obtain ⟨found, hfound, hspec⟩ := hvisit next hfold
    obtain ⟨visit, hvis, hent, hpath⟩ := (hspec next).mpr ⟨rfl, hsync⟩
    exact ⟨visits, hread, visit, (mem_collect hvisits).mpr ⟨next, hfold, found, hfound, hvis⟩, hent, hpath⟩

lemma Enters.listable
    (hdir : Listable disk dir) (h : Enters u disk policy false dir next) : Listable disk next := by
  obtain ⟨hmem, hpar, hsync⟩ := ((readFolders_plain hplain hpolicy hdir).2 next).mp h
  exact .inr ⟨hmem, inObts_of_syncable hsync⟩

/-- The rounds succeed. -/
lemma exists_scanFrom : ∃ found, scanFrom u disk policy false disk.rounds [root] = some found := by
  refine exists_scanFrom_of (P := Listable disk) (k := 0) ?_ ?_ ?_ ?_ (fun dir _ => .inr rfl)
    (Nat.zero_add disk.rounds).ge
  · intro dir hdir
    rcases hdir with hroot | ⟨hmem, -⟩
    · exact .inl hroot
    · exact .inr hmem
  · intro dir hdir
    obtain ⟨files, hfiles, -⟩ := readFiles_plain hplain hpolicy hdir
    exact ⟨⟨files, hfiles⟩, (readFolders_plain hplain hpolicy hdir).1⟩
  · exact fun dir next hdir hent => hent.listable hplain hpolicy hdir
  · exact fun dir hdir => .inl (mem_singleton.mp hdir)

/-- From the root the scan comes to the folders that are syncable and stand in syncable ones. -/
lemma reach_root_iff : Relation.ReflTransGen (Enters u disk policy false) root dir
      ↔ dir = root ∨ dir ∈ disk.folders ∧ ∀ d, d ≤ dir → isSyncableVaultPath u d := by
  constructor
  · intro hreach
    have hboth : Listable disk dir ∧ (dir = root ∨ dir ∈ disk.folders ∧
        ∀ d, d ≤ dir → isSyncableVaultPath u d = true) := by
      induction hreach with
      | refl => exact ⟨.inl rfl, .inl rfl⟩
      | tail hreach hent ih =>
        rename_i dir next
        obtain ⟨hdir, hcases⟩ := ih
        obtain ⟨hmem, hpar, hsync⟩ :=
          ((readFolders_plain hplain hpolicy hdir).2 next).mp hent
        refine ⟨hent.listable hplain hpolicy hdir, .inr ⟨hmem, fun d hd => ?_⟩⟩
        rcases hd.lt_or_eq with hlt | rfl
        · have hle := (le_parent hlt).1
          have hfold := disk.closed next (.inr hmem) d hlt
          rw [hpar] at hle
          rcases hcases with rfl | ⟨-, hall⟩
          · exact absurd hle (not_le_root (disk.named d hfold))
          · exact hall d hle
        · exact hsync
    exact hboth.2
  · intro h
    -- by the depth of the folder
    induction hdepth : depth dir using Nat.strong_induction_on generalizing dir with
    | _ n ih =>
      rcases h with rfl | ⟨hmem, hall⟩
      · exact .refl
      have hlist : Listable disk (parent dir) ∧
          Relation.ReflTransGen (Enters u disk policy false) root (parent dir) := by
        rcases parent_cases dir with ⟨-, hroot⟩ | ⟨hlt, hpar⟩
        · rw [hroot]
          exact ⟨.inl rfl, .refl⟩
        have hfold := disk.closed dir (.inr hmem) _ hlt
        refine ⟨.inr ⟨hfold, inObts_of_syncable (hall _ hlt.le)⟩, ?_⟩
        refine ih (depth (parent dir)) (by omega) (.inr ⟨hfold, fun d hd => ?_⟩) rfl
        exact hall d (hd.trans hlt.le)
      exact hlist.2.tail (((readFolders_plain hplain hpolicy hlist.1).2 dir).mpr ⟨hmem, rfl, hall dir le_rfl⟩)

/-- In a vault with plain names the scan finds the syncable files that the policy does not ignore
and that stand in syncable folders only. -/
lemma scanSyncableFiles_plain : ∃ files, scanSyncableFiles u disk policy = some files ∧ files.Nodup ∧ ∀ p,
      p ∈ files ↔ p ∈ disk.files.paths ∧ isSyncableVaultPath u p ∧
        ignoredBy policy p false = some false ∧ ∀ d, d < p → isSyncableVaultPath u d := by
  obtain ⟨found, hfound⟩ := exists_scanFrom hplain hpolicy
  have hlist : ∀ {dir}, Relation.ReflTransGen (Enters u disk policy false) root dir →
      Listable disk dir := by
    intro dir hreach
    rcases (reach_root_iff hplain hpolicy).mp hreach with hroot | ⟨hmem, hall⟩
    · exact .inl hroot
    · exact .inr ⟨hmem, inObts_of_syncable (hall dir le_rfl)⟩
  refine ⟨_, by rw [scanSyncableFiles, listLocalVaultInventory, hfound]; rfl, ?_, fun p => ?_⟩
  · refine (sortBy_perm _ _).nodup_iff.mpr ?_
    exact ((sortBy_perm _ _).nodup_iff.mpr (nodup_ofList _)).filter _
  rw [mem_sort, mem_filter, mem_sort, mem_ofList, mem_files_scanFrom hfound]
  constructor
  · rintro ⟨⟨start, hstart, dir, hreach, files, hfiles, hp⟩, hsync⟩
    obtain rfl := mem_singleton.mp hstart
    obtain ⟨files', hfiles', hspec⟩ := readFiles_plain hplain hpolicy (hlist hreach)
    cases hfiles.symm.trans hfiles'
    obtain ⟨hmem, hpar, -, hign⟩ := (hspec p).mp hp
    refine ⟨hmem, hsync, hign, fun d hd => ?_⟩
    have hle := (le_parent hd).1
    rw [hpar] at hle
    rcases (reach_root_iff hplain hpolicy).mp hreach with rfl | ⟨-, hall⟩
    · exact absurd hle (not_le_root (disk.named d (disk.closed p (.inl hmem) d hd)))
    · exact hall d hle
  · rintro ⟨hmem, hsync, hign, habove⟩
    have hreach : Relation.ReflTransGen (Enters u disk policy false) root (parent p) := by
      refine (reach_root_iff hplain hpolicy).mpr ?_
      rcases parent_cases p with ⟨-, hroot⟩ | ⟨hlt, -⟩
      · exact .inl hroot
      · exact .inr ⟨disk.closed p (.inl hmem) _ hlt, fun d hd => habove d (hd.trans_lt hlt)⟩
    obtain ⟨files, hfiles, hspec⟩ := readFiles_plain hplain hpolicy (hlist hreach)
    exact ⟨⟨root, mem_singleton_self root, parent p, hreach, files, hfiles,
      (hspec p).mpr ⟨hmem, rfl, inObts_of_syncable hsync, hign⟩⟩, hsync⟩

end

end

end Plain

section Visits
variable {u : SegmentNormalization} {disk : Disk} {policy : Option Policy}

variable (u disk) in
/-- The folders that the scan comes to, under the paths that it has for them. -/
inductive Visited : Path → Prop where
  | start : Visited root
  | folder {folder : Path} (hparent : Visited (parent folder)) (hfolder : folder ∈ disk.folders)
      (hvalid : isValidVaultPath (normalizePath u folder) = true)
      (hsyncable : isSyncableVaultPath u (normalizePath u folder) = true) :
      Visited (normalizePath u folder)

variable (u disk) in
/-- Every folder that the scan comes to is there under its path, and what stands in it has a valid
name. -/
structure Readable : Prop where
  listed : ∀ dir, Visited u disk dir → dir = root ∨ dir ∈ disk.folders
  valid : ∀ p, p ∈ disk.files.paths ∨ p ∈ disk.folders → Visited u disk (parent p) →
    inObts (normalizePath u p) = false → isValidVaultPath (normalizePath u p) = true

variable (u disk) in
/-- Some file has this path in the scan. -/
def Found (p : Path) : Prop :=
  ∃ file ∈ disk.files.paths, Visited u disk (parent file) ∧ normalizePath u file = p

lemma Disk.mem_of_list {listing : Listing} (h : disk.list dir = some listing) : (dir = root ∨ dir ∈ disk.folders) ∧
      listing = { files := disk.files.paths.filter fun p => parent p = dir
                  folders := disk.folders.filter fun p => parent p = dir } := by
  obtain ⟨hdir, h⟩ := Option.ite_none_right_eq_some.mp h
  exact ⟨hdir, (Option.some.inj h).symm⟩

/-- The scan reads every folder that it comes to. -/
lemma reads_of_scanFrom (h : scanFrom u disk policy false fuel frontier = some found) {start : Path}
    (hstart : start ∈ frontier) (hreach : Relation.ReflTransGen (Enters u disk policy false) start dir) :
    (∃ files, readFiles u disk policy dir = some files) ∧
      ∃ visits, readFolders u disk policy false dir = some visits := by
  induction fuel generalizing frontier found start with
  | zero =>
    cases frontier with
    | nil => cases hstart
    | cons first frontier => cases h
  | succ fuel ih =>
    cases frontier with
    | nil => cases hstart
    | cons first frontier =>
      obtain ⟨files, visits, rest, hfiles, hvis, hrest, -⟩ := scanFrom_succ_eq_some h
      rcases hreach.cases_head with rfl | ⟨next, hent, hreach⟩
      · exact ⟨exists_of_collect hfiles hstart, exists_of_collect hvis hstart⟩
      · exact ih hrest ((mem_next hvis).mpr ⟨start, hstart, hent⟩) hreach

lemma visitFolder_answers (hpolicy : Answers u policy)
    (hvalid : inObts (normalizePath u folder) = false → isValidVaultPath (normalizePath u folder)) :
    ∃ visits, visitFolder u policy false folder = some visits := by
  simp only [visitFolder]
  split
  · exact ⟨_, rfl⟩
  rename_i hobts
  have hdir := hvalid (Bool.not_eq_true _ ▸ hobts)
  split
  · rename_i hno
    rw [hdir] at hno
    cases hno
  split
  · exact ⟨_, rfl⟩
  have hnorm := normal_normalizePath (isValidVaultPath_iff.mp hdir).not_absolute
  obtain ⟨ignored, hign⟩ := hpolicy _ true hnorm hdir
  rw [hign]
  exact ⟨_, rfl⟩

/-- A folder that is visited is entered when it is one that the client syncs. -/
lemma entered_of_visitFolder (h : visitFolder u policy false folder = some visits)
    (hsync : isSyncableVaultPath u (normalizePath u folder)) :
    ∃ visit ∈ visits, visit.entered ∧ visit.path = normalizePath u folder := by
  simp only [visitFolder] at h
  rw [if_neg (by rw [inObts_of_syncable hsync]; exact Bool.false_ne_true)] at h
  split at h
  · cases h
  rw [if_neg (by rw [hsync]; exact Bool.false_ne_true)] at h
  obtain ⟨ignored, -, h⟩ := bind_eq_some_iff.mp h
  cases h
  refine ⟨_, mem_singleton_self _, ?_, rfl⟩
  rw [Bool.and_false]
  rfl

lemma visitFile_answers (hpolicy : Answers u policy)
    (hvalid : inObts (normalizePath u file) = false → isValidVaultPath (normalizePath u file)) :
    ∃ files, visitFile u policy file = some files := by
  simp only [visitFile]
  split
  · exact ⟨_, rfl⟩
  rename_i hobts
  have hfile := hvalid (Bool.not_eq_true _ ▸ hobts)
  split
  · rename_i hno
    rw [hfile] at hno
    cases hno
  have hnorm := normal_normalizePath (isValidVaultPath_iff.mp hfile).not_absolute
  obtain ⟨ignored, hign⟩ := hpolicy _ false hnorm hfile
  rw [hign]
  exact ⟨_, rfl⟩

/-- A file that is visited is found unless the policy ignores it. -/
lemma mem_of_visitFile (h : visitFile u policy file = some files) :
    p ∈ files ↔ p = normalizePath u file ∧ inObts p = false ∧ ignoredBy policy p false = some false := by
  simp only [visitFile] at h
  split at h
  · rename_i hobts
    cases h
    simp only [not_mem_nil, false_iff]
    rintro ⟨rfl, hno, -⟩
    rw [hobts] at hno
    cases hno
  rename_i hobts
  split at h
  · cases h
  obtain ⟨ignored, hign, h⟩ := bind_eq_some_iff.mp h
  cases h
  cases ignored with
  | true =>
    simp only [if_true, not_mem_nil, false_iff]
    rintro ⟨rfl, -, hno⟩
    rw [hign] at hno
    cases hno
  | false =>
    simp only [Bool.false_eq_true, if_false, mem_singleton]
    constructor
    · rintro rfl
      exact ⟨rfl, Bool.not_eq_true _ ▸ hobts, hign⟩
    · exact fun hp => hp.1

/-- What the scan enters is visited. -/
lemma Visited.of_reach (h : Relation.ReflTransGen (Enters u disk policy false) root dir) : Visited u disk dir := by
  induction h with
  | refl => exact .start
  | tail _ hent ih =>
    obtain ⟨-, folder, hdir, rfl, rfl, hvalid, hsync⟩ := hent.exists_folder
    exact .folder ih hdir hvalid hsync

/-- The folders that the client syncs are entered from what is read. -/
lemma Enters.of_folder (hread : readFolders u disk policy false (parent folder) = some visits)
    (hdir : folder ∈ disk.folders) (hsync : isSyncableVaultPath u (normalizePath u folder)) :
    Enters u disk policy false (parent folder) (normalizePath u folder) := by
  obtain ⟨listing, hlist, hvis⟩ := bind_eq_some_iff.mp hread
  obtain ⟨-, rfl⟩ := Disk.mem_of_list hlist
  have hlst : folder ∈ disk.folders.filter (fun p => parent p = parent folder) :=
    mem_filter.mpr ⟨hdir, decide_eq_true rfl⟩
  obtain ⟨found, hfound⟩ := exists_of_collect hvis hlst
  obtain ⟨visit, hvisit, hent, hpath⟩ := entered_of_visitFolder hfound hsync
  exact ⟨visits, hread, visit, (mem_collect hvis).mpr ⟨folder, hlst, found, hfound, hvisit⟩, hent, hpath⟩

/-- A scan that succeeds comes to every folder that may be visited. -/
lemma Visited.reach (hscan : scanFrom u disk policy false fuel [root] = some found)
    (h : Visited u disk dir) : Relation.ReflTransGen (Enters u disk policy false) root dir := by
  induction h with
  | start => exact .refl
  | folder _ hdir _ hsync ih =>
    obtain ⟨-, visits, hvis⟩ := reads_of_scanFrom hscan (mem_singleton_self root) ih
    exact ih.tail (Enters.of_folder hvis hdir hsync)

lemma Readable.reads (h : Readable u disk) (hpolicy : Answers u policy)
    (hdir : Visited u disk dir) : (∃ files, readFiles u disk policy dir = some files) ∧
      ∃ visits, readFolders u disk policy false dir = some visits := by
  have hlist : disk.list dir = some
      { files := disk.files.paths.filter fun p => parent p = dir
        folders := disk.folders.filter fun p => parent p = dir } := if_pos (h.listed dir hdir)
  constructor
  · rw [readFiles, hlist]
    refine exists_collect fun file hfile => ?_
    obtain ⟨hmem, hpar⟩ := mem_filter.mp hfile
    obtain rfl := of_decide_eq_true hpar
    exact visitFile_answers hpolicy (h.valid file (.inl hmem) hdir)
  · rw [readFolders, hlist]
    refine exists_collect fun folder hfold => ?_
    obtain ⟨hmem, hpar⟩ := mem_filter.mp hfold
    obtain rfl := of_decide_eq_true hpar
    exact visitFolder_answers hpolicy (h.valid folder (.inr hmem) hdir)

lemma isValidVaultPath_of_visitFolder (h : visitFolder u policy false folder = some visits)
    (hobts : inObts (normalizePath u folder) = false) : isValidVaultPath (normalizePath u folder) := by
  simp only [visitFolder] at h
  rw [if_neg (by rw [hobts]; exact Bool.false_ne_true)] at h
  obtain ⟨hvalid, h⟩ := Option.ite_none_left_eq_some.mp h
  simpa using hvalid

lemma isValidVaultPath_of_visitFile
    (h : visitFile u policy file = some files) (hobts : inObts (normalizePath u file) = false) :
    isValidVaultPath (normalizePath u file) := by
  simp only [visitFile] at h
  rw [if_neg (by rw [hobts]; exact Bool.false_ne_true)] at h
  obtain ⟨hvalid, h⟩ := Option.ite_none_left_eq_some.mp h
  simpa using hvalid

/-- The scan succeeds just when the vault can be read. -/
lemma exists_scan_iff (hpolicy : Answers u policy) :
    (∃ found, scanFrom u disk policy false disk.rounds [root] = some found) ↔ Readable u disk := by
  constructor
  · rintro ⟨found, hscan⟩
    have hreads : ∀ {dir}, Visited u disk dir → (∃ files, readFiles u disk policy dir = some files) ∧
        ∃ visits, readFolders u disk policy false dir = some visits := fun hdir =>
      reads_of_scanFrom hscan (mem_singleton_self root) (hdir.reach hscan)
    constructor
    · intro dir hdir
      obtain ⟨⟨files, hfiles⟩, -⟩ := hreads hdir
      obtain ⟨listing, hlst, -⟩ := bind_eq_some_iff.mp hfiles
      exact (Disk.mem_of_list hlst).1
    intro p hp hpar hobts
    obtain ⟨⟨files, hfiles⟩, visits, hvis⟩ := hreads hpar
    rcases hp with hfile | hfold
    · obtain ⟨listing, hlst, hcoll⟩ := bind_eq_some_iff.mp hfiles
      obtain ⟨-, rfl⟩ := Disk.mem_of_list hlst
      obtain ⟨found, hfound⟩ := exists_of_collect hcoll (mem_filter.mpr ⟨hfile, decide_eq_true rfl⟩)
      exact isValidVaultPath_of_visitFile hfound hobts
    · obtain ⟨listing, hlst, hcoll⟩ := bind_eq_some_iff.mp hvis
      obtain ⟨-, rfl⟩ := Disk.mem_of_list hlst
      obtain ⟨found, hfound⟩ := exists_of_collect hcoll (mem_filter.mpr ⟨hfold, decide_eq_true rfl⟩)
      exact isValidVaultPath_of_visitFolder hfound hobts
  · intro hrdb
    refine exists_scanFrom_of (P := Visited u disk) (k := 0) hrdb.listed
      (fun dir hdir => hrdb.reads hpolicy hdir) ?_ ?_ (fun dir _ => .inr rfl)
      (Nat.zero_add disk.rounds).ge
    · intro dir next hdir hent
      obtain ⟨-, folder, hfold, rfl, rfl, hvalid, hsync⟩ := hent.exists_folder
      exact .folder hdir hfold hvalid hsync
    intro dir hdir
    rw [mem_singleton.mp hdir]
    exact .start

/-- In a vault that can be read the scan finds what it comes to, is syncable and is not ignored. -/
lemma exists_scanSyncableFiles_iff (hpolicy : Answers u policy) :
    (∃ files, scanSyncableFiles u disk policy = some files) ↔ Readable u disk := by
  rw [← exists_scan_iff hpolicy]
  constructor
  · rintro ⟨files, hfiles⟩
    obtain ⟨inventory, hinv, -⟩ := bind_eq_some_iff.mp hfiles
    obtain ⟨found, hfound, -⟩ := bind_eq_some_iff.mp hinv
    exact ⟨found, hfound⟩
  · rintro ⟨found, hfound⟩
    exact ⟨_, by rw [scanSyncableFiles, listLocalVaultInventory, hfound]; rfl⟩

lemma scanSyncableFiles_spec (h : scanSyncableFiles u disk policy = some files) :
    files.Nodup ∧ ∀ p, p ∈ files ↔ Found u disk p ∧ isSyncableVaultPath u p ∧
      ignoredBy policy p false = some false := by
  obtain ⟨inventory, hinv, h⟩ := bind_eq_some_iff.mp h
  cases h
  obtain ⟨found, hscan, hinv⟩ := bind_eq_some_iff.mp hinv
  cases hinv
  constructor
  · refine (sortBy_perm _ _).nodup_iff.mpr ?_
    exact ((sortBy_perm _ _).nodup_iff.mpr (nodup_ofList _)).filter _
  intro p
  rw [mem_sort, mem_filter, mem_sort, mem_ofList, mem_files_scanFrom hscan]
  constructor
  · rintro ⟨⟨start, hstart, dir, hreach, read, hread, hp⟩, hsync⟩
    obtain rfl := mem_singleton.mp hstart
    obtain ⟨listing, hlst, hcoll⟩ := bind_eq_some_iff.mp hread
    obtain ⟨-, rfl⟩ := Disk.mem_of_list hlst
    obtain ⟨file, hfile, one, hone, hin⟩ := (mem_collect hcoll).mp hp
    obtain ⟨hmem, hpar⟩ := mem_filter.mp hfile
    obtain ⟨hpath, -, hign⟩ := (mem_of_visitFile hone).mp hin
    refine ⟨⟨file, hmem, ?_, hpath.symm⟩, hsync, hign⟩
    rw [of_decide_eq_true hpar]
    exact .of_reach hreach
  · rintro ⟨⟨file, hmem, hvis, rfl⟩, hsync, hign⟩
    have hreach := hvis.reach hscan
    obtain ⟨⟨read, hread⟩, -⟩ := reads_of_scanFrom hscan (mem_singleton_self root) hreach
    obtain ⟨listing, hlst, hcoll⟩ := bind_eq_some_iff.mp hread
    obtain ⟨-, rfl⟩ := Disk.mem_of_list hlst
    have hfile : file ∈ disk.files.paths.filter (fun p => parent p = parent file) :=
      mem_filter.mpr ⟨hmem, decide_eq_true rfl⟩
    obtain ⟨one, hone⟩ := exists_of_collect hcoll hfile
    have hin := (mem_of_visitFile hone).mpr ⟨rfl, inObts_of_syncable hsync, hign⟩
    exact ⟨⟨root, mem_singleton_self root, parent file, hreach, read, hread,
      (mem_collect hcoll).mpr ⟨file, hfile, one, hone, hin⟩⟩, hsync⟩

/-- Without a policy every folder that is visited is listed and entered. -/
lemma listed_of_readFolders (h : readFolders u disk none false dir = some visits)
    (hvisit : visit ∈ visits) : visit.listed ∧ visit.entered := by
  obtain ⟨listing, -, hvis⟩ := bind_eq_some_iff.mp h
  obtain ⟨folder, -, found, hfound, hmem⟩ := (mem_collect hvis).mp hvisit
  obtain ⟨-, -, -, -, ignored, hign, hlst, hent⟩ := visitFolder_eq_some hfound hmem
  cases hign
  exact ⟨hlst, hent⟩

/-- The folders listed are those that the scan enters. -/
lemma mem_directories_scanFrom (h : scanFrom u disk none false fuel frontier = some found) :
    p ∈ found.directories ↔ ∃ start ∈ frontier, ∃ dir,
      Relation.ReflTransGen (Enters u disk none false) start dir ∧ Enters u disk none false dir p := by
  refine mem_scanFrom Inventory.directories rfl (fun fuel first frontier found h => ?_) h
  obtain ⟨files, -, h⟩ := bind_eq_some_iff.mp h
  obtain ⟨visits, hvis, h⟩ := bind_eq_some_iff.mp h
  obtain ⟨rest, hrest, h⟩ := bind_eq_some_iff.mp h
  cases h
  refine ⟨visits, rest, hvis, hrest, mem_append.trans (or_congr_left ?_)⟩
  constructor
  · intro hp
    obtain ⟨visit, hvisit, hpath⟩ := mem_map.mp hp
    obtain ⟨dir, hdir, read, hread, hmem⟩ := (mem_collect hvis).mp (mem_filter.mp hvisit).1
    exact ⟨dir, hdir, read, hread, visit, hmem, (listed_of_readFolders hread hmem).2, hpath⟩
  · rintro ⟨dir, hdir, read, hread, visit, hmem, -, hpath⟩
    refine mem_map.mpr ⟨visit, mem_filter.mpr ⟨?_, ?_⟩, hpath⟩
    · exact (mem_collect hvis).mpr ⟨dir, hdir, read, hread, hmem⟩
    · exact (listed_of_readFolders hread hmem).1

variable (u disk) in
/-- A folder of the inventory. -/
def Listed (p : Path) : Prop := p ≠ root ∧ Visited u disk p

lemma Listed.valid (h : Listed u disk p) : Normal u p ∧ isValidVaultPath p ∧ isSyncableVaultPath u p := by
  obtain ⟨hne, hvis⟩ := h
  cases hvis with
  | start => exact absurd rfl hne
  | folder hpar hdir hvalid hsync =>
    exact ⟨normal_normalizePath (isValidVaultPath_iff.mp hvalid).not_absolute, hvalid, hsync⟩

/-- The inventory of the whole vault: the folders that the scan comes to, and the files in them. -/
lemma listLocalVaultInventory_spec (h : listLocalVaultInventory u disk none false root = some inventory) :
    inventory.directories.Nodup ∧ inventory.files.Nodup ∧ (∀ p, p ∈ inventory.directories ↔ Listed u disk p) ∧
      ∀ p, p ∈ inventory.files ∧ isSyncableVaultPath u p ↔ Found u disk p ∧ isSyncableVaultPath u p := by
  have hfiles : scanSyncableFiles u disk none
      = some (sort (inventory.files.filter fun p => isSyncableVaultPath u p)) := by
    rw [scanSyncableFiles, h]
    rfl
  obtain ⟨-, hspec⟩ := scanSyncableFiles_spec hfiles
  obtain ⟨found, hscan, hinv⟩ := bind_eq_some_iff.mp h
  cases hinv
  refine ⟨(sortBy_perm _ _).nodup_iff.mpr (nodup_ofList _),
    (sortBy_perm _ _).nodup_iff.mpr (nodup_ofList _), fun p => ?_, fun p => ?_⟩
  · rw [mem_sort, mem_ofList, mem_directories_scanFrom hscan]
    constructor
    · rintro ⟨start, hstart, dir, hreach, hent⟩
      obtain rfl := mem_singleton.mp hstart
      have hvis := Visited.of_reach hreach
      obtain ⟨-, folder, hdir, rfl, rfl, hvalid, hsync⟩ := hent.exists_folder
      refine ⟨?_, .folder hvis hdir hvalid hsync⟩
      intro hroot
      exact (isValidVaultPath_iff.mp hvalid).ne_nil (congrArg (fun q => q.text.toList) hroot)
    · rintro ⟨hne, hvis⟩
      cases hvis with
      | start => exact absurd rfl hne
      | folder hpar hdir hvalid hsync =>
        have hreach := hpar.reach hscan
        obtain ⟨-, visits, hvisits⟩ :=
          reads_of_scanFrom hscan (mem_singleton_self root) hreach
        exact ⟨root, mem_singleton_self root, _, hreach, Enters.of_folder hvisits hdir hsync⟩
  · have hp := hspec p
    rw [mem_sort, mem_filter] at hp
    rw [hp]
    exact ⟨fun hfound => ⟨hfound.1, hfound.2.1⟩, fun hfound => ⟨hfound.1, hfound.2, rfl⟩⟩

end Visits

end VaultInventory
