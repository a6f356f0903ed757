import Obts.ClientPaths
import Obts.DirectoryIntents

/-!
# Stored directory intents

The client keeps the folders that it has created or deleted and not yet sent as intents in its directory
state. What it reads there is normalized and compacted: one intent for each path, each of them for a
path that the client syncs.
-/
namespace StoredIntents

open ForestEdits InsertionOrder SlashPath DirectoryIntents ClientPaths List

def maxSafeInteger : Nat := 2 ^ 53 - 1

inductive Provenance where
  | legacy
  | localV2
  deriving DecidableEq

/-- A stored intent. A field that is none is missing or of another type; none below it stands for null. -/
structure StoredIntent where
  op : EditOp
  path : Path
  intentId : Option String
  generation : Option Nat
  provenance : Option Provenance
  baseMain : Option (Option String)
  baseEventSeq : Option Nat
  replacesIntentId : Option (Option String)
  recreatedAfterDelete : Option Bool
  createdAt : Option (Option String)
  deriving DecidableEq

structure StateFile where
  nextGeneration : Option Nat
  pendingIntents : List StoredIntent

structure DirectoryState where
  nextGeneration : Nat
  pendingIntents : List StoredIntent

def isDigits (text : List Char) : Bool := text ≠ [] && text.all fun ch => '0' ≤ ch && ch ≤ '9'

def isHex (length : Nat) (text : List Char) : Bool :=
  text.length = length && text.all fun ch => '0' ≤ ch && ch ≤ '9' || 'a' ≤ ch && ch ≤ 'f'

def isGitObjectId (value : String) : Bool := isHex 40 value.toList

/-- `dir_` with two numbers and twelve hexadecimal digits, or `legacy_` with twenty-four. -/
def isIntentId (value : String) : Bool :=
  match value.toList.splitOn '_' with
  | [word, time, generation, nonce] =>
    word = "dir".toList && isDigits time && isDigits generation && isHex 12 nonce
  | [word, digest] => word = "legacy".toList && isHex 24 digest
  | _ => false

/-- A text that counts as true. -/
def nonEmpty (value : Option String) : Option String := value.filter (· ≠ "")

section Intents
variable (u : SegmentNormalization)

def isSafeJournalPath (filePath : Path) : Bool :=
  normalizePath u filePath = filePath && isValidVaultPath filePath

def isStoredDirectoryIntent (intent : StoredIntent) : Bool :=
  isSafeJournalPath u intent.path &&
  intent.intentId.any isIntentId &&
  intent.generation.any (· ≤ maxSafeInteger) &&
  intent.provenance.isSome &&
  intent.baseMain.any (fun base => base.all isGitObjectId) &&
  intent.baseEventSeq.any (· ≤ maxSafeInteger) &&
  intent.replacesIntentId.isSome &&
  intent.recreatedAfterDelete.isSome &&
  intent.createdAt.isSome

-- the first characters of the hash of an operation and a path
variable (digest : EditOp → Path → String)

def normalizeStoredDirectoryIntent (intent : StoredIntent) : StoredIntent :=
  if !isSyncableVaultPath u intent.path then intent
  else if (nonEmpty intent.intentId).isSome && intent.generation.any (· ≤ maxSafeInteger) &&
      intent.provenance.isSome then intent
  else
    { intent with
      intentId := some ("legacy_" ++ digest intent.op intent.path)
      generation := some 0
      provenance := some .legacy
      baseMain := some none
      baseEventSeq := some 0
      replacesIntentId := some none
      recreatedAfterDelete := some false
      createdAt := some none }

def normalizeStoredDirectoryIntents (intents : List StoredIntent) : List StoredIntent :=
  intents.map (normalizeStoredDirectoryIntent u digest)

/-- A creation over a deletion that it does not know of. -/
def recreate (intent replaced : StoredIntent) : StoredIntent :=
  { intent with
    replacesIntentId :=
      some ((nonEmpty intent.replacesIntentId.join).or (nonEmpty replaced.intentId))
    recreatedAfterDelete := some true }

def compactIntent (byPath : List (Path × StoredIntent)) (original : StoredIntent) :
    List (Path × StoredIntent) :=
  if !isSyncableVaultPath u original.path then byPath
  else
    let intent := match valueAt byPath original.path with
      | none => original
      | some replaced =>
        if original.op = .create && replaced.op = .delete &&
            original.recreatedAfterDelete ≠ some true then recreate original replaced
        else original
    let kept := match intent.op with
      | .delete => byPath.filter fun entry => !pathsOverlapWithinRoot entry.1 intent.path
      | .create => byPath
    InsertionOrder.set kept intent.path intent

variable (c : Collation)

/-- The comparator of the final sort: by path, then by operation. -/
def compareStored : StoredIntent → StoredIntent → Ordering :=
  compareLex (fun left right => c.localeCompare left.path.text right.path.text)
    (fun left right => c.localeCompare (opName left.op) (opName right.op))

variable (intents : List StoredIntent)

def compactDirectoryIntents : List StoredIntent :=
  sortBy (compareStored c) ((intents.foldl (compactIntent u) []).map Prod.snd)

def highestGeneration : Nat :=
  intents.foldl (fun maximum intent => max maximum (intent.generation.getD 0)) 0

def nextGenerationAfter (stored : Option Nat) (highest : Nat) : Nat :=
  match stored with
  | some next => if next ≤ maxSafeInteger ∧ highest < next then next else highest + 1
  | none => highest + 1

/-- None stands for a state that has not been written yet. -/
def readDirectoryState (file : Option StateFile) : DirectoryState :=
  match file with
  | none => { nextGeneration := 1, pendingIntents := [] }
  | some state =>
    let pendingIntents := normalizeStoredDirectoryIntents u digest state.pendingIntents
    { nextGeneration :=
        nextGenerationAfter state.nextGeneration (highestGeneration pendingIntents)
      pendingIntents := compactDirectoryIntents u c pendingIntents }

def writeDirectoryState (state : DirectoryState) : StateFile :=
  let pendingIntents :=
    compactDirectoryIntents u c (normalizeStoredDirectoryIntents u digest state.pendingIntents)
  { nextGeneration :=
      some (nextGenerationAfter (some state.nextGeneration) (highestGeneration pendingIntents))
    pendingIntents := pendingIntents }

def keepTopmost (result : List Path) (directory : Path) : List Path :=
  if result.any fun parent => pathsOverlapWithinRoot directory parent then result
  else result ++ [directory]

/-- The topmost of some folders, by length and then by name. -/
def topmostDirectories (directories : List Path) : List Path :=
  (sortBy (compareByLength c) (ofList directories)).foldl keepTopmost []

end Intents

section Topmost
variable {c : Collation} {directories result : List Path} {p : Path}

/-- The folders kept so far stay, and one is added at most. -/
lemma mem_keepTopmost {directory : Path} : p ∈ keepTopmost result directory ↔
      p ∈ result ∨ p = directory ∧ ∀ parent ∈ result, ¬ parent ≤ directory := by
  have hany : (result.any fun parent => pathsOverlapWithinRoot directory parent) = true
      ↔ ∃ parent ∈ result, parent ≤ directory := by
    simp [pathsOverlapWithinRoot_iff]
  rw [keepTopmost]
  split
  · rename_i hbelow
    obtain ⟨parent, hpar, hle⟩ := hany.mp hbelow
    constructor
    · exact .inl
    rintro (hp | ⟨-, hnone⟩)
    · exact hp
    · exact absurd hle (hnone parent hpar)
  · rename_i hnone
    rw [mem_append, mem_singleton]
    constructor
    · rintro (hp | rfl)
      · exact .inl hp
      · exact .inr ⟨rfl, fun parent hpar hle => hnone (hany.mpr ⟨parent, hpar, hle⟩)⟩
    rintro (hp | ⟨rfl, -⟩)
    · exact .inl hp
    · exact .inr rfl

lemma mem_foldl_keepTopmost (h : p ∈ directories.foldl keepTopmost result) : p ∈ result ∨ p ∈ directories := by
  induction directories generalizing result with
  | nil => exact .inl h
  | cons directory directories ih =>
    rcases ih h with hp | hp
    · rcases mem_keepTopmost.mp hp with hp | ⟨rfl, -⟩
      · exact .inl hp
      · exact .inr mem_cons_self
    · exact .inr (mem_cons_of_mem _ hp)

lemma exists_le_foldl_keepTopmost (h : (∃ root ∈ result, root ≤ p) ∨ p ∈ directories) :
    ∃ root ∈ directories.foldl keepTopmost result, root ≤ p := by
  induction directories generalizing result with
  | nil =>
    rcases h with h | h
    · exact h
    · cases h
  | cons directory directories ih =>
    apply ih
    rcases h with ⟨root, hroot, hle⟩ | h
    · exact .inl ⟨root, mem_keepTopmost.mpr (.inl hroot), hle⟩
    rcases mem_cons.mp h with rfl | h
    · by_cases hbelow : ∃ parent ∈ result, parent ≤ p
      · obtain ⟨parent, hpar, hle⟩ := hbelow
        exact .inl ⟨parent, mem_keepTopmost.mpr (.inl hpar), hle⟩
      · refine .inl ⟨p, mem_keepTopmost.mpr (.inr ⟨rfl, ?_⟩), le_rfl⟩
        exact fun parent hpar hle => hbelow ⟨parent, hpar, hle⟩
    · exact .inr h

lemma nodup_foldl_keepTopmost (h : result.Nodup) : (directories.foldl keepTopmost result).Nodup := by
  induction directories generalizing result with
  | nil => exact h
  | cons directory directories ih =>
    apply ih
    rw [keepTopmost]
    split
    · exact h
    rename_i hnone
    refine nodup_append.mpr ⟨h, nodup_singleton _, ?_⟩
    rintro parent hpar other hother rfl
    obtain rfl := mem_singleton.mp hother
    refine hnone (any_eq_true.mpr ⟨parent, hpar, ?_⟩)
    exact pathsOverlapWithinRoot_iff.mpr le_rfl

lemma mem_of_mem_topmostDirectories (h : p ∈ topmostDirectories c directories) : p ∈ directories := by
  rcases mem_foldl_keepTopmost h with hp | hp
  · cases hp
  · rwa [mem_sortBy, mem_ofList] at hp

/-- Every folder lies at or below a topmost one. -/
lemma exists_topmostDirectories_le (h : p ∈ directories) : ∃ root ∈ topmostDirectories c directories, root ≤ p := by
  refine exists_le_foldl_keepTopmost (.inr ?_)
  rwa [mem_sortBy, mem_ofList]

lemma nodup_topmostDirectories : (topmostDirectories c directories).Nodup :=
  nodup_foldl_keepTopmost nodup_nil

/-- What lies at or below one of the folders lies at or below a topmost one. -/
lemma below_topmostDirectories_iff :
    (∃ root ∈ topmostDirectories c directories, root ≤ p) ↔ ∃ root ∈ directories, root ≤ p := by
  constructor
  · rintro ⟨root, hroot, hle⟩
    exact ⟨root, mem_of_mem_topmostDirectories hroot, hle⟩
  rintro ⟨root, hroot, hle⟩
  obtain ⟨top, htop, habove⟩ := exists_topmostDirectories_le (c := c) hroot
  exact ⟨top, htop, habove.trans hle⟩

end Topmost

lemma nextGenerationAfter_pos (stored : Option Nat) (highest : Nat) : 0 < nextGenerationAfter stored highest := by
  cases stored with
  | none => exact Nat.succ_pos highest
  | some next =>
    rw [nextGenerationAfter]
    split
    · rename_i hnext
      omega
    · exact Nat.succ_pos highest

lemma readDirectoryState_pos (u : SegmentNormalization) (digest : EditOp → Path → String)
    (c : Collation) (file : Option StateFile) : 0 < (readDirectoryState u digest c file).nextGeneration := by
  cases file with
  | none => exact Nat.one_pos
  | some state => exact nextGenerationAfter_pos _ _

end StoredIntents
