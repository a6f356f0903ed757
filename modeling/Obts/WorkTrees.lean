import Obts.GitTrees

/-!
# Work trees

The server's second way to build a merge tree: main's files are checked out into a directory,
the device's changes are made there with the file system's recursive remove, `mkdir` and
`writeFile`, and `git add -A` stages the result. Directories matter, since an emptied directory
still refuses a file of its name. A written file keeps the mode of the file it overwrites.

Whether the recursive remove refuses a path below a regular file, which files the ignore rules of
a work tree exclude, and what the attributes convert on the way out and in, are the runtime's. A
content is named by the blob of its bytes.
-/
namespace WorkTrees

open SlashPath FileTrees InsertionOrder GitTrees FileTree

structure Runtime where
  /-- `rm` reports a path below a regular file instead of treating it as absent. -/
  refusesBelowFile : Bool
  /-- The untracked files that the ignore rules found in the files themselves exclude. -/
  ignored : (Path → Option TreeEntry) → Path → Bool
  /-- The bytes that a checkout of an index writes for a blob. -/
  smudge : Tree → Path → String → String
  /-- The blob that `git add` makes of a file's bytes, with an index and the contents of a work tree. -/
  clean : Tree → (Path → Option String) → Path → String → Option String

inductive FsError where
  | notDirectory
  | isDirectory
  | missingBlob
  | conversion

/-- Files and directories; directories hold the files below them and are not files. -/
structure WorkTree where
  files : Tree
  dirs : List Path
  closed : ∀ f, files.get f ≠ none → ∀ q, q < f → q ∈ dirs
  distinct : ∀ d ∈ dirs, files.get d = none

lemma mem_directoryPrefixes_of_get {tree : Tree} {q : Path} :
    q ∈ tree.paths.flatMap directoryPrefixes ↔ ∃ f, tree.get f ≠ none ∧ q < f := by
  simp [mem_directoryPrefixes, mem_paths]

variable (rt : Runtime)

/-- What `git checkout-index -a` writes for the files of a tree. -/
def smudged (tree : Tree) : Tree :=
  tree.mapValues fun p entry => { entry with oid := rt.smudge tree p entry.oid }

/-- The work tree with the files of a tree. -/
def checkout (tree : Tree) : WorkTree where
  files := tree
  dirs := tree.paths.flatMap directoryPrefixes
  closed f hf q hq := mem_directoryPrefixes_of_get.mpr ⟨f, hf, hq⟩
  distinct d hd := by
    obtain ⟨f, hf, hlt⟩ := mem_directoryPrefixes_of_get.mp hd
    exact FileTree.get_eq_none_of_nested hf (Or.inr hlt)

variable (w : WorkTree)

/-- Some file stands strictly above the path. -/
def belowFile (p : Path) : Bool := w.files.paths.any fun q => q < p

lemma belowFile_iff {w : WorkTree} {p : Path} : belowFile w p ↔ ∃ q, w.files.get q ≠ none ∧ q < p := by
  simp [belowFile, mem_paths]

/-- Everything at or below the path goes. -/
def WorkTree.removeBelow (w : WorkTree) (p : Path) : WorkTree where
  files := w.files.removeBelow p
  dirs := w.dirs.filter fun d => ¬ p ≤ d
  closed f hf q hq := by
    rw [FileTree.get_removeBelow] at hf
    split at hf
    · exact absurd rfl hf
    · rename_i hp
      exact List.mem_filter.mpr ⟨w.closed f hf q hq, by simpa using fun h => hp (h.trans hq.le)⟩
  distinct d hd := by
    rw [FileTree.get_removeBelow]
    split
    · rfl
    · exact w.distinct d (List.mem_filter.mp hd).1

def rm (p : Path) : Except FsError WorkTree :=
  if rt.refusesBelowFile && belowFile w p then .error .notDirectory else .ok (w.removeBelow p)

/-- The mode a written file ends with. -/
def modeAfterWrite (existing : Option TreeEntry) : FileMode :=
  match existing with
  | some entry => entry.mode
  | none => .regular

/-- The file in place, with the directories above it. -/
def WorkTree.place (w : WorkTree) (p : Path) (entry : TreeEntry)
    (habove : ∀ q, q < p → w.files.get q = none) (hdir : p ∉ w.dirs) : WorkTree where
  files := w.files.put p entry
  dirs := w.dirs ++ directoryPrefixes p
  closed f hf q hq := by
    rw [FileTree.get_put] at hf
    split at hf
    · rename_i heq
      subst heq
      exact List.mem_append_right _ (mem_directoryPrefixes.mpr hq)
    split at hf
    · exact absurd rfl hf
    · exact List.mem_append_left _ (w.closed f hf q hq)
  distinct d hd := by
    rw [FileTree.get_put]
    rcases List.mem_append.mp hd with hd | hd
    · have hne : d ≠ p := fun h => hdir (h ▸ hd)
      rw [if_neg hne]
      split
      · rfl
      · exact w.distinct d hd
    · have hlt := mem_directoryPrefixes.mp hd
      rw [if_neg hlt.ne]
      split
      · rfl
      · exact habove d hlt

/-- `mkdir` of the directories above the path, then `writeFile`. -/
def writeFile (p : Path) (oid : String) : Except FsError WorkTree :=
  if habove : belowFile w p = true then .error .notDirectory
  else if hdir : p ∈ w.dirs then .error .isDirectory
  else .ok (w.place p ⟨modeAfterWrite (w.files.get p), oid⟩
    (fun q hq => by
      by_contra h
      exact habove (belowFile_iff.mpr ⟨q, h, hq⟩))
    hdir)

inductive WorkOp where
  | remove (path : Path)
  | write (path : Path)
  deriving DecidableEq

def WorkOp.path : WorkOp → Path
  | .remove p => p
  | .write p => p

/-- What the loop of `createOverlayTree` does for one entry. -/
def workOps (entry : GitDiffEntry) : List WorkOp :=
  (match entry.oldPath with
    | some oldPath => if oldPath ≠ entry.path then [.remove oldPath] else []
    | none => []) ++
  (if entry.status = .deleted then [.remove entry.path] else [.write entry.path])

variable (content : Path → Option String)

def applyOp (w : WorkTree) (op : WorkOp) : Except FsError WorkTree :=
  match op with
  | .remove p => rm rt w p
  | .write p =>
    match content p with
    | some oid => writeFile w p oid
    | none => .error .missingBlob

def applyOps (w : WorkTree) (ops : List WorkOp) : Except FsError WorkTree :=
  ops.foldlM (applyOp rt content) w

def WorkTree.contents (p : Path) : Option String := (w.files.get p).map (·.oid)

/-- The blobs of some files of a work tree. -/
def stage (index : Tree) (w : WorkTree) (keep : Path → Bool) : Except FsError Tree :=
  let staged := w.files.filter keep
  if staged.entries.all fun (p, entry) => (rt.clean index w.contents p entry.oid).isSome then
    .ok (staged.mapValues fun p entry =>
      { entry with oid := (rt.clean index w.contents p entry.oid).getD entry.oid })
  else .error .conversion

/-- `git add -A`: every file is staged, an untracked one only if it is not ignored. -/
def addAll (index : Tree) (w : WorkTree) : Except FsError Tree :=
  stage rt index w fun p => (index.get p).isSome || !rt.ignored w.files.get p

/-- The most that a `git show` may print. -/
def maxBuffer : Nat := 512 * 1024 * 1024

def createOverlayTree (blobSize : String → Nat) (currentMain device : Tree)
    (changes : List GitDiffEntry) (contentOverrides : List (Path × String)) : Except FsError Tree := do
  let content (p : Path) : Option String := (valueAt contentOverrides p).or
    (((device.get p).map (·.oid)).filter fun oid => blobSize oid ≤ maxBuffer)
  let w ← applyOps rt content (checkout (smudged rt currentMain)) (changes.flatMap workOps)
  let rest := contentOverrides.filter fun (p, _) =>
    !changes.any fun entry => entry.path = p && entry.status != .deleted
  let w ← rest.foldlM (fun w (p, oid) => writeFile w p oid) w
  addAll rt currentMain w

section Staging
variable {rt : Runtime} {index tree : Tree} {w : WorkTree} {keep : Path → Bool}

lemma WorkTree.contents_of_get {p : Path} {entry : TreeEntry} (h : w.files.get p = some entry) :
    w.contents p = some entry.oid := by
  rw [contents, h]
  rfl

lemma stage_succeeds_iff : (∃ tree, stage rt index w keep = .ok tree) ↔
    ∀ p entry, keep p → w.files.get p = some entry → (rt.clean index w.contents p entry.oid).isSome := by
  have hall : ((w.files.filter keep).entries.all fun (p, entry) =>
      (rt.clean index w.contents p entry.oid).isSome) = true ↔
    ∀ p entry, keep p → w.files.get p = some entry →
      (rt.clean index w.contents p entry.oid).isSome := by
    rw [List.all_eq_true]
    constructor
    · intro h p entry hkeep hget
      refine h (p, entry) (mem_of_get ?_)
      rw [get_filter, if_pos hkeep, hget]
    · rintro h ⟨p, entry⟩ hmem
      have hget := get_of_mem hmem
      rw [get_filter] at hget
      split at hget
      · exact h p entry ‹_› hget
      · cases hget
  rw [← hall]
  unfold stage
  dsimp only
  split
  · exact iff_of_true ⟨_, rfl⟩ ‹_›
  · exact iff_of_false (fun ⟨_, h⟩ => nomatch h) ‹_›

/-- A staged file is what its bytes are converted to. -/
lemma stage_get (h : stage rt index w keep = .ok tree) (p : Path) :
    tree.get p = if keep p then (w.files.get p).bind fun entry =>
      (rt.clean index w.contents p entry.oid).map ({ entry with oid := · }) else none := by
  have hclean := stage_succeeds_iff.mp ⟨tree, h⟩
  unfold stage at h
  dsimp only at h
  split at h
  · cases h
    rw [get_mapValues, get_filter]
    split
    · rename_i hkeep
      cases hget : w.files.get p with
      | none => rfl
      | some entry =>
        obtain ⟨oid, hoid⟩ := Option.isSome_iff_exists.mp (hclean p entry hkeep hget)
        simp [hoid]
    · rfl
  · cases h

end Staging

end WorkTrees
