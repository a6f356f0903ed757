import Obts.HintedCapture
import Obts.RefLeases

/-!
# The local history

Captures of the vault are committed on `refs/heads/local`. The reader of a ref takes every failure for a
ref that is not there, and an update that expects nothing compares nothing: a capture extends the local
history when it has read the ref, and otherwise starts a new history over it.
-/
namespace LocalHistory

open SlashPath ClientPaths VaultInventory LocalCapture HintedCapture Option

structure Commit where
  tree : TreeObject
  parents : List String

/-- What is durable. -/
structure History where
  localRef : Option String
  commits : String → Option Commit

/-- What fails in one capture. -/
structure Failures where
  /-- The first reading of the ref, or of its commit. -/
  base : Bool
  /-- The reading of the base commit and its tree. -/
  tree : Bool
  /-- The taking of the lease. -/
  lease : Bool
  /-- The reading of the ref under the lease, or of its commit. -/
  current : Bool

def resolveRef (fails : Bool) (history : History) : Option String :=
  if fails then none
  else history.localRef.filter fun oid => (history.commits oid).isSome

/-- An update that is not forced, with no other call under way. None stands for an error. -/
def updateRef (failures : Failures) (history : History) (target : String)
    (expected : Option String) : Option History :=
  if failures.lease then none
  else if expected.isSome ∧ resolveRef failures.current history ≠ expected then none
  else some { history with localRef := some target }

section Captures
variable (writeCommit : Commit → String) (failures : Failures) (history : History)

def commitTree (tree : TreeObject) (base : Option String) : Option (String × History) :=
  let commit : Commit := { tree := tree, parents := base.toList }
  let oid := writeCommit commit
  let written : History :=
    { history with commits := fun c => if c = oid then some commit else history.commits c }
  (updateRef failures written oid base).map fun history => (oid, history)

def readCommit (oid : String) : Option Commit :=
  if failures.tree then none else history.commits oid

/-- The tree of the base, the empty one where there is no base. -/
def readBaseTree : Option String → Option (Option TreeObject)
  | none => some none
  | some oid => (readCommit failures history oid).map fun commit => some commit.tree

/-- A capture of the whole vault on what the ref is read to be. -/
def captureOnBase (capture : Option TreeObject → Option (Option TreeObject)) (failures : Failures)
    (history : History) : Option (Option String × History) := do
  let base := resolveRef failures.base history
  let baseTree ← readBaseTree failures history base
  match ← capture baseTree with
  | none => return (none, history)
  | some tree => do
    let committed ← commitTree writeCommit failures history tree base
    return (some committed.1, committed.2)

variable (u : SegmentNormalization) (rules : IgnoreRules) (hashes : Hashes) (disk : Disk)

def createLocalCommit (cache : ScanCache) (forcePaths : List Path) (failures : Failures)
    (history : History) : Option (Option String × History) :=
  captureOnBase writeCommit (LocalCapture.createLocalCommit u rules hashes disk cache forcePaths)
    failures history

/-- The tree of a snapshot on a base, if it differs from the base. -/
def treeFromSnapshot (snapshot : Snapshot) (base : Option TreeObject) : Option (Option TreeObject) := do
  verifyLocalPolicySnapshot u rules hashes disk snapshot
  let baseEntries := (base.map flattenTree).getD []
  let kept := baseEntries.filter fun e => snapshot.files.contains e.1
  let nextEntries := NameTrees.setAll kept snapshot.entries
  let tree := writeTreeFromEntries nextEntries
  match base with
  | some base =>
    if hashes.tree base = hashes.tree tree then return none
    else do
      verifyLocalPolicySnapshot u rules hashes disk snapshot
      return some tree
  | none =>
    if nextEntries = [] then return none
    else do
      verifyLocalPolicySnapshot u rules hashes disk snapshot
      return some tree

def createLocalCommitFromSnapshot (snapshot : Snapshot) (failures : Failures) (history : History) :
    Option (Option String × History) :=
  captureOnBase writeCommit (treeFromSnapshot u rules hashes disk snapshot) failures history

def createMetadataCommit (failures : Failures) (history : History) : Option (Option String × History) :=
  match resolveRef failures.base history with
  | none => some (none, history)
  | some base => do
    let commit ← readCommit failures history base
    let committed ← commitTree writeCommit failures history commit.tree (some base)
    return (some committed.1, committed.2)

/-- The hinted capture; where it declines nothing is committed here. -/
def commitHintedLocalChanges (toLowerCase : List Char → List Char) (state : CaptureState)
    (flushedPaths : List Path) (failures : Failures) (history : History) :
    Option (Option String × History) := do
  let commits := fun oid => (readCommit failures history oid).map (·.tree)
  let current := { state with localRef := resolveRef failures.base history }
  match ← captureHintedLocalChanges u rules hashes toLowerCase disk commits current flushedPaths with
  | some (some tree) => do
    let committed ← commitTree writeCommit failures history tree state.localHead
    return (some committed.1, committed.2)
  | _ => return (none, history)

/-- The operations that commit on the local history. -/
inductive Operation where
  | createLocalCommit (cache : ScanCache) (forcePaths : List Path)
  | createLocalCommitFromSnapshot (snapshot : Snapshot)
  | createMetadataCommit
  | captureHintedLocalChanges (toLowerCase : List Char → List Char) (state : CaptureState)
      (flushedPaths : List Path)

def Operation.run (operation : Operation) : Failures → History → Option (Option String × History) :=
  match operation with
  | .createLocalCommit cache forcePaths =>
    LocalHistory.createLocalCommit writeCommit u rules hashes disk cache forcePaths
  | .createLocalCommitFromSnapshot snapshot =>
    LocalHistory.createLocalCommitFromSnapshot writeCommit u rules hashes disk snapshot
  | .createMetadataCommit => LocalHistory.createMetadataCommit writeCommit
  | .captureHintedLocalChanges toLowerCase state flushedPaths =>
    commitHintedLocalChanges writeCommit u rules hashes disk toLowerCase state flushedPaths

end Captures

/-- The ref has moved to a commit whose parent is what the ref was. -/
def Extends (history history' : History) (commit : String) : Prop :=
  history'.localRef = some commit ∧ (history'.commits commit).map (·.parents) = some history.localRef.toList

section Extending
variable {writeCommit : Commit → String} {failures : Failures} {history history' : History}
  {base : Option String} {tree : TreeObject} {commit oid : String}

lemma commitTree_spec (h : commitTree writeCommit failures history tree base = some (oid, history')) :
    history'.localRef = some oid ∧ (history'.commits oid).map (·.parents) = some base.toList := by
  obtain ⟨updated, hupd, heq⟩ := map_eq_some_iff.mp h
  cases heq
  rw [updateRef] at hupd
  split at hupd
  · cases hupd
  obtain ⟨-, ⟨⟩⟩ := ite_none_left_eq_some.mp hupd
  refine ⟨rfl, ?_⟩
  simp

lemma toList_injective : Function.Injective (Option.toList : Option String → List String) := by
  rintro (_ | a) (_ | b) h
  · rfl
  · cases h
  · cases h
  · rw [List.singleton_inj.mp h]

/-- A commit on a base extends the history when the base is what the ref was. -/
lemma extends_iff_of_commitTree (h : commitTree writeCommit failures history tree base = some (oid, history')) :
    Extends history history' oid ↔ base = history.localRef := by
  obtain ⟨href, hpars⟩ := commitTree_spec h
  constructor
  · rintro ⟨-, hext⟩
    rw [hpars] at hext
    exact toList_injective (some.inj hext)
  · rintro rfl
    exact ⟨href, hpars⟩

lemma extends_iff_of_captureOnBase {capture : Option TreeObject → Option (Option TreeObject)}
    (h : captureOnBase writeCommit capture failures history = some (some commit, history')) :
    Extends history history' commit ↔ resolveRef failures.base history = history.localRef := by
  obtain ⟨baseTree, -, h⟩ := bind_eq_some_iff.mp h
  obtain ⟨captured, -, h⟩ := bind_eq_some_iff.mp h
  cases captured with
  | none => cases h
  | some tree =>
    obtain ⟨⟨oid, updated⟩, hcmt, h⟩ := bind_eq_some_iff.mp h
    obtain ⟨hoid, rfl⟩ := Prod.mk.inj (some.inj h)
    cases hoid
    exact extends_iff_of_commitTree hcmt

variable {u : SegmentNormalization} {rules : IgnoreRules} {hashes : Hashes} {disk : Disk}

/-- An operation that commits extends the local history exactly when it has read what the ref is. -/
lemma Operation.extends_iff {operation : Operation}
    (h : operation.run writeCommit u rules hashes disk failures history = some (some commit, history')) :
    Extends history history' commit ↔ resolveRef failures.base history = history.localRef := by
  cases operation with
  | createLocalCommit | createLocalCommitFromSnapshot => exact extends_iff_of_captureOnBase h
  | createMetadataCommit =>
    rw [Operation.run, LocalHistory.createMetadataCommit] at h
    cases hbase : resolveRef failures.base history with
    | none =>
      rw [hbase] at h
      cases h
    | some base =>
      rw [hbase] at h
      obtain ⟨parent, -, h⟩ := bind_eq_some_iff.mp h
      obtain ⟨⟨oid, updated⟩, hcmt, h⟩ := bind_eq_some_iff.mp h
      obtain ⟨hoid, rfl⟩ := Prod.mk.inj (some.inj h)
      cases hoid
      exact extends_iff_of_commitTree hcmt
  | captureHintedLocalChanges toLowerCase state flushedPaths =>
    obtain ⟨result, hres, h⟩ := bind_eq_some_iff.mp h
    match result with
    | none => cases h
    | some none => cases h
    | some (some tree) =>
      obtain ⟨head, -, -, -, hhead, href, -⟩ := captureHintedLocalChanges_eq_some hres
      obtain ⟨⟨oid, updated⟩, hcmt, h⟩ := bind_eq_some_iff.mp h
      obtain ⟨hoid, rfl⟩ := Prod.mk.inj (some.inj h)
      cases hoid
      have hbase : state.localHead = resolveRef failures.base history := hhead.trans href.symm
      rw [hbase] at hcmt
      exact extends_iff_of_commitTree hcmt

/-- The first reading of the ref and its commit gives what is there. -/
def Readable (failures : Failures) (history : History) : Prop :=
  ∀ oid, history.localRef = some oid → failures.base = false ∧ (history.commits oid).isSome = true

lemma resolveRef_eq_iff : resolveRef failures.base history = history.localRef ↔ Readable failures history := by
  rw [resolveRef, Readable]
  cases href : history.localRef with
  | none => simp
  | some oid =>
    cases hbase : failures.base with
    | true => simp
    | false => cases hcmt : history.commits oid <;> simp [hcmt, Option.filter]

end Extending

/-- A capture that commits extends the local history exactly when it has read the ref, and of the
updates of a ref that expect the same value one succeeds, while leases are kept and removed in time. -/
theorem extends_iff_readable_and_updates_exclude (writeCommit : Commit → String)
    (u : SegmentNormalization) (rules : IgnoreRules) (hashes : Hashes) (disk : Disk)
    (operation : Operation) (failures : Failures) (history history' : History) (commit : String)
    (hrun : operation.run writeCommit u rules hashes disk failures history = some (some commit, history'))
    (v : String) (ref : Option String) (now : Nat) (events : List RefLeases.Event)
    (htimely : RefLeases.Along RefLeases.Timely (RefLeases.startState ref now) events)
    (havoids : ∀ e ∈ events, RefLeases.Avoids v e) :
    (Extends history history' commit ↔ Readable failures history) ∧ ∀ (w w' : Nat) (a a' : RefLeases.Writer),
      (RefLeases.run (RefLeases.startState ref now) events).writers w = some a →
      (RefLeases.run (RefLeases.startState ref now) events).writers w' = some a' → w ≠ w' →
      a.Expects v → a'.Expects v → ¬ (a.phase.succeeded = true ∧ a'.phase.succeeded = true) := by
  constructor
  · exact (Operation.extends_iff hrun).trans resolveRef_eq_iff
  · intro w w' a a' hw hw' hne hexp hexp'
    exact RefLeases.updateRef_exclusive htimely havoids hw hw' hne hexp hexp'

/-- A local history of one commit of the empty tree. -/
def oneCommit : History where
  localRef := some "v"
  commits := fun oid => if oid = "v" then some { tree := .node [], parents := [] } else none

/-- The history after the capture of a note. -/
def noteCommitted : History where
  localRef := some "c"
  commits := fun oid =>
    if oid = "c" then
      some {
        tree := .node [("a.md".toList, .leaf ⟨.regular, "be54354a9433a1e798cf17a5cddffbf581e3afa2"⟩)]
        parents := ["v"] }
    else oneCommit.commits oid

/-- Two calls that expect the same, one after the other. -/
def inTurn : List RefLeases.Event :=
  [.begin 0 "a" (some "v") false, .begin 1 "b" (some "v") false] ++
  List.replicate 8 (.advance 0) ++ List.replicate 8 (.advance 1)

/-- A new note is captured on the commit that is there, and the second of two updates fails. -/
theorem note_extends_and_second_fails : Extends oneCommit noteCommitted "c" ∧
    ¬ (RefLeases.Phase.succeeded (.done true) = true ∧ RefLeases.Phase.succeeded (.done false) = true) := by
  obtain ⟨hext, hexcl⟩ := extends_iff_readable_and_updates_exclude (fun _ => "c")
    asciiSegmentNormalization { ignores := fun _ _ => false } noteHashes
    (MaterialisedScan.materialise (MaterialisedScan.oneFile "a.md" [104]) (by decide))
    (.createLocalCommit (fun _ => none) []) ⟨false, false, false, false⟩ oneCommit noteCommitted "c"
    rfl "v" (some "v") 0 inTurn (by decide +kernel) (by decide)
  constructor
  · apply hext.mpr
    rintro oid ⟨⟩
    exact ⟨rfl, rfl⟩
  · exact hexcl 0 1 ⟨"a", some "v", false, .done true⟩ ⟨"b", some "v", false, .done false⟩
      (by decide +kernel) (by decide +kernel) (by decide) ⟨rfl, rfl⟩ ⟨rfl, rfl⟩

/-- A failed reading of the ref makes a capture replace the history, and of two calls that recover one
stale lease both succeed. -/
theorem history_replaced_and_both_succeed :
    (¬ ∀ (writeCommit : Commit → String) (u : SegmentNormalization) (rules : IgnoreRules)
      (hashes : Hashes) (disk : Disk) (operation : Operation) (failures : Failures)
      (history history' : History) (commit : String),
      operation.run writeCommit u rules hashes disk failures history = some (some commit, history') →
      Extends history history' commit) ∧
    (¬ ∀ (v : String) (ref : Option String) (now : Nat) (events : List RefLeases.Event),
      RefLeases.Along RefLeases.Prompt (RefLeases.startState ref now) events →
      ∀ (w w' : Nat) (a a' : RefLeases.Writer),
        (RefLeases.run (RefLeases.startState ref now) events).writers w = some a →
        (RefLeases.run (RefLeases.startState ref now) events).writers w' = some a' → w ≠ w' →
        a.Expects v → a'.Expects v → ¬ (a.phase.succeeded = true ∧ a'.phase.succeeded = true)) := by
  constructor
  · intro hclaim
    have hext := hclaim (fun _ => "c") asciiSegmentNormalization { ignores := fun _ _ => false }
      noteHashes (MaterialisedScan.materialise (MaterialisedScan.oneFile "a.md" [104]) (by decide))
      (.createLocalCommit (fun _ => none) []) ⟨true, false, false, false⟩ oneCommit _ "c" rfl
    exact absurd (some.inj hext.2) (by decide)
  · intro hclaim
    obtain ⟨hprom, hfirst, hsnd⟩ := RefLeases.both_succeed
    exact hclaim "v" (some "v") 0 RefLeases.recoveredTwice hprom 1 2 _ _ hfirst hsnd (by decide)
      ⟨rfl, rfl⟩ ⟨rfl, rfl⟩ ⟨rfl, rfl⟩

end LocalHistory
