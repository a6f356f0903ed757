import Obts.DeletionRecords
import Obts.JsonTrees

/-!
# Scratch directories in the way of a deletion

Git work keeps its scratch files in a directory of its own under the temp root, with a file that names the vault,
and removes the directory when it is done. What a crash leaves there has to be recognised by the deletion of the
vault, by its name and by the vault that it names; anything else stops the deletion before it changes a thing.
Calls of the operating system succeed here, and no other process changes the roots meanwhile.
-/
namespace TempResidue

open DeletionRecords JsonTrees List

def isIdCharacter (c : Char) : Bool := c.isAlphanum || c == '_'

/-- `/^[A-Za-z0-9_]+$/u` -/
def vaultIdPattern (id : String) : Bool := !id.toList.isEmpty && id.toList.all isIdCharacter

def startsWith (name start : String) : Bool := start.toList.isPrefixOf name.toList

inductive EntryKind where
  | directory
  | symbolicLink
  | other
  deriving DecidableEq

/-- An entry of a root, with what the checks find under its name. The owner file is the value that `JSON.parse`
reads from it, if it is a plain file with such a text. -/
structure Entry where
  name : String
  kind : EntryKind
  bareRepository : Bool
  ownerFile : Option Json

structure Server where
  db : MetadataDb
  gitStore : List Entry
  /-- Nothing where the temp root does not exist. -/
  temp : Option (List Entry)

inductive GitWork where
  | withQuarantinedPack
  | createOverlayTree
  | createDisjointMergeTree
  | createTreeWithFileContents
  | createMovedTree
  | createTreeFromIndexEntries

def GitWork.purpose : GitWork → String
  | withQuarantinedPack => "quarantine-"
  | createOverlayTree => "merge-"
  | createDisjointMergeTree => "merge-"
  | createTreeWithFileContents => "semantic-merge-"
  | createMovedTree => "rename-tree-"
  | createTreeFromIndexEntries => "index-tree-"

def isHexDigit (c : Char) : Bool := c.isDigit || ['a', 'b', 'c', 'd', 'e', 'f'].contains c

/-- Work that a crash interrupted, with the eight random bytes in the name of its directory. -/
structure Leftover where
  work : GitWork
  randomHex : String
  length : randomHex.toList.length = 16
  digits : ∀ c ∈ randomHex.toList, isHexDigit c = true

def tempRoot (vaultId : String) (leftover : Leftover) : String :=
  leftover.work.purpose ++ vaultId ++ "-" ++ leftover.randomHex

/-- The directory as the crash leaves it, its owner file written. -/
def leftBehind (vaultId : String) (leftover : Leftover) : Entry where
  name := tempRoot vaultId leftover
  kind := .directory
  bareRepository := false
  ownerFile := some (.record [("vault_id", .string vaultId)])

def inspectTempOwnerMarker (entry : Entry) : Option String :=
  match entry.ownerFile with
  | some (.record parsed) =>
    match propertyOf parsed "vault_id" with
    | some (.string vaultId) => if vaultIdPattern vaultId then some vaultId else none
    | _ => none
  | _ => none

def knownVaultIds (db : MetadataDb) : List String :=
  db.vaults.map (·.vaultId) ++ db.deletionJobs.map (·.vaultId) ++ db.deletionReceipts.map (·.vaultId)

/-- The vault of a repository's name, `/^[A-Za-z0-9_]+\.git$/u`. -/
def repositoryVaultId (name : String) : Option String :=
  let vaultId := String.ofList (name.toList.take (name.toList.length - 4))
  if ".git".toList.isSuffixOf name.toList && vaultIdPattern vaultId then some vaultId else none

/-- The loop over the Git store; it tells whether the vault's repository is there. -/
def inspectGitStore (entered : Bool) (known : List String) (targetName : String) :
    Bool → List Entry → Except DeletionErrorCode Bool
  | targetGitPresent, [] => .ok targetGitPresent
  | targetGitPresent, entry :: entries =>
    if entry.name = targetName then
      if entry.kind ≠ .directory || (!entry.bareRepository && !entered) then .error .unattributedResidue
      else inspectGitStore entered known targetName true entries
    else match repositoryVaultId entry.name with
      | some foreignVaultId =>
        if entry.kind ≠ .directory || !known.contains foreignVaultId || !entry.bareRepository then
          .error .unattributedResidue
        else inspectGitStore entered known targetName targetGitPresent entries
      | none => .error .unattributedResidue

def prefixes : List String := ["quarantine-", "merge-", "semantic-merge-"]

/-- The loop over the temp root; it collects the names to remove. -/
def inspectTemp (vaultId : String) : List Entry → Except DeletionErrorCode (List String)
  | [] => .ok []
  | entry :: entries =>
    if entry.kind ≠ .directory || startsWith entry.name "merge-index-" then .error .unattributedResidue
    else if !(prefixes.any (startsWith entry.name)) then .error .unattributedResidue
    else if inspectTempOwnerMarker entry ≠ some vaultId then .error .unattributedResidue
    else (inspectTemp vaultId entries).map (entry.name :: ·)

/-- `removeDeletionRootDirectoryChild`, its errors as the deletion reports them. -/
def removeDirectoryChild (entries : List Entry) (name : String) : Except DeletionErrorCode (List Entry) :=
  if name = "" || name.toList.contains '/' || name = "." || name = ".." then .error .unattributedResidue
  else match entries.find? fun entry => entry.name = name with
    | none => .ok entries
    | some child =>
      if child.kind ≠ .directory then .error .unattributedResidue
      else .ok (entries.filter fun entry => entry.name ≠ name)

/-- The repository goes where it was found. -/
def removeRepository (targetGitPresent : Bool) (targetName : String) (entries : List Entry) :
    Except DeletionErrorCode (List Entry) :=
  if targetGitPresent then removeDirectoryChild entries targetName else .ok entries

def removeDirectoryChildren : List String → List Entry → List Entry × Option DeletionErrorCode
  | [], entries => (entries, none)
  | name :: names, entries =>
    match removeDirectoryChild entries name with
    | .error code => (entries, some code)
    | .ok entries => removeDirectoryChildren names entries

def erasureWasDurablyEntered (db : MetadataDb) (vaultId : String) : Bool :=
  match db.deletionJob vaultId with
  | some job => job.phase = .erasing || job.phase = .finalizing
  | none => false

/-- The server afterwards, with the code of the failure if there is one. -/
def eraseGitAndTemp (server : Server) (vaultId : String) : Server × Option DeletionErrorCode :=
  if !vaultIdPattern vaultId then (server, some .storageUnavailable)
  else
    let entered := erasureWasDurablyEntered server.db vaultId
    let targetName := vaultId ++ ".git"
    match inspectGitStore entered (knownVaultIds server.db) targetName false server.gitStore with
    | .error code => (server, some code)
    | .ok targetGitPresent =>
      if !targetGitPresent && !entered then (server, some .storageUnavailable)
      else match inspectTemp vaultId (server.temp.getD []) with
        | .error code => (server, some code)
        | .ok targetEntries =>
          let erasing := if entered then server else { server with db := setPhase server.db vaultId .erasing none }
          match removeRepository targetGitPresent targetName erasing.gitStore with
          | .error code => (erasing, some code)
          | .ok gitStore =>
            let removed := removeDirectoryChildren targetEntries (erasing.temp.getD [])
            ({ erasing with gitStore, temp := erasing.temp.map fun _ => removed.1 }, removed.2)

section Names

variable {vaultId : String}

/-- A separator outside of both words tells where each of them ends. -/
lemma separated_prefix_iff {α : Type} {sep : α} {xs ys rest : List α} (hxs : sep ∉ xs) (hys : sep ∉ ys) :
    xs ++ [sep] <+: ys ++ sep :: rest ↔ xs = ys := by
  induction xs generalizing ys with
  | nil =>
    cases ys with
    | nil => simp
    | cons y ys =>
      have hne : sep ≠ y := fun h => hys (h ▸ mem_cons_self)
      simp [hne]
  | cons x xs ih =>
    rw [mem_cons, not_or] at hxs
    cases ys with
    | nil =>
      have hne : x ≠ sep := fun h => hxs.1 h.symm
      simp [hne]
    | cons y ys =>
      rw [mem_cons, not_or] at hys
      rw [cons_append, cons_append, cons_prefix_cons, ih hxs.2 hys.2, List.cons.injEq]

lemma ne_of_isIdCharacter {c d : Char} (hc : isIdCharacter c) (hd : isIdCharacter d = false) : c ≠ d := by
  rintro rfl
  rw [hc] at hd
  exact absurd hd (by decide)

lemma not_mem_of_vaultIdPattern (h : vaultIdPattern vaultId) {c : Char} (hc : isIdCharacter c = false) :
    c ∉ vaultId.toList := by
  intro hmem
  rw [vaultIdPattern, Bool.and_eq_true, all_eq_true] at h
  exact ne_of_isIdCharacter (h.2 c hmem) hc rfl

lemma toList_tempRoot (vaultId : String) (leftover : Leftover) : (tempRoot vaultId leftover).toList
      = leftover.work.purpose.toList ++ (vaultId.toList ++ '-' :: leftover.randomHex.toList) := by
  simp [tempRoot]

/-- What the checks of the name say of the directory of the work. -/
lemma startsWith_tempRoot (vaultId : String) (leftover : Leftover) (start : String) :
    startsWith (tempRoot vaultId leftover) start
      = start.toList.isPrefixOf
        (leftover.work.purpose.toList ++ (vaultId.toList ++ '-' :: leftover.randomHex.toList)) := by
  rw [startsWith, toList_tempRoot]

/-- The name of a repository gives its vault back. -/
lemma repositoryVaultId_append (h : vaultIdPattern vaultId) :
    repositoryVaultId (vaultId ++ ".git") = some vaultId := by
  have hname : (vaultId ++ ".git").toList = vaultId.toList ++ ".git".toList := by simp
  have hlen : (vaultId.toList ++ ".git".toList).length - 4 = vaultId.toList.length := by simp
  have hsuff : ".git".toList.isSuffixOf (vaultId.toList ++ ".git".toList) = true :=
    isSuffixOf_iff_suffix.mpr (suffix_append _ _)
  rw [repositoryVaultId, hname, hlen, take_left, String.ofList_toList, hsuff, h]
  rfl

end Names

/-- The entry passes the checks of the temp root for the vault. -/
def Attributed (vaultId : String) (entry : Entry) : Prop :=
  entry.kind = .directory ∧ startsWith entry.name "merge-index-" = false ∧
    prefixes.any (startsWith entry.name) = true ∧ inspectTempOwnerMarker entry = some vaultId

variable {vaultId : String} {entry : Entry}

lemma inspectTemp_cons_of_attributed (h : Attributed vaultId entry) (entries : List Entry) :
    inspectTemp vaultId (entry :: entries) = (inspectTemp vaultId entries).map (entry.name :: ·) := by
  obtain ⟨hkind, hindex, hpre, howner⟩ := h
  simp [inspectTemp, hkind, hindex, hpre, howner]

variable {entries : List Entry} {name : String}

lemma inspectTemp_of_attributed (h : ∀ entry ∈ entries, Attributed vaultId entry) :
    inspectTemp vaultId entries = .ok (entries.map (·.name)) := by
  induction entries with
  | nil => rfl
  | cons entry entries ih =>
    rw [forall_mem_cons] at h
    rw [inspectTemp_cons_of_attributed h.1, ih h.2]
    rfl

lemma inspectTemp_of_not_attributed (hmem : entry ∈ entries) (h : ¬ Attributed vaultId entry) :
    inspectTemp vaultId entries = .error .unattributedResidue := by
  induction entries with
  | nil => cases hmem
  | cons first entries ih =>
    by_cases hfirst : Attributed vaultId first
    · rw [inspectTemp_cons_of_attributed hfirst]
      obtain rfl | hmem := mem_cons.mp hmem
      · exact absurd hfirst h
      · rw [ih hmem]
        rfl
    · rw [inspectTemp]
      split_ifs with hkind hpre howner
      · rfl
      · rfl
      · rfl
      · rw [Bool.or_eq_true, not_or, decide_eq_true_eq, not_not, Bool.not_eq_true] at hkind
        rw [Bool.not_eq_true', Bool.not_eq_false] at hpre
        exact absurd ⟨hkind.1, hkind.2, hpre, not_not.mp howner⟩ hfirst

/-- The work whose directories the deletion of the vault recognises. -/
def Recognised (vaultId : String) : GitWork → Prop
  | .withQuarantinedPack => True
  | .createOverlayTree => vaultId ≠ "index"
  | .createDisjointMergeTree => vaultId ≠ "index"
  | .createTreeWithFileContents => True
  | .createMovedTree => False
  | .createTreeFromIndexEntries => False

section Recognition

variable {vaultId : String} (h : vaultIdPattern vaultId = true) (leftover : Leftover)
include h

lemma inspectTempOwnerMarker_leftBehind : inspectTempOwnerMarker (leftBehind vaultId leftover) = some vaultId := by
  have howner : propertyOf [("vault_id", .string vaultId)] "vault_id" = some (.string vaultId) := rfl
  simp [inspectTempOwnerMarker, leftBehind, howner, h]

/-- A merge directory looks like one of an index merge for the vault of that name alone. -/
lemma mergeIndex_prefix_iff (rest : List Char) :
    "merge-index-".toList <+: "merge-".toList ++ (vaultId.toList ++ '-' :: rest) ↔ vaultId = "index" := by
  have hsplit : "merge-index-".toList = "merge-".toList ++ ("index".toList ++ ['-']) := by decide
  have hindex : '-' ∉ "index".toList := by decide
  rw [hsplit, prefix_append_right_inj,
    separated_prefix_iff hindex (not_mem_of_vaultIdPattern h (by decide)), eq_comm, String.toList_inj]

lemma attributed_leftBehind_iff :
    Attributed vaultId (leftBehind vaultId leftover) ↔ Recognised vaultId leftover.work := by
  have hkind : (leftBehind vaultId leftover).kind = .directory := rfl
  have hname : (leftBehind vaultId leftover).name = tempRoot vaultId leftover := rfl
  have hindex := mergeIndex_prefix_iff h leftover.randomHex.toList
  simp only [Attributed, hkind, inspectTempOwnerMarker_leftBehind h, hname, prefixes, any_cons, any_nil,
    startsWith_tempRoot, true_and, and_true, Bool.or_false, Bool.or_eq_true, ← Bool.not_eq_true,
    List.isPrefixOf_iff_prefix]
  cases leftover.work with
  | createOverlayTree | createDisjointMergeTree =>
    rw [Recognised, Ne, ← hindex]
    simp [GitWork.purpose]
  | withQuarantinedPack | createTreeWithFileContents | createMovedTree
  | createTreeFromIndexEntries => simp [Recognised, GitWork.purpose]

end Recognition

/-- The Git store holds repositories of known vaults alone, the one of the vault among them; once its erasure has
begun, its repository may be damaged or gone. -/
structure RepositoriesOnly (server : Server) (vaultId : String) : Prop where
  entries : ∀ entry ∈ server.gitStore, entry.kind = .directory ∧ ((entry.name = vaultId ++ ".git" ∧
        (entry.bareRepository = true ∨ erasureWasDurablyEntered server.db vaultId = true)) ∨
      (entry.bareRepository = true ∧ ∃ foreignVaultId ∈ knownVaultIds server.db,
        vaultIdPattern foreignVaultId = true ∧ entry.name = foreignVaultId ++ ".git"))
  target : erasureWasDurablyEntered server.db vaultId = true ∨
    ∃ entry ∈ server.gitStore, entry.name = vaultId ++ ".git"

lemma inspectGitStore_of_repositories {entered : Bool} {known : List String} {targetName : String}
    (h : ∀ entry ∈ entries, entry.kind = .directory ∧
      ((entry.name = targetName ∧ (entry.bareRepository ∨ entered)) ∨
        (entry.bareRepository ∧ ∃ foreignVaultId ∈ known,
          vaultIdPattern foreignVaultId ∧ entry.name = foreignVaultId ++ ".git"))) (targetGitPresent : Bool) :
    inspectGitStore entered known targetName targetGitPresent entries
      = .ok (targetGitPresent || entries.any fun entry => entry.name = targetName) := by
  induction entries generalizing targetGitPresent with
  | nil => simp [inspectGitStore]
  | cons entry entries ih =>
    rw [forall_mem_cons] at h
    obtain ⟨⟨hkind, hentry⟩, hrest⟩ := h
    by_cases hname : entry.name = targetName
    · have hvalid : (!entry.bareRepository && !entered) = false := by
        rcases hentry with ⟨-, hbare | hent⟩ | ⟨hbare, -⟩
        · rw [hbare]
          rfl
        · rw [hent, Bool.not_true, Bool.and_false]
        · rw [hbare]
          rfl
      simp [inspectGitStore, hname, hkind, hvalid, ih hrest]
    · obtain ⟨hbare, foreignVaultId, hknown, hid, hfor⟩ :=
        hentry.resolve_left fun htgt => hname htgt.1
      have howner : repositoryVaultId entry.name = some foreignVaultId := by
        rw [hfor, repositoryVaultId_append hid]
      simp [inspectGitStore, hname, howner, hkind, hbare, hknown, ih hrest]

/-- A name that stands for a child of its directory. -/
def ChildName (name : String) : Prop :=
  (name = "" || name.toList.contains '/' || name = "." || name = "..") = false

lemma childName_of_length (h : 2 < name.toList.length) (hslash : '/' ∉ name.toList) : ChildName name := by
  have hshort : ∀ short : String, short.toList.length ≤ 2 → name ≠ short := by
    rintro short hlen rfl
    omega
  simp [ChildName, hshort "" (by decide), hshort "." (by decide), hshort ".." (by decide), hslash]

lemma removeDirectoryChild_ok (hname : ChildName name) (h : ∀ entry ∈ entries, entry.kind = .directory) :
    removeDirectoryChild entries name = .ok (entries.filter fun entry => entry.name ≠ name) := by
  rw [removeDirectoryChild, hname, if_neg Bool.false_ne_true]
  cases hfound : entries.find? fun entry => entry.name = name with
  | none =>
    have hall : entries.filter (fun entry => entry.name ≠ name) = entries := by
      apply filter_eq_self.mpr
      intro entry hmem
      simpa using List.find?_eq_none.mp hfound entry hmem
    simp only [hall]
  | some child => simp [h child (mem_of_find?_eq_some hfound)]

lemma exists_removeRepository (hname : ChildName name)
    (h : ∀ entry ∈ entries, entry.kind = .directory) (targetGitPresent : Bool) :
    ∃ left, removeRepository targetGitPresent name entries = .ok left := by
  cases targetGitPresent with
  | true => exact ⟨_, removeDirectoryChild_ok hname h⟩
  | false => exact ⟨entries, rfl⟩

lemma removeDirectoryChildren_ok {names : List String} (hnames : ∀ name ∈ names, ChildName name)
    (h : ∀ entry ∈ entries, entry.kind = .directory) :
    removeDirectoryChildren names entries = (entries.filter fun entry => !names.contains entry.name, none) := by
  induction names generalizing entries with
  | nil => simp [removeDirectoryChildren]
  | cons name names ih =>
    rw [forall_mem_cons] at hnames
    rw [removeDirectoryChildren, removeDirectoryChild_ok hnames.1 h]
    have hleft : ∀ entry ∈ entries.filter (fun entry => entry.name ≠ name), entry.kind = .directory :=
      fun entry hmem => h entry (mem_of_mem_filter hmem)
    simp only [ih hnames.2 hleft, filter_filter]
    congr 2
    funext entry
    simp [Bool.and_comm]

section Deletion

variable {server : Server} {vaultId : String} (h : vaultIdPattern vaultId = true)
  (hgit : RepositoriesOnly server vaultId) (leftovers : List Leftover)
  (htemp : server.temp.getD [] = leftovers.map (leftBehind vaultId))

include h in
lemma childName_repository : ChildName (vaultId ++ ".git") := by
  have hname : (vaultId ++ ".git").toList = vaultId.toList ++ ".git".toList := String.toList_append
  apply childName_of_length
  · rw [hname, length_append]
    exact Nat.lt_of_lt_of_le (by decide) (Nat.le_add_left ".git".toList.length _)
  · rw [hname, mem_append, not_or]
    exact ⟨not_mem_of_vaultIdPattern h (by decide), by decide⟩

include h in
lemma childName_tempRoot (leftover : Leftover) : ChildName (tempRoot vaultId leftover) := by
  apply childName_of_length
  · have hrand := leftover.length
    rw [toList_tempRoot, length_append, length_append, length_cons]
    omega
  have hhex : '/' ∉ leftover.randomHex.toList := fun hmem => absurd (leftover.digits _ hmem) (by decide)
  have hpurp : '/' ∉ leftover.work.purpose.toList := by
    cases leftover.work <;> decide
  rw [toList_tempRoot, mem_append, mem_append, mem_cons, not_or, not_or, not_or]
  exact ⟨hpurp, not_mem_of_vaultIdPattern h (by decide), by decide, hhex⟩

include hgit in
lemma inspectGitStore_eq :
    inspectGitStore (erasureWasDurablyEntered server.db vaultId) (knownVaultIds server.db) (vaultId ++ ".git") false
      server.gitStore = .ok (server.gitStore.any fun entry => entry.name = vaultId ++ ".git") :=
  inspectGitStore_of_repositories hgit.entries false

include hgit in
lemma present_or_entered : (!(server.gitStore.any fun entry => entry.name = vaultId ++ ".git") &&
      !erasureWasDurablyEntered server.db vaultId) = false := by
  rcases hgit.target with hent | ⟨entry, hmem, hname⟩
  · rw [hent, Bool.not_true, Bool.and_false]
  have hpres : (server.gitStore.any fun entry => decide (entry.name = vaultId ++ ".git")) = true :=
    any_eq_true.mpr ⟨entry, hmem, decide_eq_true hname⟩
  rw [hpres, Bool.not_true, Bool.false_and]

include h htemp

lemma inspectTemp_of_recognised (hall : ∀ leftover ∈ leftovers, Recognised vaultId leftover.work) :
    inspectTemp vaultId (server.temp.getD []) = .ok (leftovers.map (tempRoot vaultId)) := by
  rw [htemp, inspectTemp_of_attributed, map_map]
  · rfl
  intro entry hentry
  obtain ⟨leftover, hleft, rfl⟩ := mem_map.mp hentry
  exact (attributed_leftBehind_iff h leftover).mpr (hall leftover hleft)

include hgit

/-- One directory that is not recognised, and the deletion leaves everything as it was: the next try finds the
same. -/
lemma eraseGitAndTemp_of_not_recognised {leftover : Leftover} (hmem : leftover ∈ leftovers)
    (hother : ¬ Recognised vaultId leftover.work) :
    eraseGitAndTemp server vaultId = (server, some .unattributedResidue) := by
  have hinsp : inspectTemp vaultId (server.temp.getD []) = .error .unattributedResidue := by
    rw [htemp]
    exact inspectTemp_of_not_attributed (mem_map_of_mem hmem)
      fun hattr => hother ((attributed_leftBehind_iff h leftover).mp hattr)
  simp only [eraseGitAndTemp, h, inspectGitStore_eq hgit, present_or_entered hgit, hinsp, Bool.not_true,
    Bool.false_eq_true, if_false]

/-- All are recognised: all are gone, and the deletion goes on. -/
lemma eraseGitAndTemp_of_recognised (hall : ∀ leftover ∈ leftovers, Recognised vaultId leftover.work) :
    (eraseGitAndTemp server vaultId).1.temp.getD [] = [] ∧ (eraseGitAndTemp server vaultId).2 = none := by
  obtain ⟨gitStore, hstore⟩ := exists_removeRepository (childName_repository h)
    (fun entry hentry => (hgit.entries entry hentry).1)
      (server.gitStore.any fun entry => entry.name = vaultId ++ ".git")
  have hdirs : ∀ entry ∈ server.temp.getD [], entry.kind = .directory := by
    intro entry hentry
    rw [htemp] at hentry
    obtain ⟨leftover, -, rfl⟩ := mem_map.mp hentry
    rfl
  have hnames : ∀ name ∈ leftovers.map (tempRoot vaultId), ChildName name := by
    intro name hname
    obtain ⟨leftover, -, rfl⟩ := mem_map.mp hname
    exact childName_tempRoot h leftover
  have hcle : removeDirectoryChildren (leftovers.map (tempRoot vaultId)) (server.temp.getD []) = ([], none) := by
    rw [removeDirectoryChildren_ok hnames hdirs, htemp, filter_eq_nil_iff.mpr]
    intro entry hentry
    obtain ⟨leftover, hleft, rfl⟩ := mem_map.mp hentry
    have hname : tempRoot vaultId leftover ∈ leftovers.map (tempRoot vaultId) := mem_map_of_mem hleft
    simpa [leftBehind] using hname
  have hinsp := inspectTemp_of_recognised h leftovers htemp hall
  simp only [eraseGitAndTemp, h, inspectGitStore_eq hgit, present_or_entered hgit, hinsp, Bool.not_true,
    Bool.false_eq_true, if_false]
  have hgone : (server.temp.map fun _ => ([] : List Entry)).getD [] = [] := by
    cases server.temp <;> rfl
  cases erasureWasDurablyEntered server.db vaultId <;>
    simp [hstore, hcle, hgone]

/-- The deletion recognises and removes all that Git work left behind exactly if none of it comes from mapping
renames or from building a tree out of index entries, nor, for a vault of the name `index`, from a merge. -/
theorem erases_leftovers_iff : (inspectTemp vaultId (server.temp.getD []) = .ok (leftovers.map (tempRoot vaultId)) ∧
        (eraseGitAndTemp server vaultId).1.temp.getD [] = [] ∧
        (eraseGitAndTemp server vaultId).2 ≠ some .unattributedResidue) ↔
      ∀ leftover ∈ leftovers, Recognised vaultId leftover.work := by
  constructor
  · rintro ⟨-, -, hres⟩ leftover hmem
    by_contra hother
    apply hres
    rw [eraseGitAndTemp_of_not_recognised h hgit leftovers htemp hmem hother]
  intro hall
  obtain ⟨hgone, hres⟩ := eraseGitAndTemp_of_recognised h hgit leftovers htemp hall
  refine ⟨inspectTemp_of_recognised h leftovers htemp hall, hgone, ?_⟩
  rw [hres]
  exact nofun

end Deletion

def leftoverOf (work : GitWork) : Leftover where
  work := work
  randomHex := String.ofList (List.replicate 16 '0')
  length := by rw [String.toList_ofList, List.length_replicate]
  digits := by
    intro c hc
    rw [String.toList_ofList, List.mem_replicate] at hc
    rw [hc.2]
    decide

def crashedServer (work : GitWork) : Server where
  db := {
    vaults := [⟨"vlt_1", "owner", .deleting, "t"⟩]
    deletionJobs := [⟨"vlt_1", "owner", "t", .draining, none, none⟩] }
  gitStore := [⟨"vlt_1.git", .directory, true, none⟩]
  temp := some [leftBehind "vlt_1" (leftoverOf work)]

lemma repositoriesOnly_crashedServer (work : GitWork) : RepositoriesOnly (crashedServer work) "vlt_1" where
  entries := by
    intro entry hentry
    obtain rfl := mem_singleton.mp hentry
    exact ⟨rfl, Or.inl ⟨rfl, Or.inl rfl⟩⟩
  target := Or.inr ⟨_, mem_singleton_self _, rfl⟩

theorem erases_leftovers_iff_semantic :
    (inspectTemp "vlt_1" [leftBehind "vlt_1" (leftoverOf .createTreeWithFileContents)]
          = .ok ["semantic-merge-vlt_1-0000000000000000"] ∧
        (eraseGitAndTemp (crashedServer .createTreeWithFileContents) "vlt_1").1.temp.getD [] = [] ∧
        (eraseGitAndTemp (crashedServer .createTreeWithFileContents) "vlt_1").2 ≠ some .unattributedResidue) ↔
      ∀ leftover ∈ [leftoverOf .createTreeWithFileContents], Recognised "vlt_1" leftover.work :=
  erases_leftovers_iff (by decide) (repositoriesOnly_crashedServer .createTreeWithFileContents)
    [leftoverOf .createTreeWithFileContents] rfl

/-- What the mapping of a rename left behind keeps its vault from being deleted. -/
theorem renameMapping_blocks_deletion :
    ¬ ∀ (server : Server) (vaultId : String) (leftovers : List Leftover), vaultIdPattern vaultId = true →
      RepositoriesOnly server vaultId → server.temp.getD [] = leftovers.map (leftBehind vaultId) →
      inspectTemp vaultId (server.temp.getD []) = .ok (leftovers.map (tempRoot vaultId)) ∧
        (eraseGitAndTemp server vaultId).1.temp.getD [] = [] ∧
        (eraseGitAndTemp server vaultId).2 ≠ some .unattributedResidue := by
  intro hclaim
  obtain ⟨-, -, hres⟩ := hclaim (crashedServer .createMovedTree) "vlt_1" [leftoverOf .createMovedTree] (by decide)
    (repositoriesOnly_crashedServer _) rfl
  apply hres
  rw [eraseGitAndTemp_of_not_recognised (by decide) (repositoriesOnly_crashedServer .createMovedTree)
    [leftoverOf .createMovedTree] rfl (mem_singleton_self _) id]

end TempResidue
