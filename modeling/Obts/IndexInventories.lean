import Obts.HeadlessReplies
import Obts.IndexPages
import Obts.SlashPath

/-!
# The inventory behind the pages

The child computes its inventory when the first page is asked for, and answers for the later pages from
what it kept. One cursor runs through the files and then the changes.
-/
namespace IndexPages

open HeadlessProtocol InsertionOrder WireJson List Option Json

structure CommitId where
  text : String
  nonempty : text ≠ ""
  short : text.utf8ByteSize ≤ 64
  deriving DecidableEq

/-- The blobs of the paths that are synchronised. -/
structure Tree where
  entries : List (String × String)
  distinct : (entries.map Prod.fst).Nodup

def Tree.get (tree : Tree) (path : String) : Option String := tree.entries.lookup path

structure Repository where
  localHead : Option CommitId
  commits : CommitId → Option Tree
  isAncestor : CommitId → CommitId → Bool

def changesBetween (prior target : Tree) : List HeadlessIndexChange :=
  (sortBy (compareOn fun path : String => path.toList.flatMap SlashPath.utf16)
    (ofList ((prior.entries ++ target.entries).map Prod.fst))).filterMap fun path =>
      let before := prior.get path
      let after := target.get path
      if before = after then none
      else some ⟨path, if before = none then "add" else if after = none then "delete" else "modify", after⟩

section Inventory
variable (localeCompare : String → String → Ordering)

def inventory (head : CommitId) (base : Option CommitId) (mode : String) (prior target : Tree) :
    HeadlessIndexDelta where
  head := head.text
  base := base.map CommitId.text
  mode := mode
  files := (sortBy (fun left right => localeCompare left.1 right.1) target.entries).map fun entry =>
    ⟨entry.1, entry.2⟩
  changes := changesBetween prior target

/-- An empty tree stands for what a rebuild starts from. -/
def Repository.readIndexDelta (repository : Repository) (fromCommit : Option CommitId) : HeadlessIndexDelta :=
  match repository.localHead.bind fun head => (repository.commits head).map (head, ·) with
  | none => ⟨⟨none, none, "unavailable"⟩, [], []⟩
  | some (head, target) =>
    match fromCommit with
    | none => inventory localeCompare head none "rebuild" ⟨[], nodup_nil⟩ target
    | some base =>
      match (repository.commits base).filter fun _ => repository.isAncestor base head with
      | some prior => inventory localeCompare head (some base) "incremental" prior target
      | none => ⟨⟨head.text, base.text, "diverged"⟩, [], []⟩

end Inventory

section Pages

def optional (text : Option String) : Json := (text.map str).getD .null

abbrev Entry := HeadlessIndexFile ⊕ HeadlessIndexChange

def Entry.json : Entry → Json
  | .inl file => obj [("path", str file.path), ("oid", str file.oid)]
  | .inr change => obj [("path", str change.path), ("kind", str change.kind), ("oid", optional change.oid)]

def filesOf (entries : List Entry) : List HeadlessIndexFile := entries.filterMap Sum.getLeft?

def changesOf (entries : List Entry) : List HeadlessIndexChange := entries.filterMap Sum.getRight?

def HeadlessIndexDelta.entries (delta : HeadlessIndexDelta) : List Entry :=
  delta.files.map .inl ++ delta.changes.map .inr

def HeadlessIndexDeltaPage.json (page : HeadlessIndexDeltaPage) : Json :=
  obj [("head", optional page.head), ("base", optional page.base), ("mode", str page.mode),
    ("files", .array (page.files.map fun file => Entry.json (.inl file))),
    ("changes", .array (page.changes.map fun change => Entry.json (.inr change))),
    ("next_cursor", (page.nextCursor.map fun next : Nat => JsonTrees.Tree.number (.integer next)).getD .null),
    ("total_files", .number (.integer page.totalFiles)),
    ("total_changes", .number (.integer page.totalChanges))]

def maxIndexDeltaPageBytes : Nat := 480 * 1024

/-- The entries that a page takes; its first one must fit. -/
def fill (usedBytes : Nat) (isFirst : Bool) : List Entry → Except String (List Entry)
  | [] => .ok []
  | entry :: rest =>
    let entryBytes := entry.json.bytes + 1
    if maxIndexDeltaPageBytes < usedBytes + entryBytes then
      if isFirst then .error "One index entry exceeds the protocol page limit." else .ok []
    else (fill (usedBytes + entryBytes) false rest).map (entry :: ·)

def emptyPage (delta : HeadlessIndexDelta) : HeadlessIndexDeltaPage where
  toIdentity := delta.toIdentity
  files := []
  changes := []
  nextCursor := none
  totalFiles := delta.files.length
  totalChanges := delta.changes.length

def pageFrom (delta : HeadlessIndexDelta) (cursor : Nat) : Except String HeadlessIndexDeltaPage :=
  let totalEntries := delta.files.length + delta.changes.length
  if totalEntries < cursor then .error "read-index-delta cursor exceeds the active inventory."
  else
    (fill (emptyPage delta).json.bytes true (delta.entries.drop cursor)).map fun taken =>
      let nextCursor := cursor + taken.length
      { emptyPage delta with
        files := filesOf taken
        changes := changesOf taken
        nextCursor := if nextCursor < totalEntries then some nextCursor else none }

end Pages

structure Child where
  repository : Repository
  indexDeltaCache : Option (Option CommitId × HeadlessIndexDelta)

/-- What falls between two requests: other commands and moves of the head, and restarts. A reader holds the
process until it has all pages, so no other reading of a delta falls there. -/
inductive Event where
  | command (repository : Repository)
  | restart (repository : Repository)

def Child.after (child : Child) : Event → Child
  | .command repository => { child with repository }
  | .restart repository => ⟨repository, none⟩

section Reads
variable (localeCompare : String → String → Ordering) (fromCommit : Option CommitId)
variable (events : Nat → List Event) (ids : Nat → UInt64)

def Child.readIndexDeltaPage (child : Child) (cursor : Nat) : Child × Except String HeadlessIndexDeltaPage :=
  let child := if cursor = 0 then
    { child with
      indexDeltaCache := some (fromCommit, child.repository.readIndexDelta localeCompare fromCommit) }
    else child
  (child, match child.indexDeltaCache with
    | none => .error "read-index-delta cursor does not match an active inventory."
    | some (commit, delta) =>
      if commit ≠ fromCommit then
        .error "read-index-delta cursor does not match an active inventory."
      else pageFrom delta cursor)

def lineTooLong : String := "headless client message exceeded the byte limit"

/-- The loop of the bridge over the answers of the child, as far as a number of requests goes. -/
def readPages : Nat → Nat → Child → Reading → Option (Except String HeadlessIndexDelta)
  | 0, _, _, _ => none
  | requests + 1, i, child, reading =>
    let answer := ((events i).foldl Child.after child).readIndexDeltaPage localeCompare fromCommit reading.cursor
    match answer.2 with
    | .error message => some (.error message)
    | .ok page =>
      if maxHeadlessMessageBytes < (okLine (ids i).toNat page.json).bytes then some (.error lineTooLong)
      else
        match reading.receive page with
        | .inr result => some result
        | .inl reading => readPages requests (i + 1) answer.1 reading

end Reads

section Bytes
variable {delta : HeadlessIndexDelta} {entries taken : List Entry} {usedBytes cursor : Nat} {isFirst : Bool}
variable {page : HeadlessIndexDeltaPage}

/-- The bytes of entries with what follows each. -/
def bytesOf (entries : List Entry) : Nat := (entries.map fun entry => entry.json.bytes + 1).sum

lemma length_entries : delta.entries.length = delta.files.length + delta.changes.length := by
  rw [HeadlessIndexDelta.entries, length_append, length_map, length_map]

lemma fill_spec (h : fill usedBytes isFirst entries = .ok taken) : taken <+: entries ∧
    (taken ≠ [] → usedBytes + bytesOf taken ≤ maxIndexDeltaPageBytes) ∧ (isFirst → entries ≠ [] → taken ≠ []) := by
  induction entries generalizing usedBytes isFirst taken with
  | nil =>
    cases h
    exact .intro nil_prefix ⟨nofun, fun _ => id⟩
  | cons entry entries ih =>
    rw [fill] at h
    split at h
    · split at h
      · cases h
      rename_i hfirst
      cases h
      exact .intro nil_prefix ⟨nofun, fun h => absurd h hfirst⟩
    rename_i hfits
    cases hrest : fill (usedBytes + (entry.json.bytes + 1)) false entries with
    | error => simp [hrest, Except.map] at h
    | ok rest =>
      rw [hrest] at h
      cases h
      obtain ⟨hpre, hused, -⟩ := ih hrest
      refine ⟨(prefix_cons_inj entry).mpr hpre, fun _ => ?_, fun _ _ => cons_ne_nil _ _⟩
      cases rest with
      | nil => simpa [bytesOf] using hfits
      | cons next rest =>
        have hle := hused (cons_ne_nil _ _)
        rw [bytesOf, map_cons, sum_cons, ← Nat.add_assoc]
        exact hle

lemma fill_isOk (h : isFirst → ∀ entry ∈ entries, usedBytes + (entry.json.bytes + 1) ≤ maxIndexDeltaPageBytes) :
    ∃ taken, fill usedBytes isFirst entries = .ok taken := by
  induction entries generalizing usedBytes isFirst with
  | nil => exact ⟨[], rfl⟩
  | cons entry entries ih =>
    rw [fill]
    split
    · rename_i hover
      split
      · rename_i hfirst
        exact absurd (h hfirst entry mem_cons_self) (Nat.not_le.mpr hover)
      · exact ⟨[], rfl⟩
    · obtain ⟨rest, hrest⟩ := @ih (usedBytes + (entry.json.bytes + 1)) false nofun
      exact ⟨entry :: rest, by rw [hrest]; rfl⟩

lemma bytesItems_sides : Json.bytes.bytesItems ((filesOf taken).map fun file => Entry.json (.inl file))
    + Json.bytes.bytesItems ((changesOf taken).map fun change => Entry.json (.inr change)) = bytesOf taken := by
  induction taken with
  | nil => rfl
  | cons entry taken ih =>
    rw [bytesOf] at ih ⊢
    rw [filesOf, changesOf] at ih
    cases entry with
    | inl file =>
      simp only [filesOf, changesOf, filterMap_cons, Sum.getLeft?_inl, Sum.getRight?_inl, map_cons,
        bytes.bytesItems, sum_cons]
      omega
    | inr change =>
      simp only [filesOf, changesOf, filterMap_cons, Sum.getLeft?_inr, Sum.getRight?_inr, map_cons,
        bytes.bytesItems, sum_cons]
      omega

lemma numberBytes_add {n a b : Nat} (h : n ≤ a + b) :
    numberBytes (.integer n) ≤ numberBytes (.integer a) + numberBytes (.integer b) := by
  have hlt (m : Nat) : 0 < m.repr.length ∧ m < 10 ^ m.repr.length :=
    ⟨Nat.length_repr_pos, (Nat.length_repr_le_iff Nat.length_repr_pos).mp (Nat.le_refl _)⟩
  obtain ⟨hposA, hltA⟩ := hlt a
  obtain ⟨hposB, hltB⟩ := hlt b
  refine numberBytes_le (Nat.add_pos_left hposA _) ?_
  change n < 10 ^ (a.repr.length + b.repr.length)
  rw [Nat.pow_add]
  have htenA : 10 ≤ 10 ^ a.repr.length := Nat.le_self_pow hposA.ne' 10
  have htenB : 10 ≤ 10 ^ b.repr.length := Nat.le_self_pow hposB.ne' 10
  nlinarith

lemma pageFrom_eq (h : pageFrom delta cursor = .ok page) : ∃ taken,
    fill (emptyPage delta).json.bytes true (delta.entries.drop cursor) = .ok taken ∧
    page = ⟨⟨delta.toIdentity, filesOf taken, changesOf taken⟩,
      if cursor + taken.length < delta.entries.length then some (cursor + taken.length) else none,
      delta.files.length, delta.changes.length⟩ := by
  rw [pageFrom] at h
  split at h
  · cases h
  cases hfill : fill (emptyPage delta).json.bytes true (delta.entries.drop cursor) with
  | error => simp [hfill, Except.map] at h
  | ok taken =>
    rw [hfill] at h
    cases h
    exact ⟨taken, rfl, by rw [length_entries]; rfl⟩

/-- The cursor that a page names has no more digits than the totals. -/
lemma bytes_page {next : Option Nat} (h : ∀ n ∈ next, n ≤ delta.files.length + delta.changes.length) :
    (HeadlessIndexDeltaPage.json ⟨⟨delta.toIdentity, filesOf taken, changesOf taken⟩, next,
      delta.files.length, delta.changes.length⟩).bytes ≤ 2 * (emptyPage delta).json.bytes + bytesOf taken := by
  have hsides := @bytesItems_sides taken
  simp only [emptyPage, HeadlessIndexDeltaPage.json, obj, map_cons, map_nil, bytes,
    bytes.bytesEntries, bytes.bytesItems, map_none, getD_none]
  cases next with
  | none =>
    simp only [map_none, getD_none, bytes]
    omega
  | some n =>
    have hdigits := numberBytes_add (h n rfl)
    simp only [map_some, getD_some, bytes]
    omega

/-- Ids of commits and a mode are short. -/
def Identity.Short (identity : Identity) : Prop :=
  (optional identity.head).bytes + (optional identity.base).bytes + (str identity.mode).bytes ≤ 1000

lemma bytes_emptyPage_le (hshort : delta.Short) (hfiles : delta.files.length = 0)
    (hchanges : delta.changes.length = 0) : (emptyPage delta).json.bytes ≤ 1200 := by
  have hkeys : ["head", "base", "mode", "files", "changes", "next_cursor", "total_files",
    "total_changes"].map (fun key => (JsString.ofString key).bytes) = [6, 6, 6, 7, 9, 13, 13, 15] := by decide
  have hzero : numberBytes (.integer (0 : Nat)) = 1 := by decide
  rw [Identity.Short] at hshort
  simp only [map_cons, map_nil, cons.injEq] at hkeys
  simp only [emptyPage, HeadlessIndexDeltaPage.json, obj, map_cons, map_nil, bytes,
    bytes.bytesEntries, bytes.bytesItems, map_none, getD_none, hfiles, hchanges]
  omega

/-- A page that was asked for from within the inventory is no longer than a line may be. -/
lemma line_fits (id : UInt64) (hshort : delta.Short) (h : pageFrom delta cursor = .ok page)
    (hcurs : cursor = 0 ∨ cursor < delta.entries.length) :
    (okLine id.toNat page.json).bytes ≤ maxHeadlessMessageBytes := by
  have hid : numberBytes (.integer id.toNat) ≤ 20 :=
    numberBytes_le (by decide) (id.toNat_lt.trans (by decide))
  have hkeys : ["result", "type", "response", "id", "ok"].map (fun key => (JsString.ofString key).bytes)
    = [8, 6, 10, 4, 4] := by decide
  simp only [map_cons, map_nil, cons.injEq] at hkeys
  simp only [okLine, obj, map_cons, map_nil, bytes, bytes.bytesEntries, str, if_true,
    maxHeadlessMessageBytes]
  obtain ⟨taken, hfill, rfl⟩ := pageFrom_eq h
  obtain ⟨-, hused, hfirst⟩ := fill_spec hfill
  have htotal := @length_entries delta
  have hpage := @bytes_page delta taken
    (if cursor + taken.length < delta.entries.length then some (cursor + taken.length) else none) (by
      intro n hn
      obtain ⟨hlt, ⟨⟩⟩ := some_eq_ite_none_right.mp hn.symm
      omega)
  by_cases htak : taken = []
  · subst htak
    have hlen := drop_eq_nil_iff.mp (by_contra fun hne => hfirst rfl hne rfl)
    have hempty := bytes_emptyPage_le hshort (by omega) (by omega)
    change _ ≤ _ + 0 at hpage
    omega
  · have hle := hused htak
    rw [maxIndexDeltaPageBytes] at hle
    omega

end Bytes

section Runs
variable {delta : HeadlessIndexDelta} {reading : Reading} {page : HeadlessIndexDeltaPage}
variable {localeCompare : String → String → Ordering} {fromCommit : Option CommitId}
variable {events : Nat → List Event} {ids : Nat → UInt64} {child : Child} {cursor : Nat}

lemma length_sides {entries : List Entry} :
    (filesOf entries).length + (changesOf entries).length = entries.length := by
  induction entries with
  | nil => rfl
  | cons entry entries ih =>
    rw [length_cons, ← ih]
    cases entry with
    | inl => exact Nat.add_right_comm ..
    | inr => rfl

lemma sides_entries : filesOf delta.entries = delta.files ∧ changesOf delta.entries = delta.changes := by
  simp [filesOf, changesOf, HeadlessIndexDelta.entries, Function.comp_def]

/-- What is read is what the inventory has before the cursor. -/
structure Reads (delta : HeadlessIndexDelta) (reading : Reading) : Prop where
  within : reading.cursor = 0 ∨ reading.cursor < delta.entries.length
  totals : reading.expectedTotals.getD (delta.files.length, delta.changes.length)
    = (delta.files.length, delta.changes.length)
  combined : reading.combined.getD ⟨delta.toIdentity, [], []⟩ = ⟨delta.toIdentity,
    filesOf (delta.entries.take reading.cursor), changesOf (delta.entries.take reading.cursor)⟩

lemma receive_page (hreads : Reads delta reading) (h : pageFrom delta reading.cursor = .ok page) :
    reading.receive page = .inr (.ok delta) ∨
      ∃ next, reading.receive page = .inl next ∧ Reads delta next ∧ reading.cursor < next.cursor := by
  obtain ⟨taken, hfill, rfl⟩ := pageFrom_eq h
  obtain ⟨hpre, -, hfirst⟩ := fill_spec hfill
  have htake : delta.entries.take (reading.cursor + taken.length)
      = delta.entries.take reading.cursor ++ taken := by
    rw [take_add, ← prefix_iff_eq_take.mp hpre]
  have hfiles := (congrArg filesOf htake).trans filterMap_append
  have hchan := (congrArg changesOf htake).trans filterMap_append
  change _ = filesOf _ ++ filesOf taken at hfiles
  change _ = changesOf _ ++ changesOf taken at hchan
  rw [Reading.receive]
  simp only [HeadlessIndexDeltaPage.totals, hreads.totals, hreads.combined, ne_eq, not_true_eq_false, if_false,
    ← hfiles, ← hchan]
  split
  · rename_i next hnext
    obtain ⟨hlt, rfl⟩ : reading.cursor + taken.length < delta.entries.length ∧
        reading.cursor + taken.length = next := by simpa using hnext
    refine .inr ⟨_, if_pos (congrArg _ length_sides.symm), ⟨.inr hlt, rfl, rfl⟩, ?_⟩
    have htaken := hfirst rfl fun hnil => by
      have hle := drop_eq_nil_iff.mp hnil
      omega
    exact Nat.lt_add_of_pos_right (length_pos_iff.mpr htaken)
  · rename_i hnext
    have hge : ¬ reading.cursor + taken.length < delta.entries.length := by simpa using hnext
    rw [take_of_length_le (Nat.not_lt.mp hge), sides_entries.1, sides_entries.2]
    exact .inl (if_pos ⟨rfl, rfl⟩)

def Restarts (events : Nat → List Event) : Prop := ∃ i > 0, ∃ repository, .restart repository ∈ events i

lemma cache_after (between : List Event) : (between.foldl Child.after child).indexDeltaCache = child.indexDeltaCache ∨
    (between.foldl Child.after child).indexDeltaCache = none ∧ ∃ repository, .restart repository ∈ between := by
  induction between generalizing child with
  | nil => exact .inl rfl
  | cons event between ih =>
    cases event with
    | command repository =>
      exact ih.imp_right fun ⟨hnone, repository, hmem⟩ => ⟨hnone, repository, mem_cons_of_mem _ hmem⟩
    | restart repository =>
      exact .inr ⟨ih.elim id And.left, repository, mem_cons_self⟩

/-- The child computes the inventory for the first page, and keeps it unless it is restarted. -/
def Serves (localeCompare : String → String → Ordering) (fromCommit : Option CommitId)
    (events : Nat → List Event) (delta : HeadlessIndexDelta) (cursor : Nat) (child : Child) : Prop :=
  if cursor = 0 then child.repository.readIndexDelta localeCompare fromCommit = delta
  else child.indexDeltaCache = some (fromCommit, delta) ∨ child.indexDeltaCache = none ∧ Restarts events

lemma page_of_serves (h : Serves localeCompare fromCommit events delta cursor child) :
    (child.readIndexDeltaPage localeCompare fromCommit cursor).2 = pageFrom delta cursor ∧
      (child.readIndexDeltaPage localeCompare fromCommit cursor).1.indexDeltaCache = some (fromCommit, delta) ∨
    (∃ message, (child.readIndexDeltaPage localeCompare fromCommit cursor).2 = .error message) ∧
      Restarts events := by
  rw [Child.readIndexDeltaPage]
  by_cases hcurs : cursor = 0
  · rw [Serves, if_pos hcurs] at h
    rw [if_pos hcurs, h]
    exact .inl ⟨if_neg (not_not.mpr rfl), rfl⟩
  rw [Serves, if_neg hcurs] at h
  rw [if_neg hcurs]
  rcases h with hcache | ⟨hcache, hrest⟩
  · rw [hcache]
    exact .inl ⟨if_neg (not_not.mpr rfl), rfl⟩
  · rw [hcache]
    exact .inr ⟨⟨_, rfl⟩, hrest⟩

/-- Every entry fits a page of its own. -/
def Fits (delta : HeadlessIndexDelta) : Prop := ∀ entry ∈ delta.entries,
  (emptyPage delta).json.bytes + (entry.json.bytes + 1) ≤ maxIndexDeltaPageBytes

lemma readPages_spec (hshort : delta.Short) (hreads : Reads delta reading) {requests i : Nat}
    (hserv : Serves localeCompare fromCommit events delta reading.cursor ((events i).foldl Child.after child)) :
    (∀ result, readPages localeCompare fromCommit events ids requests i child reading = some (.ok result) →
      result = delta) ∧ (¬ Restarts events → Fits delta → delta.entries.length < reading.cursor + requests →
      readPages localeCompare fromCommit events ids requests i child reading = some (.ok delta)) := by
  induction requests generalizing i child reading with
  | zero =>
    refine ⟨nofun, fun _ _ hlt => ?_⟩
    have hwin := hreads.within
    omega
  | succ requests ih =>
    rw [readPages]
    rcases page_of_serves hserv with ⟨hpage, hcache⟩ | ⟨⟨message, herr⟩, hres⟩
    · simp only [hpage]
      cases h : pageFrom delta reading.cursor with
      | error message =>
        refine ⟨nofun, fun _ hfits _ => ?_⟩
        obtain ⟨taken, hfill⟩ := fill_isOk fun _ entry hentry => hfits entry (mem_of_mem_drop hentry)
        have hwin := hreads.within
        rw [pageFrom, hfill, if_neg (by rw [← length_entries]; omega)] at h
        cases h
      | ok page =>
        simp only [if_neg (Nat.not_lt.mpr (line_fits (ids i) hshort h hreads.within))]
        rcases receive_page hreads h with hrec | ⟨next, hrec, hnext, hlt⟩
        · simp [hrec]
        simp only [hrec]
        have hrest := ih (i := i + 1) hnext (by
          rw [Serves, if_neg (Nat.zero_lt_of_lt hlt).ne']
          exact (cache_after (events (i + 1))).imp (·.trans hcache) fun ⟨hnone, hmem⟩ =>
            ⟨hnone, i + 1, i.succ_pos, hmem⟩)
        exact ⟨hrest.1, fun hno hfits htotal => hrest.2 hno hfits (by omega)⟩
    · simp only [herr]
      exact ⟨nofun, fun hno => absurd hres hno⟩

lemma mem_changesBetween {prior target : Tree} {path : String} :
    (∃ change ∈ changesBetween prior target, change.path = path) ↔ prior.get path ≠ target.get path := by
  constructor
  · rintro ⟨change, hmem, rfl⟩
    obtain ⟨path, -, hpath⟩ := mem_filterMap.mp hmem
    dsimp only at hpath
    split at hpath
    · cases hpath
    rename_i hne
    cases hpath
    exact hne
  intro hne
  refine ⟨_, mem_filterMap.mpr ⟨path, ?_, if_neg hne⟩, rfl⟩
  rw [mem_sortBy, mem_ofList, map_append, mem_append]
  by_contra hmem
  have hnone {tree : Tree} (h : path ∉ tree.entries.map Prod.fst) : tree.get path = none :=
    lookup_eq_none_iff.mpr fun entry hentry => by
      simpa using fun heq : path = entry.1 => h (heq ▸ mem_map_of_mem hentry)
  exact hne ((hnone fun h => hmem (.inl h)).trans (hnone fun h => hmem (.inr h)).symm)

lemma short_identity {head base : Option CommitId} {mode : String} (h : (str mode).bytes ≤ 20) :
    Identity.Short ⟨head.map CommitId.text, base.map CommitId.text, mode⟩ := by
  have hid (commit : Option CommitId) : (optional (commit.map CommitId.text)).bytes ≤ 386 := by
    cases commit with
    | none => decide
    | some commit =>
      have hle := bytes_ofString commit.text
      have hshort := commit.short
      change (JsString.ofString commit.text).bytes ≤ 386
      omega
  have hhead := hid head
  have hbase := hid base
  rw [Identity.Short]
  dsimp only
  omega

lemma short_readIndexDelta {repository : Repository} :
    (repository.readIndexDelta localeCompare fromCommit).Short := by
  rw [Repository.readIndexDelta]
  split
  · exact @short_identity none none _ (by decide)
  split
  · exact @short_identity (some _) none "rebuild" (by decide)
  split
  · exact @short_identity (some _) (some _) "incremental" (by decide)
  · exact @short_identity (some _) (some _) "diverged" (by decide)

/-- A delta that is returned is the inventory at the first request, and one is returned when every entry
fits and the child is not restarted. No line is too long, and unless the commits diverged the changes are
the paths whose blobs differ. -/
theorem readPages_inventory (localeCompare : String → String → Ordering) (fromCommit : Option CommitId)
    (events : Nat → List Event) (ids : Nat → UInt64) (child : Child) :
    let repository := ((events 0).foldl Child.after child).repository
    let delta := repository.readIndexDelta localeCompare fromCommit
    (∀ requests result, readPages localeCompare fromCommit events ids requests 0 child {}
      = some (.ok result) → result = delta) ∧
    (∀ (id : UInt64) cursor page, pageFrom delta cursor = .ok page → cursor = 0 ∨ cursor < delta.entries.length →
      (okLine id.toNat page.json).bytes ≤ maxHeadlessMessageBytes) ∧
    (¬ Restarts events → Fits delta → ∀ requests > delta.entries.length,
      readPages localeCompare fromCommit events ids requests 0 child {} = some (.ok delta)) ∧
    (∀ head target, repository.localHead = some head → repository.commits head = some target →
      if delta.mode = "diverged" then delta.files = [] ∧ delta.changes = []
      else ∀ path, (∃ change ∈ delta.changes, change.path = path) ↔
        ((fromCommit.bind repository.commits).getD ⟨[], nodup_nil⟩).get path ≠ target.get path) := by
  intro repository delta
  have hserv : Serves localeCompare fromCommit events delta 0 ((events 0).foldl Child.after child) := by
    rw [Serves, if_pos rfl]
  have hreads : Reads delta {} := ⟨.inl rfl, rfl, rfl⟩
  refine ⟨fun requests => (readPages_spec short_readIndexDelta hreads hserv).1,
    fun id cursor page h hcurs => line_fits id short_readIndexDelta h hcurs,
    fun hno hfits requests hlt => (readPages_spec short_readIndexDelta hreads hserv).2 hno hfits ?_, ?_⟩
  · exact hlt.trans_le (Nat.le_add_left _ _)
  intro head target hhead htgt
  simp only [delta, Repository.readIndexDelta, hhead, htgt, bind_some, map_some]
  cases fromCommit with
  | none => exact fun path => mem_changesBetween
  | some base =>
    simp only [bind_some]
    cases hprior : (repository.commits base).filter fun _ => repository.isAncestor base head with
    | none => exact ⟨rfl, rfl⟩
    | some prior =>
      rw [(filter_eq_some_iff.mp hprior).1]
      exact fun path => mem_changesBetween

def commitOf (text : String) (h : text ≠ "" ∧ text.utf8ByteSize ≤ 64) : CommitId := ⟨text, h.1, h.2⟩

/-- The head was moved to a commit with another note, and does not have the old one behind it. -/
def movedHead : Repository where
  localHead := commitOf "c2" (by decide)
  commits commit := some ⟨[(commit.text, "b1")], by simp⟩
  isAncestor _ _ := false

/-- No changes are listed between commits that diverged. -/
theorem diverged_without_changes : ¬ ∀ (localeCompare : String → String → Ordering) (repository : Repository)
    (base head : CommitId) (prior target : Tree), repository.localHead = some head →
    repository.commits base = some prior → repository.commits head = some target → ∀ path,
    (∃ change ∈ (repository.readIndexDelta localeCompare base).changes, change.path = path) ↔
      prior.get path ≠ target.get path := by
  intro h
  obtain ⟨change, hmem, -⟩ := (h (fun _ _ => .eq) movedHead (commitOf "c1" (by decide)) _ _ _ rfl rfl rfl "c1").mpr
    (by decide)
  cases hmem

end Runs

end IndexPages
