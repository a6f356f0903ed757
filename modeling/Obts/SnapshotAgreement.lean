import Obts.DiskWalk
import Obts.MaterialisedScan

/-!
# The bridge's view and the client's

A commit holds the files that the client's inventory finds. The bridge finds files in a walk of its own,
which goes by other rules. The two have the same paths just when every name that the bridge comes to is one
that it can read, and every file that it has a row for is one that the client syncs, with the folders
above it.
-/
namespace SnapshotAgreement

open SlashPath ClientPaths VaultInventory LocalCapture DiskWalk List Path
open Option (bind_eq_bind bind_eq_some_iff bind_some)
open MaterialisedScan (materialise notesTree tmpTree)
open PathPolicy (withSlashes withSlashes_of_not_mem)

variable {p dir : Path} {policy : Policy}

section Normalized
variable {u : SegmentNormalization} {segment text : List Char}

lemma nfc_append (front rest : List Char) : u.nfc (front ++ '/' :: rest) = u.nfc front ++ '/' :: u.nfc rest := by
  have hsplit : (u.nfc (front ++ '/' :: rest)).splitOn '/' = (u.nfc front ++ '/' :: u.nfc rest).splitOn '/' := by
    rw [u.nfc_segments, splitOn_append_cons_self, splitOn_append_cons_self, map_append,
      u.nfc_segments, u.nfc_segments]
  have hjoin := congrArg (intercalate ['/']) hsplit
  rwa [intercalate_splitOn, intercalate_splitOn] at hjoin

/-- A path below a normal folder is below it when it is normalized, too. -/
lemma normalizePath_below (hdir : Normal u dir) (hne : dir.text ≠ "") (hlt : dir < p) :
    dir < normalizePath u p := by
  obtain ⟨rest, htext, -⟩ := splitOn_of_withSlash (lt_iff.mp hlt)
  have hslas : withSlashes p.text.toList = dir.text.toList ++ '/' :: withSlashes rest := by
    rw [htext, withSlashes, map_append, map_cons]
    exact congrArg (· ++ _) (withSlashes_of_not_mem hdir.backslash)
  have hkept : ¬ ['/'] <+: dir.text.toList ++ '/' :: withSlashes rest := by
    intro hleads
    cases hd : dir.text.toList with
    | nil => exact hne (String.toList_injective (hd.trans String.toList_empty.symm))
    | cons ch text =>
      rw [hd, cons_append, cons_prefix_cons] at hleads
      exact hdir.not_absolute (hd ▸ hleads.1 ▸ ⟨text, rfl⟩)
  rw [lt_iff, normalizePath, String.toList_ofList, hslas, dropWhile_slash hkept, nfc_append, hdir.nfc,
    withSlash]
  exact ⟨u.nfc (withSlashes rest), by rw [append_assoc]; rfl⟩

lemma normal_ascii (hascii : (p.text.toList.all fun ch => ch.toNat < 0x80 && ch ≠ '\\') = true)
    (habs : ¬ ['/'] <+: p.text.toList) : Normal u p := by
  simp only [all_eq_true, Bool.and_eq_true, decide_eq_true_eq] at hascii
  exact normal_of (fun hback => (hascii _ hback).2 rfl) habs (u.nfc_ascii _ fun ch hch => (hascii ch hch).1)

lemma le_normalizePath (hdir : Normal u dir) (hne : dir.text ≠ "") (hle : dir ≤ p) : dir ≤ normalizePath u p := by
  rcases hle.lt_or_eq with hlt | rfl
  · exact (normalizePath_below hdir hne hlt).le
  · rw [show normalizePath u dir = dir from hdir]

lemma withSlashes_intercalate (pieces : List (List Char)) :
    withSlashes (['/'].intercalate pieces) = ['/'].intercalate (pieces.map withSlashes) := by
  induction pieces with
  | nil => rfl
  | cons piece pieces ih =>
    by_cases hpiec : pieces = []
    · subst hpiec
      rw [map_singleton, intercalate_singleton, intercalate_singleton]
    have hmap : pieces.map withSlashes ≠ [] := by simpa using hpiec
    rw [map_cons, intercalate_cons_of_ne_nil hpiec, intercalate_cons_of_ne_nil hmap, ← ih]
    simp [withSlashes]

lemma mem_splitOn_intercalate {pieces : List (List Char)} (hseg : segment ∈ pieces)
    (hslash : '/' ∉ segment) : segment ∈ (['/'].intercalate pieces).splitOn '/' := by
  induction pieces with
  | nil => cases hseg
  | cons piece pieces ih =>
    have hone : segment.splitOn '/' = [segment] := splitOn_eq_singleton hslash
    by_cases hpiec : pieces = []
    · subst hpiec
      obtain rfl := mem_singleton.mp hseg
      rw [intercalate_singleton, hone]
      exact mem_singleton_self segment
    rw [intercalate_cons_of_ne_nil hpiec, append_assoc, singleton_append, splitOn_append_cons_self, mem_append]
    rcases mem_cons.mp hseg with rfl | hseg
    · exact .inl (hone ▸ mem_singleton_self segment)
    · exact .inr (ih hseg)

/-- A segment without backslashes is one of the text with slashes only. -/
lemma mem_splitOn_withSlashes (hseg : segment ∈ text.splitOn '/')
    (hback : '\\' ∉ segment) : segment ∈ (withSlashes text).splitOn '/' := by
  have hmap : withSlashes text = ['/'].intercalate ((text.splitOn '/').map withSlashes) := by
    rw [← withSlashes_intercalate, intercalate_splitOn]
  rw [hmap]
  apply mem_splitOn_intercalate _ (slash_notMem_segment hseg)
  exact mem_map.mpr ⟨segment, hseg, withSlashes_of_not_mem hback⟩

lemma mem_splitOn_dropWhile (hseg : segment ∈ text.splitOn '/')
    (hne : segment ≠ []) : segment ∈ (text.dropWhile (· = '/')).splitOn '/' := by
  induction text with
  | nil => exact hseg
  | cons ch text ih =>
    by_cases hch : ch = '/'
    · subst hch
      have hsplit := splitOn_append_cons_self [] text (a := '/')
      exact ih ((mem_cons.mp hseg).resolve_left hne)
    · rwa [dropWhile_cons_of_neg (by simpa using hch)]

/-- A plain segment is one of the normalized path. -/
lemma mem_splitOn_normalizePath (hseg : segment ∈ p.text.toList.splitOn '/')
    (hne : segment ≠ []) (hascii : ∀ ch ∈ segment, ch.toNat < 0x80) (hback : '\\' ∉ segment) :
    segment ∈ (normalizePath u p).text.toList.splitOn '/' := by
  rw [normalizePath, String.toList_ofList, u.nfc_segments, mem_map]
  exact ⟨segment, mem_splitOn_dropWhile (mem_splitOn_withSlashes hseg hback) hne, u.nfc_ascii segment hascii⟩

/-- A path with a name that can be read is normalized within its folder. -/
lemma parent_normalizePath (hback : '\\' ∉ p.text.toList) (habs : ¬ ['/'] <+: p.text.toList)
    (hpar : parent p = root ∨ Normal u (parent p)) : parent (normalizePath u p) = parent p := by
  have hdepth : depth (normalizePath u p) = depth p := by
    rw [depth, depth, normalizePath, String.toList_ofList, u.nfc_segments, length_map,
      withSlashes_of_not_mem hback, dropWhile_slash habs]
  have hpos := depth_pos (parent (normalizePath u p))
  rcases parent_cases p with ⟨hnil, hroot⟩ | ⟨hlt, hp⟩
  · have hone : depth p = 1 := by
      have hlen := congrArg length hnil
      rw [directoryPrefixes, length_map, length_range', length_nil] at hlen
      have hpos' := depth_pos p
      rw [depth] at hpos' ⊢
      omega
    rcases parent_cases (normalizePath u p) with ⟨-, hroot'⟩ | ⟨-, hnorm⟩
    · exact hroot'.trans hroot.symm
    · omega
  · rcases hpar with hroot | hnorm
    · obtain ⟨rest, htext, -⟩ := splitOn_of_withSlash (lt_iff.mp hlt)
      rw [hroot] at htext
      exact absurd ⟨rest, htext.symm⟩ habs
    have hne : (parent p).text ≠ "" := by
      intro hempty
      obtain ⟨rest, htext, -⟩ := splitOn_of_withSlash (lt_iff.mp hlt)
      rw [hempty] at htext
      exact habs ⟨rest, htext.symm⟩
    obtain ⟨hle, hlt'⟩ := le_parent (normalizePath_below hnorm hne hlt)
    rcases parent_cases (normalizePath u p) with ⟨hnil, -⟩ | ⟨-, hdepth'⟩
    · exact absurd (mem_directoryPrefixes.mpr hlt') (hnil ▸ not_mem_nil)
    rcases hle.lt_or_eq with hlt'' | heq
    · have h := depth_lt hlt''
      omega
    · exact heq.symm

end Normalized

section Excluded
variable {u : SegmentNormalization}

/-- What the client syncs and has normalized. -/
structure Synced (u : SegmentNormalization) (p : Path) : Prop where
  valid : isValidVaultPath p = true
  syncable : isSyncableVaultPath u p = true

lemma Synced.normal (hp : Synced u (normalizePath u p)) : Normal u (normalizePath u p) :=
  normal_normalizePath (isValidVaultPath_iff.mp hp.valid).not_absolute

/-- The client has no use for what the bridge leaves out. -/
lemma isExcludedPath_of_synced (hp : Synced u (normalizePath u p)) : isExcludedPath p = false := by
  have hnorm := hp.normal
  have hvalid := isValidVaultPath_iff.mp hp.valid
  have hchk := hp.syncable
  simp only [isSyncableVaultPath, show normalizePath u (normalizePath u p) = normalizePath u p from hnorm,
    Bool.and_eq_true, Bool.not_eq_true', Bool.or_eq_false_iff, decide_eq_false_iff_not] at hchk
  obtain ⟨⟨⟨-, hwork, hmob⟩, hcache⟩, hplug⟩ := hchk
  have habove : ∀ dir : Path, Normal u dir → dir.text ≠ "" →
      pathsOverlapWithinRoot (normalizePath u p) dir = false → pathsOverlapWithinRoot p dir = false := by
    intro dir hdir hne hno
    rw [← Bool.not_eq_true, pathsOverlapWithinRoot_iff] at hno ⊢
    exact fun hle => hno (le_normalizePath hdir hne hle)
  have hfile : ∀ file : Path, Normal u file → (normalizePath u p).text ≠ file.text → p.text ≠ file.text := by
    intro file hfile hne htext
    obtain rfl : p = file := SlashPath.Path.ext htext
    exact hne (congrArg text hfile)
  have hobts : pathsOverlapWithinRoot (normalizePath u p) ⟨".obts"⟩ = false :=
    inObts_of_syncable hp.syncable
  have hgit : ".git".toList ∉ p.text.toList.splitOn '/' := fun hseg =>
    hvalid.not_git (mem_splitOn_normalizePath hseg (by decide) (all_iff_forall_prop.mp (by decide)) (by decide))
  simp only [isExcludedPath, Bool.or_eq_false_iff, decide_eq_false_iff_not]
  refine ⟨⟨⟨⟨⟨?_, ?_⟩, ?_⟩, ?_⟩, ?_⟩, ?_⟩
  · exact habove _ (normal_ascii (by decide) (by decide)) (by decide) hobts
  · rw [← Bool.not_eq_true, contains_iff_mem]
    exact hgit
  · exact habove _ (normal_ascii (by decide) (by decide)) (by decide) hcache
  · exact hfile ⟨".obsidian/workspace.json"⟩ (normal_ascii (by decide) (by decide)) hwork
  · exact hfile ⟨".obsidian/workspace-mobile.json"⟩ (normal_ascii (by decide) (by decide)) hmob
  · exact habove _ (normal_ascii (by decide) (by decide)) (by decide) hplug

end Excluded

/-- The two packages read the same rules alike: a path is ignored when a rule matches it or a folder above
it. -/
def SameRules (u : SegmentNormalization) (rules : IgnoreRules) (crate : GitignoreBuilder) : Prop :=
  ∀ contents matcher, crate.build (lines (dropByteOrderMark contents)) = some matcher →
    ∀ p isDirectory, isCanonicalPath p = true →
      rules.ignores contents (u.nfc p.text.toList ++ if isDirectory then ['/'] else [])
        = matchesAlong matcher isDirectory [] ((u.nfc p.text.toList).splitOn '/')

section Policies
variable {u : SegmentNormalization} {rules : IgnoreRules} {crate : GitignoreBuilder}
  {hashes : Hashes} {disk : Disk} {matcher : List Char → Bool → Bool} {isDirectory : Bool}

lemma rulesPolicy_eq (hrules : SameRules u rules crate) {contents : List Char}
    (hbuild : crate.build (lines (dropByteOrderMark contents)) = some matcher) :
    rulesPolicy u rules contents = ignores u matcher := by
  funext p isDirectory
  simp only [rulesPolicy, ignores]
  cases hp : isCanonicalPath p with
  | false => rfl
  | true =>
    rw [hrules contents matcher hbuild p isDirectory hp]

/-- The client and the bridge go by one policy. -/
lemma policy_eq (hrules : SameRules u rules crate) {rootPolicy : RootPolicy}
    (hread : readRootIgnorePolicy u rules hashes disk = some rootPolicy)
    (hbr : readPolicy u crate disk = some policy) :
    rootPolicy.policy = policy ∧ (∃ contents, policy = rulesPolicy u rules contents) ∧
      ∃ matcher, policy = ignores u matcher := by
  obtain ⟨bytes, hbytes, hread⟩ := bind_eq_some_iff.mp hread
  obtain ⟨clients, hcli, hread⟩ := bind_eq_some_iff.mp hread
  cases hread
  obtain ⟨bytes', hbytes', hbr⟩ := bind_eq_some_iff.mp hbr
  cases hbytes.symm.trans hbytes'
  have hsame : ∀ contents matcher, crate.build (lines (dropByteOrderMark contents)) = some matcher →
      clients = rulesPolicy u rules contents → policy = ignores u matcher →
      clients = policy ∧ (∃ contents, policy = rulesPolicy u rules contents) ∧
        ∃ matcher, policy = ignores u matcher := by
    rintro contents matcher hbuild rfl rfl
    have heq := rulesPolicy_eq hrules hbuild
    exact ⟨heq, ⟨contents, heq.symm⟩, matcher, rfl⟩
  cases bytes with
  | none =>
    obtain ⟨matcher, hbuild, hpol⟩ := Option.map_eq_some_iff.mp hbr
    exact hsame [] matcher hbuild (Option.some.inj hcli).symm hpol.symm
  | some bytes =>
    rw [createRootIgnorePolicy] at hcli
    rw [fromBytes] at hbr
    split at hcli
    · cases hcli
    rename_i hsize
    rw [if_neg hsize] at hbr
    obtain ⟨contents, hdec, hcli⟩ := bind_eq_some_iff.mp hcli
    obtain ⟨contents', hdec', hbr⟩ := bind_eq_some_iff.mp hbr
    cases hdec.symm.trans hdec'
    split at hcli
    · cases hcli
    rename_i hnul
    rw [if_neg hnul] at hbr
    obtain ⟨matcher, hbuild, hpol⟩ := Option.map_eq_some_iff.mp hbr
    exact hsame contents matcher hbuild (Option.some.inj hcli).symm hpol.symm

lemma matchesAlong_append {front : List Char} {parts more : List (List Char)}
    (h : matchesAlong matcher true front parts) (hmore : more ≠ []) :
    matchesAlong matcher isDirectory front (parts ++ more) := by
  induction parts generalizing front with
  | nil => cases h
  | cons part parts ih =>
    have hdir : (!(parts ++ more).isEmpty || isDirectory) = true := by
      simp [hmore]
    rw [matchesAlong, Bool.or_true, Bool.or_eq_true] at h
    rw [cons_append, matchesAlong, hdir, Bool.or_eq_true]
    rcases h with hhere | hbelow
    · exact .inl hhere
    · exact .inr (ih hbelow)

/-- What is in an ignored folder is ignored. -/
lemma ignores_below (hdir : ignores u matcher dir true = some true)
    (hlt : dir < p) (hp : isCanonicalPath p) : ignores u matcher p isDirectory = some true := by
  obtain ⟨rest, htext, -⟩ := splitOn_of_withSlash (lt_iff.mp hlt)
  have hnfc : u.nfc p.text.toList = u.nfc dir.text.toList ++ '/' :: u.nfc rest := by
    rw [htext, nfc_append]
  have hother : u.nfc p.text.toList ≠ rootIgnorePath.text.toList := by
    intro hroot
    have hslash : '/' ∈ rootIgnorePath.text.toList := by
      rw [← hroot, hnfc]
      exact mem_append_right _ mem_cons_self
    exact absurd hslash (by decide)
  simp only [ignores] at hdir
  split at hdir
  · cases hdir
  split at hdir
  · cases hdir
  simp only [ignores, hp, Bool.not_true, Bool.false_eq_true, if_false, if_neg hother]
  rw [hnfc, splitOn_append_cons_self]
  exact congrArg some (matchesAlong_append (Option.some.inj hdir) (splitOn_ne_nil '/' _))

variable (u matcher) in
lemma exists_ignores (hp : isCanonicalPath p) (isDirectory : Bool) :
    ∃ ignored, ignores u matcher p isDirectory = some ignored := by
  simp only [ignores, hp, Bool.not_true, Bool.false_eq_true, if_false]
  split
  · exact ⟨_, rfl⟩
  · exact ⟨_, rfl⟩

lemma canonical_of_ignores {ignored : Bool}
    (h : ignores u matcher p isDirectory = some ignored) : isCanonicalPath p := by
  by_contra hp
  simp only [ignores, Bool.not_eq_true _ ▸ hp, Bool.not_false, if_true] at h
  cases h

end Policies

section Views
variable {u : SegmentNormalization} {disk : Disk} {undecodable : Path → Bool}

variable (disk undecodable) in
/-- The names that the bridge comes to are ones that it can read. -/
structure Legible (policy : Policy) : Prop where
  decodable : ∀ dir, Walked disk policy dir → undecodable dir = false
  canonical : ∀ p, p ∈ disk.files.paths ∨ p ∈ disk.folders → Walked disk policy (parent p) →
    isExcludedPath p = false → isCanonicalPath p = true

variable (u disk undecodable) in
/-- The files that the bridge has rows for are synced with the folders above them. -/
structure Agreeable (policy : Policy) : Prop extends Legible disk undecodable policy where
  synced : ∀ p ∈ disk.files.paths, Walked disk policy (parent p) → skips policy p false = some false →
    isSupportedPath p = true → Normal u p ∧ ∀ q ≤ p, isSyncableVaultPath u q = true

lemma synced_of_visited (h : Visited u disk dir) : dir = root ∨ Normal u dir ∧ Synced u dir := by
  cases h with
  | start => exact .inl rfl
  | folder hpar hdir hvalid hsync =>
    have hsyn : Synced u (normalizePath u _) := ⟨hvalid, hsync⟩
    exact .inr ⟨hsyn.normal, hsyn⟩

lemma ne_empty_of_valid (hp : isValidVaultPath p) : p.text ≠ "" := by
  intro hempty
  apply (isValidVaultPath_iff.mp hp).ne_nil
  rw [hempty]
  rfl

lemma not_root_lt (hp : isValidVaultPath p) : ¬ root < p := by
  intro hlt
  obtain ⟨rest, htext, -⟩ := splitOn_of_withSlash (lt_iff.mp hlt)
  exact (isValidVaultPath_iff.mp hp).not_absolute ⟨rest, htext.symm⟩

/-- A folder that the client has visited lies above the normalized path of what stands in it. -/
lemma below_of_visited (h : Visited u disk (parent p)) (hdir : dir ≤ parent p) :
    dir = root ∨ dir < normalizePath u p := by
  rcases synced_of_visited h with hroot | ⟨hnorm, hsyn⟩
  · refine .inl (SlashPath.Path.ext ?_)
    by_contra hne
    exact not_le_root hne (hroot ▸ hdir)
  right
  have hne := ne_empty_of_valid hsyn.valid
  rcases parent_cases p with ⟨-, hroot⟩ | ⟨hlt, -⟩
  · exact absurd (congrArg text hroot) hne
  · exact lt_of_le_of_lt hdir (normalizePath_below hnorm hne hlt)

section Rules
variable {matcher : List Char → Bool → Bool}

/-- What the client syncs in a folder that both come to stands in it when it is normalized. -/
lemma Legible.entry (h : Legible disk undecodable (ignores u matcher))
    (hp : p ∈ disk.files.paths ∨ p ∈ disk.folders) (hwlk : Walked disk (ignores u matcher) (parent p))
    (hvis : Visited u disk (parent p)) (hsyn : Synced u (normalizePath u p)) :
    parent (normalizePath u p) = parent p := by
  have hcan := h.canonical p hp hwlk (isExcludedPath_of_synced hsyn)
  have hback : '\\' ∉ p.text.toList ∧ ¬ ['/'] <+: p.text.toList := by
    simp only [isCanonicalPath, Bool.not_eq_true', ← Bool.not_eq_true, Bool.or_eq_true, not_or,
      isPrefixOf_iff_prefix, contains_iff_mem] at hcan
    exact ⟨hcan.1.1.1.2, hcan.1.1.1.1.2⟩
  refine parent_normalizePath hback.1 hback.2 ?_
  rcases synced_of_visited hvis with hroot | ⟨hnorm, -⟩
  · exact .inl hroot
  · exact .inr hnorm

/-- The walk has all its answers just when the names can be read. -/
lemma legible_iff : Walkable disk undecodable (ignores u matcher) ↔ Legible disk undecodable (ignores u matcher) := by
  constructor
  · intro h
    refine ⟨fun dir hdir => (h dir hdir).decodable, fun p hp hwlk hexcl => ?_⟩
    obtain ⟨isDirectory, skipped, hskips⟩ : ∃ isDirectory skipped,
        skips (ignores u matcher) p isDirectory = some skipped := by
      rcases hp with hfile | hfold
      · exact ⟨false, (h _ hwlk).files p hfile rfl⟩
      · exact ⟨true, (h _ hwlk).folders p hfold rfl⟩
    rw [skips, hexcl, if_neg Bool.false_ne_true] at hskips
    exact canonical_of_ignores hskips
  · intro h dir hdir
    have hans : ∀ p, p ∈ disk.files.paths ∨ p ∈ disk.folders → parent p = dir → ∀ isDirectory,
        ∃ skipped, skips (ignores u matcher) p isDirectory = some skipped := by
      intro p hp hpar isDirectory
      rw [skips]
      cases hexcl : isExcludedPath p with
      | true => exact ⟨true, rfl⟩
      | false => exact exists_ignores u matcher (h.canonical p hp (hpar ▸ hdir) hexcl) isDirectory
    constructor
    · exact h.decodable dir hdir
    · rcases Relation.ReflTransGen.cases_tail hdir with hroot | ⟨above, -, hgoes⟩
      · exact .inl hroot
      · exact .inr hgoes.1
    · exact fun p hp hpar => hans p (.inl hp) hpar false
    · exact fun p hp hpar => hans p (.inr hp) hpar true

/-- Where nothing is ignored, the bridge walks what the client visits. -/
lemma Legible.walked (h : Legible disk undecodable (ignores u matcher)) (hrdb : Readable u disk)
    (hdir : Visited u disk dir) (hkept : ∀ q ≤ dir, ignores u matcher q true ≠ some true) :
    Walked disk (ignores u matcher) dir ∧ ∀ q ≤ dir, q = root ∨ isSyncableVaultPath u q := by
  induction hdir with
  | start =>
    refine ⟨.refl, fun q hq => .inl (SlashPath.Path.ext ?_)⟩
    by_contra hne
    exact not_le_root hne hq
  | @folder folder hpar hfold hvalid hsync ih =>
    have hsyn : Synced u (normalizePath u folder) := ⟨hvalid, hsync⟩
    have habove : ∀ q ≤ parent folder, ignores u matcher q true ≠ some true := by
      intro q hq
      rcases below_of_visited hpar hq with rfl | hlt
      · intro hno
        cases hno
      · exact hkept q hlt.le
    obtain ⟨hwlk, hsyncables⟩ := ih habove
    have hsame := h.entry (.inr hfold) hwlk hpar hsyn
    have hvis : Visited u disk (normalizePath u folder) := .folder hpar hfold hvalid hsync
    have hthere := (hrdb.listed _ hvis).resolve_left fun hroot =>
      ne_empty_of_valid hvalid (congrArg text hroot)
    have hnorm := hsyn.normal
    have hself : Synced u (normalizePath u (normalizePath u folder)) := by
      rwa [show normalizePath u (normalizePath u folder) = normalizePath u folder from hnorm]
    have hskips : skips (ignores u matcher) (normalizePath u folder) true = some false := by
      refine skips_eq_false.mpr ⟨isExcludedPath_of_synced hself, ?_⟩
      obtain ⟨ignored, hign⟩ := exists_ignores u matcher (isCanonicalPath_of_valid hnorm hvalid) true
      have hno := hkept _ le_rfl
      cases ignored with
      | true => exact absurd hign hno
      | false => exact hign
    refine ⟨hwlk.tail ⟨hthere, hsame, hskips⟩, fun q hq => ?_⟩
    rcases hq.lt_or_eq with hlt | rfl
    · exact hsyncables q (hsame ▸ (le_parent hlt).1)
    · exact .inr hsync

/-- A file that is synced with the folders above it is found. -/
lemma found_of_synced (hp : p ∈ disk.files.paths) (hnorm : Normal u p)
    (hsyn : ∀ q ≤ p, isSyncableVaultPath u q) : Found u disk p := by
  have hvalid : isValidVaultPath p = true := hnorm ▸ isSyncableVaultPath_valid (hsyn p le_rfl)
  have habove : ∀ n, ∀ q, depth q = n → q < p → Visited u disk q := by
    intro n
    induction n using Nat.strong_induction_on with
    | _ n ih =>
      intro q hdepth hlt
      have hqval := (isValidVaultPath_iff.mp hvalid).folder hlt
      have hqnor := hnorm.folder hqval hlt
      have hqsyn : Synced u q := ⟨isValidVaultPath_iff.mpr hqval, hsyn q hlt.le⟩
      have hpar : Visited u disk (parent q) := by
        rcases parent_cases q with ⟨-, hroot⟩ | ⟨hbelow, hdepth'⟩
        · exact hroot ▸ .start
        · exact ih (depth (parent q)) (by omega) (parent q) rfl (hbelow.trans hlt)
      have hvis : Visited u disk (normalizePath u q) := .folder hpar (disk.closed p (.inl hp) q hlt)
        (hqnor.symm ▸ hqsyn.valid) (hqnor.symm ▸ hqsyn.syncable)
      rwa [hqnor] at hvis
  refine ⟨p, hp, ?_, hnorm⟩
  rcases parent_cases p with ⟨-, hroot⟩ | ⟨hbelow, -⟩
  · exact hroot ▸ .start
  · exact habove _ (parent p) rfl hbelow

end Rules

end Views

section Commits
variable {u : SegmentNormalization} {matcher : List Char → Bool → Bool}

lemma normalizeRelativePath_of_valid (hp : isValidVaultPath p) : normalizeRelativePath p = some p := by
  have hvalid := isValidVaultPath_iff.mp hp
  have hparts : (p.text.toList.splitOn '/').filter (fun segment => segment ≠ [] && segment ≠ ['.'])
      = p.text.toList.splitOn '/' := by
    refine filter_eq_self.mpr fun segment hseg => ?_
    obtain ⟨hempty, hdot, -⟩ := hvalid.segments segment hseg
    simp [hempty, hdot]
  have hfirst : (p.text.toList.splitOn '/').head? ≠ some ['.'] := fun hhead =>
    (hvalid.segments _ (mem_of_head? hhead)).2.1 rfl
  have hup : ['.', '.'] ∉ p.text.toList.splitOn '/' := fun hmem => (hvalid.segments _ hmem).2.2 rfl
  simp only [normalizeRelativePath, hparts]
  rw [if_neg]
  · exact congrArg some (joinSegments_segments p)
  · simp only [Bool.or_eq_true, decide_eq_true_eq, isPrefixOf_iff_prefix, contains_iff_mem, not_or]
    exact ⟨⟨⟨hvalid.not_absolute, hfirst⟩, hup⟩, splitOn_ne_nil '/' _⟩

/-- A file of a commit that the client can have written. -/
structure Written (u : SegmentNormalization) (file : IndexFile) : Prop where
  normal : Normal u file.path
  valid : isValidVaultPath file.path = true
  oid : validateCommitId file.oid = true

variable (u matcher) in
/-- The paths of a commit that have rows. -/
def Kept (p : Path) : Prop :=
  isSupportedPath p = true ∧ skips (ignores u matcher) p false = some false

variable (matcher) in
lemma targetFile_eq {file : IndexFile} (hfile : Written u file) :
    ∃ kept, targetFile (ignores u matcher) file = some kept ∧
      (kept = some file ∧ Kept u matcher file.path ∨ kept = none ∧ ¬ Kept u matcher file.path) := by
  rw [targetFile, normalizeRelativePath_of_valid hfile.valid, bind_eq_bind, bind_some, Kept, skips_eq_false]
  obtain ⟨ignored, hign⟩ := exists_ignores u matcher (isCanonicalPath_of_valid hfile.normal hfile.valid) false
  cases isSupportedPath file.path with
  | false => exact ⟨none, rfl, .inr ⟨rfl, fun hkept => nomatch hkept.1⟩⟩
  | true =>
    cases isExcludedPath file.path with
    | true => exact ⟨none, rfl, .inr ⟨rfl, fun hkept => nomatch hkept.2.1⟩⟩
    | false =>
      rw [hign]
      cases ignored with
      | true => exact ⟨none, rfl, .inr ⟨rfl, fun hkept => nomatch hkept.2.2⟩⟩
      | false =>
        refine ⟨some file, ?_, .inl ⟨rfl, rfl, rfl, rfl⟩⟩
        simp [hfile.oid]

variable (matcher) in
lemma exists_target {head : List IndexFile} (hnodup : (head.map IndexFile.path).Nodup)
    (hfiles : ∀ file ∈ head, Written u file) : ∃ target, targetManifest (ignores u matcher) head = some target ∧
      ∀ p, p ∈ target.map IndexFile.path ↔ p ∈ head.map IndexFile.path ∧ Kept u matcher p := by
  induction head with
  | nil => exact ⟨[], rfl, by simp⟩
  | cons file head ih =>
    rw [map_cons, nodup_cons] at hnodup
    obtain ⟨rest, hrest, hmem⟩ := ih hnodup.2 fun file hfile => hfiles file (mem_cons_of_mem _ hfile)
    obtain ⟨kept, hkept, hcases⟩ := targetFile_eq matcher (hfiles file mem_cons_self)
    rcases hcases with ⟨rfl, hyes⟩ | ⟨rfl, hno⟩
    · refine ⟨file :: rest, ?_, fun p => ?_⟩
      · have hfresh : (rest.map IndexFile.path).contains file.path = false := by
          rw [← Bool.not_eq_true, contains_iff_mem, hmem]
          exact fun hin => hnodup.1 hin.1
        simp only [targetManifest, hkept, hrest, bind_eq_bind, bind_some, hfresh, Bool.false_eq_true, if_false]
      · rw [map_cons, map_cons, mem_cons, mem_cons, hmem]
        constructor
        · rintro (rfl | ⟨hin, hp⟩)
          · exact ⟨.inl rfl, hyes⟩
          · exact ⟨.inr hin, hp⟩
        rintro ⟨rfl | hin, hp⟩
        · exact .inl rfl
        · exact .inr ⟨hin, hp⟩
    · refine ⟨rest, ?_, fun p => ?_⟩
      · simp [targetManifest, hkept, hrest]
      rw [map_cons, mem_cons, hmem]
      constructor
      · exact fun ⟨hin, hp⟩ => ⟨.inr hin, hp⟩
      rintro ⟨rfl | hin, hp⟩
      · exact absurd hp hno
      · exact ⟨hin, hp⟩

/-- The commit holds the files of the inventory, as they are on disk. -/
structure Holds (hashes : Hashes) (disk : Disk) (files : List Path) (head : List IndexFile) : Prop where
  nodup : (head.map IndexFile.path).Nodup
  paths : ∀ p, p ∈ head.map IndexFile.path ↔ p ∈ files
  bytes : ∀ file ∈ head, ∃ content, disk.files.get file.path = some content ∧ file.oid = hashes.blob content

lemma checkSnapshot_eq_some {disk : Disk} {undecodable : Path → Bool} {head target : List IndexFile}
    (htgt : targetManifest policy head = some target) : checkSnapshot policy disk undecodable head = some true ↔
      ∃ listed, listRootMetadata disk undecodable policy = some listed ∧
        ∀ p, p ∈ listed ↔ p ∈ target.map IndexFile.path := by
  have hsame : ∀ listed paths : List Path, (listed.all paths.contains && paths.all listed.contains) = true ↔
      ∀ p, p ∈ listed ↔ p ∈ paths := by
    intro listed paths
    simp only [Bool.and_eq_true, all_eq_true, contains_iff_mem]
    exact ⟨fun h p => ⟨h.1 p, h.2 p⟩, fun h => ⟨fun p => (h p).mp, fun p => (h p).mpr⟩⟩
  rw [checkSnapshot, htgt, bind_eq_bind, bind_some, bind_eq_bind, bind_eq_some_iff]
  constructor
  · rintro ⟨listed, hlst, h⟩
    exact ⟨listed, hlst, (hsame _ _).mp (Option.some.inj h)⟩
  · rintro ⟨listed, hlst, h⟩
    exact ⟨listed, hlst, congrArg some ((hsame _ _).mpr h)⟩

end Commits

section Agreement
variable {u : SegmentNormalization} {rules : IgnoreRules} {crate : GitignoreBuilder}
  {hashes : Hashes} {disk : Disk} {undecodable : Path → Bool} {matcher : List Char → Bool → Bool}
  {files : List Path} {head : List IndexFile}

lemma kept_above (hkept : ignores u matcher p false = some false) {q : Path} (hlt : q < p) :
    ignores u matcher q true ≠ some true := by
  intro hign
  rw [ignores_below hign hlt (canonical_of_ignores hkept)] at hkept
  cases hkept

/-- A file that the client finds and the bridge keeps stands in a folder that the bridge walks. -/
lemma Legible.found (h : Legible disk undecodable (ignores u matcher)) (hrdb : Readable u disk)
    (hfound : Found u disk p) (hsync : isSyncableVaultPath u p)
    (hvalid : isValidVaultPath p) (hkept : ignores u matcher p false = some false) :
    Walked disk (ignores u matcher) (parent p) ∧ ∀ q ≤ p, isSyncableVaultPath u q := by
  obtain ⟨file, hfile, hvis, rfl⟩ := hfound
  have hsynced : Synced u (normalizePath u file) := ⟨hvalid, hsync⟩
  have habove : ∀ q ≤ parent file, ignores u matcher q true ≠ some true := by
    intro q hq
    rcases below_of_visited hvis hq with rfl | hlt
    · intro hno
      cases hno
    · exact kept_above hkept hlt
  obtain ⟨hwlk, hsyn⟩ := h.walked hrdb hvis habove
  have hpar := h.entry (.inl hfile) hwlk hvis hsynced
  refine ⟨hpar ▸ hwlk, fun q hq => ?_⟩
  rcases hq.lt_or_eq with hlt | rfl
  · refine (hsyn q (hpar ▸ (le_parent hlt).1)).resolve_left ?_
    rintro rfl
    exact not_root_lt hvalid hlt
  · exact hsync

/-- A full reconcile of a vault that is synced goes on just when the names on disk allow for it. -/
theorem checkSnapshot_iff (hrules : SameRules u rules crate)
    (hids : ∀ bytes, validateCommitId (hashes.blob bytes) = true)
    {rootPolicy : RootPolicy} (hread : readRootIgnorePolicy u rules hashes disk = some rootPolicy)
    {policy : Policy} (hbridge : readPolicy u crate disk = some policy)
    (hscan : scanSyncableFiles u disk (some rootPolicy.policy) = some files)
    (hhead : Holds hashes disk files head) :
    checkSnapshot policy disk undecodable head = some true ↔ Agreeable u disk undecodable policy := by
  obtain ⟨rfl, ⟨contents, hcont⟩, matcher, hmatc⟩ := policy_eq hrules hread hbridge
  have hansw : Answers u (some rootPolicy.policy) := hcont ▸ answers_rulesPolicy contents
  have hrdb := (exists_scanSyncableFiles_iff hansw).mp ⟨files, hscan⟩
  rw [hmatc] at hscan ⊢
  obtain ⟨-, hfiles⟩ := scanSyncableFiles_spec hscan
  have hwr : ∀ file ∈ head, Written u file := by
    intro file hfile
    obtain ⟨content, -, hoid⟩ := hhead.bytes file hfile
    obtain ⟨hnorm, hvalid⟩ := mem_scanSyncableFiles hscan ((hhead.paths _).mp (mem_map_of_mem hfile))
    exact ⟨hnorm, hvalid, hoid ▸ hids content⟩
  obtain ⟨target, htgt, hpaths⟩ := exists_target matcher hhead.nodup hwr
  rw [checkSnapshot_eq_some htgt]
  constructor
  · rintro ⟨listed, hlst, hsame⟩
    have hleg := legible_iff.mp (exists_list_iff.mp ⟨listed, hlst⟩)
    refine ⟨hleg, fun p hp hwlk hskips hsupp => ?_⟩
    have hlist := (mem_list hlst).mpr ⟨hp, hwlk, hskips, hsupp⟩
    obtain ⟨hin, -⟩ := (hpaths p).mp ((hsame p).mp hlist)
    have hmem := (hhead.paths p).mp hin
    obtain ⟨hnorm, hvalid⟩ := mem_scanSyncableFiles hscan hmem
    obtain ⟨hfound, hsync, hkept⟩ := (hfiles p).mp hmem
    exact ⟨hnorm, (hleg.found hrdb hfound hsync hvalid hkept).2⟩
  · intro h
    obtain ⟨listed, hlst⟩ := exists_list_iff.mpr (legible_iff.mpr h.toLegible)
    refine ⟨listed, hlst, fun p => ?_⟩
    rw [mem_list hlst, hpaths, hhead.paths]
    constructor
    · rintro ⟨hp, hwlk, hskips, hsupp⟩
      obtain ⟨hnorm, hsyn⟩ := h.synced p hp hwlk hskips hsupp
      have hmem := (hfiles p).mpr ⟨found_of_synced hp hnorm hsyn, hsyn p le_rfl, (skips_eq_false.mp hskips).2⟩
      exact ⟨hmem, hsupp, hskips⟩
    · rintro ⟨hmem, hsupp, hskips⟩
      obtain ⟨-, hvalid⟩ := mem_scanSyncableFiles hscan hmem
      obtain ⟨hfound, hsync, hkept⟩ := (hfiles p).mp hmem
      obtain ⟨file, hfile, hpath⟩ := mem_map.mp ((hhead.paths p).mpr hmem)
      obtain ⟨content, hcon, -⟩ := hhead.bytes file hfile
      have hp : p ∈ disk.files.paths := by
        rw [← hpath]
        exact FileTrees.FileTree.mem_paths.mpr (hcon ▸ Option.some_ne_none content)
      exact ⟨hp, (h.toLegible.found hrdb hfound hsync hvalid hkept).1, hskips, hsupp⟩

end Agreement

/-- No rules, and matchers to go with them. -/
def noRules : IgnoreRules := { ignores := fun _ _ => false }

def noGlobs : GitignoreBuilder := { build := fun _ => some fun _ _ => false }

def sampleHashes : Hashes :=
  { blob := fun _ => "e69de29bb2d1d6434b8b29ae775ad8c2e48c5391", tree := fun _ => "tree" }

lemma sameRules_none (u : SegmentNormalization) : SameRules u noRules noGlobs := by
  intro contents matcher hbuild p isDirectory _
  cases hbuild
  have hnone : ∀ parts front, matchesAlong (fun _ _ => false) isDirectory front parts = false := by
    intro parts
    induction parts with
    | nil => exact fun _ => rfl
    | cons part parts ih => exact fun front => ih _
  exact (hnone _ _).symm

lemma sampleHashes_valid (bytes : List UInt8) : validateCommitId (sampleHashes.blob bytes) := by
  have hoid : validateCommitId "e69de29bb2d1d6434b8b29ae775ad8c2e48c5391" = true := by decide
  exact hoid

/-- A note in a folder with an ordinary name. -/
theorem notes_agreeable : Agreeable asciiSegmentNormalization (materialise notesTree (by decide)) (fun _ => false)
      (ignores asciiSegmentNormalization fun _ _ => false) := by
  have hhead : Holds sampleHashes (materialise notesTree (by decide)) [⟨"notes/a.md"⟩]
      [⟨⟨"notes/a.md"⟩, sampleHashes.blob [104]⟩] := by
    refine ⟨by decide, by simp, fun file hfile => ⟨[104], ?_, ?_⟩⟩
    · rw [mem_singleton.mp hfile]
      rfl
    · rw [mem_singleton.mp hfile]
  exact (checkSnapshot_iff (sameRules_none _) sampleHashes_valid rfl rfl (by decide) hhead).mp rfl

/-- The client passes over a folder with the name of a temporary file, and the bridge walks it. -/
theorem tmpFolder_mismatch :
    ¬ ∀ (u : SegmentNormalization) (rules : IgnoreRules) (crate : GitignoreBuilder) (hashes : Hashes) (disk : Disk)
      (undecodable : Path → Bool) (rootPolicy : RootPolicy) (policy : Policy) (files : List Path)
      (head : List IndexFile), SameRules u rules crate → (∀ bytes, validateCommitId (hashes.blob bytes) = true) →
      readRootIgnorePolicy u rules hashes disk = some rootPolicy → readPolicy u crate disk = some policy →
      scanSyncableFiles u disk (some rootPolicy.policy) = some files → Holds hashes disk files head →
      checkSnapshot policy disk undecodable head = some true := by
  intro hclaim
  have hhead : Holds sampleHashes (materialise tmpTree (by decide)) [] [] :=
    ⟨by decide, by simp, fun file hfile => nomatch hfile⟩
  have hcheck := hclaim asciiSegmentNormalization noRules noGlobs sampleHashes (materialise tmpTree (by decide))
    (fun _ => false) _ _ [] [] (sameRules_none _) sampleHashes_valid rfl rfl (by decide) hhead
  have hmism : checkSnapshot (ignores asciiSegmentNormalization fun _ _ => false)
      (materialise tmpTree (by decide)) (fun _ => false) [] = some false := rfl
  exact absurd (hcheck.symm.trans hmism) (by decide)

end SnapshotAgreement
