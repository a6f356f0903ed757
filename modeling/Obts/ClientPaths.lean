import Mathlib.Data.Bool.AllAny
import Obts.PathPolicy

/-!
# Paths in the client

The client's own path policy. It normalizes a path before it judges it, and it judges a path by the
whole text and its last segment. A path that the server admits and that is in the client's normal form
is one that the client syncs too, unless it begins with a dot segment.
-/
namespace ClientPaths

open SlashPath PathPolicy List

/-- What the client relies on beyond the shared policy: segments are normalized one by one, and
ASCII is normal. -/
structure SegmentNormalization extends Normalization where
  nfc_segments : ∀ text, (nfc text).splitOn '/' = (text.splitOn '/').map nfc
  nfc_ascii : ∀ text : List Char, (∀ ch ∈ text, ch.toNat < 0x80) → nfc text = text

/-- Normalization of texts in which every character is ASCII. -/
def asciiSegmentNormalization : SegmentNormalization where
  toNormalization := asciiNormalization
  nfc_segments text := (List.map_id (text.splitOn '/')).symm
  nfc_ascii _ _ := rfl

variable (u : SegmentNormalization) {p d q : Path} {text : List Char} (filePath : Path)

def normalizePath : Path :=
  ⟨String.ofList (u.nfc ((withSlashes filePath.text.toList).dropWhile (· = '/')))⟩

def isValidVaultPath : Bool :=
  let text := filePath.text.toList
  !(text = [] || ['.', '.', '/'].isPrefixOf text || ['/'].isPrefixOf text || hasDrivePrefix text) &&
  !(text.any isControl || utf16Length text > 4096) &&
  let segments := text.splitOn '/'
  !(segments.any fun segment => segment = [] || segment = ['.'] || segment = ['.', '.']) &&
  (segments.head? ≠ some ".obts".toList && !segments.contains ".git".toList)

def isOsOrEditorMetadata : Bool :=
  let last := (filePath.text.toList.splitOn '/').getLastD []
  let basename := if last = [] then filePath.text.toList else last
  basename = ".DS_Store".toList || basename = "Thumbs.db".toList || ['~'].isSuffixOf basename ||
    ".swp".toList.isSuffixOf basename || ".tmp".toList.isSuffixOf basename

def isSyncableVaultPath : Bool :=
  let normalized := normalizePath u filePath
  isValidVaultPath normalized && !isOsOrEditorMetadata normalized &&
    !(normalized.text = ".obsidian/workspace.json" || normalized.text = ".obsidian/workspace-mobile.json") &&
    !pathsOverlapWithinRoot normalized ⟨".obsidian/cache"⟩ &&
    !pathsOverlapWithinRoot normalized ⟨".obsidian/plugins/obts"⟩

/-- The client's own state in the vault. -/
def inObts : Bool := pathsOverlapWithinRoot filePath ⟨".obts"⟩

/-- A path as the client writes it. -/
def Normal : Prop := normalizePath u filePath = filePath

instance (filePath : Path) : Decidable (Normal u filePath) :=
  inferInstanceAs (Decidable (_ = _))

/-- The checks, one by one. -/
structure Valid (text : List Char) : Prop where
  ne_nil : text ≠ []
  not_up : ¬ ['.', '.', '/'] <+: text
  not_absolute : ¬ ['/'] <+: text
  not_drive : ¬ hasDrivePrefix text = true
  no_control : ∀ ch ∈ text, ¬ isControl ch = true
  short : utf16Length text ≤ 4096
  segments : ∀ segment ∈ text.splitOn '/', segment ≠ [] ∧ segment ≠ ['.'] ∧ segment ≠ ['.', '.']
  not_obts : (text.splitOn '/').head? ≠ some ".obts".toList
  not_git : ".git".toList ∉ text.splitOn '/'

lemma isValidVaultPath_iff {filePath : Path} : isValidVaultPath filePath ↔ Valid filePath.text.toList := by
  simp only [isValidVaultPath, Bool.and_eq_true, Bool.not_eq_true', ← Bool.not_eq_true,
    Bool.or_eq_true, not_or, decide_eq_true_eq, any_eq_true, contains_eq_mem,
    isPrefixOf_iff_prefix, not_lt, not_exists, not_and]
  constructor
  · rintro ⟨⟨⟨⟨⟨hne, hup⟩, habs⟩, hdrive⟩, hctl, hshort⟩, hsegs, hobts, hgit⟩
    exact ⟨hne, hup, habs, hdrive, hctl, hshort, fun segment hseg => and_assoc.mp (hsegs segment hseg), hobts, hgit⟩
  intro h
  exact ⟨⟨⟨⟨⟨h.ne_nil, h.not_up⟩, h.not_absolute⟩, h.not_drive⟩, h.no_control, h.short⟩,
    fun segment hseg => and_assoc.mpr (h.segments segment hseg), h.not_obts, h.not_git⟩

lemma hasDrivePrefix_append (h : hasDrivePrefix text) (rest : List Char) : hasDrivePrefix (text ++ rest) := by
  simp only [hasDrivePrefix] at h
  split at h
  · exact h
  · cases h

/-- The segments of a folder are the first ones of what stands in it. -/
lemma splitOn_of_withSlash (h : d.withSlash <+: text) : ∃ rest, text = d.text.toList ++ '/' :: rest ∧
      text.splitOn '/' = d.text.toList.splitOn '/' ++ rest.splitOn '/' := by
  obtain ⟨rest, hrest⟩ := h
  refine ⟨rest, ?_, ?_⟩
  · rw [← hrest, Path.withSlash, append_assoc]
    rfl
  · rw [← hrest, Path.withSlash, append_assoc, singleton_append, splitOn_append_cons_self]

/-- The folders above a valid path are valid. -/
lemma Valid.folder (hp : Valid p.text.toList) (hlt : d < p) : Valid d.text.toList := by
  obtain ⟨rest, htext, hsplit⟩ := splitOn_of_withSlash (Path.lt_iff.mp hlt)
  have hleads : d.text.toList <+: p.text.toList := htext ▸ prefix_append _ _
  have hseg : ∀ segment ∈ d.text.toList.splitOn '/', segment ∈ p.text.toList.splitOn '/' :=
    fun segment hseg => hsplit ▸ mem_append_left _ hseg
  have hne : d.text.toList ≠ [] := by
    intro hnil
    have hempty : [] ∈ d.text.toList.splitOn '/' := by
      rw [hnil]
      exact mem_singleton_self []
    exact (hp.segments [] (hseg [] hempty)).1 rfl
  have hhead : (p.text.toList.splitOn '/').head? = (d.text.toList.splitOn '/').head? := by
    rw [hsplit, head?_append_of_ne_nil _ (splitOn_ne_nil '/' _)]
  constructor
  · exact hne
  · exact fun hup => hp.not_up (hup.trans hleads)
  · exact fun habs => hp.not_absolute (habs.trans hleads)
  · intro hdrive
    exact hp.not_drive (htext ▸ hasDrivePrefix_append hdrive _)
  · exact fun ch hch => hp.no_control ch (hleads.subset hch)
  · have hshort := hp.short
    rw [htext, utf16Length, flatMap_append, length_append] at hshort
    rw [utf16Length]
    omega
  · exact fun segment h => hp.segments segment (hseg segment h)
  · exact hhead ▸ hp.not_obts
  · exact fun hgit => hp.not_git (hseg _ hgit)

section Normal
variable {u : SegmentNormalization}

lemma dropWhile_slash (h : ¬ ['/'] <+: text) : text.dropWhile (· = '/') = text := by
  cases text with
  | nil => rfl
  | cons ch text =>
    rw [dropWhile_cons_of_neg]
    intro hch
    have hslash : ch = '/' := of_decide_eq_true hch
    exact h (hslash ▸ ⟨text, rfl⟩)

lemma backslash_notMem_normalizePath (filePath : Path) : '\\' ∉ (normalizePath u filePath).text.toList := by
  rw [normalizePath, String.toList_ofList]
  refine u.nfc_backslash _ fun hmem => ?_
  exact backslash_not_mem_withSlashes _ (dropWhile_subset _ hmem)

lemma nfc_normalizePath (filePath : Path) :
    u.nfc (normalizePath u filePath).text.toList = (normalizePath u filePath).text.toList := by
  rw [normalizePath, String.toList_ofList]
  exact u.nfc_nfc _

/-- A text without backslashes and leading slashes that NFC leaves alone. -/
lemma normal_of (hback : '\\' ∉ p.text.toList) (habs : ¬ ['/'] <+: p.text.toList)
    (hnfc : u.nfc p.text.toList = p.text.toList) : Normal u p := by
  rw [Normal, normalizePath, withSlashes_of_not_mem hback, dropWhile_slash habs, hnfc]
  exact SlashPath.Path.ext String.ofList_toList

lemma Normal.backslash (hp : Normal u p) : '\\' ∉ p.text.toList :=
  hp ▸ backslash_notMem_normalizePath p

lemma length_splitOn_dropWhile (text : List Char) :
    ((text.dropWhile (· = '/')).splitOn '/').length ≤ (text.splitOn '/').length := by
  induction text with
  | nil => exact Nat.le_refl _
  | cons ch text ih =>
    by_cases hch : ch = '/'
    · subst hch
      have hsplit := splitOn_append_cons_self [] text (a := '/')
      rw [nil_append] at hsplit
      rw [hsplit, length_append]
      exact Nat.le_add_left_of_le ih
    · rw [dropWhile_cons_of_neg]
      simpa using hch

/-- A normal path has no leading slash: it would have lost it. -/
lemma Normal.not_absolute (hp : Normal u p) : ¬ ['/'] <+: p.text.toList := by
  rintro ⟨rest, hrest⟩
  have htext : u.nfc (p.text.toList.dropWhile (· = '/')) = p.text.toList := by
    have h := congrArg (fun q : Path => q.text.toList) hp
    rwa [normalizePath, String.toList_ofList, withSlashes_of_not_mem hp.backslash] at h
  have hsegs := congrArg length (u.nfc_segments (p.text.toList.dropWhile (· = '/')))
  have hsplit := splitOn_append_cons_self [] rest (a := '/')
  have hle := length_splitOn_dropWhile rest
  rw [nil_append] at hsplit
  rw [htext, length_map, ← hrest, singleton_append, hsplit,
    dropWhile_cons_of_pos (by decide), length_append, splitOn_nil] at hsegs
  simp only [length_singleton] at hsegs
  omega

lemma Normal.nfc (hp : Normal u p) : u.nfc p.text.toList = p.text.toList := by
  have h := nfc_normalizePath (u := u) p
  rwa [hp] at h

/-- What a normalized path that is not absolute is normalized to. -/
lemma normal_normalizePath (habs : ¬ ['/'] <+: (normalizePath u p).text.toList) : Normal u (normalizePath u p) :=
  normal_of (backslash_notMem_normalizePath p) habs (nfc_normalizePath p)

/-- The segments of a text that NFC leaves alone are left alone, and so is what they make up. -/
lemma nfc_of_splitOn_append {front : List Char} {rest : List (List Char)}
    (htext : u.nfc text = text) (hsplit : text.splitOn '/' = front.splitOn '/' ++ rest) : u.nfc front = front := by
  have hmap := u.nfc_segments text
  rw [htext, hsplit, map_append] at hmap
  have hfront := (append_inj hmap (length_map _).symm).1
  have hsame : (u.nfc front).splitOn '/' = front.splitOn '/' := by
    rw [u.nfc_segments, ← hfront]
  exact (intercalate_splitOn '/').symm.trans (hsame ▸ intercalate_splitOn '/')

/-- The folders above a normal path are normal. -/
lemma Normal.folder (hp : Normal u p) (hvalid : Valid d.text.toList) (hlt : d < p) : Normal u d := by
  obtain ⟨rest, htext, hsplit⟩ := splitOn_of_withSlash (Path.lt_iff.mp hlt)
  refine normal_of (fun hback => hp.backslash ?_) hvalid.not_absolute ?_
  · rw [htext]
    exact mem_append_left _ hback
  · exact nfc_of_splitOn_append hp.nfc hsplit

end Normal

section Admitted
variable {u : SegmentNormalization}

lemma valid_of_checkVaultPath (hcheck : checkVaultPath text = .ok q) : Valid text := by
  obtain ⟨-, hne, -⟩ := checkVaultPath_eq_ok hcheck
  simp only [checkVaultPath] at hcheck
  split at hcheck
  · cases hcheck
  rename_i hrel
  split at hcheck
  · cases hcheck
  rename_i hctl
  split at hcheck
  · cases hcheck
  rename_i hshort
  split at hcheck
  · cases hcheck
  rename_i hsegs
  split at hcheck
  · cases hcheck
  rename_i hobts
  split at hcheck
  · cases hcheck
  rename_i hgit
  simp only [Bool.or_eq_true, decide_eq_true_eq, isPrefixOf_iff_prefix, not_or] at hrel
  simp only [any_eq_true, not_exists, not_and] at hctl
  simp only [any_eq_true, Bool.or_eq_true, decide_eq_true_eq, not_exists, not_and, not_or] at hsegs
  rw [contains_iff_mem] at hgit
  constructor
  · exact hne
  · rintro ⟨rest, hrest⟩
    have hup : ['.', '.'] ∈ text.splitOn '/' := by
      rw [← hrest, show ['.', '.', '/'] ++ rest = ['.', '.'] ++ '/' :: rest from rfl, splitOn_append_cons_self]
      exact mem_append_left _ (by decide)
    exact (hsegs _ hup).2 rfl
  · exact hrel.1.1.1
  · exact hrel.1.1.2
  · exact hctl
  · exact not_lt.mp hshort
  · exact fun segment hseg => and_assoc.mp (hsegs segment hseg)
  · exact hobts
  · exact hgit

/-- The two policies read the last segment of a valid path alike. -/
lemma isOsOrEditorMetadata_eq (hp : Valid p.text.toList) :
    isOsOrEditorMetadata p = PathPolicy.isOsOrEditorMetadata p := by
  have hne := splitOn_ne_nil '/' p.text.toList
  have hlast : (p.text.toList.splitOn '/').getLastD [] ≠ [] := by
    rw [getLastD_eq_getLast?, getLast?_eq_some_getLast hne]
    exact (hp.segments _ (getLast_mem hne)).1
  have hsame : (p.text.toList.splitOn '/').getLastD p.text.toList
      = (p.text.toList.splitOn '/').getLastD [] := by
    rw [getLastD_eq_getLast?, getLastD_eq_getLast?, getLast?_eq_some_getLast hne]
    rfl
  rw [isOsOrEditorMetadata, PathPolicy.isOsOrEditorMetadata, hsame]
  simp only [if_neg hlast]

/-- A path in the client's normal form is read by the server as it stands, up to a leading dot
segment. -/
lemma normalizeVaultPath_of_normal (hp : Normal u p) (hdot : ¬ ['.', '/'] <+: p.text.toList)
    (hnorm : normalizeVaultPath u.toNormalization p.text = .ok q) : q = p ∧ Valid p.text.toList := by
  rw [normalizeVaultPath] at hnorm
  split at hnorm
  · cases hnorm
  have hplain : ¬ ['.', '/'].isPrefixOf p.text.toList = true := fun h =>
    hdot (List.isPrefixOf_iff_prefix.mp h)
  simp only [withSlashes_of_not_mem hp.backslash, hp.nfc, if_neg hplain] at hnorm
  obtain ⟨htext, -, -⟩ := checkVaultPath_eq_ok hnorm
  exact ⟨SlashPath.Path.ext (String.toList_injective htext), valid_of_checkVaultPath hnorm⟩

/-- A path that the server admits is one that the client syncs, when the client writes it so. -/
lemma isSyncableVaultPath_of_admitted {paths : List Path}
    (hadm : assertSyncableTreePaths u.toNormalization paths = .ok ())
    (hmem : p ∈ paths) (hp : Normal u p) (hdot : ¬ ['.', '/'] <+: p.text.toList) : isSyncableVaultPath u p := by
  obtain ⟨q, hq, hsync⟩ := admitted_of_mem hadm hmem
  obtain ⟨rfl, hvalid⟩ := normalizeVaultPath_of_normal hp hdot hq
  rw [PathPolicy.isSyncableVaultPath, hq] at hsync
  simp only [Bool.not_eq_true', Bool.or_eq_false_iff] at hsync
  obtain ⟨⟨⟨hmeta, hwork, hmob⟩, hcache⟩, hplug⟩ := hsync
  rw [← isOsOrEditorMetadata_eq hvalid] at hmeta
  rw [isSyncableVaultPath, hp, isValidVaultPath_iff.mpr hvalid, hmeta, hwork, hmob, hcache, hplug]
  rfl

end Admitted

end ClientPaths
