import Obts.SlashPath

/-!
# Path policy

The shared path policy: which texts are vault paths, what their normal form is, and which of
them take part in sync. Unicode normalization belongs to the JavaScript runtime; it is a
`Normalization`, with the laws that NFC has.
-/
namespace PathPolicy

open SlashPath List

/-- What the policy relies on of `normalize('NFC')`: it is idempotent, a suffix of a normal text
is normal, and no character composes or decomposes to a backslash. -/
structure Normalization where
  nfc : List Char → List Char
  nfc_nfc : ∀ text, nfc (nfc text) = nfc text
  nfc_suffix : ∀ front rest, nfc (front ++ rest) = front ++ rest → nfc rest = rest
  nfc_backslash : ∀ text, '\\' ∉ text → '\\' ∉ nfc text

/-- Normalization of texts in which every character is ASCII. -/
def asciiNormalization : Normalization where
  nfc text := text
  nfc_nfc _ := rfl
  nfc_suffix _ _ _ := rfl
  nfc_backslash _ h := h

structure PathPolicyError where
  (code message : String)
  deriving DecidableEq

variable (text : List Char)

def utf16Length : Nat := (text.flatMap utf16).length

def isControl (c : Char) : Bool := c.toNat ≤ 0x1f || c.toNat = 0x7f

def isAsciiLetter (c : Char) : Bool :=
  (65 ≤ c.toNat && c.toNat ≤ 90) || (97 ≤ c.toNat && c.toNat ≤ 122)

/-- The text begins with a drive letter, a colon and a slash. -/
def hasDrivePrefix : List Char → Bool
  | letter :: ':' :: '/' :: _ => isAsciiLetter letter
  | _ => false

/-- The checks on a text that has slashes only and is in normal form. -/
def checkVaultPath : Except PathPolicyError Path :=
  if ['/'].isPrefixOf text || hasDrivePrefix text || text = ['.'] || text = ['.', '.'] then
    .error ⟨"invalid_path", "Vault path must be relative."⟩
  else if text.any isControl then
    .error ⟨"invalid_path", "Vault path contains a control character."⟩
  else if utf16Length text > 4096 then
    .error ⟨"path_too_long", "Vault path exceeds the v1 path length limit."⟩
  else
    let segments := text.splitOn '/'
    if segments.any fun segment => segment = [] || segment = ['.'] || segment = ['.', '.'] then
      .error ⟨"invalid_path", "Vault path contains an empty or traversal segment."⟩
    else if segments.head? = some ".obts".toList then
      .error ⟨"excluded_internal_path", ".obts is client-local state and cannot be synced."⟩
    else if segments.contains ".git".toList then
      .error ⟨"excluded_git_path", "Visible .git directories cannot be synced."⟩
    else .ok ⟨String.ofList text⟩

def withSlashes : List Char := text.map fun c => if c = '\\' then '/' else c

def normalizeVaultPath (u : Normalization) (input : String) : Except PathPolicyError Path :=
  if input.toList = [] then
    .error ⟨"invalid_path", "Vault path must be a non-empty string."⟩
  else
    let slashPath := u.nfc (withSlashes input.toList)
    checkVaultPath (if ['.', '/'].isPrefixOf slashPath then slashPath.drop 2 else slashPath)

def isOsOrEditorMetadata (path : Path) : Bool :=
  let basename := (path.text.toList.splitOn '/').getLastD path.text.toList
  basename = ".DS_Store".toList || basename = "Thumbs.db".toList || ['~'].isSuffixOf basename ||
    ".swp".toList.isSuffixOf basename || ".tmp".toList.isSuffixOf basename

def isSyncableVaultPath (u : Normalization) (path : String) : Bool :=
  match normalizeVaultPath u path with
  | .error _ => false
  | .ok cleanPath =>
    !(isOsOrEditorMetadata cleanPath || (cleanPath.text = ".obsidian/workspace.json" ||
        cleanPath.text = ".obsidian/workspace-mobile.json") ||
      pathsOverlapWithinRoot cleanPath ⟨".obsidian/cache"⟩ ||
      pathsOverlapWithinRoot cleanPath ⟨".obsidian/plugins/obts"⟩)

/-- The first path of a tree that does not take part in sync is refused. -/
def assertSyncableTreePaths (u : Normalization) : List Path → Except PathPolicyError Unit
  | [] => .ok ()
  | path :: paths =>
    match normalizeVaultPath u path.text with
    | .error error => .error error
    | .ok normalized =>
      if isSyncableVaultPath u normalized.text then assertSyncableTreePaths u paths
      else .error ⟨"excluded_path", "Vault path is excluded from full-vault sync."⟩

variable {path : Path} {text : List Char}

lemma checkVaultPath_eq_ok (h : checkVaultPath text = .ok path) :
    path.text.toList = text ∧ text ≠ [] ∧ ¬ ['.', '/'] <+: text := by
  unfold checkVaultPath at h
  split at h
  · cases h
  split at h
  · cases h
  split at h
  · cases h
  dsimp only at h
  split at h
  · cases h
  rename_i hsegs
  split at h
  · cases h
  split at h
  · cases h
  cases h
  simp only [any_eq_true, Bool.or_eq_true, decide_eq_true_eq, not_exists, not_and] at hsegs
  refine ⟨String.toList_ofList, ?_, ?_⟩
  · rintro rfl
    exact hsegs [] (by simp) (.inl (.inl rfl))
  rintro ⟨rest, rfl⟩
  refine hsegs ['.'] ?_ (.inl (.inr rfl))
  rw [show ['.', '/'] ++ rest = ['.'] ++ '/' :: rest from rfl, splitOn_append_cons_self]
  exact mem_append_left _ (by decide)

variable {u : Normalization}

lemma backslash_not_mem_withSlashes (text : List Char) : '\\' ∉ withSlashes text := by
  intro h
  obtain ⟨c, -, hc⟩ := mem_map.mp h
  split at hc
  · exact absurd hc (by decide)
  · rename_i hne
    exact hne hc

lemma withSlashes_of_not_mem (h : '\\' ∉ text) : withSlashes text = text := by
  have hid : ∀ c ∈ text, (if c = '\\' then '/' else c) = c := by
    intro c hc
    rw [if_neg]
    rintro rfl
    exact h hc
  rw [withSlashes, map_congr_left hid, map_id']

/-- A normalized path is its own normal form. -/
lemma normalizeVaultPath_text {input : String}
    (h : normalizeVaultPath u input = .ok path) : normalizeVaultPath u path.text = .ok path := by
  unfold normalizeVaultPath at h
  split at h
  · cases h
  set slashPath := u.nfc (withSlashes input.toList) with hslash
  set text := if ['.', '/'].isPrefixOf slashPath then slashPath.drop 2 else slashPath with htext
  obtain ⟨hpath, hne, hdot⟩ := checkVaultPath_eq_ok h
  -- the checked text is a suffix of a normal text without backslashes
  have hsuff : ∃ front, front ++ text = slashPath := by
    rw [htext]
    split
    · exact ⟨slashPath.take 2, take_append_drop 2 slashPath⟩
    · exact ⟨[], rfl⟩
  obtain ⟨front, hfront⟩ := hsuff
  have hnfc : u.nfc text = text := by
    apply u.nfc_suffix front text
    rw [hfront, hslash, u.nfc_nfc]
  have hback : '\\' ∉ text := by
    intro hmem
    refine u.nfc_backslash _ (backslash_not_mem_withSlashes input.toList) ?_
    rw [← hslash, ← hfront]
    exact mem_append_right _ hmem
  have hplain : (['.', '/'].isPrefixOf text) = false := by
    rw [← Bool.not_eq_true, isPrefixOf_iff_prefix]
    exact hdot
  rw [normalizeVaultPath, hpath, if_neg hne, withSlashes_of_not_mem hback]
  simp only [hnfc, hplain, Bool.false_eq_true, if_false]
  exact h

/-- Every path of an admitted tree has a normal form that takes part in sync. -/
lemma admitted_of_mem {paths : List Path} (h : assertSyncableTreePaths u paths = .ok ())
    (hpath : path ∈ paths) : ∃ normalized, normalizeVaultPath u path.text = .ok normalized ∧
      isSyncableVaultPath u normalized.text := by
  induction paths with
  | nil => cases hpath
  | cons first paths ih =>
    rw [assertSyncableTreePaths] at h
    split at h
    · cases h
    rename_i normalized hnorm
    split at h
    · rename_i hsync
      rcases mem_cons.mp hpath with rfl | hpath
      · exact ⟨normalized, hnorm, hsync⟩
      · exact ih h hpath
    · cases h

end PathPolicy
