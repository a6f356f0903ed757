import Obts.ForestEdits
import Obts.InsertionOrder

/-!
# Slash-separated paths

Vault paths are plain strings, and every hierarchy test of the server is a string prefix
test with a slash appended. Here a path keeps its text, its order is "equal, or a prefix up
to a slash", and the string functions of the server are shown to compute that order.

`localeCompare` belongs to the JavaScript runtime and depends on its locale data. It is a
`Collation`: a total preorder that puts a text before its extensions by a slash.
-/
namespace SlashPath

open ForestEdits InsertionOrder List

@[ext] structure Path where
  text : String
  deriving DecidableEq

namespace Path

/-- The template string of the source: the path followed by a slash. -/
def withSlash (p : Path) : List Char := p.text.toList ++ ['/']

/-- The source's `path.startsWith` with the root and a slash. -/
def startsWithDir (p root : Path) : Bool := root.withSlash.isPrefixOf p.text.toList

instance : LE Path := ⟨fun a b => b = a ∨ a.withSlash <+: b.text.toList⟩

instance (a b : Path) : Decidable (a ≤ b) :=
  inferInstanceAs (Decidable (b = a ∨ a.withSlash <+: b.text.toList))

variable {a b : Path}

lemma le_iff : a ≤ b ↔ b = a ∨ a.withSlash <+: b.text.toList := Iff.rfl

lemma startsWithDir_iff {p root : Path} : p.startsWithDir root ↔ root.withSlash <+: p.text.toList := by
  simp [startsWithDir]

lemma withSlash_isPrefix_trans {c : List Char}
    (hab : a.withSlash <+: b.text.toList) (hbc : b.withSlash <+: c) : a.withSlash <+: c :=
  (hab.trans (prefix_append _ _)).trans hbc

lemma length_lt_of_isPrefix (h : a.withSlash <+: b.text.toList) : a.text.toList.length < b.text.toList.length := by
  have := h.length_le
  simp only [withSlash, length_append, length_singleton] at this
  omega

private lemma le_antisymm_aux {a b : Path} (hab : a ≤ b) (hba : b ≤ a) : a = b := by
  rcases hab with rfl | hab
  · rfl
  rcases hba with h | hba
  · exact h
  have h1 := length_lt_of_isPrefix hab
  have h2 := length_lt_of_isPrefix hba
  omega

/-- Two texts that both end in a slash inside one path are prefixes of each other. -/
private lemma le_or_le_aux {a b c : Path} (ha : a ≤ c) (hb : b ≤ c) : a ≤ b ∨ b ≤ a := by
  rcases ha with rfl | ha
  · exact .inr hb
  rcases hb with rfl | hb
  · exact .inl (.inr ha)
  rcases prefix_or_prefix_of_prefix ha hb with h | h
  · rcases prefix_concat_iff.mp (by simpa [withSlash] using h) with heq | hpre
    · refine .inl (.inl (Path.ext (String.toList_injective ?_)))
      simpa [withSlash] using heq.symm
    · exact .inl (.inr hpre)
  · rcases prefix_concat_iff.mp (by simpa [withSlash] using h) with heq | hpre
    · refine .inr (.inl (Path.ext (String.toList_injective ?_)))
      simpa [withSlash] using heq.symm
    · exact .inr (.inr hpre)

instance : ForestOrder Path where
  le_refl a := Or.inl rfl
  le_trans a b c := by
    rintro (rfl | hab) (rfl | hbc)
    · exact Or.inl rfl
    · exact Or.inr hbc
    · exact Or.inr hab
    · exact Or.inr (withSlash_isPrefix_trans hab hbc)
  le_antisymm _ _ := le_antisymm_aux
  le_or_le_of_le := le_or_le_aux

lemma lt_iff : a < b ↔ a.withSlash <+: b.text.toList := by
  constructor
  · intro h
    rcases h.le with rfl | h'
    · exact absurd h (lt_irrefl _)
    · exact h'
  intro h
  refine lt_of_le_of_ne (.inr h) ?_
  rintro rfl
  have := length_lt_of_isPrefix h
  omega

lemma startsWithDir_iff_lt {p root : Path} : p.startsWithDir root ↔ root < p :=
  startsWithDir_iff.trans lt_iff.symm

instance (a b : Path) : Decidable (a < b) := decidable_of_iff _ lt_iff.symm

end Path

def pathsOverlap (left right : Path) : Bool :=
  left = right || left.startsWithDir right || right.startsWithDir left

def pathsOverlapWithinRoot (path root : Path) : Bool :=
  path = root || path.startsWithDir root

lemma pathsOverlapWithinRoot_iff {path root : Path} : pathsOverlapWithinRoot path root ↔ root ≤ path := by
  simp [pathsOverlapWithinRoot, Path.startsWithDir_iff, Path.le_iff]

lemma pathsOverlap_iff {left right : Path} : pathsOverlap left right ↔ Overlap left right := by
  simp only [pathsOverlap, Bool.or_eq_true, decide_eq_true_eq, Path.startsWithDir_iff]
  constructor
  · rintro ((rfl | h) | h)
    · exact .inl le_rfl
    · exact .inr (.inr h)
    · exact .inl (.inr h)
  rintro ((rfl | h) | (rfl | h))
  · exact .inl (.inl rfl)
  · exact .inr h
  · exact .inl (.inl rfl)
  · exact .inl (.inr h)

/-- The proper ancestors of a path: the joins of the proper initial runs of its segments. -/
def directoryPrefixes (path : Path) : List Path :=
  let segments := path.text.toList.splitOn '/'
  (List.range' 1 (segments.length - 1)).map fun index =>
    ⟨String.ofList (['/'].intercalate (segments.take index))⟩

lemma intercalate_append_of_ne_nil (sep : Char) {ls ms : List (List Char)} (hl : ls ≠ []) (hm : ms ≠ []) :
    [sep].intercalate (ls ++ ms) = [sep].intercalate ls ++ sep :: [sep].intercalate ms := by
  induction ls with
  | nil => exact absurd rfl hl
  | cons l ls ih =>
    by_cases hls : ls = []
    · subst hls
      simp [intercalate_cons_of_ne_nil hm]
    have hne : ls ++ ms ≠ [] := by simp [hls]
    rw [cons_append, intercalate_cons_of_ne_nil hne, intercalate_cons_of_ne_nil hls, ih hls]
    simp

lemma mem_directoryPrefixes {p q : Path} : q ∈ directoryPrefixes p ↔ q < p := by
  rw [Path.lt_iff]
  simp only [directoryPrefixes, mem_map, mem_range'_1]
  set segments := p.text.toList.splitOn '/' with hsegs
  constructor
  · rintro ⟨index, ⟨hpos, hlt⟩, rfl⟩
    have htake : segments.take index ≠ [] := by
      intro h
      have := congrArg length h
      simp only [length_take, length_nil] at this
      omega
    have hdrop : segments.drop index ≠ [] := by
      intro h
      have := congrArg length h
      simp only [length_drop, length_nil] at this
      omega
    have hjoin : ['/'].intercalate segments = p.text.toList := intercalate_splitOn '/'
    rw [← take_append_drop index segments, intercalate_append_of_ne_nil '/' htake hdrop] at hjoin
    refine ⟨['/'].intercalate (segments.drop index), ?_⟩
    simpa [Path.withSlash] using hjoin
  · rintro ⟨rest, hrest⟩
    have hsplit : segments = q.text.toList.splitOn '/' ++ rest.splitOn '/' := by
      rw [hsegs, ← hrest, Path.withSlash, append_assoc, singleton_append, splitOn_append_cons_self]
    have hq := length_pos_of_ne_nil (splitOn_ne_nil '/' q.text.toList)
    have hr := length_pos_of_ne_nil (splitOn_ne_nil '/' rest)
    refine ⟨(q.text.toList.splitOn '/').length, ⟨hq, ?_⟩, ?_⟩
    · rw [hsplit, length_append]
      omega
    · rw [hsplit, take_left, intercalate_splitOn]
      exact Path.ext (String.toList_injective String.toList_ofList)

/-- The UTF-16 code units of a character. -/
def utf16 (c : Char) : List Nat :=
  if c.toNat < 0x10000 then [c.toNat]
  else [0xD800 + (c.toNat - 0x10000) / 0x400, 0xDC00 + (c.toNat - 0x10000) % 0x400]

def Path.codeUnits (p : Path) : List Nat := p.text.toList.flatMap utf16

lemma Path.codeUnits_length_lt {a b : Path} (h : a < b) : a.codeUnits.length < b.codeUnits.length := by
  obtain ⟨rest, hrest⟩ := Path.lt_iff.mp h
  rw [Path.codeUnits, Path.codeUnits, ← hrest]
  simp only [Path.withSlash, flatMap_append, length_append]
  have hslash : (['/'].flatMap utf16).length = 1 := rfl
  omega

lemma utf16_append_inj {a b : Char} {as bs : List Nat} (h : utf16 a ++ as = utf16 b ++ bs) : a = b ∧ as = bs := by
  have hchar : a.toNat = b.toNat → a = b := fun heq => Char.ext (UInt32.toNat_inj.mp heq)
  have hbound : ∀ ch : Char, ch.toNat < 0xD800 ∨ 0xDFFF < ch.toNat ∧ ch.toNat < 0x110000 :=
    fun ch => ch.valid
  have hbouA := hbound a
  have hbouB := hbound b
  simp only [utf16] at h
  split at h <;> split at h
  · obtain ⟨hunit, rfl⟩ := cons.inj h
    exact ⟨hchar hunit, rfl⟩
  · -- a surrogate is no character
    obtain ⟨hunit, -⟩ := cons.inj h
    omega
  · obtain ⟨hunit, -⟩ := cons.inj h
    omega
  · obtain ⟨hhigh, h⟩ := cons.inj h
    obtain ⟨hlow, rfl⟩ := cons.inj h
    exact ⟨hchar (by omega), rfl⟩

lemma prefix_of_flatMap_utf16 {text text' : List Char}
    (h : text.flatMap utf16 <+: text'.flatMap utf16) : text <+: text' := by
  induction text generalizing text' with
  | nil => exact nil_prefix
  | cons ch text ih =>
    obtain ⟨rest, hrest⟩ := h
    rw [flatMap_cons, append_assoc] at hrest
    cases text' with
    | nil =>
      have hnil : utf16 ch = [] := (append_eq_nil_iff.mp hrest).1
      rw [utf16] at hnil
      split at hnil <;> cases hnil
    | cons ch' text' =>
      rw [flatMap_cons] at hrest
      obtain ⟨rfl, htext⟩ := utf16_append_inj hrest
      exact (prefix_cons_inj ch).mpr (ih ⟨rest, htext⟩)

lemma flatMap_utf16_injective {text text' : List Char}
    (h : text.flatMap utf16 = text'.flatMap utf16) : text = text' := by
  have hpre : text <+: text' := prefix_of_flatMap_utf16 (h ▸ prefix_rfl)
  have hpre' : text' <+: text := prefix_of_flatMap_utf16 (h ▸ prefix_rfl)
  exact hpre.eq_of_length (le_antisymm hpre.length_le hpre'.length_le)

/-- `Array.prototype.sort` without a comparator: by code units. -/
def sort (paths : List Path) : List Path := sortBy (compareOn Path.codeUnits) paths

@[simp] lemma mem_sort {paths : List Path} {p : Path} : p ∈ sort paths ↔ p ∈ paths :=
  mem_sortBy

lemma sort_eq_of_perm {paths paths' : List Path} (h : paths.Perm paths') : sort paths = sort paths' := by
  refine sortBy_eq_of_perm (fun a b hab => ?_) h
  have hunits : a.codeUnits = b.codeUnits := Std.LawfulEqCmp.compare_eq_iff_eq.mp hab
  exact Path.ext (String.toList_injective (flatMap_utf16_injective hunits))

/-- What the server relies on of the runtime's `localeCompare`. -/
structure Collation where
  localeCompare : String → String → Ordering
  isTrans : Std.TransCmp localeCompare
  before_child : ∀ parent child : String, localeCompare parent (parent ++ "/" ++ child) = .lt

attribute [instance] Collation.isTrans

lemma Collation.lt_of_lt (c : Collation) {a b : Path} (h : a < b) : c.localeCompare a.text b.text = .lt := by
  obtain ⟨rest, hrest⟩ := Path.lt_iff.mp h
  have hb : b.text = a.text ++ "/" ++ String.ofList rest := by
    apply String.toList_injective
    simpa [Path.withSlash] using hrest.symm
  rw [hb]
  exact c.before_child _ _

lemma compare_lt_append_cons (l : List Char) (x : Char) (rest : List Char) : compare l (l ++ x :: rest) = .lt := by
  induction l with
  | nil => rfl
  | cons a l ih => simpa [List.compare_eq_compareLex, List.compareLex_cons_cons] using ih

/-- Comparison character by character, as the C locale has it. -/
def codePointCollation : Collation where
  localeCompare := compareOn String.toList
  isTrans := inferInstance
  before_child parent child := by
    simpa [compareOn] using compare_lt_append_cons parent.toList '/' child.toList

end SlashPath
