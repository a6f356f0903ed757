import Obts.NoteContent
import Mathlib.Data.List.TakeWhile

/-!
# Forms of a tag

Tags are compared by their normal forms, without case. The indexer drops leading number signs from a tag
that a front matter names, so that what it derives is compared by the normal form of the normal form.
-/
namespace NoteContent

open InsertionOrder JsonValues RustText AccessPolicies List

lemma toLower_toNat (c : Char) :
    c.toLower.toNat = if 65 ≤ c.toNat ∧ c.toNat ≤ 90 then c.toNat + 32 else c.toNat := by
  have hle : ∀ {m n : UInt32}, m ≤ n ↔ m.toNat ≤ n.toNat := UInt32.le_iff_toNat_le
  delta Char.toLower
  split
  · rename_i hupper
    have hfrom : 65 ≤ c.toNat := hle.mp hupper.1
    have hto : c.toNat ≤ 90 := hle.mp hupper.2
    rw [if_pos ⟨hfrom, hto⟩]
    change (c.val.toNat + 32) % 2 ^ 32 = c.val.toNat + 32
    have hval : c.val.toNat ≤ 90 := hto
    omega
  · rename_i hupper
    rw [if_neg]
    rintro ⟨hfrom, hto⟩
    exact hupper ⟨hle.mpr hfrom, hle.mpr hto⟩

lemma isWhitespace_toLower (c : Char) : isWhitespace c.toLower = isWhitespace c := by
  rw [isWhitespace, isWhitespace, toLower_toNat]
  split
  · rw [Bool.eq_iff_iff]
    simp only [Bool.or_eq_true, Bool.and_eq_true, decide_eq_true_eq]
    omega
  · rfl

lemma toLower_eq_hash (c : Char) : c.toLower = '#' ↔ c = '#' := by
  have hcode : ∀ {c d : Char}, c = d ↔ c.toNat = d.toNat :=
    ⟨fun h => h ▸ rfl, fun h => Char.ext (UInt32.toNat_inj.mp h)⟩
  have hhash : '#'.toNat = 35 := rfl
  rw [hcode, hcode, toLower_toNat]
  split <;> omega

lemma dropWhile_toLower {drops : Char → Bool} {text : List Char} (h : ∀ c : Char, drops c.toLower = drops c) :
    (text.map Char.toLower).dropWhile drops = (text.dropWhile drops).map Char.toLower := by
  have hdrops : drops ∘ Char.toLower = drops := funext h
  rw [dropWhile_map, hdrops]

lemma toAsciiLowercase_trim (text : String) : toAsciiLowercase (trim text) = trim (toAsciiLowercase text) := by
  simp only [trim, toAsciiLowercase, String.toList_ofList, trimText, trimEndChars]
  rw [dropWhile_toLower isWhitespace_toLower, ← map_reverse, dropWhile_toLower isWhitespace_toLower, map_reverse]

lemma toAsciiLowercase_trimStartMatches (text : String) :
    toAsciiLowercase (trimStartMatches text '#') = trimStartMatches (toAsciiLowercase text) '#' := by
  simp only [trimStartMatches, toAsciiLowercase, String.toList_ofList]
  rw [dropWhile_toLower fun c => decide_eq_decide.mpr (toLower_eq_hash c)]

lemma toAsciiLowercase_normalizeTag (tag : String) :
    toAsciiLowercase (normalizeTag tag) = normalizeTag (toAsciiLowercase tag) := by
  rw [normalizeTag, toAsciiLowercase_trim, toAsciiLowercase_trimStartMatches, toAsciiLowercase_trim, normalizeTag]

lemma toAsciiLowercase_eq_empty {text : String} : toAsciiLowercase text = "" ↔ text = "" := by
  rw [toAsciiLowercase, ← String.toList_eq_nil_iff, String.toList_ofList, map_eq_nil_iff, String.toList_eq_nil_iff]

lemma policyTag_normalizeTag (tag : String) : policyTag (normalizeTag tag) = normalizeTag (policyTag tag) := by
  rw [policyTag, toAsciiLowercase_normalizeTag, policyTag]

variable {tag key : String}

lemma policyTag_eq_empty : policyTag tag = "" ↔ normalizeTag tag = "" :=
  toAsciiLowercase_eq_empty

lemma policyTag_of_eqIgnoreAsciiCase {a b : String} (h : eqIgnoreAsciiCase a b) : policyTag a = policyTag b := by
  rw [policyTag, policyTag, toAsciiLowercase_normalizeTag, toAsciiLowercase_normalizeTag,
    eqIgnoreAsciiCase_iff.mp h]

/-- Some tag of the list matches. -/
def HasTag (tags : List String) (tag : String) : Prop := ∃ candidate ∈ tags, tagMatches candidate tag = true

variable {tags more : List String} {same : String → String → Bool} {f : String → String}

lemma hasTag_iff : HasTag tags tag ↔ policyTag tag ∈ tags.map policyTag := by
  rw [HasTag, mem_map]
  simp [tagMatches_iff]

lemma hasTag_append : HasTag (tags ++ more) tag ↔ HasTag tags tag ∨ HasTag more tag := by
  rw [hasTag_iff, hasTag_iff, hasTag_iff, map_append, mem_append]

lemma mem_map_dedupFrom (h : ∀ a b, same a b → f a = f b) {kept : String} :
    key ∈ (dedupFrom same kept tags).map f ↔ key ∈ (kept :: tags).map f := by
  induction tags generalizing kept with
  | nil => rfl
  | cons tag tags ih =>
    rw [dedupFrom]
    split
    · rename_i hsame
      rw [ih]
      simp [h _ _ hsame]
    · rw [map_cons, mem_cons, ih]
      exact mem_cons.symm

/-- Dropping equal neighbours loses nothing of what equal tags have in common. -/
lemma mem_map_sortDedup (h : ∀ a b, same a b → f a = f b) :
    key ∈ (sortDedup same tags).map f ↔ key ∈ tags.map f := by
  have hsort : key ∈ (sortBy byteOrder tags).map f ↔ key ∈ tags.map f := by
    simp
  rw [sortDedup, ← hsort]
  generalize sortBy byteOrder tags = sorted
  cases sorted with
  | nil => rfl
  | cons tag sorted => exact mem_map_dedupFrom h

lemma hasTag_sortDedup : HasTag (sortDedup eqIgnoreAsciiCase tags) tag ↔ HasTag tags tag := by
  rw [hasTag_iff, hasTag_iff]
  exact mem_map_sortDedup fun a b hab => policyTag_of_eqIgnoreAsciiCase hab

lemma hasTag_sortDedup_eq : HasTag (sortDedup (fun a b => decide (a = b)) tags) tag ↔ HasTag tags tag := by
  rw [hasTag_iff, hasTag_iff]
  exact mem_map_sortDedup fun a b hab => congrArg policyTag (of_decide_eq_true hab)

lemma mem_map_addUniqueTag : key ∈ (addUniqueTag tags tag).map policyTag ↔
      key ∈ tags.map policyTag ∨ (normalizeTag tag ≠ "" ∧ key = policyTag (normalizeTag tag)) := by
  rw [addUniqueTag]
  split
  · rename_i hempty
    simp [hempty]
  rename_i hne
  split
  · rename_i hany
    obtain ⟨candidate, hcand, hmat⟩ := any_eq_true.mp hany
    have hkey := tagMatches_iff.mp hmat
    have hmem := mem_map_of_mem (f := policyTag) hcand
    constructor
    · exact Or.inl
    rintro (hold | ⟨-, rfl⟩)
    · exact hold
    · exact hkey ▸ hmem
  · simp [hne]

/-- The tags that are added are normal forms. -/
lemma mem_map_foldl_addUniqueTag : key ∈ (more.foldl addUniqueTag tags).map policyTag ↔
      key ∈ tags.map policyTag ∨ ∃ tag ∈ more, normalizeTag tag ≠ "" ∧ key = policyTag (normalizeTag tag) := by
  induction more generalizing tags with
  | nil => simp
  | cons tag more ih => rw [foldl_cons, ih, mem_map_addUniqueTag, or_assoc, exists_mem_cons_iff]

lemma trimText_eq_nil {text : List Char} : trimText text = [] ↔ ∀ c ∈ text, isWhitespace c := by
  rw [trimText, trimEndChars, reverse_eq_nil_iff, dropWhile_eq_nil_iff]
  constructor
  · intro h
    have hempty : text.dropWhile isWhitespace = [] := by
      cases hdrop : text.dropWhile isWhitespace with
      | nil => rfl
      | cons c rest =>
        have hfirst := dropWhile_not_head hdrop
        rw [h c (by simp [hdrop])] at hfirst
        cases hfirst
    exact dropWhile_eq_nil_iff.mp hempty
  · intro h c hc
    exact h c ((dropWhile_suffix _).subset (mem_reverse.mp hc))

/-- Without its number signs, a tag ends as before, and not with white space. -/
lemma trimStartMatches_trim_eq_empty : trimStartMatches (trim tag) '#' = "" ↔ normalizeTag tag = "" := by
  constructor
  · intro h
    rw [normalizeTag, h]
    rfl
  intro h
  rw [normalizeTag, trim, ← String.toList_eq_nil_iff, String.toList_ofList, trimText_eq_nil] at h
  rw [← String.toList_eq_nil_iff]
  by_contra hne
  have hsuff : (trimStartMatches (trim tag) '#').toList <:+ trimText tag.toList := by
    rw [trimStartMatches, String.toList_ofList, trim, String.toList_ofList]
    exact dropWhile_suffix _
  have hlast : isWhitespace ((trimStartMatches (trim tag) '#').toList.getLast hne) = false := by
    obtain ⟨start, happ⟩ := hsuff
    have hrev : (tag.toList.dropWhile isWhitespace).reverse.dropWhile isWhitespace
        = (start ++ (trimStartMatches (trim tag) '#').toList).reverse := by
      rw [happ, trimText, trimEndChars, reverse_reverse]
    rw [reverse_append] at hrev
    obtain ⟨c, rest, hcons⟩ := exists_cons_of_ne_nil (mt reverse_eq_nil_iff.mp hne)
    rw [hcons, cons_append] at hrev
    have hhead : (trimStartMatches (trim tag) '#').toList.getLast hne = c := by
      rw [← head_reverse (by simpa using hne)]
      simp [hcons]
    rw [hhead]
    exact dropWhile_not_head hrev
  rw [h _ (getLast_mem hne)] at hlast
  cases hlast

lemma normalizeTag_trimStartMatches (tag : String) :
    normalizeTag (trimStartMatches (trim tag) '#') = normalizeTag (normalizeTag tag) := by
  rw [normalizeTag.eq_def (normalizeTag tag), normalizeTag.eq_def tag, trim_trim, normalizeTag]

/-- The indexer derives a tag that matches from one that a front matter names. -/
def Derives (named tag : String) : Prop := policyTag named ≠ "" ∧ normalizeTag (policyTag named) = policyTag tag

lemma mem_foldl_pushTag {named : List String} : tag ∈ named.foldl pushTag tags ↔
      tag ∈ tags ∨ ∃ raw ∈ named, trimStartMatches (trim raw) '#' ≠ "" ∧ tag = trimStartMatches (trim raw) '#' := by
  induction named generalizing tags with
  | nil => simp
  | cons raw named ih =>
    rw [foldl_cons, ih, exists_mem_cons_iff, ← or_assoc, pushTag]
    refine or_congr_left ?_
    split
    · rename_i hempty
      simp [hempty]
    · rename_i hne
      simp [hne]

lemma hasTag_extractFrontmatterTags {frontmatter : Value} :
    HasTag (extractFrontmatterTags frontmatter) tag ↔ ∃ named ∈ namedTags frontmatter, Derives named tag := by
  rw [extractFrontmatterTags, hasTag_sortDedup_eq, HasTag]
  simp only [mem_foldl_pushTag, not_mem_nil, false_or]
  have hder : ∀ raw : String, (trimStartMatches (trim raw) '#' ≠ "" ∧
      tagMatches (trimStartMatches (trim raw) '#') tag = true) ↔ Derives raw tag := by
    intro raw
    rw [Derives, Ne, Ne, policyTag_eq_empty, trimStartMatches_trim_eq_empty, tagMatches_iff, policyTag,
      normalizeTag_trimStartMatches, ← policyTag, policyTag_normalizeTag]
  constructor
  · rintro ⟨_, ⟨raw, hraw, hne, rfl⟩, hmat⟩
    exact ⟨raw, hraw, (hder raw).mp ⟨hne, hmat⟩⟩
  rintro ⟨raw, hraw, h⟩
  obtain ⟨hne, hmat⟩ := (hder raw).mpr h
  exact ⟨_, ⟨raw, hraw, hne, rfl⟩, hmat⟩

end NoteContent
