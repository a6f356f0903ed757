import Obts.ClientPaths

/-!
# Portable names

The rule by which a restricted platform can store a path: no reserved characters, and no other path that
differs from it, or from a folder above it, by letter case only. Paths are lists of characters here; case
folding belongs to the JavaScript runtime and is a `CaseFolding`.
-/
namespace PortableNames

open InsertionOrder SlashPath PathPolicy ClientPaths List

/-- What the rule relies on of `normalize('NFC')` and `toLowerCase()`: both treat the parts of a text between
slashes, spaces and parentheses one by one, and leave nothing out. -/
structure CaseFolding extends SegmentNormalization where
  lower : List Char → List Char
  nfc_pieces : ∀ c ∈ [' ', '(', ')'], ∀ text, (nfc text).splitOn c = (text.splitOn c).map nfc
  lower_pieces : ∀ c ∈ ['/', ' ', '(', ')'], ∀ text, (lower text).splitOn c = (text.splitOn c).map lower
  lower_ascii : ∀ text : List Char, (∀ ch ∈ text, ch.toNat < 0x80) → lower text = text.map Char.toLower
  eq_nil : ∀ text, lower (nfc text) = [] → text = []

variable {c : Char}

lemma splitOn_map {f : Char → Char} (h : ∀ x, f x = c ↔ x = c) (text : List Char) :
    (text.map f).splitOn c = (text.splitOn c).map (List.map f) := by
  induction text with
  | nil => rfl
  | cons x text ih =>
    rw [map_cons, splitOn_cons_eq_if_modifyHead, splitOn_cons_eq_if_modifyHead, ih]
    by_cases hx : x = c
    · rw [if_pos (by simpa using (h x).mpr hx), if_pos (by simpa using hx)]
      rfl
    rw [if_neg (by simpa using fun hc => hx ((h x).mp hc)), if_neg (by simpa using hx)]
    cases hsplit : text.splitOn c with
    | nil => exact absurd hsplit (splitOn_ne_nil c text)
    | cons first segments => rfl

lemma toLower_eq_iff (hc : c ∈ ['/', ' ', '(', ')']) (x : Char) : x.toLower = c ↔ x = c := by
  simp only [mem_cons, not_mem_nil, or_false] at hc
  constructor
  · intro h
    unfold Char.toLower at h
    split at h
    · -- a lower case letter is none of these
      rename_i hupper
      have hcode := congrArg UInt32.toNat (congrArg Char.val h)
      simp only [ge_iff_le, UInt32.le_iff_toNat_le] at hupper
      rcases hc with rfl | rfl | rfl | rfl <;> simp at hcode hupper <;> omega
    · exact h
  · rintro rfl
    rcases hc with rfl | rfl | rfl | rfl <;> rfl

/-- Folding of texts in which every character is ASCII. -/
def asciiCaseFolding : CaseFolding where
  toSegmentNormalization := asciiSegmentNormalization
  lower text := text.map Char.toLower
  nfc_pieces _ _ _ := (List.map_id _).symm
  lower_pieces _ hc text := splitOn_map (toLower_eq_iff hc) text
  lower_ascii _ _ := rfl
  eq_nil _ h := List.map_eq_nil_iff.mp h

/-- `RESERVED_NAME_CHARACTERS` -/
def isReserved (c : Char) : Bool := ['\x22', '*', ':', '<', '>', '?', '\\', '|'].contains c || isControl c

def segmentHasReservedCharacters (segment : List Char) : Bool := segment.any isReserved

/-- The joins of the initial runs of the segments, the path itself being the last. -/
def pathPrefixes (path : List Char) : List (List Char) :=
  let segments := path.splitOn '/'
  (List.range' 1 segments.length).map fun index => ['/'].intercalate (segments.take index)

inductive UnportableReason where
  | reservedCharacters
  | caseCollision

inductive NodeKind where
  | file
  | directory

structure UnportablePath where
  path : List Char
  kind : NodeKind
  reasons : List UnportableReason

/-- `left < right` on strings, by code units. -/
def compareText : List Char → List Char → Ordering := compareOn fun text => text.flatMap utf16

instance : Std.TransCmp compareText := transCmp_comap compare fun text : List Char => text.flatMap utf16

section Rule
variable (u : CaseFolding)

def foldPathCase (path : List Char) : List Char := u.lower (u.nfc path)

/-- The kinds of the listed paths; a path that is listed twice is a file. -/
def kindsOf (files directories : List (List Char)) : List (List Char × NodeKind) :=
  (files.filter (· ≠ [])).foldl (fun kinds path => set kinds path .file)
    ((directories.filter (· ≠ [])).foldl (fun kinds path => set kinds path .directory) [])

/-- The spellings of a folded path among the paths and the folders above them. -/
def spellings (paths : List (List Char)) (key : List Char) : List (List Char) :=
  ofList ((paths.flatMap pathPrefixes).filter fun path => foldPathCase u path = key)

def unportableReasons (paths : List (List Char)) (path : List Char) : List UnportableReason :=
  (if (path.splitOn '/').any segmentHasReservedCharacters then [.reservedCharacters] else []) ++
    (if (pathPrefixes path).any fun folder => (spellings u paths (foldPathCase u folder)).length > 1 then
      [.caseCollision]
    else [])

def findUnportablePaths (files directories : List (List Char)) : List UnportablePath :=
  let kinds := kindsOf files directories
  sortBy (fun left right => compareText left.path right.path)
    ((kinds.map fun e => ⟨e.1, e.2, unportableReasons u (kinds.map Prod.fst) e.1⟩).filter fun entry =>
      !entry.reasons.isEmpty)

end Rule

section Paths
variable {path folder segment text other : List Char} {c : Char}

lemma splitOn_inj (h : text.splitOn c = other.splitOn c) : text = other := by
  have hjoin := congrArg (intercalate [c]) h
  rwa [intercalate_splitOn, intercalate_splitOn] at hjoin

/-- A text is a segment, or a text with a segment below it. -/
lemma segment_or_below (path : List Char) :
    '/' ∉ path ∨ ∃ folder segment, path = folder ++ '/' :: segment ∧ '/' ∉ segment := by
  induction path with
  | nil => exact .inl not_mem_nil
  | cons c path ih =>
    rcases ih with hpath | ⟨folder, segment, rfl, hseg⟩
    · by_cases hc : c = '/'
      · exact .inr ⟨[], path, hc ▸ rfl, hpath⟩
      refine .inl ?_
      rw [mem_cons, not_or]
      exact ⟨Ne.symm hc, hpath⟩
    · exact .inr ⟨c :: folder, segment, rfl, hseg⟩

/-- Induction along the folders above a path. -/
@[elab_as_elim]
lemma path_induction {P : List Char → Prop} (segment : ∀ name, '/' ∉ name → P name)
    (below : ∀ folder name, '/' ∉ name → P folder → P (folder ++ '/' :: name)) (path : List Char) : P path := by
  induction hn : path.length using Nat.strong_induction_on generalizing path with
  | _ n ih =>
    rcases segment_or_below path with hpath | ⟨folder, name, rfl, hname⟩
    · exact segment path hpath
    have hshort : folder.length < n := by
      rw [← hn, length_append, length_cons]
      omega
    exact below folder name hname (ih folder.length hshort folder rfl)

lemma splitOn_below (folder : List Char) (hseg : '/' ∉ segment) :
    (folder ++ '/' :: segment).splitOn '/' = folder.splitOn '/' ++ [segment] := by
  rw [splitOn_append_cons_self, splitOn_eq_singleton hseg]

/-- The segment below a folder is the last one. -/
lemma below_inj {name : List Char} (hseg : '/' ∉ segment) (hname : '/' ∉ name)
    (h : folder ++ '/' :: segment = other ++ '/' :: name) : folder = other ∧ segment = name := by
  have hsplit := congrArg (splitOn '/') h
  rw [splitOn_below folder hseg, splitOn_below other hname] at hsplit
  obtain ⟨hdir, hlast⟩ := append_inj' hsplit rfl
  exact ⟨splitOn_inj hdir, singleton_inj.mp hlast⟩

lemma pathPrefixes_of_segment (h : '/' ∉ path) : pathPrefixes path = [path] := by
  rw [pathPrefixes, splitOn_eq_singleton h]
  simp

lemma pathPrefixes_below (folder : List Char) (hseg : '/' ∉ segment) :
    pathPrefixes (folder ++ '/' :: segment) = pathPrefixes folder ++ [folder ++ '/' :: segment] := by
  have hlen : (folder.splitOn '/' ++ [segment]).length = (folder.splitOn '/').length + 1 := by simp
  rw [pathPrefixes, pathPrefixes, splitOn_below folder hseg, hlen, range'_concat, map_append]
  congr 1
  · apply map_congr_left
    intro index hindex
    rw [mem_range'_1] at hindex
    rw [take_append_of_le_length (by omega)]
  have htake : (folder.splitOn '/' ++ [segment]).take (1 + 1 * (folder.splitOn '/').length)
      = folder.splitOn '/' ++ [segment] := by
    apply take_of_length_le
    omega
  rw [map_singleton, htake, intercalate_append_of_ne_nil '/' (splitOn_ne_nil '/' folder) (by simp),
    intercalate_splitOn, intercalate_singleton]

lemma self_mem_pathPrefixes (path : List Char) : path ∈ pathPrefixes path := by
  rcases segment_or_below path with hpath | ⟨folder, segment, rfl, hseg⟩
  · rw [pathPrefixes_of_segment hpath]
    exact mem_singleton_self path
  · rw [pathPrefixes_below folder hseg]
    exact mem_append_right _ (mem_singleton_self _)

/-- What every path hands on to its folder, it hands on to all folders above it. -/
lemma forall_pathPrefixes {P : List Char → Prop}
    (hfolder : ∀ folder name, '/' ∉ name → P (folder ++ '/' :: name) → P folder) (h : P path) :
    ∀ above ∈ pathPrefixes path, P above := by
  induction path using path_induction with
  | segment name hname =>
    rw [pathPrefixes_of_segment hname, forall_mem_singleton]
    exact h
  | below folder name hname ih =>
    rw [pathPrefixes_below folder hname, forall_mem_append, forall_mem_singleton]
    exact ⟨ih (hfolder folder name hname h), h⟩

/-- The folders above a folder above a path are above the path. -/
lemma pathPrefixes_trans (h : folder ∈ pathPrefixes path) : pathPrefixes folder ⊆ pathPrefixes path := by
  refine forall_pathPrefixes (P := fun above => pathPrefixes above ⊆ pathPrefixes path) ?_
    (List.Subset.refl _) folder h
  intro above name hname hsub
  rw [pathPrefixes_below above hname] at hsub
  exact List.Subset.trans (subset_append_left _ _) hsub

end Paths

section Folding
variable {u : CaseFolding}

lemma foldPathCase_splitOn (hc : c ∈ ['/', ' ', '(', ')']) (text : List Char) :
    (foldPathCase u text).splitOn c = (text.splitOn c).map (foldPathCase u) := by
  have hnfc : (u.nfc text).splitOn c = (text.splitOn c).map u.nfc := by
    rcases mem_cons.mp hc with rfl | hc
    · exact u.nfc_segments text
    · exact u.nfc_pieces c hc text
  rw [foldPathCase, u.lower_pieces c hc, hnfc, map_map]
  rfl

/-- Folding keeps slashes, spaces and parentheses, and folds what is between them. -/
lemma foldPathCase_append (hc : c ∈ ['/', ' ', '(', ')']) (front rest : List Char) :
    foldPathCase u (front ++ c :: rest) = foldPathCase u front ++ c :: foldPathCase u rest := by
  apply splitOn_inj (c := c)
  rw [foldPathCase_splitOn hc, splitOn_append_cons_self, splitOn_append_cons_self, map_append,
    foldPathCase_splitOn hc, foldPathCase_splitOn hc]

lemma foldPathCase_ascii {text : List Char} (h : ∀ ch ∈ text, ch.toNat < 0x80) :
    foldPathCase u text = text.map Char.toLower := by
  rw [foldPathCase, u.nfc_ascii text h, u.lower_ascii text h]

@[simp] lemma foldPathCase_nil : foldPathCase u [] = [] := foldPathCase_ascii (forall_mem_nil _)

lemma foldPathCase_cons (hc : c ∈ ['/', ' ', '(', ')']) (rest : List Char) :
    foldPathCase u (c :: rest) = c :: foldPathCase u rest := by
  have happ := foldPathCase_append (u := u) hc [] rest
  rwa [nil_append, foldPathCase_nil, nil_append] at happ

lemma slash_notMem_foldPathCase {segment : List Char} (h : '/' ∉ segment) : '/' ∉ foldPathCase u segment := by
  have hsplit := foldPathCase_splitOn (u := u) (c := '/') mem_cons_self segment
  rw [splitOn_eq_singleton h, map_singleton] at hsplit
  intro hslash
  obtain ⟨front, rest, heq⟩ := append_of_mem hslash
  have hlen := congrArg length hsplit
  rw [heq, splitOn_append_cons_self, length_append, length_singleton] at hlen
  have hfront := length_pos_of_ne_nil (splitOn_ne_nil '/' front)
  have hrest := length_pos_of_ne_nil (splitOn_ne_nil '/' rest)
  omega

end Folding

section Reported
variable (u : CaseFolding)

/-- A path that a restricted platform can store next to the listed ones. -/
structure Portable (paths : List (List Char)) (path : List Char) : Prop where
  plain : ∀ segment ∈ path.splitOn '/', segmentHasReservedCharacters segment = false
  alone : ∀ folder ∈ pathPrefixes path, ∀ other ∈ paths, ∀ spelling ∈ pathPrefixes other,
    foldPathCase u spelling = foldPathCase u folder → spelling = folder

/-- A path of a report. -/
def Reported (files directories : List (List Char)) (path : List Char) : Prop :=
  path ∈ (findUnportablePaths u files directories).map UnportablePath.path

variable {u} {files directories paths : List (List Char)} {path : List Char}

lemma keys_setAll (kind : NodeKind) (paths : List (List Char)) (kinds : List (List Char × NodeKind)) :
    (paths.foldl (fun kinds path => InsertionOrder.set kinds path kind) kinds).map Prod.fst =
      addAll (kinds.map Prod.fst) paths := by
  induction paths generalizing kinds with
  | nil => rfl
  | cons path paths ih => rw [foldl_cons, ih, keys_set, addAll, addAll, foldl_cons]

lemma mem_kindsOf :
    path ∈ (kindsOf files directories).map Prod.fst ↔ path ≠ [] ∧ (path ∈ files ∨ path ∈ directories) := by
  simp only [kindsOf, keys_setAll, mem_addAll, List.map_nil, List.not_mem_nil, false_or, List.mem_filter,
    decide_eq_true_eq]
  rw [← or_and_right, and_comm, or_comm]

lemma mem_spellings {key : List Char} : path ∈ spellings u paths key ↔
    (∃ other ∈ paths, path ∈ pathPrefixes other) ∧ foldPathCase u path = key := by
  simp [spellings]

/-- A path is the only one of its folded form just when that has one spelling. -/
lemma length_spellings_le_one_iff (h : ∃ other ∈ paths, path ∈ pathPrefixes other) :
    (spellings u paths (foldPathCase u path)).length ≤ 1 ↔ ∀ other ∈ paths, ∀ spelling ∈ pathPrefixes other,
        foldPathCase u spelling = foldPathCase u path → spelling = path := by
  have hself : path ∈ spellings u paths (foldPathCase u path) := mem_spellings.mpr ⟨h, rfl⟩
  constructor
  · intro hlen other hother spelling hspel hkey
    have hmem : spelling ∈ spellings u paths (foldPathCase u path) :=
      mem_spellings.mpr ⟨⟨other, hother, hspel⟩, hkey⟩
    obtain ⟨only, honly⟩ : ∃ only, spellings u paths (foldPathCase u path) = [only] :=
      length_eq_one_iff.mp (le_antisymm hlen (length_pos_of_mem hself))
    rw [honly, mem_singleton] at hmem hself
    exact hmem.trans hself.symm
  · intro halone
    have hall : ∀ spelling ∈ spellings u paths (foldPathCase u path), spelling = path := by
      intro spelling hmem
      obtain ⟨⟨other, hother, hspel⟩, hkey⟩ := mem_spellings.mp hmem
      exact halone other hother spelling hspel hkey
    have hrepl := eq_replicate_of_mem hall
    have hnodup : (spellings u paths (foldPathCase u path)).Nodup := nodup_ofList _
    rw [hrepl] at hnodup
    exact nodup_replicate.mp hnodup

lemma unportableReasons_eq_nil_iff (h : path ∈ paths) :
    unportableReasons u paths path = [] ↔ Portable u paths path := by
  rw [unportableReasons, append_eq_nil_iff]
  constructor
  · rintro ⟨hplain, halone⟩
    constructor
    · intro segment hseg
      by_contra hresv
      rw [if_pos (any_eq_true.mpr ⟨segment, hseg, by simpa using hresv⟩)] at hplain
      cases hplain
    intro folder hdir
    apply (length_spellings_le_one_iff ⟨path, h, hdir⟩).mp
    by_contra hmany
    rw [if_pos (any_eq_true.mpr ⟨folder, hdir, by simpa using hmany⟩)] at halone
    cases halone
  · rintro ⟨hplain, halone⟩
    constructor
    · rw [if_neg]
      intro hany
      obtain ⟨segment, hseg, hresv⟩ := any_eq_true.mp hany
      rw [hplain segment hseg] at hresv
      cases hresv
    · rw [if_neg]
      intro hany
      obtain ⟨folder, hdir, hmany⟩ := any_eq_true.mp hany
      have hone := (length_spellings_le_one_iff ⟨path, h, hdir⟩).mpr (halone folder hdir)
      have hmore := of_decide_eq_true hmany
      omega

lemma Portable.congr {others : List (List Char)} (h : Portable u paths path)
    (hsub : ∀ other ∈ others, other ∈ paths) : Portable u others path :=
  ⟨h.plain, fun folder hdir other hother => h.alone folder hdir other (hsub other hother)⟩

/-- The listed paths that are not empty. -/
def listed (files directories : List (List Char)) : List (List Char) :=
  (files ++ directories).filter (· ≠ [])

lemma mem_listed : path ∈ listed files directories ↔ path ≠ [] ∧ (path ∈ files ∨ path ∈ directories) := by
  rw [listed, mem_filter, mem_append, decide_eq_true_eq, and_comm]

/-- Just the listed paths that are not portable are reported. -/
lemma reported_iff : Reported u files directories path ↔
    path ∈ listed files directories ∧ ¬ Portable u (listed files directories) path := by
  have hsame : ∀ other, other ∈ (kindsOf files directories).map Prod.fst ↔ other ∈ listed files directories :=
    fun other => mem_kindsOf.trans mem_listed.symm
  have hport : path ∈ (kindsOf files directories).map Prod.fst →
      (unportableReasons u ((kindsOf files directories).map Prod.fst) path = [] ↔
        Portable u (listed files directories) path) := by
    intro hmem
    rw [unportableReasons_eq_nil_iff hmem]
    exact ⟨fun h => h.congr fun other hother => (hsame other).mpr hother,
      fun h => h.congr fun other hother => (hsame other).mp hother⟩
  rw [Reported, findUnportablePaths]
  simp only [mem_map, mem_sortBy, mem_filter, Bool.not_eq_true', isEmpty_eq_false_iff]
  constructor
  · rintro ⟨entry, ⟨⟨e, he, rfl⟩, hreas⟩, rfl⟩
    have hmem : e.1 ∈ (kindsOf files directories).map Prod.fst := mem_map_of_mem he
    exact ⟨(hsame e.1).mp hmem, fun hp => hreas ((hport hmem).mpr hp)⟩
  rintro ⟨hlst, hnot⟩
  have hmem := (hsame path).mpr hlst
  obtain ⟨e, he, rfl⟩ := mem_map.mp hmem
  exact ⟨_, ⟨⟨e, he, rfl⟩, fun hnil => hnot ((hport hmem).mp hnil)⟩, rfl⟩

lemma findUnportablePaths_eq_nil_iff : findUnportablePaths u files directories = [] ↔
    ∀ path ∈ listed files directories, Portable u (listed files directories) path := by
  constructor
  · intro hnil path hpath
    by_contra hnot
    have hrep : Reported u files directories path := reported_iff.mpr ⟨hpath, hnot⟩
    rw [Reported, hnil] at hrep
    cases hrep
  · intro hall
    rw [eq_nil_iff_forall_not_mem]
    intro entry hentry
    have hrep : Reported u files directories entry.path := mem_map_of_mem hentry
    obtain ⟨hlst, hnot⟩ := reported_iff.mp hrep
    exact hnot (hall entry.path hlst)

end Reported

end PortableNames
