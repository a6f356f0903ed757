import Mathlib.Data.List.TakeWhile
import Obts.NameRepair

/-!
# Names that a repair gives

A sanitized segment has no slash and no reserved character, and a plain segment is its own. A suffix stands
within the last segment of a path, and different numbers give paths of different folded forms.
-/
namespace RepairedNames

open PathPolicy PortableNames NameRepair List

variable {c : Char}

section Sanitized
variable {segment text : List Char} {isFile isRoot after : Bool} {P : Char → Prop}

lemma mem_collapse (h : c ∈ collapse after text) : c = ' ' ∨ c ∈ text := by
  induction text generalizing after with
  | nil => cases h
  | cons d text ih =>
    rw [collapse] at h
    have hlater : ∀ after, c ∈ collapse after text → c = ' ' ∨ c ∈ d :: text :=
      fun after hc => (ih hc).imp_right (mem_cons_of_mem d)
    split at h
    · split at h
      · exact hlater true h
      rcases mem_cons.mp h with hc | hc
      · exact .inl hc
      · exact hlater true hc
    · rcases mem_cons.mp h with rfl | hc
      · exact .inr mem_cons_self
      · exact hlater false hc

lemma mem_of_mem_trim (h : c ∈ trim text) : c ∈ text := by
  have hrev := dropWhile_subset _ (mem_reverse.mp h)
  exact dropWhile_subset _ (mem_reverse.mp hrev)

/-- What holds of spaces and of what stands for the characters holds of the sanitized text. -/
lemma forall_sanitizeText (hspace : P ' ') (h : ∀ c ∈ text, ∀ d ∈ replacement c, P d) :
    ∀ d ∈ sanitizeText text, P d := by
  intro d hd
  rcases mem_collapse (mem_of_mem_trim hd) with rfl | hd
  · exact hspace
  · obtain ⟨c, hc, hdc⟩ := mem_flatMap.mp hd
    exact h c hc d hdc

lemma atLastDot_append (text : List Char) : (atLastDot text).1 ++ (atLastDot text).2 = text := by
  rw [atLastDot]
  split
  · exact take_append_drop _ text
  · exact append_nil text

/-- A sanitized segment is a sanitized text or a name of its own, with an extension of the segment. -/
lemma sanitizeSegment_cases (h : segmentHasReservedCharacters segment) (isFile isRoot : Bool) :
    ∃ front stem extension, front ++ extension = segment ∧ (extension = [] ∨ isExtension extension) ∧
      sanitizeSegment segment isFile isRoot = stem ++ extension ∧
      (stem = "Untitled".toList ∨ stem = sanitizeText front ∧ stem ∉ forbiddenResultSegments ∧
        ¬ (isRoot ∧ stem = ".obts".toList)) := by
  have hstem : ∀ front, ∃ stem, (if forbiddenResultSegments.contains (sanitizeText front)
        || (isRoot && sanitizeText front = ".obts".toList) then "Untitled".toList else sanitizeText front) = stem ∧
      (stem = "Untitled".toList ∨ stem = sanitizeText front ∧ stem ∉ forbiddenResultSegments ∧
        ¬ (isRoot = true ∧ stem = ".obts".toList)) := by
    intro front
    refine ⟨_, rfl, ?_⟩
    split
    · exact .inl rfl
    rename_i halw
    simp only [Bool.or_eq_true, contains_iff_mem, Bool.and_eq_true, decide_eq_true_eq, not_or] at halw
    exact .inr ⟨rfl, halw⟩
  rw [sanitizeSegment, h]
  by_cases hext : (isFile && isExtension (atLastDot segment).2) = true
  · obtain ⟨stem, hvalue, hcases⟩ := hstem (atLastDot segment).1
    refine ⟨_, stem, _, atLastDot_append segment, .inr (Bool.and_eq_true_iff.mp hext).2, ?_, hcases⟩
    simp only [hext, if_true, Bool.not_true, Bool.false_eq_true, if_false]
    rw [hvalue]
  · obtain ⟨stem, hvalue, hcases⟩ := hstem segment
    refine ⟨segment, stem, [], append_nil segment, .inl rfl, ?_, hcases⟩
    simp only [hext, Bool.not_true, Bool.false_eq_true, if_false]
    rw [hvalue]

lemma sanitizeSegment_of_plain (h : segmentHasReservedCharacters segment = false) :
    sanitizeSegment segment isFile isRoot = segment := by
  rw [sanitizeSegment, h]
  rfl

lemma isReserved_alphanumeric (h : isAlphanumeric c) : isReserved c = false := by
  simp only [isAlphanumeric, isAsciiLetter, Bool.or_eq_true, Bool.and_eq_true, decide_eq_true_eq] at h
  simp only [isReserved, isControl, Bool.or_eq_false_iff, contains_eq_mem, decide_eq_false_iff_not,
    mem_cons, not_mem_nil, or_false, not_or]
  have hcode : ∀ d : Char, c = d → c.toNat = d.toNat := fun d hd => congrArg Char.toNat hd
  refine ⟨⟨?_, ?_, ?_, ?_, ?_, ?_, ?_, ?_⟩, by omega, by omega⟩ <;>
    (intro hd; have hn := hcode _ hd; simp at hn; omega)

lemma plain_of_isExtension (h : isExtension text) : ∀ c ∈ text, c = '.' ∨ isAlphanumeric c := by
  rw [isExtension.eq_def] at h
  split at h
  · rename_i name
    simp only [Bool.and_eq_true, all_eq_true] at h
    intro c hc
    exact (mem_cons.mp hc).imp_right (h.2 c)
  · cases h

lemma plain_of_all (h : text.all (fun d => !isReserved d)) : ∀ d ∈ text, isReserved d = false := by
  intro d hd
  have hplain := all_eq_true.mp h d hd
  simpa using hplain

lemma isReserved_replacement (c : Char) : ∀ d ∈ replacement c, isReserved d = false := by
  rw [replacement]
  split
  · exact plain_of_all rfl
  rename_i hcolon
  split
  · exact plain_of_all rfl
  rename_i hquote
  split
  · exact plain_of_all rfl
  rename_i hback
  split
  · exact fun d hd => nomatch hd
  rename_i hrem
  intro d hd
  obtain rfl := mem_singleton.mp hd
  simp only [Bool.or_eq_true, decide_eq_true_eq, not_or, contains_eq_mem, mem_cons, not_mem_nil,
    or_false] at hcolon hrem
  simp [isReserved, hcolon, hquote, hback, hrem]

lemma slash_notMem_replacement (hc : c ≠ '/') : '/' ∉ replacement c := by
  rw [replacement]
  split
  · decide
  split
  · decide
  split
  · decide
  split
  · decide
  · rw [mem_singleton]
    exact hc.symm

/-- No sanitized segment has reserved characters. -/
lemma plain_sanitizeSegment (segment : List Char) (isFile isRoot : Bool) :
    segmentHasReservedCharacters (sanitizeSegment segment isFile isRoot) = false := by
  cases h : segmentHasReservedCharacters segment with
  | false => rwa [sanitizeSegment_of_plain h]
  | true =>
    obtain ⟨front, stem, extension, -, hext, hvalue, hstem⟩ := sanitizeSegment_cases h isFile isRoot
    rw [hvalue, segmentHasReservedCharacters, any_append, Bool.or_eq_false_iff, any_eq_false, any_eq_false]
    constructor
    · intro d hd
      rw [Bool.not_eq_true]
      rcases hstem with rfl | ⟨rfl, -⟩
      · have hunt : ∀ d ∈ "Untitled".toList, isReserved d = false := plain_of_all rfl
        exact hunt d hd
      · exact forall_sanitizeText (P := fun d => isReserved d = false) (by decide)
          (fun c _ => isReserved_replacement c) d hd
    · intro d hd
      rw [Bool.not_eq_true]
      rcases hext with rfl | hext
      · cases hd
      rcases plain_of_isExtension hext d hd with rfl | halpha
      · decide
      · exact isReserved_alphanumeric halpha

lemma slash_notMem_sanitizeSegment (h : '/' ∉ segment) (isFile isRoot : Bool) :
    '/' ∉ sanitizeSegment segment isFile isRoot := by
  cases hresv : segmentHasReservedCharacters segment with
  | false => rwa [sanitizeSegment_of_plain hresv]
  | true =>
    obtain ⟨front, stem, extension, rfl, -, hvalue, hstem⟩ := sanitizeSegment_cases hresv isFile isRoot
    rw [mem_append, not_or] at h
    rw [hvalue, mem_append, not_or]
    refine ⟨?_, h.2⟩
    rcases hstem with rfl | ⟨rfl, -⟩
    · decide
    have hall : ∀ d ∈ sanitizeText front, d ≠ '/' := by
      apply forall_sanitizeText (P := fun d => d ≠ '/') (by decide)
      rintro c hc d hd rfl
      exact slash_notMem_replacement (fun hslash => h.1 (hslash ▸ hc)) hd
    exact fun hslash => hall '/' hslash rfl

lemma sanitizeSegment_ne_nil (h : segment ≠ []) (isFile isRoot : Bool) :
    sanitizeSegment segment isFile isRoot ≠ [] := by
  cases hresv : segmentHasReservedCharacters segment with
  | false => rwa [sanitizeSegment_of_plain hresv]
  | true =>
    obtain ⟨front, stem, extension, -, -, hvalue, hstem⟩ := sanitizeSegment_cases hresv isFile isRoot
    rw [hvalue]
    intro hnil
    obtain ⟨rfl, -⟩ := append_eq_nil_iff.mp hnil
    rcases hstem with hstem | ⟨-, hforb, -⟩
    · cases hstem
    · exact hforb mem_cons_self

end Sanitized

section Paths
variable {path folder name : List Char}

lemma dropWhile_slash_reverse (hname : '/' ∉ name) (hne : name ≠ []) (front : List Char) :
    (front ++ name).reverse.dropWhile (· = '/') = name.reverse ++ front.reverse := by
  rw [reverse_append]
  cases hlast : name.reverse with
  | nil => exact absurd (reverse_eq_nil_iff.mp hlast) hne
  | cons c rest =>
    have hc : c ≠ '/' := by
      rintro rfl
      exact hname (mem_reverse.mp (hlast ▸ mem_cons_self))
    rw [cons_append, dropWhile_cons_of_neg (by simpa using hc)]

lemma forall_ne_slash (hname : '/' ∉ name) : ∀ c ∈ name.reverse, (decide (c ≠ '/')) := by
  intro c hc
  apply decide_eq_true
  rintro rfl
  exact hname (mem_reverse.mp hc)

lemma slash_notMem_basename (path : List Char) : '/' ∉ basename path := by
  intro h
  rw [basename, mem_reverse] at h
  have htest := mem_takeWhile_imp h
  simp at htest

lemma basename_of_segment (h : '/' ∉ name) : basename name = name := by
  by_cases hne : name = []
  · subst hne
    rfl
  have hdrop := dropWhile_slash_reverse h hne []
  rw [nil_append, reverse_nil, append_nil] at hdrop
  rw [basename, hdrop, takeWhile_eq_self_iff.mpr (forall_ne_slash h), reverse_reverse]

lemma dirname_of_segment (h : '/' ∉ name) : dirname name = ['.'] := by
  have hhead : name.head? ≠ some '/' := fun hhead => h (mem_of_mem_head? hhead)
  have hnil : (name.reverse.dropWhile (· = '/')).dropWhile (· ≠ '/') = [] := by
    rw [dropWhile_eq_nil_iff]
    intro c hc
    apply decide_eq_true
    rintro rfl
    exact h (mem_reverse.mp (dropWhile_subset _ hc))
  rw [dirname, hnil]
  exact if_neg hhead

lemma basename_below (folder : List Char) (hname : '/' ∉ name) (hne : name ≠ []) :
    basename (folder ++ '/' :: name) = name := by
  have hassoc : folder ++ '/' :: name = (folder ++ ['/']) ++ name := by simp
  rw [basename, hassoc, dropWhile_slash_reverse hname hne, reverse_append,
    takeWhile_append_of_pos (forall_ne_slash hname)]
  simp

lemma dirname_below (hname : '/' ∉ name) (hne : name ≠ []) (hdir : folder ≠ []) (hroot : folder ≠ ['/']) :
    dirname (folder ++ '/' :: name) = folder := by
  have hassoc : folder ++ '/' :: name = (folder ++ ['/']) ++ name := by simp
  have hdrop : ((folder ++ '/' :: name).reverse.dropWhile (· = '/')).dropWhile (· ≠ '/') = '/' :: folder.reverse := by
    rw [hassoc, dropWhile_slash_reverse hname hne, reverse_append, dropWhile_append_of_pos (forall_ne_slash hname)]
    simp
  rw [dirname, hdrop]
  cases hrev : folder.reverse with
  | nil => exact absurd (reverse_eq_nil_iff.mp hrev) hdir
  | cons c front =>
    have hnot : ¬ ((folder ++ '/' :: name).head? = some '/' && (c :: front).length = 1) = true := by
      intro h
      rw [Bool.and_eq_true, decide_eq_true_eq, decide_eq_true_eq, ← hrev, length_reverse, length_eq_one_iff] at h
      obtain ⟨hhead, only, rfl⟩ := h
      obtain rfl : only = '/' := Option.some.inj hhead
      exact hroot rfl
    dsimp only
    rw [if_neg hnot, ← hrev, reverse_reverse]

/-- A path without a name consists of slashes. -/
lemma dirname_of_basename_nil (h : basename path = []) : dirname path = ['.'] ∧ path = [] ∨ dirname path = ['/'] := by
  have hslas : path.reverse.dropWhile (· = '/') = [] := by
    rw [basename, reverse_eq_nil_iff] at h
    cases hdrop : path.reverse.dropWhile (· = '/') with
    | nil => rfl
    | cons c rest =>
      have hc : ¬ c = '/' := by
        have htest := List.head?_dropWhile_not (fun c => decide (c = '/')) path.reverse
        rw [hdrop] at htest
        simpa using htest
      rw [hdrop, takeWhile_cons_of_pos (by simpa using hc)] at h
      cases h
  rw [dirname, hslas]
  cases path with
  | nil => exact .inl ⟨rfl, rfl⟩
  | cons c path =>
    right
    have hc : c = '/' := by
      have htest := dropWhile_eq_nil_iff.mp hslas c (mem_reverse.mpr mem_cons_self)
      exact of_decide_eq_true htest
    subst hc
    rfl

end Paths

section Suffixes
variable {u : CaseFolding} {folder name path : List Char} {n : Nat}

/-- A name with a number. -/
def numbered (name : List Char) (attempt : Nat) : List Char :=
  (atLastDot name).1 ++ suffix attempt ++ (atLastDot name).2

lemma toDigits_ne_slash (h : c ∈ Nat.toDigits 10 n) : c.isDigit :=
  Nat.isDigit_of_mem_toDigits (by decide) (by decide) h

lemma mem_numbered (h : c ∈ numbered name n) : c ∈ name ∨ c = ' ' ∨ c = '(' ∨ c = ')' ∨ c.isDigit := by
  rw [numbered, append_assoc, mem_append, mem_append] at h
  have hparts := atLastDot_append name
  rcases h with h | h | h
  · exact .inl (hparts ▸ mem_append_left _ h)
  · simp only [suffix, cons_append, mem_cons, mem_append, not_mem_nil, or_false] at h
    rcases h with h | h | h | h
    · exact .inr (.inl h)
    · exact .inr (.inr (.inl h))
    · exact .inr (.inr (.inr (.inr (toDigits_ne_slash h))))
    · exact .inr (.inr (.inr (.inl h)))
  · exact .inl (hparts ▸ mem_append_right _ h)

lemma slash_notMem_numbered (h : '/' ∉ name) (n : Nat) : '/' ∉ numbered name n := by
  intro hslash
  rcases mem_numbered hslash with hname | hc | hc | hc | hc
  · exact h hname
  · cases hc
  · cases hc
  · cases hc
  · cases hc

lemma numbered_ne_nil (name : List Char) (n : Nat) : numbered name n ≠ [] := by
  simp [numbered, suffix]

lemma withSuffix_of_segment (h : '/' ∉ name) (n : Nat) : withSuffix name n = numbered name n := by
  rw [withSuffix, dirname_of_segment h, basename_of_segment h]
  rfl

lemma withSuffix_below (hname : '/' ∉ name) (hne : name ≠ []) (hdir : folder ≠ []) (hroot : folder ≠ ['/'])
    (n : Nat) : withSuffix (folder ++ '/' :: name) n
      = if folder = ['.'] then numbered name n else folder ++ '/' :: numbered name n := by
  rw [withSuffix, dirname_below hname hne hdir hroot, basename_below folder hname hne]
  rfl

lemma exists_withSuffix (path : List Char) : ∃ front rest, ∀ n, withSuffix path n
    = front ++ ' ' :: '(' :: (Nat.toDigits 10 n ++ ')' :: rest) := by
  by_cases hdir : dirname path = ['.']
  · refine ⟨(atLastDot (basename path)).1, (atLastDot (basename path)).2, fun n => ?_⟩
    simp [withSuffix, suffix, hdir]
  · refine ⟨dirname path ++ '/' :: (atLastDot (basename path)).1, (atLastDot (basename path)).2, fun n => ?_⟩
    simp [withSuffix, suffix, hdir]

lemma foldPathCase_toDigits (n : Nat) : foldPathCase u (Nat.toDigits 10 n) = Nat.toDigits 10 n := by
  have hdigit : ∀ c ∈ Nat.toDigits 10 n, c.toNat < 0x80 ∧ c.toLower = c := by
    intro c hc
    have hdigit := toDigits_ne_slash hc
    simp only [Char.isDigit, Bool.and_eq_true, decide_eq_true_eq, ge_iff_le, UInt32.le_iff_toNat_le] at hdigit
    constructor
    · have hcode : c.toNat = c.val.toNat := rfl
      simp at hdigit
      omega
    delta Char.toLower
    rw [dif_neg]
    simp only [ge_iff_le, UInt32.le_iff_toNat_le]
    simp at hdigit ⊢
    omega
  rw [foldPathCase_ascii fun c hc => (hdigit c hc).1, map_congr_left fun c hc => (hdigit c hc).2]
  exact map_id _

/-- Different numbers give different targets, also when letter case does not count. -/
lemma foldPathCase_withSuffix_inj (path : List Char) {m : Nat}
    (h : foldPathCase u (withSuffix path n) = foldPathCase u (withSuffix path m)) : n = m := by
  obtain ⟨front, rest, hparts⟩ := exists_withSuffix path
  have hfold : ∀ n, foldPathCase u (withSuffix path n)
      = foldPathCase u front ++ ' ' :: '(' :: (Nat.toDigits 10 n ++ ')' :: foldPathCase u rest) := by
    intro n
    rw [hparts, foldPathCase_append (by decide), foldPathCase_cons (by decide), foldPathCase_append (by decide),
      foldPathCase_toDigits]
  rw [hfold, hfold] at h
  have htail := (List.cons.inj (List.cons.inj (append_cancel_left h)).2).2
  have hdig : Nat.toDigits 10 n = Nat.toDigits 10 m := append_cancel_right htail
  rw [← Nat.ofDigitChars_ten_toDigits (n := n), hdig, Nat.ofDigitChars_ten_toDigits]

/-- The loop over the targets ends, whatever is taken. -/
lemma exists_searchTarget (taken : List (List Char)) (candidate : List Char) :
    ∃ target, searchTarget u taken candidate (taken.length + 2) = some target := by
  rw [searchTarget, FreshNames.search]
  split
  · apply FreshNames.exists_search
    · rintro (_ | i) (_ | j) hi hj hkey
      · rfl
      · omega
      · omega
      · have hindex := foldPathCase_withSuffix_inj candidate hkey
        omega
    · omega
  · exact ⟨_, rfl⟩

/-- A target is not taken, and is the candidate with or without a number. -/
lemma freeTarget_spec (taken : List (List Char)) (candidate : List Char) :
    foldPathCase u (freeTarget u taken candidate) ∉ taken ∧
      (freeTarget u taken candidate = candidate ∨ ∃ n, freeTarget u taken candidate = withSuffix candidate n) := by
  obtain ⟨target, htgt⟩ := exists_searchTarget (u := u) taken candidate
  obtain ⟨m, -, rfl, hfree, -⟩ := FreshNames.exists_of_search htgt
  rw [freeTarget, htgt, Option.getD_some]
  refine ⟨hfree, ?_⟩
  cases m with
  | zero => exact .inl rfl
  | succ m => exact .inr ⟨m + 2, rfl⟩

end Suffixes

end RepairedNames
