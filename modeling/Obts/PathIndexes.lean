import Mathlib.Data.List.Induction
import Mathlib.Data.List.TakeWhile
import Obts.GitTrees

/-!
# The path index

Entries below a path are found by a binary search among the sorted paths, entries at or above it by
a walk up its ancestors.
-/
namespace PathIndexes

open SlashPath InsertionOrder List
open FileTrees (Nested)
open GitTrees (changedPathsConflict changedPathsConflict_iff)

section Search

/-- A binary search for the first place at which a test fails. -/
def search (test : Nat → Bool) (lo hi : Nat) : Nat :=
  if lo < hi then
    let mid := (lo + hi) / 2
    if test mid then search test (mid + 1) hi else search test lo mid
  else lo
termination_by hi - lo

lemma search_spec {test : Nat → Bool} (hdown : ∀ i j, i ≤ j → test j → test i)
    {lo hi : Nat} (hlo : ∀ i < lo, test i) (hhi : ∀ i, hi ≤ i → test i = false) (i : Nat) :
    test i ↔ i < search test lo hi := by
  induction lo, hi using search.induct test with
  | case1 lo hi hlt mid htest ih =>
    rw [search, if_pos hlt, if_pos htest]
    exact ih (fun j hj => hdown j mid (Nat.le_of_lt_succ hj) htest) hhi
  | case2 lo hi hlt mid htest ih =>
    rw [search, if_pos hlt, if_neg htest]
    refine ih hlo fun j hj => ?_
    by_contra hj'
    exact htest (hdown mid j hj (Bool.not_eq_false _ ▸ hj'))
  | case3 lo hi hle =>
    rw [search, if_neg hle]
    refine ⟨fun h => ?_, hlo i⟩
    by_contra hi'
    rw [hhi i (by omega)] at h
    cases h

lemma drop_of_iff {β : Type*} {less : β → Bool} {keys : List β} {r : Nat}
    (h : ∀ i, keys[i]?.any less ↔ i < r) : keys.drop r = keys.filter (!less ·) := by
  induction keys generalizing r with
  | nil => rw [drop_nil, filter_nil]
  | cons key keys ih =>
    cases r with
    | zero =>
      rw [drop_zero]
      refine (filter_eq_self.mpr fun other hother => ?_).symm
      obtain ⟨i, hi⟩ := mem_iff_getElem?.mp hother
      have hless := h i
      simp only [hi, Option.any_some, Nat.not_lt_zero, iff_false, Bool.not_eq_true] at hless
      rw [hless, Bool.not_false]
    | succ r =>
      have hless : less key = true := (h 0).mpr r.succ_pos
      rw [drop_succ_cons, filter_cons_of_neg (by simp [hless])]
      exact ih fun i => by simpa using h (i + 1)

/-- In a sorted list the search splits off what is less. -/
lemma drop_search {β : Type*} {less : β → Bool} {keys : List β} (hkeys : keys.Pairwise fun a b => less b → less a) :
    keys.drop (search (fun i => keys[i]?.any less) 0 keys.length) = keys.filter (!less ·) := by
  refine drop_of_iff (search_spec (fun i j hij htest => ?_) (fun i hi => absurd hi i.not_lt_zero)
    fun i hi => by rw [getElem?_eq_none hi, Option.any_none])
  obtain ⟨b, hb, hless⟩ := (Option.any_eq_true _ _).mp htest
  rcases hij.lt_or_eq with hlt | rfl
  · obtain ⟨hj, rfl⟩ := List.getElem?_eq_some_iff.mp hb
    rw [getElem?_eq_getElem (hlt.trans hj), Option.any_some]
    exact pairwise_iff_getElem.mp hkeys i j (hlt.trans hj) hj hlt hless
  · exact htest

lemma takeWhile_eq_filter {β : Type*} {p : β → Bool} {l : List β}
    (h : l.Pairwise fun a b => p b → p a) : l.takeWhile p = l.filter p := by
  induction l with
  | nil => rfl
  | cons a l ih =>
    obtain ⟨ha, hl⟩ := pairwise_cons.mp h
    cases hp : p a with
    | true => rw [takeWhile_cons_of_pos hp, filter_cons_of_pos hp, ih hl]
    | false =>
      have hfalse : ¬ p a = true := by simp [hp]
      rw [takeWhile_cons_of_neg hfalse, filter_cons_of_neg hfalse]
      exact (filter_eq_nil_iff.mpr fun b hb hpb => hfalse (ha b hb hpb)).symm

/-- What stands between a text and one that it begins begins with it. -/
lemma isPrefix_of_between {units key rest : List Nat} (hge : compare key units ≠ .lt)
    (hle : (compare key (units ++ rest)).isLE) : units <+: key := by
  induction units generalizing key with
  | nil => exact nil_prefix
  | cons x units ih =>
    cases key with
    | nil => exact absurd rfl hge
    | cons y key =>
      rw [List.compare_cons_cons] at hge
      rw [cons_append, List.compare_cons_cons] at hle
      cases hxy : compare y x with
      | lt => exact absurd (by rw [hxy]; rfl) hge
      | gt =>
        rw [hxy] at hle
        cases hle
      | eq =>
        rw [hxy] at hge hle
        rw [Nat.compare_eq_eq.mp hxy]
        exact (prefix_cons_inj x).mpr (ih hge hle)

lemma compare_ne_lt {units key : List Nat} (h : units <+: key) : compare key units ≠ .lt := by
  obtain ⟨rest, rfl⟩ := h
  induction units with
  | nil => cases rest <;> exact nofun
  | cons x units ih =>
    rw [cons_append, List.compare_cons_cons, Nat.compare_eq_eq.mpr rfl]
    exact ih

end Search

variable {α : Type*}

/-- The values of each path, in the order of the entries. -/
def byPath (entries : List (Path × α)) : List (Path × List α) :=
  entries.foldl (fun byPath e =>
    InsertionOrder.set byPath e.1 ((valueAt byPath e.1).getD [] ++ [e.2])) []

variable (entries : List (Path × α)) (p : Path)

def valuesOf : List α :=
  (valueAt (byPath entries) p).getD []

def keysOf : List Path := sort ((byPath entries).map Prod.fst)

def prefixUnits : List Nat := p.withSlash.flatMap utf16

def descendants : List (Path × α) :=
  let keys := keysOf entries
  let lo := search (fun mid => keys[mid]?.any fun key => compare key.codeUnits (prefixUnits p) = .lt)
    0 keys.length
  ((keys.drop lo).takeWhile (·.startsWithDir p)).flatMap fun key =>
    (valuesOf entries key).map fun v => (key, v)

/-- The text before the last slash. -/
def parent (text : List Char) : List Char := ((text.reverse.dropWhile (· ≠ '/')).drop 1).reverse

lemma length_parent_lt {text : List Char} (h : text ≠ []) : (parent text).length < text.length := by
  have hdrop := (text.reverse.dropWhile_sublist (· ≠ '/')).length_le
  have hpos := length_pos_of_ne_nil h
  simp only [parent, length_reverse, length_drop] at hdrop ⊢
  omega

/-- The walk from a text up to the last ancestor that is not empty. -/
def ancestors (text : List Char) : List (List Char) :=
  if text = [] then [] else text :: ancestors (parent text)
termination_by text.length
decreasing_by exact length_parent_lt ‹_›

def overlap : List α :=
  (descendants entries p).map Prod.snd ++
    (ancestors p.text.toList).flatMap fun ancestor => valuesOf entries ⟨String.ofList ancestor⟩

variable {entries : List (Path × α)} {p q : Path} {text : List Char}

section
variable (entries : List (Path × α))

lemma byPath_spec : ((byPath entries).map Prod.fst).Nodup ∧
    (∀ q, q ∈ (byPath entries).map Prod.fst ↔ q ∈ entries.map Prod.fst) ∧
    ∀ q, valuesOf entries q = (entries.filter (·.1 = q)).map Prod.snd := by
  induction entries using reverseRecOn with
  | nil => exact ⟨nodup_nil, fun q => Iff.rfl, fun q => rfl⟩
  | append_singleton entries e ih =>
    obtain ⟨hnodup, hkeys, hvals⟩ := ih
    have hbyP : byPath (entries ++ [e])
        = InsertionOrder.set (byPath entries) e.1 (valuesOf entries e.1 ++ [e.2]) := foldl_concat ..
    refine ⟨hbyP ▸ nodup_keys_set hnodup _ _, fun q => ?_, fun q => ?_⟩
    · rw [hbyP, keys_set, mem_add, hkeys, map_append, map_singleton, mem_append, mem_singleton]
    rw [valuesOf, hbyP, filter_append, map_append, ← hvals]
    by_cases hq : q = e.1
    · subst hq
      simp
    · rw [valueAt_set_of_ne _ _ hq, filter_singleton]
      simp [Ne.symm hq, valuesOf]

lemma sorted_keysOf : (keysOf entries).Pairwise fun a b => (compare a.codeUnits b.codeUnits).isLE :=
  pairwise_sortBy (compareOn Path.codeUnits) _

lemma nodup_keysOf : (keysOf entries).Nodup :=
  (sortBy_perm _ _).nodup_iff.mpr (byPath_spec entries).1

end

lemma mem_keysOf : q ∈ keysOf entries ↔ q ∈ entries.map Prod.fst :=
  mem_sort.trans ((byPath_spec entries).2.1 q)

lemma entries_of (entries : List (Path × α)) (q : Path) :
    (valuesOf entries q).map (fun v => (q, v)) = entries.filter (·.1 = q) := by
  rw [(byPath_spec entries).2.2, map_map]
  refine (map_congr_left fun e he => ?_).trans (map_id _)
  exact Prod.ext (of_decide_eq_true (mem_filter.mp he).2).symm rfl

lemma lt_iff_units : p < q ↔ prefixUnits p <+: q.codeUnits := by
  rw [Path.lt_iff]
  refine ⟨fun ⟨rest, hrest⟩ => ⟨rest.flatMap utf16, ?_⟩, prefix_of_flatMap_utf16⟩
  rw [prefixUnits, ← flatMap_append, hrest, Path.codeUnits]

/-- The keys below a path are one run of the sorted keys. -/
lemma descendants_eq (entries : List (Path × α)) (p : Path) : descendants entries p
    = ((keysOf entries).filter (p < ·)).flatMap fun q => entries.filter (·.1 = q) := by
  have hsort := sorted_keysOf entries
  have hdrop := @drop_search _ (fun key : Path => compare key.codeUnits (prefixUnits p) = .lt) _
    (hsort.imp fun {a b} hab hb => by
      rw [decide_eq_true_eq] at hb ⊢
      exact Std.TransCmp.lt_of_isLE_of_lt hab hb)
  have hrun : ((keysOf entries).filter fun key =>
      !decide (compare key.codeUnits (prefixUnits p) = .lt)).Pairwise
      fun a b => b.startsWithDir p = true → a.startsWithDir p = true := by
    refine pairwise_filter.mpr (hsort.imp fun {a b} hab ha _ hb => ?_)
    rw [Path.startsWithDir_iff_lt, lt_iff_units] at hb ⊢
    obtain ⟨rest, hrest⟩ := hb
    exact isPrefix_of_between (by simpa using ha) (hrest ▸ hab)
  have hkeys : ∀ key ∈ keysOf entries, (key.startsWithDir p &&
      !decide (compare key.codeUnits (prefixUnits p) = .lt)) = decide (p < key) := by
    intro key _
    rw [Bool.eq_iff_iff]
    simp only [Bool.and_eq_true, Bool.not_eq_true', decide_eq_false_iff_not, decide_eq_true_eq,
      Path.startsWithDir_iff_lt, and_iff_left_iff_imp, lt_iff_units]
    exact compare_ne_lt
  simp [descendants, hdrop, takeWhile_eq_filter hrun, filter_congr hkeys, entries_of]

lemma parent_spec (text : List Char) : '/' ∉ text ∧ parent text = [] ∨
    ∃ name, '/' ∉ name ∧ text = parent text ++ '/' :: name := by
  have hsplit := takeWhile_append_dropWhile (p := (· ≠ '/')) (l := text.reverse)
  set name := text.reverse.takeWhile (· ≠ '/') with hname
  have hplain : '/' ∉ name := fun hmem => by simpa using mem_takeWhile_imp hmem
  cases hdrop : text.reverse.dropWhile (· ≠ '/') with
  | nil =>
    rw [hdrop, append_nil] at hsplit
    exact .inl ⟨by rwa [hsplit, mem_reverse] at hplain, by rw [parent, hdrop]; rfl⟩
  | cons slash above =>
    obtain rfl : slash = '/' := by
      have hhead := head?_dropWhile_not (· ≠ '/') text.reverse
      rw [hdrop] at hhead
      simpa using hhead
    refine .inr ⟨name.reverse, by rwa [mem_reverse], ?_⟩
    rw [parent, hdrop, ← reverse_reverse text, ← hsplit, hdrop]
    simp

lemma prefix_parent {q : List Char} (text : List Char) (hq : q ≠ []) :
    q ++ ['/'] <+: text ↔ q = parent text ∨ q ++ ['/'] <+: parent text := by
  rcases parent_spec text with ⟨hplain, hnil⟩ | ⟨name, hname, htext⟩
  · rw [hnil]
    constructor
    · intro h
      exact absurd (h.subset (mem_append_right _ (mem_singleton_self _))) hplain
    rintro (h | h)
    · exact absurd h hq
    · simp at h
  · rw [← singleton_append, ← append_assoc] at htext
    generalize parent text = above at htext ⊢
    subst htext
    have habove : above ++ ['/'] <+: above ++ ['/'] ++ name := prefix_append _ _
    constructor
    · intro h
      rcases prefix_or_prefix_of_prefix h habove with hpre | hpre
      · exact (prefix_concat_iff.mp hpre).imp_left append_cancel_right
      rcases prefix_concat_iff.mp hpre with heq | ⟨rest, rfl⟩
      · exact .inl (append_cancel_right heq).symm
      rw [append_assoc (above ++ ['/'])] at h
      have hrest := (prefix_append_right_inj _).mp h
      exact absurd (hrest.subset (mem_append_right _ (mem_singleton_self _))) hname
    · rintro (rfl | h)
      · exact habove
      · exact h.trans ((prefix_append _ _).trans habove)

lemma mem_ancestors {q : List Char} : q ∈ ancestors text ↔ q ≠ [] ∧ (q = text ∨ q ++ ['/'] <+: text) := by
  induction text using ancestors.induct with
  | case1 => simp [ancestors]
  | case2 text htext ih =>
    rw [ancestors, if_neg htext, mem_cons, ih]
    by_cases hq : q = []
    · simp [hq, Ne.symm htext]
    · simp [hq, prefix_parent text hq]

lemma nodup_ancestors (text : List Char) : (ancestors text).Nodup := by
  induction text using ancestors.induct with
  | case1 => simp [ancestors]
  | case2 text htext ih =>
    rw [ancestors, if_neg htext]
    refine nodup_cons.mpr ⟨fun hmem => ?_, ih⟩
    have hlt := length_parent_lt htext
    rcases (mem_ancestors.mp hmem).2 with heq | hpre
    · rw [← heq] at hlt
      exact lt_irrefl _ hlt
    have hle := hpre.length_le
    rw [length_append] at hle
    omega

lemma perm_flatMap_filter {ks : List Path} (hks : ks.Nodup) (entries : List (Path × α)) :
    (ks.flatMap fun k => entries.filter (·.1 = k)).Perm (entries.filter (·.1 ∈ ks)) := by
  induction ks with
  | nil => simp
  | cons k ks ih =>
    obtain ⟨hk, hks⟩ := nodup_cons.mp hks
    rw [flatMap_cons]
    refine ((ih hks).append_left _).trans ?_
    have hsplit := filter_append_perm (·.1 = k) (entries.filter (·.1 ∈ k :: ks))
    rw [filter_filter, filter_filter] at hsplit
    convert hsplit using 2
    · refine filter_congr fun e _ => ?_
      simp +contextual
    refine filter_congr fun e _ => ?_
    rw [Bool.eq_iff_iff]
    simp only [mem_cons, Bool.and_eq_true, Bool.not_eq_true', decide_eq_true_eq, decide_eq_false_iff_not]
    refine ⟨fun he => ⟨?_, .inr he⟩, fun he => he.2.resolve_left he.1⟩
    rintro rfl
    exact hk he

def ancestorPaths (p : Path) : List Path :=
  (ancestors p.text.toList).map fun ancestor => ⟨String.ofList ancestor⟩

lemma mem_ancestorPaths : q ∈ ancestorPaths p ↔ q.text ≠ "" ∧ q ≤ p := by
  have htext : q ∈ ancestorPaths p ↔ q.text.toList ∈ ancestors p.text.toList := by
    constructor
    · intro hmem
      obtain ⟨ancestor, hanc, rfl⟩ := mem_map.mp hmem
      simpa using hanc
    · intro hmem
      exact mem_map.mpr ⟨_, hmem, SlashPath.Path.ext (String.ofList_toList)⟩
  rw [htext, mem_ancestors, Path.le_iff, SlashPath.Path.ext_iff, eq_comm (a := p.text), String.toList_inj]
  refine and_congr_left' (not_congr ⟨fun h => ?_, fun h => by rw [h]; rfl⟩)
  exact String.toList_injective h

lemma nodup_ancestorPaths (p : Path) : (ancestorPaths p).Nodup := by
  refine (nodup_ancestors _).map fun a b hab => ?_
  have hchars := congrArg (fun q : Path => q.text.toList) hab
  simpa using hchars

/-- What overlaps a path has the path of an ancestor or one below it. -/
theorem indexPaths_agrees (entries : List (Path × α)) (hentries : ∀ e ∈ entries, e.1.text ≠ "") (p : Path) :
    (overlap entries p).Perm ((entries.filter fun e => changedPathsConflict p e.1).map Prod.snd) ∧
    (descendants entries p).Perm (entries.filter fun e => p < e.1) ∧
    (descendants entries p).Pairwise fun e e' => (compare e.1.codeUnits e'.1.codeUnits).isLE = true := by
  have hbelow : ((keysOf entries).filter (p < ·)).Nodup := (nodup_keysOf entries).filter _
  have hkeys : ∀ e ∈ entries, e.1 ∈ keysOf entries := fun e he => mem_keysOf.mpr (mem_map_of_mem he)
  refine ⟨?_, ?_, ?_⟩
  · have hnodup : ((keysOf entries).filter (p < ·) ++ ancestorPaths p).Nodup := by
      refine nodup_append.mpr ⟨hbelow, nodup_ancestorPaths p, ?_⟩
      rintro q hq _ hq' rfl
      exact lt_irrefl p ((of_decide_eq_true (mem_filter.mp hq).2).trans_le (mem_ancestorPaths.mp hq').2)
    have hover : overlap entries p = (((keysOf entries).filter (p < ·) ++ ancestorPaths p).flatMap
        fun q => entries.filter (·.1 = q)).map Prod.snd := by
      rw [overlap, descendants_eq, flatMap_append, map_append, map_flatMap (l := ancestorPaths p),
        ancestorPaths, flatMap_map]
      simp [(byPath_spec entries).2.2]
    rw [hover]
    refine ((perm_flatMap_filter hnodup entries).trans (Perm.of_eq (filter_congr fun e he => ?_))).map _
    rw [Bool.eq_iff_iff, decide_eq_true_eq, changedPathsConflict_iff, mem_append, mem_filter,
      mem_ancestorPaths, decide_eq_true_eq, le_iff_eq_or_lt, eq_comm (a := e.1), Nested]
    simp only [hkeys e he, hentries e he, ne_eq, not_false_eq_true, true_and]
    tauto
  · rw [descendants_eq]
    refine (perm_flatMap_filter hbelow entries).trans (Perm.of_eq (filter_congr fun e he => ?_))
    simp [hkeys e he]
  · rw [descendants_eq, pairwise_flatMap]
    have hequal : ∀ q : Path, ∀ e ∈ entries.filter (·.1 = q), e.1 = q :=
      fun q e he => of_decide_eq_true (mem_filter.mp he).2
    refine ⟨fun q _ => pairwise_of_forall_mem_list fun e he e' he' => ?_,
      ((sorted_keysOf entries).filter _).imp fun {q q'} hle e he e' he' => ?_⟩
    · rw [hequal q e he, hequal q e' he']
      exact Std.ReflCmp.isLE_rfl
    · rwa [hequal q e he, hequal q' e' he']

theorem overlap_between_names :
    (overlap [(⟨"a"⟩, 1), (⟨"a-b"⟩, 2), (⟨"a/b/c"⟩, 3), (⟨"a"⟩, 4)] ⟨"a/b"⟩).Perm [1, 3, 4] :=
  (indexPaths_agrees _ (by decide) _).1.trans (Perm.of_eq (by decide +kernel))

end PathIndexes
